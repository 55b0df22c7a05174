/-
Targets and listings.

Some calls ask for a single document, of a uid if they name one, and some for a listing.
A query asks for what the last of these calls asked for.  Its uid, though, is the one
that was named last: a call that asks for a listing leaves it in place.

* `target_of_apply`, `target_of_applyAll` — what calls do to the uid and the arity;
* `matching_normalize_uid` — of what a query would select without its uid, it selects
  the documents of that uid, be it for a single document or for a listing;
* `target_of_calls` — so a listing is narrowed to a uid that was named before it.
-/
import ContentQuery.Pattern.Reading
import ContentQuery.Proofs.Calls
import ContentQuery.Proofs.Scope
import ContentQuery.Query.Terminal

namespace ContentQuery

/-- The uid that a call names. -/
def Call.uid? : Call → Option String
  | .asset uid | .schema uid | .entry uid => uid
  | _ => none

/-- Whether a call asks for a single document, if it asks for that or for a listing. -/
def Call.single? : Call → Option Bool
  | .asset _ | .schema _ | .entry _ => some true
  | .assets | .schemas | .entries => some false
  | _ => none

/-- Who names a uid asks for a single document. -/
theorem Call.single?_of_uid? {c : Call} (h : c.uid?.isSome) : c.single? = some true := by
  cases c <;> first | rfl | cases h

/-- Of what is put in place step by step, the last stays. -/
theorem getLast?_filterMap_cons {α β : Type} (f : α → Option β) (a : α) (rest : List α)
    (before : Option β) :
    ((a :: rest).filterMap f).getLast?.or before =
      (rest.filterMap f).getLast?.or ((f a).or before) := by
  cases ha : f a with
  | none => rw [List.filterMap_cons_none ha, Option.none_or]
  | some b =>
    rw [List.filterMap_cons_some ha, List.getLast?_cons]
    cases (rest.filterMap f).getLast? <;> rfl

namespace QueryState

/-! ### What calls do to the uid and the arity -/

section Step

variable {s s' : QueryState}

/-- A call puts the uid in place that it names and the arity that it asks for. -/
theorem target_of_apply {c : Call} (h : s.apply c = .ok s') :
    s'.uid = c.uid?.or s.uid ∧ s'.single = c.single?.getD s.single := by
  rw [effect_of_apply h]
  cases c <;> exact ⟨rfl, rfl⟩

/-- The uid is the one that was named last, and the arity the one that was asked for
last. -/
theorem target_of_applyAll {calls : List Call} (h : s.applyAll calls = .ok s') :
    s'.uid = (calls.filterMap Call.uid?).getLast?.or s.uid ∧
      some s'.single = (calls.filterMap Call.single?).getLast?.or (some s.single) := by
  induction calls generalizing s with
  | nil =>
    obtain rfl := Except.ok.inj h
    exact ⟨rfl, rfl⟩
  | cons c rest ih =>
    obtain ⟨mid, hmid, h⟩ := exists_of_bind_ok h
    obtain ⟨huid, hsingle⟩ := target_of_apply hmid
    obtain ⟨huid', hsingle'⟩ := ih h
    have harity : some mid.single = c.single?.or (some s.single) := by
      rw [hsingle]
      cases c.single? <;> rfl
    rw [getLast?_filterMap_cons, getLast?_filterMap_cons, ← huid, ← harity]
    exact ⟨huid', hsingle'⟩

end Step

/-! ### Listings with a uid -/

/-- A listing was asked for last, but a uid was named before. -/
def ListsAfterUid (calls : List Call) : Prop :=
  ∃ before call after, calls = before ++ call :: after ∧ (∃ c ∈ before, c.uid?.isSome) ∧
    call.single? = some false ∧ ∀ c ∈ after, c.single? = none

/-- What the last call asked for that asked for an arity. -/
theorem getLast?_single?_eq_some_iff {calls : List Call} {b : Bool} :
    (calls.filterMap Call.single?).getLast? = some b ↔
      ∃ before call after, calls = before ++ call :: after ∧ call.single? = some b ∧
        ∀ c ∈ after, c.single? = none := by
  rw [List.getLast?_filterMap, List.findSome?_eq_some_iff]
  constructor
  · rintro ⟨after, call, before, hcalls, hcall, hafter⟩
    refine ⟨before.reverse, call, after.reverse, ?_, hcall, by simpa using hafter⟩
    rw [← List.reverse_reverse calls, hcalls]
    simp
  · rintro ⟨before, call, after, rfl, hcall, hafter⟩
    exact ⟨after.reverse, call, before.reverse, by simp, hcall, by simpa using hafter⟩

/-- A query for a listing has a uid when one was named before the listing was asked
for. -/
theorem listsAfterUid_iff {calls : List Call} :
    ListsAfterUid calls ↔ (calls.filterMap Call.uid?).getLast?.isSome ∧
      (calls.filterMap Call.single?).getLast?.getD false = false := by
  have hnamed : (calls.filterMap Call.uid?).getLast?.isSome ↔ ∃ c ∈ calls, c.uid?.isSome := by
    rw [List.getLast?_isSome, Ne, List.filterMap_eq_nil_iff]
    simp [Option.isSome_iff_ne_none]
  rw [hnamed]
  constructor
  · rintro ⟨before, call, after, rfl, ⟨c, hc, huid⟩, hcall, hafter⟩
    refine ⟨⟨c, List.mem_append_left _ hc, huid⟩, ?_⟩
    rw [getLast?_single?_eq_some_iff.mpr ⟨before, call, after, rfl, hcall, hafter⟩]
    rfl
  · rintro ⟨⟨c, hc, huid⟩, hlast⟩
    have hsingle := Call.single?_of_uid? huid
    -- some call asked for an arity: that which named the uid did
    cases hb : (calls.filterMap Call.single?).getLast? with
    | none =>
      rw [List.getLast?_eq_none_iff, List.filterMap_eq_nil_iff] at hb
      rw [hb c hc] at hsingle
      cases hsingle
    | some b =>
      rw [hb] at hlast
      obtain rfl : b = false := hlast
      obtain ⟨before, call, after, rfl, hcall, hafter⟩ := getLast?_single?_eq_some_iff.mp hb
      refine ⟨before, call, after, rfl, ⟨c, ?_, huid⟩, hcall, hafter⟩
      rcases List.mem_append.mp hc with hc | hc
      · exact hc
      · rcases List.mem_cons.mp hc with rfl | hc
        · rw [hcall] at hsingle
          cases hsingle
        · rw [hafter c hc] at hsingle
          cases hsingle

/-- Whether a stored document has the uid of a query, if that has one. -/
def ofUid (s : QueryState) (d : Document) : Bool :=
  s.uid.all fun uid => (keyOf? d).any (·.uid == uid)

theorem acceptsFields_scopeFields_uid [PatternLanguage] (s : QueryState)
    (contentType locale : String) {d : Document} {k : Key} (hk : keyOf? d = some k) :
    Filter.acceptsFields d (s.scopeFields contentType locale) =
      (s.ofUid d &&
        Filter.acceptsFields d ({ s with uid := none }.scopeFields contentType locale)) := by
  have huid : ((s.uid.toList.map fun uid => (Wrapper.uid, Predicate.equals (.string uid))).all
      fun f => f.2.accepts (Path.resolve d f.1)) = s.ofUid d := by
    rw [ofUid, hk]
    exact acceptsFields_uid s hk
  rw [scopeFields, scopeFields, Filter.acceptsFields, Filter.acceptsFields, List.all_append, huid,
    Bool.and_comm]
  simp

/-- The uid of a query narrows what it would select without one. -/
theorem matching_normalize_uid [PatternLanguage] {m : MemoryStore} (hm : m.Filled) (s : QueryState)
    (c : Config) :
    m.matching c.collection (s.normalize c).filter =
      (m.matching c.collection ({ s with uid := none }.normalize c).filter).map
        (List.filter s.ofUid) := by
  rw [MemoryStore.matching, MemoryStore.matching, readFilter_filter_normalize,
    readFilter_filter_normalize]
  cases MemoryStore.readFilter (Filter.renderWith payloadPath s.filter) with
  | error cause => rfl
  | ok f =>
    refine congrArg Except.ok ?_
    rw [List.filter_filter]
    refine List.filter_congr fun d hd => ?_
    obtain ⟨stored, id, rfl⟩ := hm.exists_stored hd
    rw [Filter.accepts_behind, Filter.accepts_behind,
      acceptsFields_scopeFields_uid s _ _ (keyOf?_withId stored id), Bool.and_assoc]

/-- A query has the uid that was named last and asks for what was asked for last.  It
lists documents of a uid just if a listing was asked for after a uid had been named; and
of what it would select without the uid, it selects the documents that have it. -/
theorem target_of_calls [PatternLanguage] {calls : List Call} {s : QueryState}
    (h : applyAll {} calls = .ok s) {m : MemoryStore} (hm : m.Filled) (c : Config) :
    s.uid = (calls.filterMap Call.uid?).getLast? ∧
      s.single = (calls.filterMap Call.single?).getLast?.getD false ∧
      (s.uid.isSome ∧ s.single = false ↔ ListsAfterUid calls) ∧
      m.matching c.collection (s.normalize c).filter =
        (m.matching c.collection ({ s with uid := none }.normalize c).filter).map
          (List.filter s.ofUid) := by
  obtain ⟨huid, hsingle⟩ := target_of_applyAll h
  have huid' : s.uid = (calls.filterMap Call.uid?).getLast? := by rw [huid, Option.or_none]
  have hsingle' : s.single = (calls.filterMap Call.single?).getLast?.getD false := by
    cases hlast : (calls.filterMap Call.single?).getLast? <;> rw [hlast] at hsingle <;>
      exact Option.some.inj hsingle
  refine ⟨huid', hsingle', ?_, matching_normalize_uid hm s c⟩
  rw [listsAfterUid_iff, huid', hsingle']

/-! ### Notes -/

/-- The query for all notes, after some uid has been named. -/
def notesAfter (uid : Option String) : QueryState where
  contentType := some "note"
  locale := some "en"
  uid := uid

open scoped Pattern in
/-- The note that was named last is listed alone. -/
theorem target_of_calls_notes :
    let calls : List Call :=
      [.contentType "note", .language "en", .entry (some "b"), .entry (some "a"), .entries]
    applyAll {} calls = .ok (notesAfter (some "a")) ∧ noteStore.Filled ∧ ListsAfterUid calls ∧
      noteStore.matching "contents" ((notesAfter none).normalize {}).filter =
        .ok [(note "note" "a" "one").withId (.invented 0),
          (note "note" "b" "two").withId (.invented 1)] ∧
      noteStore.matching "contents" ((notesAfter (some "a")).normalize {}).filter =
        .ok [(note "note" "a" "one").withId (.invented 0)] := by
  intro calls
  have hs : applyAll {} calls = .ok (notesAfter (some "a")) := rfl
  have hm : noteStore.Filled := .document _ _ (.document _ _ (.document _ _ .empty))
  obtain ⟨-, -, hlists, hmatching⟩ := target_of_calls hs hm {}
  exact ⟨hs, hm, hlists.mp ⟨rfl, rfl⟩, rfl, hmatching⟩

open scoped Pattern in
/-- The one note is found that was asked for before all of them. -/
theorem find_notesAfter :
    applyAll {} [.contentType "note", .language "en", .entry (some "a"), .entries] =
        .ok (notesAfter (some "a")) ∧
      applyAll {} [.contentType "note", .language "en", .entries] = .ok (notesAfter none) ∧
      (notesAfter (some "a")).uid.isSome ∧ (notesAfter (some "a")).single = false ∧
      ((notesAfter (some "a")).run {} noteStore.toStore .find).outcome.map
        (fun e => e.items.length) = .ok 1 ∧
      ((notesAfter none).run {} noteStore.toStore .find).outcome.map
        (fun e => e.items.length) = .ok 2 :=
  ⟨rfl, rfl, rfl, rfl, by decide +kernel, by decide +kernel⟩

end QueryState

end ContentQuery
