/-
Batched lookups against a store in memory.

A batch asks for the keys of one content type and locale together, and finds for
each of its keys what looking for that key alone would find:

* `accepts_asFilter` — the filter of a part accepts a document that has a key if
  and only if the part names that key;
* `run_findParts` — the parts of a batch are asked for one after the other, up to the
  first one that fails, and nothing is logged;
* `run_fetch` — so are those of a batch, which has what they find by key;
* `run_fetch_kept` — none of them fails with a projection that cannot.

`MemoryStore.payload?` is the lookup of a single key: the first document of the
key, projected and stripped of its wrapper.
-/
import ContentQuery.Proofs.Exclusion
import ContentQuery.Proofs.Run
import ContentQuery.Reference.Batch

namespace ContentQuery

/-! ### What a key says about the wrapper -/

theorem stringAt?_eq_some_iff {d : Document} {k s : String} :
    Document.stringAt? d k = some s ↔ Entries.get? d k = some (.string s) := by
  unfold Document.stringAt?
  cases Entries.get? d k with
  | none => simp
  | some v => cases v <;> simp [Value.string?]

theorem keyOf?_eq_some_iff {d : Document} {k : Key} :
    keyOf? d = some k ↔
      Entries.get? d Wrapper.contentType = some (.string k.contentType) ∧
      Entries.get? d Wrapper.locale = some (.string k.locale) ∧
      Entries.get? d Wrapper.uid = some (.string k.uid) := by
  simp only [keyOf?, Option.bind_eq_bind, Option.bind_eq_some_iff, Option.pure_def,
    Option.some.injEq, stringAt?_eq_some_iff]
  constructor
  · rintro ⟨ct, hct, loc, hloc, uid, huid, rfl⟩
    exact ⟨hct, hloc, huid⟩
  · rintro ⟨hct, hloc, huid⟩
    exact ⟨_, hct, _, hloc, _, huid, rfl⟩

/-- A path of one segment reaches the value under that key. -/
theorem Path.resolve_key {key : String} (hseg : Path.segments key = [key])
    (hne : key.isEmpty = false) (d : Document) :
    Path.resolve d key = (Entries.get? d key).toList := by
  cases h : Entries.get? d key <;>
    simp [Path.resolve, hseg, hne, Path.maxDepth, Path.reach, Path.step, h]

theorem holds_string (a b : String) : holds [.string a] (.string b) = (a == b) := by
  simp [holds, leaves, Value.elements, Value.same, Value.number?, Value.eqv]

/-- A wrapper field that is a string is equal to that string alone. -/
theorem holds_resolve_key {key : String} (hseg : Path.segments key = [key])
    (hne : key.isEmpty = false) {d : Document} {a : String}
    (h : Entries.get? d key = some (.string a)) (b : String) :
    holds (Path.resolve d key) (.string b) = (a == b) := by
  rw [Path.resolve_key hseg hne, h]
  exact holds_string a b

namespace Reference

/-! ### One part -/

namespace Part

/-- Whether a key is one of those that a part looks up. -/
def names (p : Part) (k : Key) : Bool := p.holds k && p.uids.contains k.uid

/-- The filter that the predicate document of a part writes. -/
def asFilter (p : Part) : Filter where
  fields :=
    [(Wrapper.contentType, .equals (.string p.contentType)),
      (Wrapper.locale, .equals (.string p.locale)),
      (Wrapper.uid, .conditions [.oneOf (p.uids.map .string)])]

theorem readFilter_filter (p : Part) : MemoryStore.readFilter p.filter = .ok p.asFilter := by
  simp [MemoryStore.readFilter, filter, asFilter, Filter.parse, Filter.parseFields,
    Filter.parsePredicate, Filter.operators?, Filter.isOperator, Filter.parseOptions,
    Filter.parseConditions, Filter.parseCondition, Filter.usesScript, Filter.anyUsesScript,
    Wrapper.contentType, Wrapper.locale, Wrapper.uid, Entries.get?, bind, Except.bind, pure,
    Except.pure]

theorem accepts_asFilter [PatternLanguage] (p : Part) {d : Document} {k : Key}
    (h : keyOf? d = some k) :
    p.asFilter.accepts d = p.names k := by
  obtain ⟨hct, hloc, huid⟩ := keyOf?_eq_some_iff.mp h
  have hct' := holds_resolve_key (by decide) (by decide) hct p.contentType
  have hloc' := holds_resolve_key (by decide) (by decide) hloc p.locale
  have huid' := holds_resolve_key (by decide) (by decide) huid
  have hany : (p.uids.map Value.string).any (ContentQuery.holds (Path.resolve d Wrapper.uid)) =
      p.uids.contains k.uid := by
    simp only [List.any_map, Function.comp_def, huid', List.contains_eq_any_beq]
  have hfields : p.asFilter.accepts d =
      ((k.contentType == p.contentType) && ((k.locale == p.locale) && p.uids.contains k.uid)) := by
    simp only [asFilter, Filter.accepts, Filter.acceptsFields, Filter.acceptsEach,
      Predicate.accepts, Condition.accepts, List.all_cons, List.all_nil, hct', hloc', hany]
    simp
  rw [hfields, names, holds, Bool.and_assoc, BEq.comm (a := k.contentType),
    BEq.comm (a := k.locale)]

end Part

theorem Part.names_single (j k : Key) :
    (Part.mk j.contentType j.locale [j.uid]).names k = decide (k = j) := by
  obtain ⟨jt, jl, ju⟩ := j
  obtain ⟨kt, kl, ku⟩ := k
  rw [Bool.eq_iff_iff]
  simp only [names, holds, Bool.and_eq_true, beq_iff_eq, List.contains_iff_mem,
    List.mem_singleton, decide_eq_true_iff, Key.mk.injEq]
  grind

theorem Part.names_add {p : Part} {j : Key} (h : p.holds j = true) (k : Key) :
    ({ p with uids := j.uid :: p.uids } : Part).names k = (decide (k = j) || p.names k) := by
  obtain ⟨jt, jl, ju⟩ := j
  obtain ⟨kt, kl, ku⟩ := k
  rw [Bool.eq_iff_iff]
  simp only [holds, Bool.and_eq_true, beq_iff_eq] at h
  simp only [names, holds, Bool.and_eq_true, Bool.or_eq_true, beq_iff_eq, List.contains_iff_mem,
    List.mem_cons, decide_eq_true_iff, Key.mk.injEq]
  grind

/-- The parts of some keys name these and no others. -/
theorem any_names_parts (keys : List Key) (k : Key) :
    (parts keys).any (fun p => p.names k) = decide (k ∈ keys) := by
  induction keys with
  | nil => rfl
  | cons j rest ih =>
    have hmem : decide (k ∈ j :: rest) = (decide (k = j) || decide (k ∈ rest)) := by
      rw [Bool.eq_iff_iff]
      simp
    rw [hmem, ← ih, parts]
    cases parts rest with
    | nil => simp [Part.names_single]
    | cons p ps =>
      -- the key joins the part behind it, or it has a part of its own
      by_cases hj : p.holds j = true
      · simp only [hj, if_true, List.any_cons, Part.names_add hj, Bool.or_assoc]
      · simp only [hj, if_false, List.any_cons, Part.names_single, Bool.false_eq_true]

end Reference

/-! ### One lookup -/

/-- What a projection, if there is one, keeps of a document. -/
def projected? (projection : Option Document) (d : Document) : Option Document :=
  match projection with
  | none => some d
  | some p => (Projection.apply p d).toOption

/-- The payload that a key leads to: that of the first document of the key. -/
def MemoryStore.payload? (m : MemoryStore) (collection : String) (projection : Option Document)
    (k : Key) : Option Document := do
  let raw ← (m.documents collection).find? fun d => keyOf? d == some k
  let d ← projected? projection raw
  pure (payloadOf d)

/-- What is kept of a document when the projection cannot fail. -/
def kept (projection : Option Document) (d : Document) : Document :=
  match projection with
  | none => d
  | some p => Projection.trim p d

section Kept

variable {projection : Option Document} (hp : ∀ p ∈ projection, Projection.OnlyPayload p)
include hp

theorem projected?_eq_kept (d : Document) : projected? projection d = some (kept projection d) := by
  cases projection with
  | none => rfl
  | some p => simp [projected?, kept, Projection.apply_of_onlyPayload (hp p rfl), Except.toOption]

theorem keyOf?_kept (d : Document) : keyOf? (kept projection d) = keyOf? d := by
  cases projection with
  | none => rfl
  | some p => exact Projection.keyOf?_trim (hp p rfl) d

theorem projectAll_eq_map_kept (docs : List Document) :
    MemoryStore.projectAll projection docs = .ok (docs.map (kept projection)) := by
  cases projection with
  | none =>
    show Except.ok docs = .ok (docs.map id)
    rw [List.map_id]
  | some p =>
    have happly : Projection.apply p = fun d => .ok (Projection.trim p d) :=
      funext fun d => Projection.apply_of_onlyPayload (hp p rfl) d
    show docs.mapM (Projection.apply p) = _
    rw [happly]
    exact List.mapM_pure

theorem MemoryStore.payload?_eq (m : MemoryStore) (collection : String) (k : Key) :
    m.payload? collection projection k =
      ((m.documents collection).find? fun d => keyOf? d == some k).map
        fun d => payloadOf (kept projection d) := by
  unfold MemoryStore.payload?
  cases (m.documents collection).find? fun d => keyOf? d == some k with
  | none => rfl
  | some raw => simp [projected?_eq_kept hp]

end Kept

/-- Some calls up to the first one that fails. -/
def untilFailure : List CallRecord → List CallRecord
  | [] => []
  | call :: rest => call :: if call.answered.isSome then untilFailure rest else []

theorem untilFailure_eq_self {calls : List CallRecord} (h : ∀ call ∈ calls, call.answered.isSome) :
    untilFailure calls = calls := by
  induction calls with
  | nil => rfl
  | cons call rest ih =>
    obtain ⟨hcall, hrest⟩ := List.forall_mem_cons.mp h
    rw [untilFailure, if_pos hcall, ih hrest]

theorem MemoryStore.projectAll_append (projection : Option Document) (xs ys : List Document) :
    projectAll projection (xs ++ ys) = (projectAll projection xs).bind fun out =>
      (projectAll projection ys).map fun more => out ++ more := by
  cases projection with
  | none => rfl
  | some p =>
    show (xs ++ ys).mapM (Projection.apply p) = _
    rw [List.mapM_append]
    rfl

namespace Reference

/-! ### Found documents by key -/

/-- A found document goes under its key, unless another stands there already. -/
def enter (acc : List (Key × Document)) (raw : Document) : List (Key × Document) :=
  (keyOf? raw).elim acc fun k => Entries.upsert acc k fun present => present.getD (payloadOf raw)

theorem byKey_eq_foldl (found : List Document) : byKey found = found.foldl enter [] := by
  unfold byKey
  congr 1
  funext acc raw
  unfold enter
  cases keyOf? raw <;> rfl

theorem get?_foldl_enter (k : Key) (found : List Document) (acc : List (Key × Document)) :
    Entries.get? (found.foldl enter acc) k =
      (Entries.get? acc k).or ((found.find? fun d => keyOf? d == some k).map payloadOf) := by
  induction found generalizing acc with
  | nil => simp
  | cons raw rest ih =>
    rw [List.foldl_cons, ih, List.find?_cons, enter]
    cases hk : keyOf? raw with
    | none => simp
    | some j =>
      rw [Option.elim_some]
      by_cases hj : j = k
      · -- a document of the same key counts only if there is none yet
        subst hj
        rw [Entries.get?_upsert_self]
        cases Entries.get? acc j <;> simp
      · have hne : (some j == some k) = false := by simpa using hj
        simp only [Entries.get?_upsert_of_ne _ hj, hne]

/-- Of the documents of one key the first one counts. -/
theorem get?_byKey (found : List Document) (k : Key) :
    Entries.get? (byKey found) k = (found.find? fun d => keyOf? d == some k).map payloadOf := by
  rw [byKey_eq_foldl, get?_foldl_enter, Entries.get?_nil, Option.none_or]

private theorem findSome?_if {α β : Type} (test : α → Bool) (c : Option β) (xs : List α) :
    (xs.findSome? fun x => if test x then c else none) = if xs.any test then c else none := by
  induction xs with
  | nil => rfl
  | cons x rest ih =>
    rw [List.findSome?_cons, ih, List.any_cons]
    cases test x <;> cases c <;> simp

/-! ### A batch -/

section Batch

variable [PatternLanguage] (m : MemoryStore) (collection : String)

/-- The documents that a part of a batch asks for. -/
def Part.matched (p : Part) : List Document :=
  (m.documents collection).filter p.asFilter.accepts

/-- The documents that a part of a batch finds. -/
def Part.found (projection : Option Document) (p : Part) : List Document :=
  (p.matched m collection).map (kept projection)

/-- The call that asks for a part. -/
def Part.lookup (projection : Option Document) (p : Part) : CallRecord :=
  ⟨.find collection p.filter { projection },
    (MemoryStore.projectAll projection (p.matched m collection)).toOption.map List.length⟩

/-- The documents that a batch finds. -/
def foundBy (projection : Option Document) (keys : List Key) : List Document :=
  (parts keys).flatMap (Part.found m collection projection)

theorem run_lookup (projection : Option Document) (p : Part) :
    m.run (Plan.ask collection p.filter { projection }) =
      { outcome := MemoryStore.report
          (MemoryStore.projectAll projection (p.matched m collection))
        calls := [p.lookup m collection projection] } := by
  have hmatch : m.matching collection p.filter = .ok (p.matched m collection) := by
    simp only [MemoryStore.matching, Part.readFilter_filter]
    rfl
  have hfind : m.find collection p.filter { projection } =
      MemoryStore.projectAll projection (p.matched m collection) := by
    simp only [MemoryStore.find, hmatch, MemoryStore.window, Option.getD_none, List.drop_zero]
    rfl
  rw [m.run_ask, hfind, Part.lookup]
  cases MemoryStore.projectAll projection (p.matched m collection) with
  | error cause => rfl
  | ok docs => rfl

/-- The parts are asked for one after the other, up to the first one whose documents cannot be
projected, and nothing is logged. -/
theorem run_findParts (projection : Option Document) (ps : List Part) :
    m.run (findParts collection { projection } ps) =
      { outcome := MemoryStore.report (MemoryStore.projectAll projection
          (ps.flatMap (Part.matched m collection)))
        calls := untilFailure (ps.map (Part.lookup m collection projection)) } := by
  induction ps with
  | nil => cases projection <;> rfl
  | cons p rest ih =>
    have hlookup := run_lookup m collection projection p
    show m.run (Plan.bind _ fun docs => Plan.bind _ fun more => _) = _
    rw [List.flatMap_cons, MemoryStore.projectAll_append, List.map_cons, untilFailure]
    cases hdocs : MemoryStore.projectAll projection (p.matched m collection) with
    | error cause =>
      have hfails : (p.lookup m collection projection).answered.isSome = false := by
        simp [Part.lookup, hdocs, Except.toOption]
      rw [m.run_bind, hlookup, hdocs, hfails]
      rfl
    | ok docs =>
      have hanswers : (p.lookup m collection projection).answered.isSome = true := by
        simp [Part.lookup, hdocs, Except.toOption]
      rw [hdocs] at hlookup
      rw [m.run_bind_of_ok hlookup, m.run_map, ih, hanswers]
      cases MemoryStore.projectAll projection (rest.flatMap (Part.matched m collection)) <;> rfl

theorem run_fetch (projection : Option Document) (keys : List Key) :
    m.run (fetch collection projection keys) =
      { outcome := (MemoryStore.report (MemoryStore.projectAll projection
          ((parts keys).flatMap (Part.matched m collection)))).map byKey
        calls := untilFailure ((parts keys).map (Part.lookup m collection projection)) } := by
  show m.run (Plan.bind _ fun found => _) = _
  rw [m.run_map, run_findParts]

/-- With a projection that cannot fail all parts are asked for. -/
theorem run_fetch_kept {projection : Option Document}
    (hp : ∀ p ∈ projection, Projection.OnlyPayload p) (keys : List Key) :
    m.run (fetch collection projection keys) =
      { outcome := .ok (byKey (foundBy m collection projection keys))
        calls := (parts keys).map (Part.lookup m collection projection) } := by
  have hanswered : ∀ call ∈ (parts keys).map (Part.lookup m collection projection),
      call.answered.isSome := by
    rw [List.forall_mem_map]
    intro p _
    rw [Part.lookup, projectAll_eq_map_kept hp]
    rfl
  rw [run_fetch, projectAll_eq_map_kept hp, List.map_flatMap, untilFailure_eq_self hanswered]
  rfl

/-! ### What a batch finds for each key -/

/-- On the documents of a key, the filter of a part is what the part names. -/
theorem find?_matched (p : Part) (k : Key) :
    ((p.matched m collection).find? fun d => keyOf? d == some k) =
      if p.names k then (m.documents collection).find? fun d => keyOf? d == some k else none := by
  have hacc : (fun d => decide (p.asFilter.accepts d = true ∧ (keyOf? d == some k) = true)) =
      fun d => p.names k && keyOf? d == some k := by
    funext d
    by_cases hk : keyOf? d = some k
    · simp [p.accepts_asFilter hk, hk]
    · simp [hk]
  rw [Part.matched, List.find?_filter, hacc]
  cases p.names k <;> simp

theorem find?_found {projection : Option Document}
    (hp : ∀ p ∈ projection, Projection.OnlyPayload p) (p : Part) (k : Key) :
    ((p.found m collection projection).find? fun d => keyOf? d == some k) =
      if p.names k then
        ((m.documents collection).find? fun d => keyOf? d == some k).map (kept projection)
      else none := by
  have hcomp : ((fun d => keyOf? d == some k) ∘ kept projection) = fun d => keyOf? d == some k :=
    funext fun d => by simp only [Function.comp_apply, keyOf?_kept hp]
  have hfound : p.found m collection projection =
      (p.matched m collection).map (kept projection) := rfl
  rw [hfound, List.find?_map, hcomp, find?_matched]
  cases p.names k <;> simp

/-- A batch finds the first document of each key that its parts name. -/
theorem find?_flatMap_matched (ps : List Part) (k : Key) :
    ((ps.flatMap (Part.matched m collection)).find? fun d => keyOf? d == some k) =
      if ps.any fun p => p.names k then
        (m.documents collection).find? fun d => keyOf? d == some k
      else none := by
  rw [List.find?_flatMap]
  simp only [find?_matched, findSome?_if]

/-- A batch finds for each of its keys what a lookup of that key alone finds, and
nothing for any other key. -/
theorem get?_byKey_foundBy {projection : Option Document}
    (hp : ∀ p ∈ projection, Projection.OnlyPayload p) (keys : List Key) (k : Key) :
    Entries.get? (byKey (foundBy m collection projection keys)) k =
      if k ∈ keys then m.payload? collection projection k else none := by
  rw [get?_byKey, foundBy, List.find?_flatMap]
  simp only [find?_found m collection hp, findSome?_if, any_names_parts, MemoryStore.payload?_eq hp]
  by_cases hk : k ∈ keys <;> simp [hk, Function.comp_def]

end Batch

end Reference

end ContentQuery
