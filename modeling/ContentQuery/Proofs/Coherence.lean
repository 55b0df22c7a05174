/-
What every state that calls lead to is like.

Compiling and rendering do not check a state again, so the calls have to leave it
in order:

* `Coherent` — what is asked for has a content type to be asked of, nothing that is
  named is empty, a limit lets something through, and no filter has collisions;
* `Step.settled`, `Step.references` — every change that a call makes keeps what is
  not about reading predicates;
* `coherent_of_calls` — so every state that calls lead to is coherent.
-/
import ContentQuery.Proofs.Increasing
import ContentQuery.Proofs.Regular

namespace ContentQuery

namespace Filter

/-- A filter of fields only, each with a dot in its path. -/
structure OnlyDotted (f : Filter) : Prop where
  allOf : f.allOf = []
  anyOf : f.anyOf = []
  script : f.script = none
  dotted : ∀ k ∈ Entries.keys f.fields, QueryState.isDotted k = true

theorem OnlyDotted.merge {f g : Filter} (hf : f.OnlyDotted) (hg : g.OnlyDotted) :
    (f.merge g).OnlyDotted where
  allOf := by rw [Filter.merge, hf.allOf, hg.allOf, List.append_nil]
  anyOf := by rw [Filter.merge, hf.anyOf, hg.anyOf, List.append_nil]
  script := by rw [Filter.merge, hf.script, hg.script, Option.none_or]
  dotted _ hk := (mem_keys_foldl_mergeField.mp hk).elim (hf.dotted _) (hg.dotted _)

end Filter

namespace QueryState

/-- Whether something is asked for that needs a content type. -/
def NeedsContentType (s : QueryState) : Prop :=
  s.filter.isEmpty = false ∨ s.referenceQuery.isEmpty = false ∨ s.projection ≠ [] ∨
    s.includePaths ≠ [] ∨ s.uid.isSome ∨ s.single = true ∨ s.includeAll = true ∨
    s.excludeReferences = true

/-- What is chosen and named in a state is in order. -/
structure Settled (s : QueryState) : Prop where
  targeted : s.NeedsContentType → ∃ ct, s.contentType = some ct ∧ ct.isEmpty = false
  contentType : ∀ ct ∈ s.contentType, ct.isEmpty = false
  locale : ∀ l ∈ s.locale, l.isEmpty = false
  uid : ∀ u ∈ s.uid, u.isEmpty = false
  sort : ∀ r ∈ s.sort, ∀ f ∈ r.field, f.isEmpty = false
  projection : ∀ e ∈ s.projection, e.1.isEmpty = false ∧ (e.2 = 0 ∨ e.2 = 1)
  includePaths : ∀ p ∈ s.includePaths, p.isEmpty = false
  limit : ∀ n ∈ s.limit, 1 ≤ n

/-- A state is in order, and so are its filters. -/
structure Coherent (s : QueryState) : Prop extends Settled s where
  filter : s.filter.Every Filter.DistinctFields
  references : s.referenceQuery.OnlyDotted

variable {s s' : QueryState} {call : Call}

/-! ### One change -/

/-- A call that asks for what needs a content type finds or leaves one. -/
theorem Step.contentType_isSome (h : Step s call s')
    (hs : s.NeedsContentType → s.contentType.isSome) (hneeds : s'.NeedsContentType) :
    s'.contentType.isSome := by
  cases h with
  | chosen | one | many => rfl
  | adds hscope | refers hscope | projects hscope | includes hscope | includesAll hscope
  | excludes hscope => exact hscope
  | language | limits | skips | sorts | counts | schemas => exact hs hneeds

theorem Step.contentType (h : Step s call s') (hs : ∀ ct ∈ s.contentType, ct.isEmpty = false) :
    ∀ ct ∈ s'.contentType, ct.isEmpty = false := by
  cases h with
  | chosen hct => simpa using hct
  | one hct | many hct =>
    intro ct hmem
    obtain rfl := Option.mem_some.mp hmem
    exact hct.elim id (hs _)
  | _ => exact hs

theorem Step.uid (h : Step s call s') (hs : ∀ u ∈ s.uid, u.isEmpty = false) :
    ∀ u ∈ s'.uid, u.isEmpty = false := by
  cases h with
  | @one _ ct uid hct huid =>
    -- without a uid of its own the call keeps the one that was chosen before
    cases uid with
    | none => exact hs
    | some u => exact huid
  | _ => exact hs

theorem Step.projection (h : Step s call s')
    (hs : ∀ e ∈ s.projection, e.1.isEmpty = false ∧ (e.2 = 0 ∨ e.2 = 1)) :
    ∀ e ∈ s'.projection, e.1.isEmpty = false ∧ (e.2 = 0 ∨ e.2 = 1) := by
  cases h with
  | projects _ _ hnames hmark =>
    intro e he
    rcases List.mem_append.mp he with he | he
    · exact hs e he
    · obtain ⟨f, hf, rfl⟩ := List.mem_map.mp he
      refine ⟨hnames f hf, ?_⟩
      cases hmark with
      | only => exact .inr rfl
      | except => exact .inl rfl
  | _ => exact hs

theorem Step.includePaths (h : Step s call s') (hs : ∀ p ∈ s.includePaths, p.isEmpty = false) :
    ∀ p ∈ s'.includePaths, p.isEmpty = false := by
  cases h with
  | includes _ _ hpaths =>
    intro p hp
    have hmem := (Ordered.mem_foldl_insert (fun _ _ => Std.LawfulEqOrd.eq_of_compare) p _ _).mp hp
    exact hmem.elim (hs p) (hpaths p)
  | _ => exact hs

/-- Every change keeps what is chosen and named in order. -/
theorem Step.settled (h : Step s call s') (hs : s.Settled) : s'.Settled where
  targeted hneeds := by
    have hsome := h.contentType_isSome (fun hneeds => ?_) hneeds
    · obtain ⟨ct, hct⟩ := Option.isSome_iff_exists.mp hsome
      exact ⟨ct, hct, h.contentType hs.contentType ct hct⟩
    · obtain ⟨ct, hct, -⟩ := hs.targeted hneeds
      exact Option.isSome_iff_exists.mpr ⟨ct, hct⟩
  contentType := h.contentType hs.contentType
  locale := by
    cases h with
    | language hl => simpa using hl
    | _ => exact hs.locale
  uid := h.uid hs.uid
  sort := by
    cases h with
    | sorts hfield => simpa using hfield
    | _ => exact hs.sort
  projection := h.projection hs.projection
  includePaths := h.includePaths hs.includePaths
  limit := by
    cases h with
    | limits hn => simpa using Nat.one_le_iff_ne_zero.mpr hn
    | _ => exact hs.limit

/-- A reference predicate that was let through has only dotted fields. -/
theorem onlyDotted_of_readReferencePredicate {d : Document} {f : Filter}
    (h : readReferencePredicate d = .ok f) : f.OnlyDotted := by
  obtain ⟨g, -, h⟩ := exists_of_bind_ok h
  split_ifs at h with hshape
  · cases h
  · split at h
    · cases h
    · rename_i hfind
      obtain rfl := Except.ok.inj h
      simp only [Bool.or_eq_true, Bool.not_eq_true', not_or, Bool.not_eq_false,
        List.isEmpty_iff, Option.isSome_iff_ne_none, ne_eq, not_not] at hshape
      obtain ⟨⟨hall, hany⟩, hscript⟩ := hshape
      refine ⟨hall, hany, hscript, fun k hk => ?_⟩
      obtain ⟨e, he, rfl⟩ := List.mem_map.mp hk
      simpa using List.find?_eq_none.mp hfind e he

theorem Step.references (h : Step s call s') (hs : s.referenceQuery.OnlyDotted) :
    s'.referenceQuery.OnlyDotted := by
  cases h with
  | refers _ hread => exact hs.merge (onlyDotted_of_readReferencePredicate hread)
  | _ => exact hs

/-! ### Any number of changes -/

/-- Every state that calls lead to is in order, if none of the predicates that they
are given has a key twice. -/
theorem coherent_of_calls {calls : List Call}
    (hwf : ∀ call ∈ calls, ∀ d ∈ call.predicates, Document.wellFormed d = true)
    (h : applyAll {} calls = .ok s) : s.Coherent := by
  have hsettled : Settled {} := by constructor <;> simp [NeedsContentType, Filter.isEmpty]
  have hdotted : Filter.OnlyDotted {} := ⟨rfl, rfl, rfl, by simp [Entries.keys]⟩
  obtain ⟨hsettled, hdotted⟩ := invariant_of_step
    (fun s => s.Settled ∧ s.referenceQuery.OnlyDotted) (fun _ => True)
    (fun _ _ _ _ hs hstep => ⟨hstep.settled hs.1, hstep.references hs.2⟩)
    (fun _ _ => trivial) ⟨hsettled, hdotted⟩ h
  have hequals : ∀ key v, .equalTo key v ∈ calls → key.isEmpty = false →
      Filter.DistinctFields [(key, .equals v)] := by
    intro key v _ hkey
    refine ⟨by simp [Entries.keys], fun e he => ?_⟩
    obtain rfl := List.mem_singleton.mp he
    exact ⟨hkey, trivial⟩
  have hfilter := (Filter.fieldInvariant_distinct.every_of_calls hwf hequals h).1
  exact ⟨hsettled, hfilter, hdotted⟩

/-- Calls that fill every part of a state; two of them ask something of one field. -/
def fullCalls : List Call :=
  [.contentType "page", .entry (some "a"), .language "en",
    .greaterThan "rank" (.int32 1), .lessThan "rank" (.int32 9),
    .or [[("title", .string "one")], [("$and", .array [.document [("rank", .int32 3)]])]],
    .queryReferences [("author.name", .document [("$in", .array [.string "x"])])],
    .only ["title", "author"], .includePaths ["author"], .limit 5, .descending (some "rank")]

theorem coherent_fullCalls :
    (∀ call ∈ fullCalls, ∀ d ∈ call.predicates, Document.wellFormed d = true) ∧
      ∃ s, applyAll {} fullCalls = .ok s ∧ s.NeedsContentType ∧
        Entries.keys s.filter.fields = ["rank"] ∧ s.filter.anyOf.length = 2 ∧ s.Coherent := by
  have hwf : ∀ call ∈ fullCalls, ∀ d ∈ call.predicates, Document.wellFormed d = true := by decide
  exact ⟨hwf, _, rfl, .inl rfl, rfl, rfl, coherent_of_calls hwf rfl⟩

end QueryState

end ContentQuery
