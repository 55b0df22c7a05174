/-
Operator filters as a monoid.

Filters whose paths are distinct, with distinct operators and no value to equal at any of
them, may be merged in any grouping:

* `merge_assoc`, `empty_merge`, `merge_empty`, `OfOperators.merge` — they are a monoid under
  merging, as lists in an order and not only as what they accept;
* `QueryState.filter_of_applyAll` — calls accumulate their filters one by one;
* `CallGroup.foldl_merge_contribution` — so what calls accumulate is what they accumulate in
  groups, and in groups of groups;
* `applyAll_and_append`, `applyAll_or_append` — and operands may be given in one call or
  in two.

Values to equal have to be left out: of a document, a scalar and a document the first
is lost in one grouping and merged into the last in another.
-/
import ContentQuery.Proofs.Calls
import ContentQuery.Proofs.KeyedUnion
import ContentQuery.Proofs.MergedFilters

namespace ContentQuery

/-- A predicate is a list of conditions with distinct operators. -/
def Predicate.OfOperators : Predicate → Prop
  | .equals _ => False
  | .conditions conds => (conds.map Condition.operator).Nodup

instance : (p : Predicate) → Decidable p.OfOperators
  | .equals _ => isFalse id
  | .conditions _ => inferInstanceAs (Decidable (List.Nodup _))

namespace Filter

/-- The paths of a filter are distinct, and each has conditions of distinct operators. -/
structure OfOperators (f : Filter) : Prop where
  distinct : (Entries.keys f.fields).Nodup
  operators : ∀ e ∈ f.fields, e.2.OfOperators

variable {f g h : Filter}

/-! ### Fields -/

/-- A field after a later one of its path. -/
def mergeEntry (old new : String × Predicate) : String × Predicate :=
  (old.1, mergePredicate old.2 new.2)

theorem mergeField_eq_add : mergeField = Keyed.add Prod.fst mergeEntry := by
  funext fields new
  induction fields with
  | nil => rfl
  | cons e rest ih =>
    rw [mergeField] at ih ⊢
    rw [Entries.upsert, Keyed.add, ih]
    rfl

theorem fields_merge (f g : Filter) :
    (f.merge g).fields = Keyed.union Prod.fst mergeEntry f.fields g.fields := by
  rw [merge, mergeField_eq_add]
  rfl

/-- Fields of operators are merged as their conditions are united. -/
theorem laws_mergeEntry :
    Keyed.Laws Prod.fst mergeEntry fun e : String × Predicate => e.2.OfOperators where
  key_eq h := h
  closed {x y} hx hy _ := by
    obtain ⟨path, p⟩ := x
    obtain ⟨path', q⟩ := y
    match p, q, hx, hy with
    | .conditions a, .conditions b, ha, _ =>
      show (mergePredicate (.conditions a) (.conditions b)).OfOperators
      rw [mergePredicate_conditions]
      exact laws_mergeSame.nodup_union ha b
  assoc {x y z} hx hy hz _ _ := by
    obtain ⟨path, p⟩ := x
    obtain ⟨path', q⟩ := y
    obtain ⟨path'', r⟩ := z
    match p, q, r, hx, hy, hz with
    | .conditions a, .conditions b, .conditions c, _, hb, _ =>
      simp only [mergeEntry, mergePredicate_conditions]
      rw [laws_mergeSame.union_assoc hb (by simp) (by simp) (by simp)]

/-! ### The monoid -/

theorem ofOperators_empty : ({} : Filter).OfOperators := ⟨.nil, by simp⟩

theorem ofOperators_condition (path : String) (c : Condition) :
    (condition path c).OfOperators where
  distinct := List.nodup_singleton path
  operators := by simp [condition, field, Predicate.OfOperators]

theorem OfOperators.merge (hf : f.OfOperators) (hg : g.OfOperators) :
    (f.merge g).OfOperators where
  distinct := nodup_keys_merge hf.distinct g
  operators := by
    rw [fields_merge]
    exact laws_mergeEntry.forall_union hf.operators hg.operators

theorem merge_empty (f : Filter) : f.merge {} = f := by
  cases f
  simp [merge]

theorem empty_merge (hf : f.OfOperators) : merge {} f = f := by
  have hfields : (merge {} f).fields = f.fields :=
    (fields_merge {} f).trans (Keyed.union_nil_left hf.distinct)
  have hscript : (merge {} f).script = f.script := Option.or_none
  cases f
  exact (Filter.mk.injEq ..).mpr ⟨hfields, rfl, rfl, hscript⟩

theorem merge_assoc (hf : f.OfOperators) (hg : g.OfOperators) (hh : h.OfOperators) :
    (f.merge g).merge h = f.merge (g.merge h) := by
  have hfields : ((f.merge g).merge h).fields = (f.merge (g.merge h)).fields := by
    rw [fields_merge, fields_merge, fields_merge, fields_merge]
    exact laws_mergeEntry.union_assoc hg.distinct hf.operators hg.operators hh.operators
  exact (Filter.mk.injEq ..).mpr
    ⟨hfields, List.append_assoc .., List.append_assoc .., Option.or_assoc.symm⟩

end Filter

/-! ### What calls contribute -/

/-- Only calls that may ask for a value to equal contribute other filters. -/
theorem Call.ofOperators_contribution {c : Call} (hequal : ∀ key v, c ≠ .equalTo key v)
    (hquery : ∀ d, c ≠ .query d) : c.contribution.OfOperators := by
  cases c with
  | equalTo key v => exact absurd rfl (hequal key v)
  | query d => exact absurd rfl (hquery d)
  | lessThan | lessThanOrEqualTo | greaterThan | greaterThanOrEqualTo | notEqualTo | containedIn
  | notContainedIn | hasField | lacksField | regex | tags => exact Filter.ofOperators_condition ..
  | _ => exact ⟨.nil, by simp [contribution]⟩

namespace QueryState

variable {s s' : QueryState}

/-- A call merges what it contributes into the filter. -/
theorem filter_of_apply {c : Call} (h : s.apply c = .ok s') :
    s'.filter = s.filter.merge c.contribution := by
  rw [effect_of_apply h]
  cases c <;> first | rfl | exact (Filter.merge_empty s.filter).symm

/-- Calls merge what they contribute one after the other. -/
theorem filter_of_applyAll {calls : List Call} (h : s.applyAll calls = .ok s') :
    s'.filter = (calls.map Call.contribution).foldl Filter.merge s.filter := by
  induction calls generalizing s with
  | nil =>
    obtain rfl := Except.ok.inj h
    rfl
  | cons c rest ih =>
    obtain ⟨mid, hmid, h⟩ := exists_of_bind_ok h
    rw [ih h, filter_of_apply hmid]
    rfl

end QueryState

/-! ### Calls in groups -/

/-- Calls in groups, and groups in groups. -/
inductive CallGroup
  | none
  | call (c : Call)
  | pair (first second : CallGroup)

namespace CallGroup

/-- The calls, in order. -/
def calls : CallGroup → List Call
  | none => []
  | call c => [c]
  | pair first second => first.calls ++ second.calls

/-- The filter that is accumulated group by group. -/
def filter : CallGroup → Filter
  | none => {}
  | call c => c.contribution
  | pair first second => first.filter.merge second.filter

theorem ofOperators_filter (group : CallGroup)
    (h : ∀ c ∈ group.calls, c.contribution.OfOperators) : group.filter.OfOperators := by
  induction group with
  | none => exact Filter.ofOperators_empty
  | call c => exact h c (List.mem_singleton.mpr rfl)
  | pair first second ihfirst ihsecond =>
    obtain ⟨hfirst, hsecond⟩ := List.forall_mem_append.mp h
    exact (ihfirst hfirst).merge (ihsecond hsecond)

/-- What calls accumulate one by one is what is accumulated group by group. -/
theorem foldl_merge_contribution (group : CallGroup) {f : Filter} (hf : f.OfOperators)
    (h : ∀ c ∈ group.calls, c.contribution.OfOperators) :
    (group.calls.map Call.contribution).foldl Filter.merge f = f.merge group.filter := by
  induction group generalizing f with
  | none => exact f.merge_empty.symm
  | call c => rfl
  | pair first second ihfirst ihsecond =>
    -- the first group is folded from the filter, the second from what that gives
    obtain ⟨hfirst, hsecond⟩ := List.forall_mem_append.mp h
    have hf' := first.ofOperators_filter hfirst
    rw [calls, List.map_append, List.foldl_append, ihfirst hf hfirst,
      ihsecond (hf.merge hf') hsecond]
    exact Filter.merge_assoc hf hf' (second.ofOperators_filter hsecond)

end CallGroup

/-! ### Operands in one call or two -/

theorem readPredicates_append (ds es : List Document) :
    readPredicates (ds ++ es) = (do
      let fs ← readPredicates ds
      let gs ← readPredicates es
      pure (fs ++ gs)) := by
  induction ds with
  | nil =>
    rw [List.nil_append, readPredicates]
    cases readPredicates es <;> rfl
  | cons d rest ih =>
    rw [List.cons_append, readPredicates, readPredicates, ih]
    cases readPredicate d with
    | error e => rfl
    | ok f =>
      cases readPredicates rest with
      | error e => rfl
      | ok fs => cases readPredicates es <;> rfl

namespace QueryState

variable {s : QueryState} {ds es : List Document}

theorem addFilter_of_isSome (hs : s.contentType.isSome) (call : String) (f : Filter) :
    s.addFilter call f = .ok { s with filter := s.filter.merge f } := by
  rw [addFilter, requireScope_of_isSome hs]
  rfl

theorem requireItems_of_ne_nil {α : Type} {items : List α} (h : items ≠ []) (call : String) :
    requireItems call items = .ok () :=
  if_neg (by simpa using h)

/-- Operands are read, and what is made of them is added, in two steps or in one. -/
theorem addOperands_append (hs : s.contentType.isSome) (call : String)
    (operands : List Filter → Filter)
    (h : ∀ (f : Filter) fs gs, (f.merge (operands fs)).merge (operands gs) =
      f.merge (operands (fs ++ gs))) (ds es : List Document) :
    (do let s' ← (do let fs ← readPredicates ds; s.addFilter call (operands fs))
        let gs ← readPredicates es
        s'.addFilter call (operands gs)) =
      (do let fs ← readPredicates (ds ++ es); s.addFilter call (operands fs)) := by
  rw [readPredicates_append]
  cases readPredicates ds with
  | error e => rfl
  | ok fs =>
    -- an operand that cannot be read is the second fault, as the first step cannot fail
    show ((s.addFilter call (operands fs)) >>= _) = _
    rw [addFilter_of_isSome hs]
    cases readPredicates es with
    | error e => rfl
    | ok gs =>
      show QueryState.addFilter _ call (operands gs) = s.addFilter call (operands (fs ++ gs))
      have hs' : ({ s with filter := s.filter.merge (operands fs) } : QueryState).contentType.isSome :=
        hs
      rw [addFilter_of_isSome hs, addFilter_of_isSome hs', h]

theorem apply_and (s : QueryState) (hds : ds ≠ []) :
    s.apply (.and ds) =
      (do let fs ← readPredicates ds; s.addFilter "and" { allOf := fs }) := by
  rw [apply, requireItems_of_ne_nil hds]
  rfl

theorem apply_or (s : QueryState) (hds : ds ≠ []) :
    s.apply (.or ds) =
      (do let fs ← readPredicates ds; s.addFilter "or" { anyOf := fs }) := by
  rw [apply, requireItems_of_ne_nil hds]
  rfl

theorem applyAll_pair (s : QueryState) (c c' : Call) :
    s.applyAll [c, c'] = s.apply c >>= fun s' => s'.apply c' := by
  rw [applyAll]
  refine congrArg _ (funext fun s' => ?_)
  rw [applyAll]
  cases s'.apply c' <;> rfl

/-- Operands of two calls that are to hold all are those of one call. -/
theorem applyAll_and_append (hs : s.contentType.isSome) (hds : ds ≠ []) (hes : es ≠ []) :
    s.applyAll [.and ds, .and es] = s.apply (.and (ds ++ es)) := by
  have hmerge : ∀ (f : Filter) fs gs,
      (f.merge { allOf := fs }).merge { allOf := gs } = f.merge { allOf := fs ++ gs } :=
    fun f fs gs => by simp [Filter.merge]
  rw [applyAll_pair, apply_and s hds, apply_and s (List.append_ne_nil_of_left_ne_nil hds es)]
  simp only [apply_and _ hes]
  exact addOperands_append hs "and" _ hmerge ds es

/-- Operands of two calls of which one is to hold are those of one call. -/
theorem applyAll_or_append (hs : s.contentType.isSome) (hds : ds ≠ []) (hes : es ≠ []) :
    s.applyAll [.or ds, .or es] = s.apply (.or (ds ++ es)) := by
  have hmerge : ∀ (f : Filter) fs gs,
      (f.merge { anyOf := fs }).merge { anyOf := gs } = f.merge { anyOf := fs ++ gs } :=
    fun f fs gs => by simp [Filter.merge]
  rw [applyAll_pair, apply_or s hds, apply_or s (List.append_ne_nil_of_left_ne_nil hds es)]
  simp only [apply_or _ hes]
  exact addOperands_append hs "or" _ hmerge ds es

end QueryState

/-! ### Groupings -/

namespace Filter

/-- Filters of operators are a monoid under merging, so calls that contribute such filters
accumulate in any grouping what they accumulate one by one. -/
theorem merge_ofOperators {f g h : Filter} (hf : f.OfOperators) (hg : g.OfOperators)
    (hh : h.OfOperators) :
    ((f.merge g).merge h = f.merge (g.merge h) ∧ merge {} f = f ∧ f.merge {} = f ∧
        ({} : Filter).OfOperators ∧ (f.merge g).OfOperators) ∧
      (∀ (group : CallGroup) (s : QueryState), s.filter.OfOperators →
        (∀ c ∈ group.calls, c.contribution.OfOperators) →
        (group.calls.map Call.contribution).foldl merge s.filter = s.filter.merge group.filter ∧
          ∀ s', s.applyAll group.calls = .ok s' → s'.filter = s.filter.merge group.filter) ∧
      ∀ (s : QueryState) (ds es : List Document), s.contentType.isSome → ds ≠ [] → es ≠ [] →
        s.applyAll [.and ds, .and es] = s.apply (.and (ds ++ es)) ∧
          s.applyAll [.or ds, .or es] = s.apply (.or (ds ++ es)) := by
  refine ⟨⟨merge_assoc hf hg hh, empty_merge hf, merge_empty f, ofOperators_empty, hf.merge hg⟩,
    fun group s hs hgroup => ?_, fun s ds es hs hds hes => ?_⟩
  · have hfold := group.foldl_merge_contribution hs hgroup
    exact ⟨hfold, fun s' h => (QueryState.filter_of_applyAll h).trans hfold⟩
  · exact ⟨QueryState.applyAll_and_append hs hds hes, QueryState.applyAll_or_append hs hds hes⟩

/-- Notes of some ranks that have a tag. -/
def taggedRanks : Filter where
  fields := [("rank", .conditions [.compare .gte (.int32 1), .oneOf [.int32 1, .int32 2]]),
    ("tags", .conditions [.oneOf [.string "a"]])]
  anyOf := [field "kind" (.equals (.string "note"))]

/-- Published notes of a rank or below another. -/
def publishedRanks : Filter where
  fields := [("draft", .conditions [.present false]),
    ("rank", .conditions [.oneOf [.int32 3], .compare .lt (.int32 9)])]

/-- Notes of other ranks with other tags. -/
def otherRanks : Filter where
  fields := [("rank", .conditions [.compare .lt (.int32 5), .compare .gte (.int32 2)]),
    ("tags", .conditions [.noneOf [.string "z"], .oneOf [.string "b"]])]
  allOf := [field "kind" (.equals (.string "page"))]

/-- Four calls in groups of one, two and none. -/
def rankGroups : CallGroup :=
  .pair (.call (.greaterThan "rank" (.int32 0)))
    (.pair (.pair (.call (.or [[("kind", .string "note")]]))
      (.call (.containedIn "rank" [.int32 1])))
      (.pair .none (.call (.containedIn "rank" [.int32 2]))))

theorem merge_ofOperators_ranks :
    (taggedRanks.OfOperators ∧ publishedRanks.OfOperators ∧ otherRanks.OfOperators) ∧
      (taggedRanks.merge publishedRanks).merge otherRanks =
        taggedRanks.merge (publishedRanks.merge otherRanks) ∧
      ((taggedRanks.merge publishedRanks).merge otherRanks).fields =
        [("rank", .conditions [.compare .gte (.int32 2), .oneOf [.int32 1, .int32 2, .int32 3],
            .compare .lt (.int32 5)]),
          ("tags", .conditions [.oneOf [.string "a", .string "b"], .noneOf [.string "z"]]),
          ("draft", .conditions [.present false])] ∧
      ∃ s', QueryState.applyAll { contentType := some "note" } rankGroups.calls = .ok s' ∧
        s'.filter = merge {} rankGroups.filter ∧
        s'.filter.fields = [("rank", .conditions [.compare .gt (.int32 0),
          .oneOf [.int32 1, .int32 2]])] := by
  have htagged : taggedRanks.OfOperators := ⟨by decide, by decide⟩
  have hpublished : publishedRanks.OfOperators := ⟨by decide, by decide⟩
  have hother : otherRanks.OfOperators := ⟨by decide, by decide⟩
  have hcalls : ∀ c ∈ rankGroups.calls, c.contribution.OfOperators := by
    intro c hc
    simp only [rankGroups, CallGroup.calls, List.nil_append, List.cons_append, List.mem_cons,
      List.not_mem_nil, or_false] at hc
    rcases hc with rfl | rfl | rfl | rfl <;> exact Call.ofOperators_contribution (by simp) (by simp)
  obtain ⟨⟨hassoc, -⟩, hgroups, -⟩ := merge_ofOperators htagged hpublished hother
  obtain ⟨-, haccumulated⟩ :=
    hgroups rankGroups { contentType := some "note" } ofOperators_empty hcalls
  exact ⟨⟨htagged, hpublished, hother⟩, hassoc, rfl, _, rfl, haccumulated _ rfl, rfl⟩

/-- With values to equal the grouping matters. -/
example :
    let first := field "n" (.equals (.document [("a", .null)]))
    let second := field "n" (.equals .null)
    let third := field "n" (.equals (.document [("b", .null)]))
    (first.merge second).merge third = third ∧
      first.merge (second.merge third) =
        field "n" (.equals (.document [("a", .null), ("b", .null)])) :=
  ⟨rfl, by cbv⟩

end Filter

end ContentQuery
