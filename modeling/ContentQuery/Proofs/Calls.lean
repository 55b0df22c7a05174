/-
What a call does to a query.

`QueryState.Step` lists the changes that a call can make, each with what the call
has checked before it, and `Call.effect` is the state that a call leaves:

* `change_of_apply` — every call that succeeds makes one of these changes and leaves
  that state;
* `invariant_of_step` — what holds at the beginning and is kept by every change
  holds of every state that calls lead to.
-/
import ContentQuery.Query.Call
import Mathlib.Tactic.SplitIfs

namespace ContentQuery

theorem exists_of_bind_ok {ε α β : Type} {x : Except ε α} {f : α → Except ε β} {b : β}
    (h : (x >>= f) = .ok b) : ∃ a, x = .ok a ∧ f a = .ok b :=
  match x, h with
  | .ok a, h => ⟨a, rfl, h⟩

theorem exists_of_map_ok {ε α β : Type} {x : Except ε α} {f : α → β} {b : β}
    (h : x.map f = .ok b) : ∃ a, x = .ok a ∧ f a = b :=
  match x, h with
  | .ok a, h => ⟨a, rfl, Except.ok.inj h⟩

/-- The filters that a call may add to that of a query. -/
inductive Call.Contributes : Call → Filter → Prop
  | condition {call : Call} (key : String) (cond : Condition) :
      key.isEmpty = false → Contributes call (.condition key cond)
  | equals {key : String} {v : Value} :
      key.isEmpty = false → Contributes (.equalTo key v) (.field key (.equals v))
  | allOf {operands : List Document} {fs : List Filter} :
      readPredicates operands = .ok fs → Contributes (.and operands) { allOf := fs }
  | anyOf {operands : List Document} {fs : List Filter} :
      readPredicates operands = .ok fs → Contributes (.or operands) { anyOf := fs }
  | script {text : String} : Contributes (.script text) { script := some text }
  | predicate {d : Document} {f : Filter} :
      readPredicate d = .ok f → Contributes (.query d) f

/-- The fields that a call adds to the projection, with their mark. -/
inductive Call.Marks : Call → List String → Int32 → Prop
  | only (fields : List String) : Marks (.only fields) fields 1
  | except (fields : List String) : Marks (.except fields) fields 0

namespace Call

/-- The filter that a call adds to that of a query. -/
def contribution : Call → Filter
  | .lessThan key v => .condition key (.compare .lt v)
  | .lessThanOrEqualTo key v => .condition key (.compare .lte v)
  | .greaterThan key v => .condition key (.compare .gt v)
  | .greaterThanOrEqualTo key v => .condition key (.compare .gte v)
  | .notEqualTo key v => .condition key (.compare .ne v)
  | .equalTo key v => .field key (.equals v)
  | .containedIn key values => .condition key (.oneOf values)
  | .notContainedIn key values => .condition key (.noneOf values)
  | .hasField key => .condition key (.present true)
  | .lacksField key => .condition key (.present false)
  | .regex key pattern options =>
    .condition key (.pattern pattern (options.getD defaultPatternOptions))
  | .tags values => .condition tagsField (.oneOf (values.filter fun v => v.string?.isSome))
  | .and operands => { allOf := (readPredicates operands).toOption.getD [] }
  | .or operands => { anyOf := (readPredicates operands).toOption.getD [] }
  | .script text => { script := some text }
  | .query d => (readPredicate d).toOption.getD {}
  | _ => {}

/-- The state that a call leaves when it is not refused. -/
def effect (s : QueryState) : Call → QueryState
  | .contentType uid => { s with contentType := some uid }
  | .asset uid =>
    { s with contentType := some assetsUid, uid := uid.or s.uid, single := true }
  | .assets => { s with contentType := some assetsUid, single := false }
  | .schema uid =>
    { s with contentType := some schemasUid, uid := uid.or s.uid, single := true }
  | .schemas => { s with contentType := some schemasUid, single := false }
  | .entry uid => { s with uid := uid.or s.uid, single := true }
  | .entries => { s with single := false }
  | .language locale => { s with locale := some locale }
  | .queryReferences d =>
    { s with
      referenceQuery :=
        s.referenceQuery.merge ((QueryState.readReferencePredicate d).toOption.getD {}) }
  | .only fields => { s with projection := s.projection ++ fields.map fun f => (f, 1) }
  | .except fields => { s with projection := s.projection ++ fields.map fun f => (f, 0) }
  | .limit n => { s with limit := some n.toNat }
  | .skip n => { s with skip := some n.toNat }
  | .ascending field => { s with sort := some ⟨field, .ascending⟩ }
  | .descending field => { s with sort := some ⟨field, .descending⟩ }
  | .includePaths paths =>
    { s with
      includePaths := paths.foldl (fun acc p => Ordered.insert compare p acc) s.includePaths }
  | .includeReferences => { s with includeAll := true }
  | .excludeReferences => { s with excludeReferences := true }
  | .includeCount => { s with includeCount := true }
  | .includeSchema => { s with includeSchema := true }
  | c => { s with filter := s.filter.merge c.contribution }

end Call

namespace QueryState

/-- The changes that a call can make to a state. -/
inductive Step (s : QueryState) : Call → QueryState → Prop
  | chosen {call : Call} {ct : String} : ct.isEmpty = false →
      Step s call { s with contentType := some ct }
  | one {call : Call} {ct : String} {uid : Option String} : ct.isEmpty = false ∨ s.contentType = some ct →
      (∀ u ∈ uid, u.isEmpty = false) →
      Step s call { s with contentType := some ct, uid := uid.or s.uid, single := true }
  | many {call : Call} {ct : String} : ct.isEmpty = false ∨ s.contentType = some ct →
      Step s call { s with contentType := some ct, single := false }
  | language {call : Call} {l : String} : l.isEmpty = false →
      Step s call { s with locale := some l }
  | adds {call : Call} {f : Filter} : s.contentType.isSome → call.Contributes f →
      Step s call { s with filter := s.filter.merge f }
  | refers {d : Document} {f : Filter} : s.contentType.isSome → readReferencePredicate d = .ok f →
      Step s (.queryReferences d) { s with referenceQuery := s.referenceQuery.merge f }
  | projects {call : Call} {fields : List String} {mark : Int32} : s.contentType.isSome →
      fields ≠ [] → (∀ f ∈ fields, f.isEmpty = false) → call.Marks fields mark →
      Step s call { s with projection := s.projection ++ fields.map fun f => (f, mark) }
  | limits {call : Call} {n : Nat} : n ≠ 0 → Step s call { s with limit := some n }
  | skips {call : Call} {n : Nat} : Step s call { s with skip := some n }
  | sorts {call : Call} {r : SortRequest} : (∀ f ∈ r.field, f.isEmpty = false) →
      Step s call { s with sort := some r }
  | includes {call : Call} {paths : List String} : s.contentType.isSome → paths ≠ [] →
      (∀ p ∈ paths, p.isEmpty = false) →
      Step s call { s with
        includePaths := paths.foldl (fun acc p => Ordered.insert compare p acc) s.includePaths }
  | includesAll {call : Call} : s.contentType.isSome → Step s call { s with includeAll := true }
  | excludes {call : Call} : s.contentType.isSome → Step s call { s with excludeReferences := true }
  | counts {call : Call} : Step s call { s with includeCount := true }
  | schemas {call : Call} : Step s call { s with includeSchema := true }

variable {s s' : QueryState} {call : String}

/-! ### What the checks let through -/

theorem requireScope_eq_ok {u : Unit} (h : s.requireScope call = .ok u) : s.contentType.isSome := by
  unfold requireScope at h
  split_ifs at h with hs
  exact Option.isSome_iff_ne_none.mpr (by simpa using hs)

theorem requireScope_of_isSome (hs : s.contentType.isSome) (call : String) :
    s.requireScope call = .ok () :=
  if_neg (by simpa using Option.isSome_iff_ne_none.mp hs)

theorem requireKey_eq_ok {key : String} {u : Unit} (h : requireKey call key = .ok u) :
    key.isEmpty = false := by
  unfold requireKey refuse at h
  split_ifs at h with hkey
  simpa using hkey

theorem requireNames_eq_ok {names : List String} {u : Unit} (h : requireNames call names = .ok u) :
    names ≠ [] ∧ ∀ n ∈ names, n.isEmpty = false := by
  unfold requireNames refuse at h
  split_ifs at h with hnames hempty
  rw [Bool.not_eq_true, List.any_eq_false] at hempty
  exact ⟨by simpa using hnames, fun n hn => by simpa using hempty n hn⟩

theorem requireNatural_eq_ok {n : Int} {k : Nat} (h : requireNatural call n = .ok k) :
    k = n.toNat := by
  rw [requireNatural, refuse] at h
  split_ifs at h
  exact (Except.ok.inj h).symm

theorem addFilter_eq_ok {f : Filter} (h : s.addFilter call f = .ok s') :
    s.contentType.isSome ∧ s' = { s with filter := s.filter.merge f } := by
  obtain ⟨_, hscope, h⟩ := exists_of_bind_ok h
  exact ⟨requireScope_eq_ok hscope, (Except.ok.inj h).symm⟩

/-- A filter behind the check of a key. -/
theorem keyedFilter_eq_ok {key : String} {f : Filter}
    (h : (requireKey call key >>= fun _ => s.addFilter call f) = .ok s') :
    key.isEmpty = false ∧ s.contentType.isSome ∧ s' = { s with filter := s.filter.merge f } := by
  obtain ⟨_, hkey, h⟩ := exists_of_bind_ok h
  exact ⟨requireKey_eq_ok hkey, addFilter_eq_ok h⟩

theorem target_eq_ok {uid : Option String} (h : s.target call uid = .ok s') :
    (∀ u ∈ uid, u.isEmpty = false) ∧ s' = { s with uid := uid.or s.uid, single := true } := by
  cases uid with
  | none => exact ⟨nofun, (Except.ok.inj h).symm⟩
  | some u =>
    rw [target, refuse] at h
    split_ifs at h with hu
    exact ⟨by simpa using hu, (Except.ok.inj h).symm⟩

theorem sortBy_eq_ok {field : Option String} {direction : Direction}
    (h : s.sortBy call field direction = .ok s') :
    (∀ f ∈ field, f.isEmpty = false) ∧ s' = { s with sort := some ⟨field, direction⟩ } := by
  cases field with
  | none => exact ⟨nofun, (Except.ok.inj h).symm⟩
  | some f =>
    obtain ⟨_, hkey, h⟩ := exists_of_bind_ok h
    exact ⟨by simpa using requireKey_eq_ok hkey, (Except.ok.inj h).symm⟩

theorem project_eq_ok {fields : List String} {mark : Int32}
    (h : s.project call fields mark = .ok s') :
    s.contentType.isSome ∧ (fields ≠ [] ∧ ∀ f ∈ fields, f.isEmpty = false) ∧
      s' = { s with projection := s.projection ++ fields.map fun f => (f, mark) } := by
  obtain ⟨_, hscope, h⟩ := exists_of_bind_ok h
  obtain ⟨_, hnames, h⟩ := exists_of_bind_ok h
  exact ⟨requireScope_eq_ok hscope, requireNames_eq_ok hnames, (Except.ok.inj h).symm⟩

/-! ### What a call does -/

/-- Every call that succeeds makes one of the changes, and leaves the state of its effect. -/
theorem change_of_apply {c : Call} (h : s.apply c = .ok s') : Step s c s' ∧ s' = c.effect s := by
  cases c with
  | contentType uid =>
    rw [apply, refuse] at h
    split_ifs at h with huid
    obtain rfl := Except.ok.inj h
    exact ⟨.chosen (by simpa using huid), rfl⟩
  | asset uid | schema uid =>
    obtain ⟨huid, rfl⟩ := target_eq_ok h
    exact ⟨.one (.inl (by decide)) huid, rfl⟩
  | assets | schemas =>
    obtain rfl := Except.ok.inj h
    exact ⟨.many (.inl (by decide)), rfl⟩
  | entry uid =>
    -- the content type stays, which is to choose the one that is known
    obtain ⟨_, hscope, h⟩ := exists_of_bind_ok h
    obtain ⟨huid, rfl⟩ := target_eq_ok h
    obtain ⟨ct, hct⟩ := Option.isSome_iff_exists.mp (requireScope_eq_ok hscope)
    have hstep : Step s (.entry uid)
        { s with contentType := some ct, uid := uid.or s.uid, single := true } :=
      .one (.inr hct) huid
    rw [← hct] at hstep
    exact ⟨hstep, rfl⟩
  | entries =>
    obtain ⟨_, hscope, h⟩ := exists_of_bind_ok h
    obtain rfl := Except.ok.inj h
    obtain ⟨ct, hct⟩ := Option.isSome_iff_exists.mp (requireScope_eq_ok hscope)
    have hstep : Step s .entries { s with contentType := some ct, single := false } :=
      .many (.inr hct)
    rw [← hct] at hstep
    exact ⟨hstep, rfl⟩
  | language l =>
    rw [apply, refuse] at h
    split_ifs at h with hl
    obtain rfl := Except.ok.inj h
    exact ⟨.language (by simpa using hl), rfl⟩
  | lessThan key v | lessThanOrEqualTo key v | greaterThan key v | greaterThanOrEqualTo key v
  | notEqualTo key v | hasField key | lacksField key =>
    obtain ⟨hkey, hscope, rfl⟩ := keyedFilter_eq_ok h
    exact ⟨.adds hscope (.condition key _ hkey), rfl⟩
  | equalTo key v =>
    obtain ⟨hkey, hscope, rfl⟩ := keyedFilter_eq_ok h
    exact ⟨.adds hscope (.equals hkey), rfl⟩
  | containedIn key vs | notContainedIn key vs =>
    -- that the list is not empty is checked too, but no change depends on it
    obtain ⟨_, hkey, h⟩ := exists_of_bind_ok h
    obtain ⟨_, -, h⟩ := exists_of_bind_ok h
    obtain ⟨hscope, rfl⟩ := addFilter_eq_ok h
    exact ⟨.adds hscope (.condition key _ (requireKey_eq_ok hkey)), rfl⟩
  | regex key pattern options =>
    obtain ⟨_, hkey, h⟩ := exists_of_bind_ok h
    split_ifs at h
    · cases h
    · obtain ⟨hscope, rfl⟩ := addFilter_eq_ok h
      exact ⟨.adds hscope (.condition key _ (requireKey_eq_ok hkey)), rfl⟩
  | tags vs =>
    obtain ⟨_, -, h⟩ := exists_of_bind_ok h
    obtain ⟨hscope, rfl⟩ := addFilter_eq_ok h
    exact ⟨.adds hscope (.condition tagsField _ (by decide)), rfl⟩
  | and operands =>
    obtain ⟨_, -, h⟩ := exists_of_bind_ok h
    obtain ⟨fs, hfs, h⟩ := exists_of_bind_ok h
    obtain ⟨hscope, rfl⟩ := addFilter_eq_ok h
    have hadds : (Call.and operands).contribution = { allOf := fs } := by
      rw [Call.contribution, hfs]
      rfl
    exact ⟨.adds hscope (.allOf hfs), by rw [← hadds]; rfl⟩
  | or operands =>
    obtain ⟨_, -, h⟩ := exists_of_bind_ok h
    obtain ⟨fs, hfs, h⟩ := exists_of_bind_ok h
    obtain ⟨hscope, rfl⟩ := addFilter_eq_ok h
    have hadds : (Call.or operands).contribution = { anyOf := fs } := by
      rw [Call.contribution, hfs]
      rfl
    exact ⟨.adds hscope (.anyOf hfs), by rw [← hadds]; rfl⟩
  | script text =>
    rw [apply] at h
    split_ifs at h
    · cases h
    · obtain ⟨hscope, rfl⟩ := addFilter_eq_ok h
      exact ⟨.adds hscope .script, rfl⟩
  | query d =>
    rw [apply] at h
    split_ifs at h
    · cases h
    · obtain ⟨f, hf, h⟩ := exists_of_bind_ok h
      obtain ⟨hscope, rfl⟩ := addFilter_eq_ok h
      have hadds : (Call.query d).contribution = f := by
        rw [Call.contribution, hf]
        rfl
      exact ⟨.adds hscope (.predicate hf), by rw [← hadds]; rfl⟩
  | queryReferences d =>
    obtain ⟨_, hscope, h⟩ := exists_of_bind_ok h
    split_ifs at h
    · cases h
    · obtain ⟨f, hf, h⟩ := exists_of_bind_ok h
      obtain rfl := Except.ok.inj h
      refine ⟨.refers (requireScope_eq_ok hscope) hf, ?_⟩
      rw [Call.effect, hf]
      rfl
  | only fields =>
    obtain ⟨hscope, ⟨hne, hnames⟩, rfl⟩ := project_eq_ok h
    exact ⟨.projects hscope hne hnames (.only fields), rfl⟩
  | except fields =>
    obtain ⟨hscope, ⟨hne, hnames⟩, rfl⟩ := project_eq_ok h
    exact ⟨.projects hscope hne hnames (.except fields), rfl⟩
  | limit n =>
    obtain ⟨k, hk, h⟩ := exists_of_bind_ok h
    obtain rfl := requireNatural_eq_ok hk
    split_ifs at h with hn
    · cases h
    · obtain rfl := Except.ok.inj h
      exact ⟨.limits hn, rfl⟩
  | skip n =>
    obtain ⟨k, hk, h⟩ := exists_of_bind_ok h
    obtain rfl := requireNatural_eq_ok hk
    obtain rfl := Except.ok.inj h
    exact ⟨.skips, rfl⟩
  | ascending field | descending field =>
    obtain ⟨hfield, rfl⟩ := sortBy_eq_ok h
    exact ⟨.sorts hfield, rfl⟩
  | includePaths paths =>
    obtain ⟨_, hscope, h⟩ := exists_of_bind_ok h
    obtain ⟨_, hnames, h⟩ := exists_of_bind_ok h
    obtain rfl := Except.ok.inj h
    obtain ⟨hne, hnames⟩ := requireNames_eq_ok hnames
    exact ⟨.includes (requireScope_eq_ok hscope) hne hnames, rfl⟩
  | includeReferences =>
    obtain ⟨_, hscope, h⟩ := exists_of_bind_ok h
    obtain rfl := Except.ok.inj h
    exact ⟨.includesAll (requireScope_eq_ok hscope), rfl⟩
  | excludeReferences =>
    obtain ⟨_, hscope, h⟩ := exists_of_bind_ok h
    obtain rfl := Except.ok.inj h
    exact ⟨.excludes (requireScope_eq_ok hscope), rfl⟩
  | includeCount =>
    obtain rfl := Except.ok.inj h
    exact ⟨.counts, rfl⟩
  | includeSchema =>
    obtain rfl := Except.ok.inj h
    exact ⟨.schemas, rfl⟩

theorem step_of_apply {c : Call} (h : s.apply c = .ok s') : Step s c s' := (change_of_apply h).1

theorem effect_of_apply {c : Call} (h : s.apply c = .ok s') : s' = c.effect s :=
  (change_of_apply h).2

/-! ### Reachable states -/

/-- What every change keeps holds after any calls.  The calls may be of a kind. -/
theorem invariant_of_step (I : QueryState → Prop) (kind : Call → Prop)
    (step : ∀ s c s', kind c → I s → Step s c s' → I s') {calls : List Call}
    (hkind : ∀ c ∈ calls, kind c) (hs : I s) (h : s.applyAll calls = .ok s') : I s' := by
  induction calls generalizing s with
  | nil =>
    obtain rfl := Except.ok.inj h
    exact hs
  | cons c rest ih =>
    obtain ⟨mid, hmid, h⟩ := exists_of_bind_ok h
    have hstep := step s c mid (hkind c List.mem_cons_self) hs (step_of_apply hmid)
    exact ih (fun c' hc' => hkind c' (List.mem_cons_of_mem c hc')) hstep h

/-- A limit, when there is one, is not zero. -/
theorem Reachable.limit_ne_zero (h : s.Reachable) : s.limit ≠ some 0 := by
  obtain ⟨calls, h⟩ := h
  refine invariant_of_step (fun s => s.limit ≠ some 0) (fun _ => True) ?_
    (fun _ _ => trivial) (by simp) h
  intro s c s' _ hs hstep
  cases hstep with
  | limits hn => simpa using hn
  | _ => exact hs

end QueryState

end ContentQuery
