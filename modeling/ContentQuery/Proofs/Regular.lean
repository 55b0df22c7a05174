/-
Filters without collisions.

In the filters that are read from documents with distinct keys, and in all that
merging makes of these, no path stands twice and no operator stands twice at one
path:

* `fieldInvariant_distinct` — paths and operators stay distinct and not empty;
* `fieldInvariant_literal` — a value to equal never reads as operators, if none of
  the calls gives such a value.
-/
import ContentQuery.Proofs.FieldInvariants
import ContentQuery.Proofs.KeyedUnion

namespace ContentQuery

/-- A list of conditions of a predicate is not empty, and its operators are
distinct. -/
def Predicate.Distinct : Predicate → Prop
  | .equals _ => True
  | .conditions conds => conds ≠ [] ∧ (conds.map Condition.operator).Nodup

/-- A value to equal is none that reads as operators. -/
def Predicate.Literal : Predicate → Prop
  | .equals v => Filter.operators? v = none
  | .conditions _ => True

namespace Filter

/-- The paths are distinct and not empty, and so are the operators of each. -/
def DistinctFields (fields : List (String × Predicate)) : Prop :=
  (Entries.keys fields).Nodup ∧ ∀ e ∈ fields, e.1.isEmpty = false ∧ e.2.Distinct

/-- Every value to equal reads back as a value. -/
def LiteralFields (fields : List (String × Predicate)) : Prop := ∀ e ∈ fields, e.2.Literal

/-! ### Conditions -/

theorem distinct_mergeConditions {a : List Condition} (ha : Predicate.Distinct (.conditions a))
    (b : List Condition) : Predicate.Distinct (.conditions (b.foldl mergeCondition a)) := by
  induction b generalizing a with
  | nil => exact ha
  | cons new rest ih =>
    obtain ⟨hne, hnodup⟩ := ha
    refine ih ⟨?_, ?_⟩
    · cases a with
      | nil => exact absurd rfl hne
      | cons old others =>
        rw [mergeCondition]
        split <;> exact List.cons_ne_nil _ _
    · rw [mergeCondition_eq_add]
      exact laws_mergeSame.nodup_add hnodup new

theorem distinct_mergePredicate {a b : Predicate} (ha : a.Distinct) (hb : b.Distinct) :
    (mergePredicate a b).Distinct := by
  unfold mergePredicate
  split
  · exact distinct_mergeConditions ha _
  · trivial
  · trivial
  · exact hb

theorem operator_of_parseCondition {field options operator : String} {v : Value} {c : Condition}
    (h : parseCondition field options operator v = .ok c) : c.operator = operator := by
  unfold parseCondition at h
  split at h
  all_goals first
    | exact (Except.ok.inj h) ▸ rfl
    | (split at h <;> first | exact (Except.ok.inj h) ▸ rfl | cases h)
    | cases h

/-- Every operator but the options of a pattern becomes one condition. -/
theorem operators_of_parseConditions {field options : String} {ops : Document}
    {conds : List Condition} (h : parseConditions field options ops = .ok conds) :
    conds.map Condition.operator = (Entries.keys ops).filter (· ≠ "$options") := by
  induction ops generalizing conds with
  | nil =>
    obtain rfl := Except.ok.inj h
    rfl
  | cons e rest ih =>
    obtain ⟨op, v⟩ := e
    rw [parseConditions] at h
    have hkeys : Entries.keys ((op, v) :: rest) = op :: Entries.keys rest := rfl
    split_ifs at h with hop
    · -- the options go with the pattern, they are no condition
      rw [ih h, hkeys, List.filter_cons_of_neg (by simpa using hop)]
    · obtain ⟨c, hc, h⟩ := exists_of_bind_ok h
      obtain ⟨cs, hcs, h⟩ := exists_of_bind_ok h
      obtain rfl := Except.ok.inj h
      rw [List.map_cons, operator_of_parseCondition hc, ih hcs, hkeys,
        List.filter_cons_of_pos (by simpa using hop)]

theorem operators?_eq_some_iff {v : Value} {ops : Document} :
    operators? v = some ops ↔
      v = .document ops ∧ ops ≠ [] ∧ ∀ k ∈ Entries.keys ops, isOperator k = true := by
  cases v with
  | document d =>
    rw [operators?]
    constructor
    · intro h
      split_ifs at h with hd
      obtain rfl := Option.some.inj h
      obtain ⟨hne, hall⟩ := Bool.and_eq_true_iff.mp hd
      refine ⟨rfl, by simpa using hne, ?_⟩
      rintro k hk
      obtain ⟨e, he, rfl⟩ := List.mem_map.mp hk
      exact List.all_eq_true.mp hall e he
    · rintro ⟨heq, hne, hall⟩
      obtain rfl := Value.document.inj heq
      refine if_pos (Bool.and_eq_true_iff.mpr ⟨by simpa using hne, List.all_eq_true.mpr ?_⟩)
      exact fun e he => hall e.1 (Entries.mem_keys_of_mem he)
  | _ => simp [operators?]

theorem distinct_of_parsePredicate {key : String} {v : Value} {p : Predicate}
    (hv : v.wellFormed = true) (h : parsePredicate key v = .ok p) : p.Distinct := by
  unfold parsePredicate at h
  split at h
  · obtain rfl := Except.ok.inj h
    trivial
  · rename_i ops hops
    obtain ⟨options, -, h⟩ := exists_of_bind_ok h
    obtain ⟨conds, hconds, h⟩ := exists_of_bind_ok h
    split_ifs at h with hempty
    obtain rfl := Except.ok.inj h
    obtain ⟨rfl, -, -⟩ := operators?_eq_some_iff.mp hops
    have hwf : Document.wellFormed ops = true := hv
    refine ⟨by simpa using hempty, ?_⟩
    rw [operators_of_parseConditions hconds]
    exact (Document.nodup_keys hwf).filter _

/-! ### Fields -/

/-- Merging fields unites their paths. -/
theorem mem_keys_foldl_mergeField {a b : List (String × Predicate)} {k : String} :
    k ∈ Entries.keys (b.foldl mergeField a) ↔ k ∈ Entries.keys a ∨ k ∈ Entries.keys b := by
  induction b generalizing a with
  | nil => simp [Entries.keys]
  | cons new rest ih =>
    have hkeys : Entries.keys (new :: rest) = new.1 :: Entries.keys rest := rfl
    rw [List.foldl_cons, ih, mergeField, Entries.mem_keys_upsert, hkeys, List.mem_cons, or_assoc]

theorem distinctFields_mergeField {fields : List (String × Predicate)} (h : DistinctFields fields)
    {new : String × Predicate} (hkey : new.1.isEmpty = false) (hnew : new.2.Distinct) :
    DistinctFields (mergeField fields new) := by
  refine ⟨Entries.nodup_keys_upsert h.1 _ _, fun e he => ?_⟩
  rcases Entries.mem_upsert he with hold | rfl | ⟨old, hold, rfl⟩
  · exact h.2 e hold
  · exact ⟨hkey, hnew⟩
  · exact ⟨hkey, distinct_mergePredicate (h.2 _ hold).2 hnew⟩

theorem fieldInvariant_distinct : FieldInvariant DistinctFields where
  nil := ⟨.nil, by simp⟩
  read := by
    intro fields key v p h hkey _ hfresh hv hp
    refine ⟨?_, ?_⟩
    · rw [Entries.keys_append]
      show (Entries.keys fields ++ [key]).Nodup
      rw [← List.concat_eq_append]
      exact List.Nodup.concat hfresh h.1
    · intro e he
      rcases List.mem_append.mp he with he | he
      · exact h.2 e he
      · obtain rfl := List.mem_singleton.mp he
        exact ⟨hkey, distinct_of_parsePredicate hv hp⟩
  condition := by
    intro key cond hkey
    refine ⟨by simp [Entries.keys], fun e he => ?_⟩
    obtain rfl := List.mem_singleton.mp he
    exact ⟨hkey, by simp [Predicate.Distinct]⟩
  merge := by
    intro a b ha hb
    induction b generalizing a with
    | nil => exact ha
    | cons new rest ih =>
      obtain ⟨hkey, hnew⟩ := hb.2 new List.mem_cons_self
      have hrest : DistinctFields rest :=
        ⟨(List.nodup_cons.mp hb.1).2, fun e he => hb.2 e (List.mem_cons_of_mem new he)⟩
      exact ih _ (distinctFields_mergeField ha hkey hnew) hrest

/-! ### Values -/

theorem mem_keys_mergeFields {a b : Document} {k : String} :
    k ∈ Entries.keys (Document.mergeFields a b) ↔ k ∈ Entries.keys a ∨ k ∈ Entries.keys b := by
  induction b generalizing a with
  | nil =>
    rw [Document.mergeFields]
    simp [Entries.keys]
  | cons e rest ih =>
    obtain ⟨j, v⟩ := e
    have hkeys : Entries.keys ((j, v) :: rest) = j :: Entries.keys rest := rfl
    rw [Document.mergeFields, ih, Entries.insert, Entries.mem_keys_upsert, hkeys, List.mem_cons,
      or_assoc]

/-- Of two documents that do not read as operators, neither does the merged one:
a key that is no operator stays. -/
theorem operators?_mergeFields {a b : Document} (ha : operators? (.document a) = none)
    (hb : operators? (.document b) = none) :
    operators? (.document (Document.mergeFields a b)) = none := by
  rw [Option.eq_none_iff_forall_ne_some] at ha hb ⊢
  intro ops hops
  obtain ⟨heq, hne, hall⟩ := operators?_eq_some_iff.mp hops
  obtain rfl := Value.document.inj heq
  have hall' : ∀ k, k ∈ Entries.keys a ∨ k ∈ Entries.keys b → isOperator k = true :=
    fun k hk => hall k (mem_keys_mergeFields.mpr hk)
  -- an empty document is no operators either, so one of the two is not empty
  by_cases hempty : a = []
  · by_cases hempty' : b = []
    · subst hempty hempty'
      exact hne (by rw [Document.mergeFields])
    · exact hb b (operators?_eq_some_iff.mpr ⟨rfl, hempty', fun k hk => hall' k (.inr hk)⟩)
  · exact ha a (operators?_eq_some_iff.mpr ⟨rfl, hempty, fun k hk => hall' k (.inl hk)⟩)

theorem literal_mergePredicate {a b : Predicate} (ha : a.Literal) (hb : b.Literal) :
    (mergePredicate a b).Literal := by
  unfold mergePredicate
  split
  · trivial
  · exact operators?_mergeFields ha hb
  · rfl
  · exact hb

theorem literal_of_parsePredicate {key : String} {v : Value} {p : Predicate}
    (h : parsePredicate key v = .ok p) : p.Literal := by
  unfold parsePredicate at h
  split at h
  · rename_i hops
    obtain rfl := Except.ok.inj h
    exact hops
  · obtain ⟨options, -, h⟩ := exists_of_bind_ok h
    obtain ⟨conds, -, h⟩ := exists_of_bind_ok h
    split_ifs at h
    obtain rfl := Except.ok.inj h
    trivial

theorem fieldInvariant_literal : FieldInvariant LiteralFields where
  nil := by simp [LiteralFields]
  read := by
    intro fields key v p h _ _ _ _ hp e he
    rcases List.mem_append.mp he with he | he
    · exact h e he
    · obtain rfl := List.mem_singleton.mp he
      exact literal_of_parsePredicate hp
  condition := by
    intro key cond _ e he
    obtain rfl := List.mem_singleton.mp he
    trivial
  merge := by
    intro a b ha hb
    induction b generalizing a with
    | nil => exact ha
    | cons new rest ih =>
      refine ih _ (fun e he => ?_) fun e he => hb e (List.mem_cons_of_mem new he)
      have hnew := hb new List.mem_cons_self
      rcases Entries.mem_upsert he with hold | rfl | ⟨old, hold, rfl⟩
      · exact ha e hold
      · exact hnew
      · exact literal_mergePredicate (ha _ hold) hnew

end Filter

end ContentQuery
