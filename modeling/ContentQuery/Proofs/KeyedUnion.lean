/-
Uniting lists by a key.

Each item of a second list is combined with the item of its key in the first one, in
place, and goes to the end when there is none.

* `union_nil_left` — nothing is a unit on the left, where keys are distinct;
* `nodup_union` — distinct keys stay distinct;
* `Laws.union_assoc` — if combining is associative, so is uniting, with the order of the
  items.  An item of the third list comes to the same place whether its key is in the first
  list, in the second, in both or in neither;
* `Filter.mergePredicate_conditions` — conditions of one path are united by operator.
-/
import ContentQuery.Filter.Merge
import Mathlib.Data.List.Nodup
import Mathlib.Tactic.SplitIfs

namespace ContentQuery

namespace Keyed

variable {α κ : Type} [DecidableEq κ] (key : α → κ) (combine : α → α → α)

/-- Combine an item with the one of its key, or put it at the end. -/
def add : List α → α → List α
  | [], new => [new]
  | x :: rest, new => if key x = key new then combine x new :: rest else x :: add rest new

/-- Add all items of the second list to the first. -/
def union (xs ys : List α) : List α := ys.foldl (add key combine) xs

/-- Items whose combination is one of them, has their key and is associative. -/
structure Laws (key : α → κ) (combine : α → α → α) (P : α → Prop) : Prop where
  key_eq : ∀ {x y}, key x = key y → key (combine x y) = key y
  closed : ∀ {x y}, P x → P y → key x = key y → P (combine x y)
  assoc : ∀ {x y z}, P x → P y → P z → key x = key y → key y = key z →
    combine (combine x y) z = combine x (combine y z)

variable {key combine}

/-! ### Items without their like -/

theorem add_of_notMem {xs : List α} {y : α} (h : key y ∉ xs.map key) :
    add key combine xs y = xs ++ [y] := by
  induction xs with
  | nil => rfl
  | cons x rest ih =>
    obtain ⟨hx, hrest⟩ := not_or.mp (mt List.mem_cons.mpr h)
    rw [add, if_neg (Ne.symm hx), ih hrest, List.cons_append]

theorem union_of_disjoint {xs ys : List α} (hys : (ys.map key).Nodup)
    (h : (xs.map key).Disjoint (ys.map key)) : union key combine xs ys = xs ++ ys := by
  unfold union
  induction ys generalizing xs with
  | nil => exact (List.append_nil xs).symm
  | cons y rest ih =>
    obtain ⟨hy, hrest⟩ := List.nodup_cons.mp hys
    rw [List.map_cons, List.disjoint_cons_right] at h
    rw [List.foldl_cons, add_of_notMem h.1, ih hrest, List.append_assoc]
    · rfl
    · rw [List.map_append, List.disjoint_append_left]
      exact ⟨h.2, List.singleton_disjoint.mpr hy⟩

theorem union_nil_left {ys : List α} (hys : (ys.map key).Nodup) :
    union key combine [] ys = ys :=
  union_of_disjoint hys (List.disjoint_nil_left _)

namespace Laws

variable {P : α → Prop} (laws : Laws key combine P)
include laws

/-! ### Keys and items -/

theorem keys_add (xs : List α) (y : α) :
    (add key combine xs y).map key =
      if key y ∈ xs.map key then xs.map key else xs.map key ++ [key y] := by
  induction xs with
  | nil => simp [add]
  | cons x rest ih =>
    rw [add]
    by_cases h : key x = key y
    · simp [h, laws.key_eq h]
    · simp only [if_neg h, List.map_cons, ih, List.mem_cons, Ne.symm h, false_or]
      split <;> rfl

theorem mem_keys_add {xs : List α} {y : α} {k : κ} (h : k ∈ xs.map key) :
    k ∈ (add key combine xs y).map key := by
  rw [laws.keys_add]
  split
  · exact h
  · exact List.mem_append_left _ h

theorem nodup_add {xs : List α} (h : (xs.map key).Nodup) (y : α) :
    ((add key combine xs y).map key).Nodup := by
  rw [laws.keys_add]
  split
  · exact h
  · rename_i hnew
    rw [← List.concat_eq_append]
    exact h.concat hnew

theorem nodup_union {xs : List α} (h : (xs.map key).Nodup) (ys : List α) :
    ((union key combine xs ys).map key).Nodup := by
  unfold union
  induction ys generalizing xs with
  | nil => exact h
  | cons y rest ih => exact ih (laws.nodup_add h y)

theorem forall_add {xs : List α} {y : α} (hxs : ∀ x ∈ xs, P x) (hy : P y) :
    ∀ x ∈ add key combine xs y, P x := by
  induction xs with
  | nil => simpa [add] using hy
  | cons x rest ih =>
    obtain ⟨hx, hrest⟩ := List.forall_mem_cons.mp hxs
    rw [add]
    split_ifs with h
    · exact List.forall_mem_cons.mpr ⟨laws.closed hx hy h, hrest⟩
    · exact List.forall_mem_cons.mpr ⟨hx, ih hrest⟩

theorem forall_union {xs ys : List α} (hxs : ∀ x ∈ xs, P x) (hys : ∀ y ∈ ys, P y) :
    ∀ x ∈ union key combine xs ys, P x := by
  unfold union
  induction ys generalizing xs with
  | nil => exact hxs
  | cons y rest ih =>
    obtain ⟨hy, hrest⟩ := List.forall_mem_cons.mp hys
    exact ih (laws.forall_add hxs hy) hrest

/-! ### Two additions -/

/-- Two additions of one key are one addition of both items. -/
theorem add_add {xs : List α} {y z : α} (hxs : ∀ x ∈ xs, P x) (hy : P y) (hz : P z)
    (h : key y = key z) :
    add key combine (add key combine xs y) z = add key combine xs (combine y z) := by
  have hkey := laws.key_eq h
  induction xs with
  | nil => simp [add, h]
  | cons x rest ih =>
    obtain ⟨hx, hrest⟩ := List.forall_mem_cons.mp hxs
    rw [add, add, hkey, ← h]
    split_ifs with hxy
    · rw [add, if_pos ((laws.key_eq hxy).trans h), laws.assoc hx hy hz hxy h]
    · rw [add, if_neg fun hxz => hxy (hxz.trans h.symm), ih hrest]

/-- Additions of two keys commute, if the second one is there: otherwise the order of what
is appended would tell them apart. -/
theorem add_comm {xs : List α} {y z : α} (h : key y ≠ key z) (hz : key z ∈ xs.map key) :
    add key combine (add key combine xs y) z = add key combine (add key combine xs z) y := by
  induction xs with
  | nil => cases hz
  | cons x rest ih =>
    -- what was combined is still found under its key
    by_cases hxy : key x = key y
    · have hxz : key x ≠ key z := fun hxz => h (hxy.symm.trans hxz)
      have hxz' : key (combine x y) ≠ key z := fun hxz' => h ((laws.key_eq hxy).symm.trans hxz')
      simp only [add, if_pos hxy, if_neg hxz, if_neg hxz']
    · by_cases hxz : key x = key z
      · have hxy' : key (combine x z) ≠ key y :=
          fun hxy' => h (hxy'.symm.trans (laws.key_eq hxz))
        simp only [add, if_neg hxy, if_pos hxz, if_neg hxy']
      · have hrest : key z ∈ rest.map key := (List.mem_cons.mp hz).resolve_left (Ne.symm hxz)
        simp only [add, if_neg hxy, if_neg hxz, ih hrest]

/-! ### Additions and unions -/

/-- An addition to an item that is there may come before a union that does not touch it. -/
theorem union_add_comm {xs ys : List α} {z : α} (hxs : key z ∈ xs.map key)
    (hys : key z ∉ ys.map key) :
    add key combine (union key combine xs ys) z = union key combine (add key combine xs z) ys := by
  unfold union
  induction ys generalizing xs with
  | nil => rfl
  | cons y rest ih =>
    obtain ⟨hy, hrest⟩ := not_or.mp (mt List.mem_cons.mpr hys)
    rw [List.foldl_cons, List.foldl_cons, ih (laws.mem_keys_add hxs) hrest,
      laws.add_comm (Ne.symm hy) hxs]

/-- An addition to a union is an addition to its second list. -/
theorem union_add {xs ys : List α} {z : α} (hys : (ys.map key).Nodup) (hPx : ∀ x ∈ xs, P x)
    (hPy : ∀ y ∈ ys, P y) (hz : P z) :
    add key combine (union key combine xs ys) z = union key combine xs (add key combine ys z) := by
  induction ys generalizing xs with
  | nil => rfl
  | cons y rest ih =>
    obtain ⟨hy, hrest⟩ := List.nodup_cons.mp hys
    obtain ⟨hPy, hPrest⟩ := List.forall_mem_cons.mp hPy
    rw [add]
    split_ifs with h
    · -- the item is that of `y`, which no other item of the list touches
      rw [h] at hy
      have hadded : key z ∈ (add key combine xs y).map key := by
        rw [laws.keys_add, ← h]
        split
        · assumption
        · exact List.mem_append_right _ (List.mem_singleton.mpr rfl)
      calc add key combine (union key combine (add key combine xs y) rest) z
          = union key combine (add key combine (add key combine xs y) z) rest :=
            laws.union_add_comm hadded hy
        _ = union key combine (add key combine xs (combine y z)) rest := by
            rw [laws.add_add hPx hPy hz h]
    · exact ih hrest (laws.forall_add hPx hPy) hPrest

/-- Uniting is associative, with the order of the items. -/
theorem union_assoc {xs ys zs : List α} (hys : (ys.map key).Nodup) (hPx : ∀ x ∈ xs, P x)
    (hPy : ∀ y ∈ ys, P y) (hPz : ∀ z ∈ zs, P z) :
    union key combine (union key combine xs ys) zs =
      union key combine xs (union key combine ys zs) := by
  -- the items of the third list go over to the second one by one
  induction zs generalizing ys with
  | nil => rfl
  | cons z rest ih =>
    obtain ⟨hz, hrest⟩ := List.forall_mem_cons.mp hPz
    calc union key combine (add key combine (union key combine xs ys) z) rest
        = union key combine (union key combine xs (add key combine ys z)) rest := by
          rw [laws.union_add hys hPx hPy hz]
      _ = union key combine xs (union key combine (add key combine ys z) rest) :=
          ih (laws.nodup_add hys z) (laws.forall_add hPy hz) hrest

end Laws

end Keyed

/-! ### Conditions -/

theorem Condition.exists_oneOf {c : Condition} (h : c.operator = "$in") : ∃ vs, c = .oneOf vs := by
  cases c with
  | oneOf vs => exact ⟨vs, rfl⟩
  | compare op v => cases op <;> simp [operator, Comparison.operator] at h
  | _ => simp [operator] at h

theorem Condition.exists_noneOf {c : Condition} (h : c.operator = "$nin") :
    ∃ vs, c = .noneOf vs := by
  cases c with
  | noneOf vs => exact ⟨vs, rfl⟩
  | compare op v => cases op <;> simp [operator, Comparison.operator] at h
  | _ => simp [operator] at h

namespace Filter

theorem operator_mergeSame {old new : Condition} (h : old.operator = new.operator) :
    (mergeSame old new).operator = new.operator := by
  unfold mergeSame
  split <;> first | exact h | rfl

/-- Operands of `$in` and of `$nin` are put side by side, and of other conditions the last
one stays. -/
theorem mergeSame_assoc {a b c : Condition} (hab : a.operator = b.operator)
    (hbc : b.operator = c.operator) :
    mergeSame (mergeSame a b) c = mergeSame a (mergeSame b c) := by
  cases c with
  | oneOf zs =>
    obtain ⟨ys, rfl⟩ := Condition.exists_oneOf hbc
    obtain ⟨xs, rfl⟩ := Condition.exists_oneOf hab
    simp only [mergeSame, List.append_assoc]
  | noneOf zs =>
    obtain ⟨ys, rfl⟩ := Condition.exists_noneOf hbc
    obtain ⟨xs, rfl⟩ := Condition.exists_noneOf hab
    simp only [mergeSame, List.append_assoc]
  | _ => simp [mergeSame]

theorem laws_mergeSame : Keyed.Laws Condition.operator mergeSame fun _ => True where
  key_eq := operator_mergeSame
  closed _ _ _ := trivial
  assoc _ _ _ := mergeSame_assoc

theorem mergeCondition_eq_add : mergeCondition = Keyed.add Condition.operator mergeSame := by
  funext conds new
  induction conds with
  | nil => rfl
  | cons old rest ih => rw [mergeCondition, Keyed.add, ih]

theorem mergePredicate_conditions (a b : List Condition) :
    mergePredicate (.conditions a) (.conditions b) =
      .conditions (Keyed.union Condition.operator mergeSame a b) := by
  rw [mergePredicate, mergeCondition_eq_add]
  rfl

end Filter

end ContentQuery
