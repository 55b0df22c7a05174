/-
The order of values.

A sort orders values by rank and, within a bracket, by what they hold.  Two kinds
have the rank of a bracket without belonging to it: a decimal number and a symbol
have no place among the numbers and the strings, and equal every one of them.

* `compare_of_placed` — all other values compare as they stand, by rank, number and
  text;
* `compare_trans` — so they pass the order on;
* `compare_preorder` — the order is a total preorder, up to what stands without a
  place between two values in the wrong order.
-/
import ContentQuery.Value.Order

namespace ContentQuery

namespace Value

/-- Kinds that have the rank of a bracket and no place in it: decimal numbers among the
numbers, and symbols among the strings. -/
def isUnplaced : Value → Bool
  | decimal128 _ | symbol _ => true
  | _ => false

/-- Where a value stands: its rank, and within a bracket a number or a text. -/
structure Standing where
  rank : Nat
  weight : Int := 0
  text : String := ""

instance : Ord Standing where
  compare := compareLex (compareOn Standing.rank)
    (compareLex (compareOn Standing.weight) (compareOn Standing.text))

instance : Std.TransOrd Standing :=
  inferInstanceAs (Std.TransCmp (compareLex (compareOn Standing.rank)
    (compareLex (compareOn Standing.weight) (compareOn Standing.text))))

/-- Where a value stands among all values. -/
def standing (v : Value) : Standing :=
  match v.number?, v with
  | some x, _ => { rank := v.rank, weight := x.place }
  | none, string s => { rank := v.rank, text := s }
  | none, bool b => { rank := v.rank, weight := if b then 1 else 0 }
  | none, dateTime t => { rank := v.rank, weight := t.toInt }
  | none, _ => { rank := v.rank }

theorem rank_standing (v : Value) : v.standing.rank = v.rank := by
  unfold standing
  split <;> rfl

/-- Values that have a place in their bracket compare as they stand. -/
theorem compare_of_placed {a b : Value} (ha : a.isUnplaced = false) (hb : b.isUnplaced = false) :
    a.compare b = Ord.compare a.standing b.standing := by
  cases a with
  | decimal128 _ | symbol _ => cases ha
  | int32 _ | int64 _ | double _ =>
    cases b with
    | decimal128 _ | symbol _ => cases hb
    | int32 _ | int64 _ | double _ => exact Ordering.then_eq.symm
    | _ => rfl
  | bool x =>
    cases b with
    | decimal128 _ | symbol _ => cases hb
    | bool y => cases x <;> cases y <;> rfl
    | _ => rfl
  | dateTime _ =>
    cases b with
    | decimal128 _ | symbol _ => cases hb
    | dateTime _ => exact Ordering.then_eq.symm
    | _ => rfl
  | _ =>
    cases b with
    | decimal128 _ | symbol _ => cases hb
    | _ => rfl

/-- A value without a place is told apart from others by its rank alone. -/
theorem compare_of_unplaced {a b : Value} (h : a.isUnplaced = true ∨ b.isUnplaced = true) :
    a.compare b = Ord.compare a.rank b.rank := by
  rcases h with h | h
  · cases a with
    | decimal128 _ | symbol _ => rfl
    | _ => cases h
  · cases b with
    | decimal128 _ | symbol _ => cases a <;> rfl
    | _ => cases h

theorem unplaced_or_placed (a b : Value) :
    (a.isUnplaced = true ∨ b.isUnplaced = true) ∨ a.isUnplaced = false ∧ b.isUnplaced = false := by
  cases a.isUnplaced <;> cases b.isUnplaced <;> simp

/-- To turn a comparison round is to turn its answer round. -/
instance : Std.OrientedCmp Value.compare where
  eq_swap {a b} := by
    rcases unplaced_or_placed a b with h | ⟨ha, hb⟩
    · rw [compare_of_unplaced h, compare_of_unplaced h.symm]
      exact Std.OrientedOrd.eq_swap
    · rw [compare_of_placed ha hb, compare_of_placed hb ha]
      exact Std.OrientedOrd.eq_swap

variable {a b c : Value}

/-- Values are ordered by rank first. -/
theorem exists_compare_eq_then (a b : Value) :
    ∃ o, a.compare b = (Ord.compare a.rank b.rank).then o := by
  rcases unplaced_or_placed a b with h | ⟨ha, hb⟩
  · exact ⟨.eq, by rw [compare_of_unplaced h, Ordering.then_eq]⟩
  · rw [compare_of_placed ha hb, ← rank_standing a, ← rank_standing b]
    exact ⟨_, rfl⟩

theorem rank_le_of_compare (h : (a.compare b).isLE) : a.rank ≤ b.rank := by
  obtain ⟨o, ho⟩ := exists_compare_eq_then a b
  rw [ho] at h
  exact Nat.isLE_compare.mp (Ordering.isLE_left_of_isLE_then h)

theorem compare_of_rank_lt (h : a.rank < b.rank) : a.compare b = .lt := by
  obtain ⟨o, ho⟩ := exists_compare_eq_then a b
  rw [ho, Nat.compare_eq_lt.mpr h]
  rfl

/-- Without a place in it, a value equals all values of its rank. -/
theorem compare_eq_of_unplaced (h : a.isUnplaced = true ∨ b.isUnplaced = true)
    (hrank : a.rank = b.rank) : a.compare b = .eq := by
  rw [compare_of_unplaced h, hrank]
  exact Std.ReflOrd.compare_self

/-- A value that has a place in its bracket, or a rank of its own, passes the order on. -/
theorem compare_trans (hab : (a.compare b).isLE) (hbc : (b.compare c).isLE)
    (h : b.isUnplaced = true → a.rank = b.rank → c.rank ≠ b.rank) : (a.compare c).isLE := by
  have hrank := rank_le_of_compare hab
  have hrank' := rank_le_of_compare hbc
  by_cases hlt : a.rank < c.rank
  · rw [compare_of_rank_lt hlt]
    rfl
  -- all three have one rank
  have hb : b.isUnplaced = false := by
    rw [← Bool.not_eq_true]
    intro hb
    exact h hb (by omega) (by omega)
  rcases unplaced_or_placed a c with hac | ⟨ha, hc⟩
  · rw [compare_eq_of_unplaced hac (by omega)]
    rfl
  · rw [compare_of_placed ha hb] at hab
    rw [compare_of_placed hb hc] at hbc
    rw [compare_of_placed ha hc]
    exact Std.TransOrd.isLE_trans hab hbc

/-- The order of values is reflexive, it turns round with its operands, and it is
transitive except where a value without a place in its bracket stands between two values
of the bracket that are in the wrong order. -/
theorem compare_preorder (a b c : Value) :
    a.compare a = .eq ∧ b.compare a = (a.compare b).swap ∧
      ((a.compare b ≠ .gt → b.compare c ≠ .gt → a.compare c ≠ .gt) ↔
        ¬ (b.isUnplaced = true ∧ a.rank = b.rank ∧ c.rank = b.rank ∧ a.compare c = .gt)) := by
  refine ⟨Std.ReflCmp.compare_self, Std.OrientedCmp.eq_swap, ?_⟩
  constructor
  · rintro htrans ⟨hb, hab, hcb, hgt⟩
    have hab' : a.compare b = .eq := compare_eq_of_unplaced (.inr hb) hab
    have hbc' : b.compare c = .eq := compare_eq_of_unplaced (.inl hb) hcb.symm
    exact htrans (by rw [hab']; decide) (by rw [hbc']; decide) hgt
  · intro hplaced hab hbc hgt
    replace hab := Ordering.ne_gt_iff_isLE.mp hab
    replace hbc := Ordering.ne_gt_iff_isLE.mp hbc
    have hac := compare_trans hab hbc fun hb hrank hrank' => hplaced ⟨hb, hrank, hrank', hgt⟩
    rw [hgt] at hac
    cases hac

/-- One and a half as a decimal number. -/
def oneAndHalf : Decimal128 := ⟨0x303e000000000000000000000000000f⟩

/-- A decimal number equals both of two numbers that differ. -/
theorem compare_numbers_around_decimal :
    (int32 2).compare (decimal128 oneAndHalf) = .eq ∧
    (decimal128 oneAndHalf).compare (int32 1) = .eq ∧ (int32 2).compare (int32 1) = .gt ∧
    ¬ ∀ a b c : Value, a.compare b ≠ .gt → b.compare c ≠ .gt → a.compare c ≠ .gt := by
  have hgt : (int32 2).compare (int32 1) = .gt := by decide
  refine ⟨rfl, rfl, hgt, fun htrans => ?_⟩
  exact htrans (int32 2) (decimal128 oneAndHalf) (int32 1) (by decide) (by decide) hgt

end Value
end ContentQuery
