/-
Range operators and equality.

Whether a value is at least another one is asked of the order of values, and whether it
is the same of equality.  The two tell numbers apart differently: the order puts the
negative zero below the positive one, and equality does not.  Everywhere else they agree:

* `Double.eqv_iff` — numbers that are equal are one number, or zeros;
* `Value.same_iff` — values that are the same stand at one place of the order, or they
  are zeros of different signs;
* `Filter.accepts_rangeOperators` — so at least is greater or equal, and at most is less
  or equal, except where only a zero of the other sign is equal.
-/
import ContentQuery.Pattern.Reading
import ContentQuery.Proofs.MergedFilters
import Mathlib.Tactic.SplitIfs

namespace ContentQuery

/-! ### Numbers -/

namespace Double

variable {x y : Double}

theorem negative_iff : x.negative = true ↔ Nat.pow 2 63 ≤ x.bits.toNat := decide_eq_true_iff

/-- The bits are the sign and the magnitude. -/
theorem toNat_bits (x : Double) :
    x.bits.toNat = (if x.negative then Nat.pow 2 63 else 0) + x.magnitude := by
  have hbits : x.bits.toNat < 2 * Nat.pow 2 63 := x.bits.toNat_lt
  split
  · rename_i h
    have hneg := negative_iff.mp h
    rw [magnitude, Nat.mod_eq_sub_mod hneg, Nat.mod_eq_of_lt (by omega), Nat.add_sub_cancel' hneg]
  · rename_i h
    have hneg : x.bits.toNat < Nat.pow 2 63 := Nat.lt_of_not_le (mt negative_iff.mpr h)
    rw [magnitude, Nat.mod_eq_of_lt hneg, Nat.zero_add]

/-- Each number has a place of its own. -/
theorem place_injective (h : x.place = y.place) : x = y := by
  have hbits : x.bits.toNat = y.bits.toNat := by
    rw [toNat_bits, toNat_bits]
    unfold place at h
    split_ifs at h ⊢ <;> omega
  cases x
  cases y
  exact congrArg mk (UInt64.toNat_inj.mp hbits)

theorem compareTotal_eq_eq_iff : x.compareTotal y = .eq ↔ x = y :=
  ⟨fun h => place_injective (Std.LawfulEqOrd.eq_of_compare h),
    fun h => h ▸ Std.ReflOrd.compare_self⟩

theorem isZero_iff : x.isZero = true ↔ x.magnitude = 0 := beq_iff_eq

theorem isNaN_of_isZero (h : x.isZero = true) : x.isNaN = false := by
  rw [isNaN, isZero_iff.mp h]
  rfl

/-- A number that equals a number is that number, or both are zeros. -/
theorem eqv_iff (hy : y.isNaN = false) :
    x.eqv y = true ↔ x = y ∨ x.isZero = true ∧ y.isZero = true := by
  have hbits : x.bits = y.bits ↔ x = y := by
    cases x
    cases y
    exact mk.injEq _ _ ▸ Iff.rfl
  rw [eqv, hy, Bool.not_false, Bool.and_true, Bool.and_eq_true, Bool.not_eq_true', Bool.or_eq_true,
    Bool.and_eq_true, beq_iff_eq, hbits]
  constructor
  · exact And.right
  · rintro (rfl | ⟨hx, hy'⟩)
    · exact ⟨hy, .inl rfl⟩
    · exact ⟨isNaN_of_isZero hx, .inr ⟨hx, hy'⟩⟩

/-- Of two zeros the negative one comes first. -/
theorem compareTotal_zeros (hx : x.isZero = true) (hy : y.isZero = true)
    (h : x.negative = !y.negative) : x.compareTotal y = if y.negative then .gt else .lt := by
  rw [compareTotal, place, place, isZero_iff.mp hx, isZero_iff.mp hy, h]
  cases y.negative <;> rfl

/-- Zeros of one sign are one number. -/
theorem eq_of_zeros (hx : x.isZero = true) (hy : y.isZero = true)
    (h : x.negative = y.negative) : x = y := by
  refine place_injective ?_
  rw [place, place, isZero_iff.mp hx, isZero_iff.mp hy, h]

theorem isNaN_ofMagnitude (negative : Bool) {n : Nat} (h : n ≤ infinite) :
    (ofMagnitude negative n).isNaN = false := by
  have hinf : infinite < 2 ^ 63 := by decide
  have hbits : (ofMagnitude negative n).bits.toNat =
      ((if negative then 2 ^ 63 else 0) + n) % 2 ^ 64 := rfl
  have hmagnitude : (ofMagnitude negative n).magnitude = n := by
    show (ofMagnitude negative n).bits.toNat % 2 ^ 63 = n
    rw [hbits]
    split <;> omega
  rw [isNaN, hmagnitude, decide_eq_false_iff_not]
  omega

theorem isNaN_ofInt (n : Int) : (ofInt n).isNaN = false := by
  refine isNaN_ofMagnitude _ ?_
  unfold nearest
  split
  · exact Nat.zero_le _
  · exact Nat.min_le_left _ _

end Double

/-! ### Values -/

namespace Value

/-- Whether a value has an order among others of its kind that predicates can ask for:
numbers that are numbers, texts, booleans and dates. -/
def isRanged : Value → Bool
  | int32 _ | int64 _ | string _ | bool _ | dateTime _ => true
  | double x => !x.isNaN
  | _ => false

/-- Whether a value is the zero of a sign. -/
def isZeroOf (negative : Bool) (v : Value) : Bool :=
  v.number?.any fun x => x.isZero && x.negative == negative

variable {a v : Value}

theorem isZeroOf_iff {negative : Bool} :
    v.isZeroOf negative = true ↔
      ∃ x, v.number? = some x ∧ x.isZero = true ∧ x.negative = negative := by
  rw [isZeroOf, Option.any_eq_true]
  exact exists_congr fun x => and_congr_right fun _ => by rw [Bool.and_eq_true, beq_iff_eq]

theorem isNaN_of_isRanged (hv : v.isRanged = true) {y : Double} (hy : v.number? = some y) :
    y.isNaN = false := by
  cases v with
  | int32 n | int64 n => exact Option.some.inj hy ▸ Double.isNaN_ofInt _
  | double x =>
    obtain rfl := Option.some.inj hy
    simpa [isRanged] using hv
  | _ => cases hy

theorem compareWithin?_numbers {x y : Double} (ha : a.number? = some x) (hv : v.number? = some y) :
    a.compareWithin? v = some (x.compareTotal y) := by
  unfold compareWithin?
  rw [ha, hv]

/-- Zeros of different signs have an order. -/
theorem compareWithin?_zeros {negative : Bool} (ha : a.isZeroOf (!negative) = true)
    (hv : v.isZeroOf negative = true) :
    a.compareWithin? v = some (if negative then .gt else .lt) := by
  obtain ⟨x, hx, hzero, hsign⟩ := isZeroOf_iff.mp ha
  obtain ⟨y, hy, hzero', rfl⟩ := isZeroOf_iff.mp hv
  rw [compareWithin?_numbers hx hy, Double.compareTotal_zeros hzero hzero' hsign]

/-- Numbers are the same when they stand at one place, or are zeros of different signs. -/
theorem same_numbers_iff {x y : Double} (ha : a.number? = some x) (hv : v.number? = some y)
    (hy : y.isNaN = false) :
    a.same v = true ↔ a.compareWithin? v = some .eq ∨
      ∃ negative, a.isZeroOf (!negative) = true ∧ v.isZeroOf negative = true := by
  have hsame : a.same v = x.eqv y := by rw [same, ha, hv]
  rw [hsame, compareWithin?_numbers ha hv, Option.some.injEq, Double.compareTotal_eq_eq_iff,
    Double.eqv_iff hy]
  constructor
  · rintro (rfl | ⟨hzero, hzero'⟩)
    · exact .inl rfl
    · by_cases hsign : x.negative = y.negative
      · exact .inl (Double.eq_of_zeros hzero hzero' hsign)
      · refine .inr ⟨y.negative, ?_, isZeroOf_iff.mpr ⟨y, hv, hzero', rfl⟩⟩
        exact isZeroOf_iff.mpr ⟨x, ha, hzero, Bool.eq_not_of_ne hsign⟩
  · rintro (rfl | ⟨negative, hzero, hzero'⟩)
    · exact .inl rfl
    · obtain ⟨x', hx', hzero, -⟩ := isZeroOf_iff.mp hzero
      obtain ⟨y', hy', hzero', -⟩ := isZeroOf_iff.mp hzero'
      rw [ha] at hx'
      rw [hv] at hy'
      obtain rfl := Option.some.inj hx'
      obtain rfl := Option.some.inj hy'
      exact .inr ⟨hzero, hzero'⟩

theorem isZeroOf_of_number?_eq_none {negative : Bool} (h : v.number? = none) :
    v.isZeroOf negative = false := by
  rw [isZeroOf, h]
  rfl

/-- What is no number is not the same as a number, and has no order to it. -/
theorem same_number_of_not_number (ha : a.number? = none) (hv : v.number?.isSome) :
    a.same v = false ∧ a.compareWithin? v = none := by
  cases a with
  | int32 _ | int64 _ | double _ => cases ha
  | _ =>
    cases v with
    | int32 _ | int64 _ | double _ => exact ⟨rfl, rfl⟩
    | _ => cases hv

/-- Texts, booleans and dates are the same when they stand at one place. -/
theorem same_iff_of_not_number (hv : v.isRanged = true) (hnone : v.number? = none) :
    a.same v = true ↔ a.compareWithin? v = some .eq := by
  cases v with
  | string _ | bool _ | dateTime _ =>
    cases a <;> simp [same, compareWithin?, number?, eqv, Int64.toInt_inj]
  | int32 _ | int64 _ | double _ => cases hnone
  | _ => cases hv

/-- Values are the same when they stand at one place of the order, or are zeros of
different signs. -/
theorem same_iff (hv : v.isRanged = true) :
    a.same v = true ↔ a.compareWithin? v = some .eq ∨
      ∃ negative, a.isZeroOf (!negative) = true ∧ v.isZeroOf negative = true := by
  cases hnumber : v.number? with
  | none =>
    rw [same_iff_of_not_number hv hnumber]
    simp [isZeroOf_of_number?_eq_none hnumber]
  | some y =>
    cases ha : a.number? with
    | none =>
      obtain ⟨hsame, hcompare⟩ := same_number_of_not_number ha (by rw [hnumber]; rfl)
      rw [hsame, hcompare]
      simp [isZeroOf_of_number?_eq_none ha]
    | some x => exact same_numbers_iff ha hnumber (isNaN_of_isRanged hv hnumber)

/-- An array is the same as no value of a range. -/
theorem elements_of_same (hv : v.isRanged = true) (h : a.same v = true) : a.elements = [a] := by
  cases a with
  | array items =>
    cases v with
    | int32 _ | int64 _ | double _ | string _ | bool _ | dateTime _ => cases h
    | _ => cases hv
  | _ => rfl

end Value

/-! ### Predicates -/

namespace Filter

variable {vals : List Value} {v : Value} {strict loose : Comparison}

theorem accepts_condition [PatternLanguage] (d : Document) (p : String) (c : Condition) :
    accepts d (condition p c) = c.accepts (Path.resolve d p) := by
  rw [condition, accepts_field, Predicate.accepts, List.all_cons, List.all_nil, Bool.and_true]

theorem holdsInOrder_iff {op : Comparison} :
    holdsInOrder op vals v = true ↔
      ∃ a ∈ leaves vals, ∃ o, a.compareWithin? v = some o ∧ op.accepts o = true := by
  simp [holdsInOrder, Option.any_eq_true]

/-- To hold a value of a range is to have a leaf at its place, or a zero of the other
sign. -/
theorem holds_iff (hv : v.isRanged = true) :
    holds vals v = true ↔ (∃ a ∈ leaves vals, a.compareWithin? v = some .eq) ∨
      ∃ a ∈ leaves vals, ∃ negative, a.isZeroOf (!negative) = true ∧
        v.isZeroOf negative = true := by
  have hleaf : holds vals v = true ↔ ∃ a ∈ leaves vals, a.same v = true := by
    rw [holds, Bool.or_eq_true, List.any_eq_true, List.any_eq_true]
    refine ⟨fun h => h.elim ?_ id, .inr⟩
    rintro ⟨a, ha, hsame⟩
    refine ⟨a, List.mem_flatMap.mpr ⟨a, ha, ?_⟩, hsame⟩
    rw [Value.elements_of_same hv hsame]
    exact List.mem_singleton_self a
  simp only [hleaf, Value.same_iff hv, and_or_left, exists_or]

theorem holdsInOrder_loose (h : ∀ o, loose.accepts o = true ↔ strict.accepts o = true ∨ o = .eq) :
    holdsInOrder loose vals v = true ↔
      holdsInOrder strict vals v = true ∨ ∃ a ∈ leaves vals, a.compareWithin? v = some .eq := by
  simp only [holdsInOrder_iff, h, and_or_left, exists_or, exists_eq_right]

/-- An operator that also accepts equals holds where the strict one or equality does,
except where only zeros of the other sign are equal and the order refuses them. -/
theorem loose_iff_strict_or_holds (hv : v.isRanged = true) (negative : Bool)
    (hloose : ∀ o, loose.accepts o = true ↔ strict.accepts o = true ∨ o = .eq)
    (hzeros : strict.accepts (if !negative then .gt else .lt) = true) :
    (holdsInOrder loose vals v = true ↔ holdsInOrder strict vals v = true ∨ holds vals v = true) ↔
      ¬ (v.isZeroOf negative = true ∧ (∃ a ∈ leaves vals, a.isZeroOf (!negative) = true) ∧
        holdsInOrder loose vals v = false) := by
  -- both operators see the same leaves, so only the places of equal values count
  constructor
  · rintro hiff ⟨hzero, ⟨a, ha, hzero'⟩, hfalse⟩
    have hholds : holds vals v = true := (holds_iff hv).mpr (.inr ⟨a, ha, negative, hzero', hzero⟩)
    rw [hiff.mpr (.inr hholds)] at hfalse
    cases hfalse
  · intro hexcept
    constructor
    · intro h
      exact ((holdsInOrder_loose hloose).mp h).imp_right fun heq => (holds_iff hv).mpr (.inl heq)
    · rintro (h | h)
      · exact (holdsInOrder_loose hloose).mpr (.inl h)
      · rcases (holds_iff hv).mp h with heq | ⟨a, ha, sign, hzero', hzero⟩
        · exact (holdsInOrder_loose hloose).mpr (.inr heq)
        · by_cases hsign : sign = negative
          · subst hsign
            by_contra hfalse
            exact hexcept ⟨hzero, ⟨a, ha, hzero'⟩, Bool.not_eq_true _ ▸ hfalse⟩
          · -- the other zero is on the side that the strict operator asks for
            obtain rfl := Bool.eq_not_of_ne hsign
            refine (holdsInOrder_loose hloose).mpr (.inl (holdsInOrder_iff.mpr ⟨a, ha, _, ?_, hzeros⟩))
            exact Value.compareWithin?_zeros hzero' hzero

/-- At least is greater or equal, and at most is less or equal, for every value of a range.
The exceptions are zeros: at least the positive one is not asked of the negative one, and
at most the negative one not of the positive one, although they are equal. -/
theorem accepts_rangeOperators [PatternLanguage] (d : Document) (p : String)
    (hv : v.isRanged = true) :
    ((accepts d (condition p (.compare .gte v)) = true ↔
        accepts d (condition p (.compare .gt v)) = true ∨
          accepts d (condition p (.compare .eq v)) = true) ↔
      ¬ (v.isZeroOf false = true ∧ (∃ a ∈ leaves (Path.resolve d p), a.isZeroOf true = true) ∧
        accepts d (condition p (.compare .gte v)) = false)) ∧
    ((accepts d (condition p (.compare .lte v)) = true ↔
        accepts d (condition p (.compare .lt v)) = true ∨
          accepts d (condition p (.compare .eq v)) = true) ↔
      ¬ (v.isZeroOf true = true ∧ (∃ a ∈ leaves (Path.resolve d p), a.isZeroOf false = true) ∧
        accepts d (condition p (.compare .lte v)) = false)) := by
  simp only [accepts_condition]
  constructor
  · refine loose_iff_strict_or_holds hv false (fun o => ?_) rfl
    cases o <;> decide
  · refine loose_iff_strict_or_holds hv true (fun o => ?_) rfl
    cases o <;> decide

/-- The zero below the other one. -/
def negativeZero : Value := .double ⟨0x8000000000000000⟩

open scoped Pattern in
theorem accepts_rangeOperators_ranks :
    let ranks : Document := [("ranks", .array [negativeZero, .int64 3])]
    (Value.int32 0).isRanged = true ∧
      (accepts ranks (condition "ranks" (.compare .gte (.int32 0))) = true ↔
        accepts ranks (condition "ranks" (.compare .gt (.int32 0))) = true ∨
          accepts ranks (condition "ranks" (.compare .eq (.int32 0))) = true) := by
  intro ranks
  have hzero : (Value.int32 0).isRanged = true := rfl
  -- a rank above both zeros makes up for the negative one
  exact ⟨hzero, (accepts_rangeOperators ranks "ranks" hzero).1.mpr (by decide)⟩

open scoped Pattern in
/-- Of two equal zeros the negative one is not at least the other, and the positive one is
not at most the other. -/
theorem accepts_zeros_out_of_range :
    (accepts [("n", negativeZero)] (condition "n" (.compare .eq (.int32 0))) = true ∧
      accepts [("n", negativeZero)] (condition "n" (.compare .gte (.int32 0))) = false) ∧
    (accepts [("n", .int32 0)] (condition "n" (.compare .eq negativeZero)) = true ∧
      accepts [("n", .int32 0)] (condition "n" (.compare .lte negativeZero)) = false) ∧
    ¬ ∀ (d : Document) (p : String) (v : Value), v.isRanged = true →
      (accepts d (condition p (.compare .gte v)) = true ↔
        accepts d (condition p (.compare .gt v)) = true ∨
          accepts d (condition p (.compare .eq v)) = true) := by
  have heq : accepts [("n", negativeZero)] (condition "n" (.compare .eq (.int32 0))) = true := by
    decide
  have hgte : accepts [("n", negativeZero)] (condition "n" (.compare .gte (.int32 0))) = false := by
    decide
  refine ⟨⟨heq, hgte⟩, by decide, fun hall => ?_⟩
  have hgte' := (hall [("n", negativeZero)] "n" (.int32 0) rfl).mpr (.inr heq)
  rw [hgte] at hgte'
  cases hgte'

end Filter

end ContentQuery
