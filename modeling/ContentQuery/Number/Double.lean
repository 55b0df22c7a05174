/-
Binary64 numbers as bit patterns.

A double is its 64 bits, so that the payload of a NaN and the sign of a zero
are never lost.  The value of a finite pattern is `magnitude`-coded: the field
below the sign bit grows with the absolute value, so equality and order are
decided on it as a natural number.

* `eqv` is the equality of the number line: a NaN equals nothing, the two zeros
  are equal;
* `compareTotal` is the total order of the patterns,
  -NaN < -inf < … < -0.0 < 0.0 < … < inf < NaN;
* `ofRatio` rounds an exact ratio to the nearest double, ties to even, and
  `ofInt`, `mul` and `div` are that rounding of the exact result.
-/
namespace ContentQuery

/-- A binary64 number, given by its bits. -/
structure Double where
  bits : UInt64
  deriving DecidableEq, Inhabited

namespace Double

/-- The sign bit. -/
def negative (x : Double) : Bool := decide (Nat.pow 2 63 ≤ x.bits.toNat)

/-- The bits below the sign, which order the absolute values. -/
def magnitude (x : Double) : Nat := x.bits.toNat % Nat.pow 2 63

/-- The magnitude of the infinities. -/
def infinite : Nat := 2047 * Nat.pow 2 52

def isNaN (x : Double) : Bool := decide (infinite < x.magnitude)

def isFinite (x : Double) : Bool := decide (x.magnitude < infinite)

def isZero (x : Double) : Bool := x.magnitude == 0

/-- Equality of numbers: no NaN equals anything, and zeros are equal. -/
def eqv (x y : Double) : Bool :=
  !x.isNaN && !y.isNaN && (x.bits == y.bits || (x.isZero && y.isZero))

/-- The place of a pattern in the total order. -/
def place (x : Double) : Int :=
  if x.negative then -1 - (x.magnitude : Int) else x.magnitude

/-- The total order of all patterns. -/
def compareTotal (x y : Double) : Ordering := compare x.place y.place

/-- A pattern from its sign and magnitude. -/
def ofMagnitude (negative : Bool) (magnitude : Nat) : Double :=
  ⟨UInt64.ofNat ((if negative then Nat.pow 2 63 else 0) + magnitude)⟩

def zero : Double := ⟨0⟩

/-- The opposite sign. -/
def neg (x : Double) : Double := ofMagnitude (!x.negative) x.magnitude

/-! ### Rounding -/

/-- The integer nearest to `a / b`, a half going to the even neighbour. -/
def roundDiv (a b : Nat) : Nat :=
  let q := a / b
  let r := a % b
  if b < 2 * r ∨ (2 * r = b ∧ q % 2 = 1) then q + 1 else q

/-- `a * 2 ^ e`, as a pair of a numerator and a denominator scaled by it. -/
def scaleDown (a b : Nat) (e : Int) : Nat × Nat :=
  match e with
  | .ofNat n => (a, b * Nat.pow 2 n)
  | .negSucc n => (a * Nat.pow 2 (n + 1), b)

/-- The exponent of the largest power of two that is at most `num / den`, for
positive `num` and `den`. -/
def floorLog (num den : Nat) : Int :=
  let guess : Int := (num.log2 : Int) - den.log2
  let (a, b) := scaleDown num den guess
  if b ≤ a then guess else guess - 1

/-- The magnitude of the double nearest to `num / den`.  A significand that
rounds up to the next power of two carries into the exponent field by itself. -/
def nearest (num den : Nat) : Nat :=
  if num = 0 ∨ den = 0 then 0
  else
    let unit : Int := max (floorLog num den - 52) (-1074)
    let (a, b) := scaleDown num den unit
    min infinite ((unit + 1074).toNat * Nat.pow 2 52 + roundDiv a b)

/-- The double nearest to `num / den`, with the given sign; infinite when the
ratio is too large. -/
def ofRatio (negative : Bool) (num den : Nat) : Double :=
  ofMagnitude negative (nearest num den)

/-- The double nearest to an integer. -/
def ofInt (n : Int) : Double := ofRatio (decide (n < 0)) n.natAbs 1

/-- The absolute value of a finite double as an exact ratio. -/
def toRatio (x : Double) : Nat × Nat :=
  let field := x.magnitude / Nat.pow 2 52
  let fraction := x.magnitude % Nat.pow 2 52
  let significand := if field = 0 then fraction else fraction + Nat.pow 2 52
  let unit := max field 1
  if 1075 ≤ unit then (significand * Nat.pow 2 (unit - 1075), 1)
  else (significand, Nat.pow 2 (1075 - unit))

/-- The rounded product of two finite doubles. -/
def mul (x y : Double) : Double :=
  let (a, b) := x.toRatio
  let (c, d) := y.toRatio
  ofRatio (x.negative != y.negative) (a * c) (b * d)

/-- The rounded quotient of a finite double by a finite one that is not zero. -/
def div (x y : Double) : Double :=
  let (a, b) := x.toRatio
  let (c, d) := y.toRatio
  ofRatio (x.negative != y.negative) (a * d) (b * c)

end Double

end ContentQuery
