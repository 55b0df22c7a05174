/-
Decimal128 numbers and their text.

A number is its 128 bits: a sign, a combination field that holds the exponent
or marks a special value, and a coefficient in binary.  Nothing here computes
with such numbers; they are compared bit by bit and written out.

* `coefficient` is at most `10 ^ 34 - 1`: a larger one reads as zero;
* `text` is positional while the exponent is not positive and the leading
  digit stands no lower than the sixth decimal place, else scientific.
-/
namespace ContentQuery

/-- A decimal128 number, given by its bits. -/
structure Decimal128 where
  bits : BitVec 128
  deriving DecidableEq

namespace Decimal128

def negative (x : Decimal128) : Bool := x.bits.getLsbD 127

/-- The five bits below the sign, which are all set in a special value. -/
def lead (x : Decimal128) : Nat := x.bits.toNat / Nat.pow 2 122 % 32

def isInfinite (x : Decimal128) : Bool := x.lead == 30

def isNaN (x : Decimal128) : Bool := x.lead == 31

/-- Whether the coefficient has the implicit leading bits 100, which puts it
above every canonical coefficient. -/
def oversized (x : Decimal128) : Bool := x.lead / 8 == 3

/-- The power of ten that scales the coefficient. -/
def exponent (x : Decimal128) : Int :=
  let low := if x.oversized then 111 else 113
  let field : Nat := x.bits.toNat / Nat.pow 2 low % Nat.pow 2 14
  (field : Int) - 6176

def coefficient (x : Decimal128) : Nat :=
  let c := x.bits.toNat % Nat.pow 2 113
  if x.oversized || Nat.pow 10 34 ≤ c then 0 else c

/-- A point put before the last `places` digits, with zeros in front as needed. -/
def pointed (digits : List Char) (places : Nat) : List Char :=
  if places = 0 then digits
  else if digits.length ≤ places then
    '0' :: '.' :: (List.replicate (places - digits.length) '0' ++ digits)
  else
    let whole := digits.length - places
    digits.take whole ++ '.' :: digits.drop whole

/-- One digit, the rest behind a point, and a signed exponent. -/
def scientific (digits : List Char) (exponent : Int) : List Char :=
  let head := match digits with
    | [] => []
    | [d] => [d]
    | d :: rest => d :: '.' :: rest
  let sign := if 0 < exponent then ['+'] else []
  head ++ 'E' :: (sign ++ (toString exponent).toList)

/-- The text of a number. -/
def text (x : Decimal128) : String :=
  if x.isNaN then "NaN"
  else
    let sign := if x.negative then ['-'] else []
    let body :=
      if x.isInfinite then "Infinity".toList
      else
        let digits := Nat.toDigits 10 x.coefficient
        let leading : Int := x.exponent + (digits.length : Int) - 1
        if x.exponent ≤ 0 ∧ -6 ≤ leading then pointed digits x.exponent.natAbs
        else scientific digits leading
    String.ofList (sign ++ body)

end Decimal128

end ContentQuery
