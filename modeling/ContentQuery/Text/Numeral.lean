/-
Numerals: digits in a base, read as natural numbers.

`unsigned?` reads what a 64-bit unsigned setting or array index accepts: an
optional plus sign and at least one decimal digit, of a value below `2 ^ 64`.
-/
namespace ContentQuery.Text

/-- The value of a digit in the given base. -/
def digit? (base : Nat) (c : Char) : Option Nat :=
  let n := c.toNat
  let v :=
    if 48 ≤ n ∧ n ≤ 57 then n - 48
    else if 97 ≤ n ∧ n ≤ 122 then n - 87
    else if 65 ≤ n ∧ n ≤ 90 then n - 55
    else base
  if v < base then some v else none

/-- The number that digits write after `n`, most significant first. -/
def digitsFrom? (base : Nat) : Nat → List Char → Option Nat
  | n, [] => some n
  | n, c :: cs => (digit? base c).bind fun d => digitsFrom? base (n * base + d) cs

/-- The number that a non-empty list of digits writes. -/
def digits? (base : Nat) (cs : List Char) : Option Nat :=
  if cs.isEmpty then none else digitsFrom? base 0 cs

/-- The bound of a 64-bit unsigned number. -/
def unsignedBound : Nat := Nat.pow 2 64

/-- A 64-bit unsigned number in decimal, perhaps with a plus sign in front. -/
def unsigned? (s : String) : Option Nat :=
  let body := match s.toList with
    | '+' :: cs => cs
    | cs => cs
  (digits? 10 body).filter (· < unsignedBound)

end ContentQuery.Text
