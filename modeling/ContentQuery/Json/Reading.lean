/-
Reading JSON text.

The grammar is that of the JSON standard.  Arrays and objects may be nested 127
levels deep.  An integer is kept when 64 bits hold it; every other number is
read as a double: its first digits, as many as 64 bits hold, scaled by a power
of ten.  A number that is too large for a double is refused, and so are lone
surrogates and raw control characters in strings.
-/
import ContentQuery.Json
import ContentQuery.Text.Numeral

namespace ContentQuery.Json

/-- How deep arrays and objects may be nested. -/
def maxNesting : Nat := 127

/-- Skip blanks. -/
def skip (cs : List Char) : List Char :=
  cs.dropWhile fun c => c == ' ' || c == '\n' || c == '\t' || c == '\r'

/-- The rest of a text behind some characters that it begins with. -/
def expect? : List Char → List Char → Option (List Char)
  | [], cs => some cs
  | a :: as, c :: cs => if a = c then expect? as cs else none
  | _ :: _, [] => none

/-! ### Numbers -/

/-- The largest significand. -/
def maxSignificand : Nat := Nat.pow 2 64 - 1

/-- The largest exponent that is read. -/
def maxExponent : Nat := Nat.pow 2 31 - 1

/-- Read digits into a significand while it stays small enough.  The result has
the digits that are left. -/
def absorb (significand : Nat) : List Char → Nat × List Char
  | [] => (significand, [])
  | c :: cs =>
    let next := significand * 10 + (c.toNat - 48)
    if next ≤ maxSignificand then absorb next cs else (significand, c :: cs)

/-- A power of ten as a double. -/
def powerOfTen (n : Nat) : Double := Double.ofRatio false (Nat.pow 10 n) 1

/-- The largest power of ten that is a double. -/
def maxPower : Nat := 308

/-- Divide by a power of ten, in steps that a double can take.  Two whole steps
make any significand zero. -/
def divideByPower : Nat → Double → Nat → Double
  | 0, _, _ => .zero
  | steps + 1, x, n =>
    if n ≤ maxPower then x.div (powerOfTen n)
    else divideByPower steps (x.div (powerOfTen maxPower)) (n - maxPower)

/-- A significand scaled by a power of ten, unless that is too large. -/
def scale? (significand : Nat) (exponent : Int) : Option Double :=
  let x := Double.ofInt significand
  match exponent with
  | .ofNat n =>
    if significand = 0 then some x
    else if maxPower < n then none
    else
      let scaled := x.mul (powerOfTen n)
      if scaled.isFinite then some scaled else none
  | .negSucc n => some (divideByPower 3 x (n + 1))

/-- A double with a sign. -/
def signed (negative : Bool) (x : Double) : Json := .double (if negative then x.neg else x)

/-- The digits at the start of a text, and the rest. -/
def digits (cs : List Char) : List Char × List Char :=
  (cs.takeWhile Char.isDigit, cs.dropWhile Char.isDigit)

/-- The exponent behind its letter, applied to a significand with an exponent of
its own. -/
def readExponent? (negative : Bool) (significand : Nat) (exponent : Int) (cs : List Char) :
    Option (Json × List Char) :=
  let (minus, body) := match cs with
    | '+' :: rest => (false, rest)
    | '-' :: rest => (true, rest)
    | rest => (false, rest)
  let (ds, rest) := digits body
  (Text.digits? 10 ds).bind fun e =>
    if maxExponent < e then
      if significand ≠ 0 ∧ !minus then none else some (signed negative .zero, rest)
    else
      (scale? significand (if minus then exponent - e else exponent + e)).map fun x =>
        (signed negative x, rest)

/-- What may follow the digits of a number that is no integer. -/
def finish? (negative : Bool) (significand : Nat) (exponent : Int) (cs : List Char) :
    Option (Json × List Char) :=
  match cs with
  | 'e' :: rest => readExponent? negative significand exponent rest
  | 'E' :: rest => readExponent? negative significand exponent rest
  | rest => (scale? significand exponent).map fun x => (signed negative x, rest)

/-- The fraction behind the point. -/
def readFraction? (negative : Bool) (significand : Nat) (exponent : Int) (cs : List Char) :
    Option (Json × List Char) :=
  let (ds, rest) := digits cs
  if ds.isEmpty then none
  else
    let (significand, left) := absorb significand ds
    finish? negative significand (exponent - ((ds.length - left.length : Nat) : Int)) rest

/-- The integer of a sign and a significand, if 64 bits hold it. -/
def integerOrDouble (negative : Bool) (significand : Nat) : Json :=
  if !negative then .integer significand
  else if 0 < significand ∧ significand ≤ Nat.pow 2 63 then .integer (-(significand : Int))
  else signed true (Double.ofInt significand)

/-- A number without its sign. -/
def readNumber? (negative : Bool) (cs : List Char) : Option (Json × List Char) :=
  let (ds, rest) := digits cs
  match ds with
  | [] => none
  | '0' :: _ :: _ => none
  | ds =>
    let (significand, left) := absorb 0 ds
    match rest with
    | '.' :: rest => readFraction? negative significand left.length rest
    | 'e' :: rest => readExponent? negative significand left.length rest
    | 'E' :: rest => readExponent? negative significand left.length rest
    | rest =>
      if left.isEmpty then some (integerOrDouble negative significand, rest)
      else finish? negative significand left.length rest

/-! ### Strings -/

/-- A code unit of four hexadecimal digits. -/
def codeUnit? : List Char → Option (Nat × List Char)
  | a :: b :: c :: d :: rest => (Text.digits? 16 [a, b, c, d]).map (·, rest)
  | _ => none

/-- A character by its code units, behind the `\u` of the first. -/
def escapedUnit? (cs : List Char) : Option (Char × List Char) := do
  let (high, rest) ← codeUnit? cs
  if high < 0xD800 ∨ 0xDFFF < high then some (Char.ofNat high, rest)
  else if 0xDBFF < high then none
  else do
    let rest ← expect? ['\\', 'u'] rest
    let (low, rest) ← codeUnit? rest
    if 0xDC00 ≤ low ∧ low ≤ 0xDFFF then
      some (Char.ofNat (0x10000 + (high - 0xD800) * 0x400 + (low - 0xDC00)), rest)
    else none

/-- What a backslash and the characters behind it stand for. -/
def escape? : List Char → Option (Char × List Char)
  | '"' :: cs => some ('"', cs)
  | '\\' :: cs => some ('\\', cs)
  | '/' :: cs => some ('/', cs)
  | 'b' :: cs => some ('\x08', cs)
  | 'f' :: cs => some ('\x0c', cs)
  | 'n' :: cs => some ('\n', cs)
  | 'r' :: cs => some ('\r', cs)
  | 't' :: cs => some ('\t', cs)
  | 'u' :: cs => escapedUnit? cs
  | _ => none

/-- The rest of a string behind its opening quote, after the characters read so
far, the last one first. -/
def readString? : Nat → List Char → List Char → Option (String × List Char)
  | 0, _, _ => none
  | _ + 1, _, [] => none
  | fuel + 1, read, c :: cs =>
    if c == '"' then some (String.ofList read.reverse, cs)
    else if c == '\\' then (escape? cs).bind fun x => readString? fuel (x.1 :: read) x.2
    else if c.toNat < 0x20 then none
    else readString? fuel (c :: read) cs

/-! ### Values -/

mutual

/-- A value at the start of a text, with so much nesting left.  Each call takes
at least one character, which bounds the first argument. -/
def readValue? : Nat → Nat → List Char → Option (Json × List Char)
  | 0, _, _ => none
  | fuel + 1, nesting, cs =>
    match skip cs with
    | 'n' :: cs => (expect? ['u', 'l', 'l'] cs).map (Json.null, ·)
    | 't' :: cs => (expect? ['r', 'u', 'e'] cs).map (Json.bool true, ·)
    | 'f' :: cs => (expect? ['a', 'l', 's', 'e'] cs).map (Json.bool false, ·)
    | '"' :: cs => (readString? (cs.length + 1) [] cs).map fun x => (.string x.1, x.2)
    | '-' :: cs => readNumber? true cs
    | '[' :: cs =>
      match nesting with
      | 0 => none
      | deeper + 1 =>
        match skip cs with
        | ']' :: cs => some (.array [], cs)
        | cs => (readItems? fuel deeper [] cs).map fun x => (.array x.1, x.2)
    | '\x7b' :: cs =>
      match nesting with
      | 0 => none
      | deeper + 1 =>
        match skip cs with
        | '\x7d' :: cs => some (.object [], cs)
        | cs => (readFields? fuel deeper [] cs).map fun x => (.ofFields x.1, x.2)
    | cs => readNumber? false cs

/-- The items of an array up to its end, after those read so far. -/
def readItems? : Nat → Nat → List Json → List Char → Option (List Json × List Char)
  | 0, _, _, _ => none
  | fuel + 1, nesting, read, cs =>
    (readValue? fuel nesting cs).bind fun x =>
      match skip x.2 with
      | ',' :: cs => readItems? fuel nesting (x.1 :: read) cs
      | ']' :: cs => some ((x.1 :: read).reverse, cs)
      | _ => none

/-- The fields of an object up to its end, after those read so far. -/
def readFields? : Nat → Nat → List (String × Json) → List Char →
    Option (List (String × Json) × List Char)
  | 0, _, _, _ => none
  | fuel + 1, nesting, read, cs =>
    match skip cs with
    | '"' :: cs =>
      (readString? (cs.length + 1) [] cs).bind fun k =>
        match skip k.2 with
        | ':' :: cs =>
          (readValue? fuel nesting cs).bind fun x =>
            match skip x.2 with
            | ',' :: cs => readFields? fuel nesting ((k.1, x.1) :: read) cs
            | '\x7d' :: cs => some (((k.1, x.1) :: read).reverse, cs)
            | _ => none
        | _ => none
    | _ => none

end

/-- The value that a text writes, and nothing else. -/
def read? (text : String) : Option Json :=
  let cs := text.toList
  match readValue? (2 * cs.length + 2) maxNesting cs with
  | some (j, rest) => if (skip rest).isEmpty then some j else none
  | none => none

end ContentQuery.Json
