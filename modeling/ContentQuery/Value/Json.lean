/-
Values as JSON, and JSON as values.

`ofJson` reads plain JSON: a key that begins with a dollar sign is a key like
any other, and an integer becomes the smallest kind of number that holds it.
`toJson` writes the kinds that JSON lacks as objects of such keys; a double that
is no number becomes null.
-/
import ContentQuery.Json
import ContentQuery.Value

namespace ContentQuery

namespace Base64

/-- The digit of six bits. -/
def digit (n : Nat) : Char :=
  if n < 26 then Char.ofNat (65 + n)
  else if n < 52 then Char.ofNat (71 + n)
  else if n < 62 then Char.ofNat (n - 4)
  else if n = 62 then '+'
  else '/'

/-- Bytes in base 64, padded to a multiple of four digits. -/
def encode : List UInt8 → List Char
  | [] => []
  | [a] =>
    let n := a.toNat * 16
    [digit (n / 64), digit (n % 64), '=', '=']
  | [a, b] =>
    let n := (a.toNat * 256 + b.toNat) * 4
    [digit (n / 4096), digit (n / 64 % 64), digit (n % 64), '=']
  | a :: b :: c :: rest =>
    let n := a.toNat * 65536 + b.toNat * 256 + c.toNat
    digit (n / 262144) :: digit (n / 4096 % 64) :: digit (n / 64 % 64) :: digit (n % 64) ::
      encode rest

end Base64

/-- A byte as two hexadecimal digits. -/
def hexByte (b : UInt8) : String :=
  String.ofList [Nat.digitChar (b.toNat / 16), Nat.digitChar (b.toNat % 16)]

/-- An object id as text. -/
def ObjectId.text : ObjectId → String
  | written digits => digits
  | invented n => s!"generated:{n}"

namespace Value

/-- The number of an integer: the first of the kinds int32, int64 and double
that has it. -/
def ofInt (n : Int) : Value :=
  if -(Nat.pow 2 31) ≤ n ∧ n < Nat.pow 2 31 then int32 (Int32.ofInt n)
  else if -(Nat.pow 2 63) ≤ n ∧ n < Nat.pow 2 63 then int64 (Int64.ofInt n)
  else double (Double.ofInt n)

mutual

/-- The value of plain JSON. -/
def ofJson : Json → Value
  | .null => null
  | .bool b => bool b
  | .integer n => ofInt n
  | .double x => double x
  | .string s => string s
  | .array items => array (ofJsonItems items)
  | .object fields => document (ofJsonFields fields)

def ofJsonItems : List Json → List Value
  | [] => []
  | j :: rest => ofJson j :: ofJsonItems rest

def ofJsonFields : List (String × Json) → List (String × Value)
  | [] => []
  | (k, j) :: rest => (k, ofJson j) :: ofJsonFields rest

end

mutual

/-- The JSON of a value. -/
def toJson : Value → Json
  | null => .null
  | undefined => .ofFields [("$undefined", .bool true)]
  | minKey => .ofFields [("$minKey", .integer 1)]
  | maxKey => .ofFields [("$maxKey", .integer 1)]
  | bool b => .bool b
  | int32 n => .integer n.toInt
  | int64 n => .integer n.toInt
  | double x => if x.isFinite then .double x else .null
  | decimal128 x => .ofFields [("$numberDecimal", .string x.text)]
  | string s => .string s
  | symbol s => .ofFields [("$symbol", .string s)]
  | array items => .array (toJsonItems items)
  | document fields => .ofFields (toJsonFields fields)
  | dateTime ms =>
    .ofFields [("$date", .ofFields [("$numberLong", .string (toString ms.toInt))])]
  | timestamp t i =>
    .ofFields [("$timestamp", .ofFields [("t", .integer t.toNat), ("i", .integer i.toNat)])]
  | objectId id => .ofFields [("$oid", .string id.text)]
  | binary 0 bytes => .array (bytes.map fun b => .integer b.toNat)
  | binary subtype bytes =>
    .ofFields [("$binary", .ofFields
      [("base64", .string (String.ofList (Base64.encode bytes))),
        ("subType", .string (hexByte subtype))])]
  | regex pattern options =>
    .ofFields [("$regularExpression", .ofFields
      [("pattern", .string pattern), ("options", .string options)])]
  | code source => .ofFields [("$code", .string source)]
  | scopedCode source scope =>
    .ofFields [("$code", .string source), ("$scope", .ofFields (toJsonFields scope))]
  | dbPointer target id =>
    .ofFields [("$dbPointer", .ofFields
      [("$ref", .string target), ("$id", .ofFields [("$oid", .string id.text)])])]

def toJsonItems : List Value → List Json
  | [] => []
  | v :: rest => toJson v :: toJsonItems rest

def toJsonFields : List (String × Value) → List (String × Json)
  | [] => []
  | (k, v) :: rest => (k, toJson v) :: toJsonFields rest

end

end Value

end ContentQuery
