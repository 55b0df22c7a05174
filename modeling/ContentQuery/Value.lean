/-
Values and documents.

A document is a list of fields with distinct keys, in the order in which they
were written.  A value is a document, an array, or one of the scalar kinds of a
document store.

* `eqv` is equality of values: documents are equal whatever the order of their
  fields, doubles are compared as numbers, and numbers of different kinds are
  never equal;
* `number?` is what the numeric kinds have in common.
-/
import ContentQuery.Entries
import ContentQuery.Number.Double
import ContentQuery.Number.Decimal128

namespace ContentQuery

/-- An object id: one that came with its document, as hexadecimal text, or the
`n`-th one that a store has made up. -/
inductive ObjectId
  | written (digits : String)
  | invented (n : Nat)
  deriving DecidableEq

/-- A value of a document store. -/
inductive Value
  | null
  | undefined
  | minKey
  | maxKey
  | bool (b : Bool)
  | int32 (n : Int32)
  | int64 (n : Int64)
  | double (x : Double)
  | decimal128 (x : Decimal128)
  | string (s : String)
  | symbol (s : String)
  | array (items : List Value)
  | document (fields : List (String × Value))
  | dateTime (millis : Int64)
  | timestamp (time increment : UInt32)
  | objectId (id : ObjectId)
  | binary (subtype : UInt8) (bytes : List UInt8)
  | regex (pattern options : String)
  | code (source : String)
  | scopedCode (source : String) (scope : List (String × Value))
  /-- a document of another collection, by its id -/
  | dbPointer (target : String) (id : ObjectId)
  deriving Inhabited

/-- The fields of a document, in order. -/
abbrev Document := List (String × Value)

namespace Value

/-- The fields of a document value. -/
def document? : Value → Option Document
  | document d => some d
  | _ => none

/-- The text of a string value. -/
def string? : Value → Option String
  | string s => some s
  | _ => none

/-- Whether a value is a document. -/
def isDocument : Value → Bool
  | document _ => true
  | _ => false

/-- A number as a double; the values of the other kinds are not numbers. -/
def number? : Value → Option Double
  | int32 n => some (Double.ofInt n.toInt)
  | int64 n => some (Double.ofInt n.toInt)
  | double x => some x
  | _ => none

/-- A value or, if it is an array, its elements. -/
def elements : Value → List Value
  | array items => items
  | v => [v]

mutual

/-- Equality of values. -/
def eqv : Value → Value → Bool
  | null, null | undefined, undefined | minKey, minKey | maxKey, maxKey => true
  | bool a, bool b => a == b
  | int32 a, int32 b => a == b
  | int64 a, int64 b => a == b
  | double a, double b => a.eqv b
  | decimal128 a, decimal128 b => a == b
  | string a, string b => a == b
  | symbol a, symbol b => a == b
  | array a, array b => eqvItems a b
  | document a, document b => a.length == b.length && eqvFields a b
  | dateTime a, dateTime b => a == b
  | timestamp a i, timestamp b j => a == b && i == j
  | objectId a, objectId b => a == b
  | binary s a, binary t b => s == t && a == b
  | regex p o, regex q r => p == q && o == r
  | code a, code b => a == b
  | scopedCode a s, scopedCode b t => a == b && (s.length == t.length && eqvFields s t)
  | dbPointer a i, dbPointer b j => a == b && i == j
  | _, _ => false

/-- Equality element by element. -/
def eqvItems : List Value → List Value → Bool
  | [], [] => true
  | a :: as, b :: bs => eqv a b && eqvItems as bs
  | _, _ => false

/-- Whether every field has an equal one of its key in the second document. -/
def eqvFields : List (String × Value) → List (String × Value) → Bool
  | [], _ => true
  | (k, a) :: rest, other =>
    (match Entries.get? other k with
      | some b => eqv a b
      | none => false) && eqvFields rest other

end

end Value

end ContentQuery
