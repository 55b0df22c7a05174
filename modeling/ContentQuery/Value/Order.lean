/-
Comparing values.

* `same` is the equality that predicates use: numbers are equal across kinds
  when they are equal as doubles;
* `compareWithin?` orders two values of one bracket (numbers, strings,
  booleans, dates) and refuses all others;
* `compare` orders any two values, for sorting: inside a bracket by value, else
  by the rank of the kind.

Strings compare by code points, which is the order of their UTF-8 bytes.
-/
import ContentQuery.Value

namespace ContentQuery.Value

/-- Equality as predicates see it. -/
def same (a b : Value) : Bool :=
  match a.number?, b.number? with
  | some x, some y => x.eqv y
  | _, _ => a.eqv b

/-- The order of two values of one bracket. -/
def compareWithin? (a b : Value) : Option Ordering :=
  match a.number?, b.number? with
  | some x, some y => some (x.compareTotal y)
  | _, _ =>
    match a, b with
    | string x, string y => some (Ord.compare x y)
    | bool x, bool y => some (Ord.compare x y)
    | dateTime x, dateTime y => some (Ord.compare x.toInt y.toInt)
    | _, _ => none

/-- The place of a kind among the kinds. -/
def rank : Value → Nat
  | minKey => 0
  | null | undefined => 1
  | int32 _ | int64 _ | double _ | decimal128 _ => 2
  | string _ | symbol _ => 3
  | document _ => 4
  | array _ => 5
  | binary _ _ => 6
  | objectId _ => 7
  | bool _ => 8
  | dateTime _ => 9
  | timestamp _ _ => 10
  | regex _ _ => 11
  | code _ | scopedCode _ _ | dbPointer _ _ => 12
  | maxKey => 255

/-- The order of values in a sort. -/
def compare (a b : Value) : Ordering :=
  (compareWithin? a b).getD (Ord.compare a.rank b.rank)

end ContentQuery.Value
