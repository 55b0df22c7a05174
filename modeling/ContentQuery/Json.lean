/-
JSON values.

The fields of an object are kept in increasing order of their keys, each key
once; of two fields with one key the later counts.
-/
import ContentQuery.Number.Double
import ContentQuery.Ordered

namespace ContentQuery

/-- A JSON value.  A number without fraction or exponent is an integer. -/
inductive Json
  | null
  | bool (b : Bool)
  | integer (n : Int)
  | double (x : Double)
  | string (s : String)
  | array (items : List Json)
  | object (fields : List (String × Json))
  deriving Inhabited

/-- The object of some fields. -/
def Json.ofFields (fields : List (String × Json)) : Json :=
  .object (Ordered.ofEntries compare fields)

end ContentQuery
