/-
Reading filters from JSON text.
-/
import ContentQuery.Filter.Parse
import ContentQuery.Json.Reading
import ContentQuery.Value.Json

namespace ContentQuery.Filter

/-- The filter of a predicate document that is written as a JSON object. -/
def parseText (text : String) : Except Error Filter :=
  match Json.read? text with
  | none => .error .notJson
  | some (.object fields) =>
    match parse (Value.ofJsonFields fields) with
    | .ok f => .ok f
    | .error cause => .error (.invalidArgument cause)
  | some _ => .error (.invalidArgument .textNotObject)

end ContentQuery.Filter
