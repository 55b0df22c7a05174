/-
Writing filters as predicate documents.

`render` writes the field paths as they stand and `renderUnder` puts a path in
front of each of them, at every depth.  Fields come first, then the operands of
`$and` and `$or`, then the script.
-/
import ContentQuery.Filter

namespace ContentQuery.Filter

/-- A condition's operator and value, inserted into a document of operators. -/
def renderCondition (out : Document) : Condition → Document
  | .compare op v => Entries.insert out op.operator v
  | .oneOf items => Entries.insert out "$in" (.array items)
  | .noneOf items => Entries.insert out "$nin" (.array items)
  | .present wanted => Entries.insert out "$exists" (.bool wanted)
  | .pattern text options =>
    Entries.insert (Entries.insert out "$regex" (.string text)) "$options" (.string options)

/-- The value that a predicate document holds for a predicate. -/
def renderPredicate : Predicate → Value
  | .equals v => v
  | .conditions conds => .document (conds.foldl renderCondition [])

/-- The fields, each under the key that `rename` gives to its path. -/
def renderFields (rename : String → String) (fields : List (String × Predicate)) : Document :=
  fields.foldl (fun out f => Entries.insert out (rename f.1) (renderPredicate f.2)) []

/-- Insert the operands of a combinator, if there are any. -/
def renderOperands (out : Document) (operator : String) (operands : List Value) : Document :=
  if operands.isEmpty then out else Entries.insert out operator (.array operands)

mutual

/-- The predicate document of a filter, with its paths renamed. -/
def renderWith (rename : String → String) : Filter → Document
  | ⟨fields, allOf, anyOf, script⟩ =>
    let out := renderFields rename fields
    let out := renderOperands out "$and" (renderEach rename allOf)
    let out := renderOperands out "$or" (renderEach rename anyOf)
    match script with
    | some s => Entries.insert out "$where" (.string s)
    | none => out

def renderEach (rename : String → String) : List Filter → List Value
  | [] => []
  | f :: rest => .document (renderWith rename f) :: renderEach rename rest

end

/-- The predicate document of a filter. -/
def render (f : Filter) : Document := renderWith id f

/-- The predicate document of a filter whose paths start below `root`. -/
def renderUnder (root : String) (f : Filter) : Document :=
  renderWith (fun path => root ++ "." ++ path) f

end ContentQuery.Filter
