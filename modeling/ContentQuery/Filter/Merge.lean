/-
Accumulating filters.

Merging is structural: fields are united by path and then by operator,
documents key by key, arrays and operand lists are concatenated, and anything
else is replaced by what comes later.  What is already there keeps its place.
-/
import ContentQuery.Filter

namespace ContentQuery

mutual

/-- A value after a later one of the same key. -/
def Value.merge (old : Value) : Value → Value
  | .document new =>
    match old with
    | .document fields => .document (Document.mergeFields fields new)
    | _ => .document new
  | .array new =>
    match old with
    | .array items => .array (items ++ new)
    | _ => .array new
  | new => new

/-- Merge the fields of a second document into a first, one after the other. -/
def Document.mergeFields : List (String × Value) → List (String × Value) → List (String × Value)
  | into, [] => into
  | into, (k, v) :: rest =>
    let merged := match Entries.get? into k with
      | some old => Value.merge old v
      | none => v
    Document.mergeFields (Entries.insert into k merged) rest

end

namespace Filter

/-- A condition after a later one of the same operator. -/
def mergeSame : Condition → Condition → Condition
  | .oneOf a, .oneOf b => .oneOf (a ++ b)
  | .noneOf a, .noneOf b => .noneOf (a ++ b)
  | _, new => new

/-- Merge one condition into a list of conditions. -/
def mergeCondition : List Condition → Condition → List Condition
  | [], new => [new]
  | c :: rest, new =>
    if c.operator = new.operator then mergeSame c new :: rest else c :: mergeCondition rest new

/-- A predicate after a later one of the same path. -/
def mergePredicate : Predicate → Predicate → Predicate
  | .conditions a, .conditions b => .conditions (b.foldl mergeCondition a)
  | .equals (.document a), .equals (.document b) => .equals (.document (Document.mergeFields a b))
  | .equals (.array a), .equals (.array b) => .equals (.array (a ++ b))
  | _, new => new

/-- Merge one field into a list of fields. -/
def mergeField (fields : List (String × Predicate)) (new : String × Predicate) :
    List (String × Predicate) :=
  Entries.upsert fields new.1 fun
    | some old => mergePredicate old new.2
    | none => new.2

/-- A filter after a later one. -/
def merge (f g : Filter) : Filter where
  fields := g.fields.foldl mergeField f.fields
  allOf := f.allOf ++ g.allOf
  anyOf := f.anyOf ++ g.anyOf
  script := g.script.or f.script

end Filter

end ContentQuery
