/-
Filters: what a document must satisfy.

A filter asks for something of some fields, of every one of some filters and of
at least one of some others; it may carry a script, which only a store that
runs scripts can answer.
-/
import ContentQuery.Value

namespace ContentQuery

/-- The comparisons with one value. -/
inductive Comparison
  | eq | ne | gt | gte | lt | lte
  deriving DecidableEq

/-- The operator of a comparison in predicate documents. -/
def Comparison.operator : Comparison → String
  | eq => "$eq"
  | ne => "$ne"
  | gt => "$gt"
  | gte => "$gte"
  | lt => "$lt"
  | lte => "$lte"

/-- One operator applied to a field. -/
inductive Condition
  | compare (op : Comparison) (value : Value)
  | oneOf (values : List Value)
  | noneOf (values : List Value)
  | present (wanted : Bool)
  | pattern (text options : String)

/-- The operator of a condition.  Conditions of one operator replace or extend
each other when filters merge. -/
def Condition.operator : Condition → String
  | compare op _ => op.operator
  | oneOf _ => "$in"
  | noneOf _ => "$nin"
  | present _ => "$exists"
  | pattern _ _ => "$regex"

/-- What a single field must satisfy. -/
inductive Predicate
  /-- be equal to a value -/
  | equals (value : Value)
  /-- satisfy every one of some conditions -/
  | conditions (conds : List Condition)

/-- A filter: fields, filters that must all hold, filters of which one must
hold, and perhaps a script. -/
structure Filter where
  fields : List (String × Predicate) := []
  allOf : List Filter := []
  anyOf : List Filter := []
  script : Option String := none
  deriving Inhabited

namespace Filter

/-- A filter on one field. -/
def field (path : String) (p : Predicate) : Filter := { fields := [(path, p)] }

/-- A filter of one condition on one field. -/
def condition (path : String) (c : Condition) : Filter := field path (.conditions [c])

/-- Whether a filter asks for nothing. -/
def isEmpty (f : Filter) : Bool :=
  f.fields.isEmpty && f.allOf.isEmpty && f.anyOf.isEmpty && f.script.isNone

mutual

/-- Whether a filter or one of its operands, at any depth, has a script. -/
def usesScript : Filter → Bool
  | ⟨_, allOf, anyOf, script⟩ => script.isSome || anyUsesScript allOf || anyUsesScript anyOf

def anyUsesScript : List Filter → Bool
  | [] => false
  | f :: rest => f.usesScript || anyUsesScript rest

end

end Filter

end ContentQuery
