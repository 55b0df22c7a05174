/-
What a query has accumulated before it is run.
-/
import ContentQuery.Filter
import ContentQuery.Sorting

namespace ContentQuery

/-- A requested sort; without a field, the configured one is used. -/
structure SortRequest where
  field : Option String
  direction : Direction
  deriving DecidableEq

/-- The state of a query. -/
structure QueryState where
  contentType : Option String := none
  locale : Option String := none
  uid : Option String := none
  /-- what the payload must satisfy -/
  filter : Filter := {}
  /-- payload fields in the order of the calls, with 1 to include and 0 to
  exclude -/
  projection : List (String × Int32) := []
  sort : Option SortRequest := none
  limit : Option Nat := none
  skip : Option Nat := none
  /-- the reference paths to expand, in increasing order -/
  includePaths : List String := []
  includeAll : Bool := false
  /-- what referenced documents must satisfy; a key is a reference path, a dot
  and a field -/
  referenceQuery : Filter := {}
  single : Bool := false
  includeCount : Bool := false
  includeSchema : Bool := false
  excludeReferences : Bool := false

/-- A state back at its beginning. -/
def QueryState.cleanup (_ : QueryState) : QueryState := {}

end ContentQuery
