/-
The calls that build a query.

Each call checks its arguments and then changes the state.  Most calls need a
content type to have been chosen; of two faults the one that is checked first is
reported, and a refused call ends the query.

`QueryState.apply` is one call and `QueryState.applyAll` a sequence of them; a
state is `Reachable` when some sequence of calls leads to it.
-/
import ContentQuery.Error
import ContentQuery.Filter.Merge
import ContentQuery.Filter.Parse
import ContentQuery.Key
import ContentQuery.Ordered
import ContentQuery.Query.State

namespace ContentQuery

/-- A call on a query. -/
inductive Call
  | contentType (uid : String)
  | asset (uid : Option String)
  | assets
  | schema (uid : Option String)
  | schemas
  | entry (uid : Option String)
  | entries
  | language (locale : String)
  | lessThan (key : String) (value : Value)
  | lessThanOrEqualTo (key : String) (value : Value)
  | greaterThan (key : String) (value : Value)
  | greaterThanOrEqualTo (key : String) (value : Value)
  | notEqualTo (key : String) (value : Value)
  | equalTo (key : String) (value : Value)
  | containedIn (key : String) (values : List Value)
  | notContainedIn (key : String) (values : List Value)
  | hasField (key : String)
  | lacksField (key : String)
  | regex (key pattern : String) (options : Option String)
  | tags (values : List Value)
  | and (operands : List Document)
  | or (operands : List Document)
  | script (text : String)
  | query (predicate : Document)
  | queryReferences (predicate : Document)
  | only (fields : List String)
  | except (fields : List String)
  | limit (n : Int)
  | skip (n : Int)
  | ascending (field : Option String)
  | descending (field : Option String)
  | includePaths (paths : List String)
  | includeReferences
  | excludeReferences
  | includeCount
  | includeSchema

/-- The payload field that holds tags. -/
def tagsField : String := "tags"

/-- The options of a pattern that was given none. -/
def defaultPatternOptions : String := "g"

/-- Refuse an argument. -/
def refuse {α : Type} (cause : ArgumentFault) : Except Error α := .error (.invalidArgument cause)

/-- A parsed predicate, or its fault as a refused argument. -/
def readPredicate (d : Document) : Except Error Filter :=
  match Filter.parse d with
  | .ok f => .ok f
  | .error cause => refuse cause

/-- The parsed predicates of a list, or the fault of the first that has one. -/
def readPredicates : List Document → Except Error (List Filter)
  | [] => .ok []
  | d :: rest => do
    let f ← readPredicate d
    let fs ← readPredicates rest
    pure (f :: fs)

namespace QueryState

/-- A field key must not be empty. -/
def requireKey (call key : String) : Except Error Unit :=
  if key.isEmpty then refuse (.emptyKey call) else .ok ()

/-- A list must not be empty. -/
def requireItems {α : Type} (call : String) (items : List α) : Except Error Unit :=
  if items.isEmpty then refuse (.emptyList call) else .ok ()

/-- A list of field names must not be empty, and neither must a name. -/
def requireNames (call : String) (names : List String) : Except Error Unit :=
  if names.isEmpty then refuse (.emptyList call)
  else if names.any String.isEmpty then refuse (.emptyNames call)
  else .ok ()

/-- A content type must have been chosen. -/
def requireScope (s : QueryState) (call : String) : Except Error Unit :=
  if s.contentType.isNone then .error (.preconditionFailed call) else .ok ()

/-- A number must not be negative. -/
def requireNatural (call : String) (n : Int) : Except Error Nat :=
  if n < 0 then refuse (.negative call n) else .ok n.toNat

/-- Add a filter to that of the payload. -/
def addFilter (s : QueryState) (call : String) (f : Filter) : Except Error QueryState := do
  s.requireScope call
  pure { s with filter := s.filter.merge f }

/-- Add a comparison. -/
def addComparison (s : QueryState) (call key : String) (op : Comparison) (v : Value) :
    Except Error QueryState := do
  requireKey call key
  s.addFilter call (.condition key (.compare op v))

/-- Ask for a single document, of the given uid if there is one. -/
def target (s : QueryState) (call : String) : Option String → Except Error QueryState
  | some uid =>
    if uid.isEmpty then refuse (.emptyUid call)
    else .ok { s with uid := some uid, single := true }
  | none => .ok { s with single := true }

/-- Ask for a sort. -/
def sortBy (s : QueryState) (call : String) (field : Option String) (direction : Direction) :
    Except Error QueryState := do
  match field with
  | some f => requireKey call f
  | none => pure ()
  pure { s with sort := some ⟨field, direction⟩ }

/-- Add fields to the projection. -/
def project (s : QueryState) (call : String) (fields : List String) (mark : Int32) :
    Except Error QueryState := do
  s.requireScope call
  requireNames call fields
  pure { s with projection := s.projection ++ fields.map fun f => (f, mark) }

/-- Whether a path has a dot. -/
def isDotted (path : String) : Bool := path.toList.contains '.'

/-- The reference predicate of a document: fields only, each with a dot in its
key. -/
def readReferencePredicate (d : Document) : Except Error Filter := do
  let f ← readPredicate d
  if !f.allOf.isEmpty || !f.anyOf.isEmpty || f.script.isSome then refuse .referenceFieldsOnly
  else
    match f.fields.find? fun e => !isDotted e.1 with
    | some e => refuse (.referenceKeyUndotted e.1)
    | none => pure f

/-- One call. -/
def apply (s : QueryState) : Call → Except Error QueryState
  | .contentType uid =>
    if uid.isEmpty then refuse (.emptyUid "contentType")
    else .ok { s with contentType := some uid }
  | .asset uid => { s with contentType := some assetsUid }.target "asset" uid
  | .assets => .ok { s with contentType := some assetsUid, single := false }
  | .schema uid => { s with contentType := some schemasUid }.target "schema" uid
  | .schemas => .ok { s with contentType := some schemasUid, single := false }
  | .entry uid => do
    s.requireScope "entry"
    s.target "entry" uid
  | .entries => do
    s.requireScope "entries"
    pure { s with single := false }
  | .language locale =>
    if locale.isEmpty then refuse .emptyLocale else .ok { s with locale := some locale }
  | .lessThan key v => s.addComparison "lessThan" key .lt v
  | .lessThanOrEqualTo key v => s.addComparison "lessThanOrEqualTo" key .lte v
  | .greaterThan key v => s.addComparison "greaterThan" key .gt v
  | .greaterThanOrEqualTo key v => s.addComparison "greaterThanOrEqualTo" key .gte v
  | .notEqualTo key v => s.addComparison "notEqualTo" key .ne v
  | .equalTo key v => do
    requireKey "equalTo" key
    s.addFilter "equalTo" (.field key (.equals v))
  | .containedIn key values => do
    requireKey "containedIn" key
    requireItems "containedIn" values
    s.addFilter "containedIn" (.condition key (.oneOf values))
  | .notContainedIn key values => do
    requireKey "notContainedIn" key
    requireItems "notContainedIn" values
    s.addFilter "notContainedIn" (.condition key (.noneOf values))
  | .hasField key => do
    requireKey "exists" key
    s.addFilter "exists" (.condition key (.present true))
  | .lacksField key => do
    requireKey "notExists" key
    s.addFilter "notExists" (.condition key (.present false))
  | .regex key pattern options => do
    requireKey "regex" key
    if pattern.isEmpty then refuse .emptyPattern
    else
      s.addFilter "regex" (.condition key (.pattern pattern (options.getD defaultPatternOptions)))
  | .tags values => do
    requireItems "tags" values
    let strings := values.filter fun v => v.string?.isSome
    s.addFilter "tags" (.condition tagsField (.oneOf strings))
  | .and operands => do
    requireItems "and" operands
    let fs ← readPredicates operands
    s.addFilter "and" { allOf := fs }
  | .or operands => do
    requireItems "or" operands
    let fs ← readPredicates operands
    s.addFilter "or" { anyOf := fs }
  | .script text =>
    if text.isEmpty then refuse .emptyScript else s.addFilter "where" { script := some text }
  | .query predicate =>
    if predicate.isEmpty then refuse (.emptyPredicate "query")
    else do
      let f ← readPredicate predicate
      s.addFilter "query" f
  | .queryReferences predicate => do
    s.requireScope "queryReferences"
    if predicate.isEmpty then refuse (.emptyPredicate "queryReferences")
    else
      let f ← readReferencePredicate predicate
      pure { s with referenceQuery := s.referenceQuery.merge f }
  | .only fields => s.project "only" fields 1
  | .except fields => s.project "except" fields 0
  | .limit n => do
    let n ← requireNatural "limit" n
    if n = 0 then refuse .zeroLimit else pure { s with limit := some n }
  | .skip n => do
    let n ← requireNatural "skip" n
    pure { s with skip := some n }
  | .ascending field => s.sortBy "ascending" field .ascending
  | .descending field => s.sortBy "descending" field .descending
  | .includePaths paths => do
    s.requireScope "include"
    requireNames "include" paths
    let all := paths.foldl (fun acc p => Ordered.insert compare p acc) s.includePaths
    pure { s with includePaths := all }
  | .includeReferences => do
    s.requireScope "includeReferences"
    pure { s with includeAll := true }
  | .excludeReferences => do
    s.requireScope "excludeReferences"
    pure { s with excludeReferences := true }
  | .includeCount => .ok { s with includeCount := true }
  | .includeSchema => .ok { s with includeSchema := true }

/-- A sequence of calls. -/
def applyAll (s : QueryState) : List Call → Except Error QueryState
  | [] => .ok s
  | c :: rest => do
    let s ← s.apply c
    s.applyAll rest

/-- The states that calls lead to from the beginning. -/
def Reachable (s : QueryState) : Prop := ∃ calls, applyAll {} calls = .ok s

end QueryState

end ContentQuery
