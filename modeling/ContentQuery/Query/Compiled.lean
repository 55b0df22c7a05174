/-
Compiled queries: what is asked of the store, and what is done with the answer.

Compiling resolves what a state leaves open against the configuration.  The
native filter names the content type, the locale and the uid in the wrapper and
everything else below the payload field.  A query with a reference predicate is
paged in memory, after that predicate.
-/
import ContentQuery.Config
import ContentQuery.Filter.Render
import ContentQuery.Projection
import ContentQuery.Query.State
import ContentQuery.Reference.Mode
import ContentQuery.Store
import ContentQuery.StoredDocument

namespace ContentQuery

/-- A query that is ready for the store. -/
structure CompiledQuery where
  collection : String
  contentType : String
  locale : String
  contentClass : ContentClass
  filter : Document
  options : FindOptions
  single : Bool
  includeCount : Bool
  includeSchema : Bool
  expand : ExpandMode
  referenceDepth : Nat
  referenceQuery : Option Filter
  /-- how many documents to skip and how many to take, after the reference
  predicate -/
  deferredPage : Option (Nat × Nat)
  /-- the projection of referenced documents -/
  referenceProjection : Document

/-- The native path of a payload field. -/
def payloadPath (field : String) : String := Wrapper.payload ++ "." ++ field

/-- The native projection of payload fields.  The id is never kept, and an
inclusion also keeps the wrapper fields. -/
def renderProjection (entries : List (String × Int32)) : Document :=
  let id : Document := [(Projection.idKey, .int32 0)]
  let wrapper :=
    if entries.any fun e => e.2 == 1 then
      [Wrapper.contentType, Wrapper.locale, Wrapper.uid].foldl
        (fun out k => Entries.insert out k (.int32 1)) id
    else id
  entries.foldl (fun out e => Entries.insert out (payloadPath e.1) (.int32 e.2)) wrapper

namespace QueryState

/-- Whether the projection includes a field. -/
def includesFields (s : QueryState) : Bool := s.projection.any fun e => e.2 == 1

/-- The native projection of a query.  An inclusion replaces the configured
exclusions, and an exclusion adds to them. -/
def nativeProjection (s : QueryState) (c : Config) : Document :=
  renderProjection (if s.includesFields then s.projection else c.projections ++ s.projection)

/-- The fields that scope a query; schemas have no locale. -/
def scope (s : QueryState) (contentType locale : String) : Document :=
  let out : Document := [(Wrapper.contentType, .string contentType)]
  let out :=
    if ContentClass.of contentType = .schema then out
    else Entries.insert out Wrapper.locale (.string locale)
  match s.uid with
  | some uid => Entries.insert out Wrapper.uid (.string uid)
  | none => out

/-- The references that a query expands. -/
def expandMode (s : QueryState) (c : Config) : ExpandMode :=
  if s.excludeReferences then .none
  else if !s.includePaths.isEmpty && !s.includeAll then .paths s.includePaths
  else if s.includeAll || c.includeReferences then .all
  else .none

/-- The native sort of a query. -/
def nativeSort (s : QueryState) (c : Config) : Option (List SortKey) :=
  s.sort.map fun r => [⟨payloadPath (r.field.getD c.defaultSortField), r.direction⟩]

/-- Resolve what a state leaves open and render the native query. -/
def normalize (s : QueryState) (c : Config) : CompiledQuery :=
  let contentType := s.contentType.getD ""
  let locale := s.locale.getD c.defaultLocale
  let skip := s.skip.getD c.skip
  let limit := if s.single then 1 else s.limit.getD c.limit
  let deferred := !s.referenceQuery.isEmpty
  { collection := c.collection
    contentType
    locale
    contentClass := .of contentType
    filter := Entries.insertAll (s.scope contentType locale)
      (s.filter.renderUnder Wrapper.payload)
    options :=
      { projection := some (s.nativeProjection c)
        sort := s.nativeSort c
        limit := if deferred then none else some limit
        skip := if deferred then none else some skip }
    single := s.single
    includeCount := s.includeCount
    includeSchema := s.includeSchema
    expand := s.expandMode c
    referenceDepth := c.referenceDepth
    referenceQuery := if deferred then some s.referenceQuery else none
    deferredPage := if deferred then some (skip, limit) else none
    referenceProjection := renderProjection c.projections }

end QueryState

end ContentQuery
