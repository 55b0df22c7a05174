/-
Running a query.

A find asks for the documents, keeps those that the reference predicate wants,
counts all of them if asked, cuts out the page, expands references and, for
entries, looks up the schema.  A count only counts.  The first failing request
ends the run; the log tells how it went.
-/
import ContentQuery.Envelope
import ContentQuery.Query.Call
import ContentQuery.Reference.Expansion
import ContentQuery.Reference.SemiJoin
import ContentQuery.Store.Memory

namespace ContentQuery

/-- The calls that run a query. -/
inductive Terminal
  | find | findOne | count
  deriving DecidableEq

variable [PatternLanguage]

namespace CompiledQuery

/-- The documents of a query before they are paged in memory.  The projection
waits for that when there is a reference predicate, which has to see every
reference. -/
def candidates (q : CompiledQuery) : Plan (List Document) :=
  match q.referenceQuery with
  | none => Plan.ask q.collection q.filter q.options
  | some predicate => do
    let docs ← Plan.ask q.collection q.filter { q.options with projection := none }
    Reference.semiJoin q.collection q.locale predicate docs

/-- The number of all matches, if it was asked for.  After a reference predicate
it is known already. -/
def total (q : CompiledQuery) (docs : List Document) : Plan (Option Nat) :=
  if q.includeCount then
    match q.deferredPage with
    | some _ => pure (some docs.length)
    | none => do
      let n ← Plan.askCount q.collection q.filter
      pure (some n)
  else pure none

/-- The page of a query, if that waits for the reference predicate. -/
def page (q : CompiledQuery) (docs : List Document) : Except StoreFault (List Document) :=
  match q.deferredPage with
  | none => .ok docs
  | some (skip, limit) => MemoryStore.projectAll q.options.projection ((docs.drop skip).take limit)

/-- The expansion of the references of a query. -/
def expansion (q : CompiledQuery) : Reference.Expansion where
  collection := q.collection
  projection := q.referenceProjection
  mode := q.expand
  maxDepth := q.referenceDepth
  locale := q.locale

/-- The predicate document of a content type's schema, in any locale. -/
def schemaFilter (contentType : String) : Document :=
  [(Wrapper.contentType, .string schemasUid), (Wrapper.uid, .string contentType)]

/-- The schema of the queried content type, if it was asked for. -/
def schema (q : CompiledQuery) : Plan (Option Document) :=
  if q.includeSchema ∧ q.contentClass = .entry then do
    let found ← Plan.ask q.collection (schemaFilter q.contentType)
      { projection := some [(Projection.idKey, .int32 0)], limit := some 1 }
    pure (found.head?.map payloadOf)
  else pure none

/-- The response to a find. -/
def find (q : CompiledQuery) : Plan Envelope := do
  let docs ← q.candidates
  let count ← q.total docs
  let docs ← Plan.ofExcept (MemoryStore.report (q.page docs))
  let payloads ← q.expansion.resolve docs
  let schema ← q.schema
  pure (Envelope.shape q payloads count schema)

/-- The response to a count. -/
def count (q : CompiledQuery) : Plan Envelope :=
  match q.referenceQuery with
  | some _ => do
    let docs ← q.candidates
    pure (Envelope.countOnly q docs.length)
  | none => do
    let n ← Plan.askCount q.collection q.filter
    pure (Envelope.countOnly q n)

/-- The number of documents in a response to a find. -/
def resultCount (q : CompiledQuery) (e : Envelope) : Nat :=
  if q.single then (if e.item.isSome then 1 else 0) else e.items.length

/-- The log line of a find that succeeded. -/
def foundNote (q : CompiledQuery) (e : Envelope) : LogLine :=
  let contentType := e.contentType
  let locale := e.locale
  let n := q.resultCount e
  ⟨.info, s!"find {contentType} [{locale}]: {n} results"⟩

/-- The log line of a run that failed. -/
def failedNote (q : CompiledQuery) (call : String) (e : Error) : LogLine :=
  let contentType := q.contentType
  let message := e.message
  ⟨.warn, s!"{call} {contentType} failed: {message}"⟩

/-- Write how a find went behind its log. -/
def closeFind (q : CompiledQuery) (r : Report Envelope) : Report Envelope :=
  match r.outcome with
  | .ok e => { r with log := r.log ++ [q.foundNote e] }
  | .error e => { r with log := r.log ++ [q.failedNote "find" e] }

/-- Write how a count went behind its log, if it failed. -/
def closeCount (q : CompiledQuery) (r : Report Envelope) : Report Envelope :=
  match r.outcome with
  | .ok _ => r
  | .error e => { r with log := r.log ++ [q.failedNote "count" e] }

end CompiledQuery

namespace QueryState

/-- Compile a query and run it against a store.  A query without a content type
asks nothing. -/
def run (s : QueryState) (config : Config) (store : Store) (t : Terminal) : Report Envelope :=
  let s := if t = .findOne then { s with single := true } else s
  let call := if t = .count then "count" else "find"
  match s.requireScope call with
  | .error e => { outcome := .error e }
  | .ok () =>
    let q := s.normalize config
    if t = .count then q.closeCount (Plan.run store q.count 0)
    else q.closeFind (Plan.run store q.find 0)

end QueryState

end ContentQuery
