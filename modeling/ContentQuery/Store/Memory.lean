/-
A store in memory.

Each collection is a list of documents in the order of their insertion.  The
store gives an id to a document that has no object id, and counts the finds that
it serves.  Filters with a script are refused.
-/
import ContentQuery.Filter.Accepts
import ContentQuery.Filter.Parse
import ContentQuery.Projection
import ContentQuery.Store
import ContentQuery.StoredDocument

namespace ContentQuery

/-- The documents of each collection, the number of ids made up so far, and the
number of finds served. -/
structure MemoryStore where
  collections : List (String × List Document) := []
  inventedIds : Nat := 0
  findCalls : Nat := 0

namespace MemoryStore

/-- The documents of a collection, in the order of insertion. -/
def documents (s : MemoryStore) (collection : String) : List Document :=
  (Entries.get? s.collections collection).getD []

/-- The number of documents of a collection. -/
def size (s : MemoryStore) (collection : String) : Nat := (s.documents collection).length

/-- Append a document to a collection. -/
def append (s : MemoryStore) (collection : String) (d : Document) : MemoryStore :=
  { s with collections := Entries.upsert s.collections collection fun docs => docs.getD [] ++ [d] }

/-- Insert a document under its own object id, or under a new one that takes
the place of any other id. -/
def insert (s : MemoryStore) (collection : String) (d : Document) : ObjectId × MemoryStore :=
  match Entries.get? d Projection.idKey with
  | some (.objectId id) => (id, s.append collection d)
  | _ =>
    let id := ObjectId.invented s.inventedIds
    let s := s.append collection (Entries.insert d Projection.idKey (.objectId id))
    (id, { s with inventedIds := s.inventedIds + 1 })

/-- Insert the stored form of a document. -/
def insertDocument (s : MemoryStore) (collection : String) (d : StoredDocument) :
    ObjectId × MemoryStore :=
  s.insert collection d.toDocument

/-- Wrap a payload and insert it. -/
def insertPayload (s : MemoryStore) (collection contentType locale : String)
    (payload : Document) : Except Error (ObjectId × MemoryStore) :=
  match StoredDocument.ofPayload contentType locale payload with
  | .ok d => .ok (s.insertDocument collection d)
  | .error cause => .error (.invalidArgument cause)

/-- The filter of a predicate document, if the store can answer it. -/
def readFilter (filter : Document) : Except StoreFault Filter :=
  match Filter.parse filter with
  | .error cause => .error (.badFilter cause)
  | .ok f => if f.usesScript then .error .scriptUnsupported else .ok f

variable [PatternLanguage]

/-- The documents of a collection that a predicate document accepts, in the
order of insertion. -/
def matching (s : MemoryStore) (collection : String) (filter : Document) :
    Except StoreFault (List Document) :=
  (readFilter filter).map fun f => (s.documents collection).filter fun d => f.accepts d

/-- The part of a list between an offset and a length, where no length or a
length of zero is no bound. -/
def window {α : Type} (skip limit : Option Nat) (xs : List α) : List α :=
  let rest := xs.drop (skip.getD 0)
  match limit with
  | none | some 0 => rest
  | some n => rest.take n

/-- Apply a projection, if there is one, to each document of a list. -/
def projectAll (projection : Option Document) (docs : List Document) :
    Except StoreFault (List Document) :=
  match projection with
  | none => .ok docs
  | some p => docs.mapM (Projection.apply p)

/-- The answer to a find. -/
def find (s : MemoryStore) (collection : String) (filter : Document) (options : FindOptions) :
    Except StoreFault (List Document) := do
  let docs ← s.matching collection filter
  let sorted := match options.sort with
    | some keys => Sorting.sort keys docs
    | none => docs
  projectAll options.projection (window options.skip options.limit sorted)

/-- The answer to a count. -/
def count (s : MemoryStore) (collection : String) (filter : Document) : Except StoreFault Nat :=
  (s.matching collection filter).map List.length

/-- A failure of the store as an error of the library. -/
def report {α : Type} : Except StoreFault α → Except Error α
  | .ok a => .ok a
  | .error cause => .error (.store cause)

/-- The store that a plan asks. -/
def toStore (s : MemoryStore) : Store where
  find _ collection filter options := report (s.find collection filter options)
  count _ collection filter := report (s.count collection filter)

/-- The store that a plan asks, of which one call, counted from one, may be made
to fail before it reaches the documents. -/
def interrupted (s : MemoryStore) : Option (Nat × Error) → Store
  | some (k, e) => s.toStore.failingAt k e
  | none => s.toStore

/-- The number of finds among the calls from the `n`-th on, less the `k`-th
call. -/
def findsReaching (k : Option Nat) : Nat → List CallRecord → Nat
  | _, [] => 0
  | n, c :: rest =>
    let here := match c.request with
      | .find _ _ _ => if k = some n then 0 else 1
      | .count _ _ => 0
    here + findsReaching k (n + 1) rest

/-- The store after a run with some calls, of which the `k`-th did not reach it. -/
def afterRun (s : MemoryStore) (k : Option Nat) (calls : List CallRecord) : MemoryStore :=
  { s with findCalls := s.findCalls + findsReaching k 1 calls }

/-- A find by itself, which the store counts. -/
def findCounted (s : MemoryStore) (collection : String) (filter : Document)
    (options : FindOptions) : Except Error (List Document) × MemoryStore :=
  (report (s.find collection filter options), { s with findCalls := s.findCalls + 1 })

end MemoryStore

end ContentQuery
