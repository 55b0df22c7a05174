/-
Looking up many keys at once.

The keys of one content type and locale are one part of a batch, and each part
is one find, for all of its uids.  The parts are asked for in the order of their
keys, and the first one that fails ends the batch.

Of several found documents with one key the first one counts.
-/
import ContentQuery.Ordered
import ContentQuery.Store
import ContentQuery.StoredDocument

namespace ContentQuery.Reference

/-- The keys of one content type and locale. -/
structure Part where
  contentType : String
  locale : String
  uids : List String
  deriving DecidableEq

/-- Whether a key belongs to a part. -/
def Part.holds (p : Part) (k : Key) : Bool :=
  p.contentType == k.contentType && p.locale == k.locale

/-- The parts of a list of keys in which the keys of a part stand together. -/
def parts : List Key → List Part
  | [] => []
  | k :: rest =>
    match parts rest with
    | [] => [⟨k.contentType, k.locale, [k.uid]⟩]
    | p :: ps =>
      if p.holds k then { p with uids := k.uid :: p.uids } :: ps
      else ⟨k.contentType, k.locale, [k.uid]⟩ :: p :: ps

/-- The predicate document that a part is looked up with. -/
def Part.filter (p : Part) : Document :=
  [(Wrapper.contentType, .string p.contentType),
    (Wrapper.locale, .string p.locale),
    (Wrapper.uid, .document [("$in", .array (p.uids.map .string))])]

/-- The found documents of some parts, one part after the other. -/
def findParts (collection : String) (options : FindOptions) : List Part → Plan (List Document)
  | [] => pure []
  | p :: rest => do
    let docs ← Plan.ask collection p.filter options
    let more ← findParts collection options rest
    pure (docs ++ more)

/-- Found documents by key.  A document without a key is left out. -/
def byKey (found : List Document) : List (Key × Document) :=
  found.foldl (fun acc raw =>
    match keyOf? raw with
    | some k => Entries.upsert acc k fun present => present.getD (payloadOf raw)
    | none => acc) []

/-- The payloads of the documents that some keys name.  The keys are increasing. -/
def fetch (collection : String) (projection : Option Document) (keys : List Key) :
    Plan (List (Key × Document)) := do
  let found ← findParts collection { projection } (parts keys)
  pure (byKey found)

end ContentQuery.Reference
