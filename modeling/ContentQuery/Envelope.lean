/-
Responses.

An envelope holds the documents of a query under a key that tells their kind,
the public name of the content type, the locale and, if they were asked for, the
number of all matches and the schema.  A query for one document has a document
or null in place of a list; a count has no documents.
-/
import ContentQuery.Query.Compiled
import ContentQuery.Value.Json

namespace ContentQuery

/-- The response to a query. -/
structure Envelope where
  key : String
  /-- the documents; a count has none -/
  result : Option Value
  count : Option Nat
  contentType : String
  locale : String
  schema : Option Document

namespace Envelope

/-- The response to a find. -/
def shape (q : CompiledQuery) (payloads : List Document) (count : Option Nat)
    (schema : Option Document) : Envelope where
  key := if q.single then q.contentClass.singularKey else q.contentClass.pluralKey
  result :=
    if q.single then
      match payloads with
      | d :: _ => some (.document d)
      | [] => some .null
    else some (.array (payloads.map .document))
  count
  contentType := publicUid q.contentType
  locale := q.locale
  schema := if q.contentClass = .entry then schema else none

/-- The response to a count. -/
def countOnly (q : CompiledQuery) (count : Nat) : Envelope where
  key := q.contentClass.pluralKey
  result := none
  count := some count
  contentType := publicUid q.contentType
  locale := q.locale
  schema := none

/-- The document of a query for one. -/
def item (e : Envelope) : Option Document := e.result.bind Value.document?

/-- The documents of a query for a list. -/
def items (e : Envelope) : List Document :=
  match e.result with
  | some (.array vs) => vs.filterMap Value.document?
  | _ => []

/-- The largest count that a document can hold. -/
def maxCount : Nat := Nat.pow 2 63 - 1

/-- Put a value under a key, if there is a value. -/
def insertSome (d : Document) (k : String) : Option Value → Document
  | some v => Entries.insert d k v
  | none => d

/-- The response as a document. -/
def toDocument (e : Envelope) : Document :=
  let out := insertSome [] e.key e.result
  let out := insertSome out "content_type" (e.schema.map .document)
  let out := Entries.insert out "content_type_uid" (.string e.contentType)
  let out := Entries.insert out "locale" (.string e.locale)
  insertSome out "count" (e.count.map fun n => .int64 (Int64.ofInt (min n maxCount : Nat)))

/-- The response as JSON. -/
def toJson (e : Envelope) : Json := Value.toJson (.document e.toDocument)

end Envelope

end ContentQuery
