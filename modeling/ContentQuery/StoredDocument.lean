/-
Stored documents: an identity around a payload.

The store keeps the content type, the locale and the uid beside the payload, in
wrapper fields; the payload repeats the uid, so that it survives when the
wrapper is stripped.

* `keyOf?_toDocument` — the identity can be read back from the stored form;
* `payloadOf_toDocument` — and so can the payload.
-/
import ContentQuery.Error
import ContentQuery.Key

namespace ContentQuery

namespace Wrapper

/-- The wrapper fields. -/
def contentType : String := "content_type_uid"
def locale : String := "locale"
def uid : String := "uid"
def payload : String := "data"

end Wrapper

/-- A document as the store keeps it. -/
structure StoredDocument where
  key : Key
  payload : Document

/-- The text of a field that is a string. -/
def Document.stringAt? (d : Document) (k : String) : Option String :=
  (Entries.get? d k).bind Value.string?

/-- The sub-document under a key. -/
def Document.documentAt? (d : Document) (k : String) : Option Document :=
  (Entries.get? d k).bind Value.document?

namespace StoredDocument

/-- Wrap a payload, whose uid names it.  The uid is checked first. -/
def ofPayload (contentType locale : String) (payload : Document) :
    Except ArgumentFault StoredDocument :=
  match Document.stringAt? payload Wrapper.uid with
  | none => .error .payloadNeedsUid
  | some uid =>
    if uid.isEmpty then .error .payloadNeedsUid
    else if contentType.isEmpty || locale.isEmpty then .error .identityEmpty
    else .ok ⟨⟨contentType, locale, uid⟩, payload⟩

/-- The stored form, without an id. -/
def toDocument (s : StoredDocument) : Document :=
  [(Wrapper.contentType, .string s.key.contentType),
    (Wrapper.locale, .string s.key.locale),
    (Wrapper.uid, .string s.key.uid),
    (Wrapper.payload, .document s.payload)]

end StoredDocument

/-- The identity of a stored form, if its wrapper fields are there. -/
def keyOf? (raw : Document) : Option Key := do
  let contentType ← Document.stringAt? raw Wrapper.contentType
  let locale ← Document.stringAt? raw Wrapper.locale
  let uid ← Document.stringAt? raw Wrapper.uid
  pure ⟨contentType, locale, uid⟩

/-- The payload of a stored form; empty if it has none. -/
def payloadOf (raw : Document) : Document :=
  (Document.documentAt? raw Wrapper.payload).getD []

@[simp] theorem keyOf?_toDocument (s : StoredDocument) : keyOf? s.toDocument = some s.key := by
  rfl

@[simp] theorem payloadOf_toDocument (s : StoredDocument) :
    payloadOf s.toDocument = s.payload := by
  rfl

end ContentQuery
