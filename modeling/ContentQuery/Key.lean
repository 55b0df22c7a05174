/-
Content types and the identity of stored documents.

A stored document is named by its content type, its locale and its uid.  Assets
and schemas are documents of reserved content types; all others are entries.
Keys are ordered part by part.
-/
import ContentQuery.Value

namespace ContentQuery

/-- The content type of assets. -/
def assetsUid : String := "_assets"

/-- The name of the content type of assets in responses. -/
def assetsPublicUid : String := "assets"

/-- The content type of schemas. -/
def schemasUid : String := "_content_types"

/-- The public name of a content type. -/
def publicUid (contentType : String) : String :=
  if contentType = assetsUid then assetsPublicUid else contentType

/-- The kinds of content types. -/
inductive ContentClass
  | asset | schema | entry
  deriving DecidableEq

namespace ContentClass

/-- The kind of a content type. -/
def of (contentType : String) : ContentClass :=
  if contentType = assetsUid then asset
  else if contentType = schemasUid then schema
  else entry

/-- The response key of one document. -/
def singularKey : ContentClass → String
  | asset => "asset"
  | schema => "content_type"
  | entry => "entry"

/-- The response key of a list of documents. -/
def pluralKey : ContentClass → String
  | asset => "assets"
  | schema => "content_types"
  | entry => "entries"

end ContentClass

/-- The identity of a stored document. -/
structure Key where
  contentType : String
  locale : String
  uid : String
  deriving DecidableEq

namespace Key

/-- The written form of a key. -/
def text (k : Key) : String := s!"{k.contentType}/{k.locale}/{k.uid}"

/-- The order of keys: by content type, then locale, then uid. -/
def compare (a b : Key) : Ordering :=
  (Ord.compare a.contentType b.contentType).then
    ((Ord.compare a.locale b.locale).then (Ord.compare a.uid b.uid))

end Key

end ContentQuery
