/-
Reference descriptors.

A descriptor is a payload value that names other documents: their content type,
one uid or a list of uids, and perhaps a locale.  A document with any other key
is no descriptor.
-/
import ContentQuery.StoredDocument

namespace ContentQuery.Reference

namespace Field

/-- The fields of a descriptor. -/
def referenceTo : String := "reference_to"
def values : String := "values"
def locale : String := "locale"

end Field

/-- What a descriptor says. -/
structure Descriptor where
  referenceTo : String
  /-- the uids, in order -/
  values : List String
  /-- whether the uids were given as a list -/
  toMany : Bool
  locale : Option String
  deriving DecidableEq

namespace Descriptor

/-- Whether a key may stand in a descriptor. -/
def isField (key : String) : Bool :=
  key == Field.referenceTo || key == Field.values || key == Field.locale

/-- The locale of a descriptor: absent, or a string. -/
def locale? (d : Document) : Option (Option String) :=
  match Entries.get? d Field.locale with
  | none => some none
  | some (.string s) => some (some s)
  | some _ => none

/-- The uids of a descriptor, and whether they are a list.  What is no string in
the list is left out. -/
def values? (d : Document) : Option (List String × Bool) :=
  match Entries.get? d Field.values with
  | some (.string s) => some ([s], false)
  | some (.array items) => some (items.filterMap Value.string?, true)
  | _ => none

/-- The descriptor that a document writes. -/
def ofDocument? (d : Document) : Option Descriptor :=
  if d.all fun e => isField e.1 then do
    let referenceTo ← Document.stringAt? d Field.referenceTo
    let locale ← locale? d
    let (values, toMany) ← values? d
    pure ⟨referenceTo, values, toMany, locale⟩
  else none

/-- The descriptor that a value writes. -/
def ofValue? : Value → Option Descriptor
  | .document d => ofDocument? d
  | _ => none

/-- The descriptor of one of the uids, in the same shape. -/
def narrowed (r : Descriptor) (uid : String) : Value :=
  let values : Value := if r.toMany then .array [.string uid] else .string uid
  let fields : Document := [(Field.referenceTo, .string r.referenceTo), (Field.values, values)]
  match r.locale with
  | some l => .document (fields ++ [(Field.locale, .string l)])
  | none => .document fields

/-- The keys of the documents that a descriptor names, in the given locale
unless it has its own. -/
def keys (r : Descriptor) (ownerLocale : String) : List Key :=
  r.values.map fun uid => ⟨r.referenceTo, r.locale.getD ownerLocale, uid⟩

end Descriptor

end ContentQuery.Reference
