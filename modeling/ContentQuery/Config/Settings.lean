/-
Reading configurations from TOML.

A document sets any of the settings; what it leaves out keeps its default, and
names that are no setting are ignored.  A setting of the wrong type, or a number
that does not fit, makes the document unusable.
-/
import ContentQuery.Config
import ContentQuery.Toml.Reading

namespace ContentQuery.Config

/-- A setting that is a string. -/
def text? : Toml → Option String
  | .string s => some s
  | _ => none

/-- A setting that is a list of strings. -/
def texts? : Toml → Option (List String)
  | .array items => items.mapM text?
  | _ => none

/-- A setting that is a 64-bit unsigned number. -/
def number? : Toml → Option Nat
  | .integer n => if 0 ≤ n ∧ n < Nat.pow 2 64 then some n.toNat else none
  | _ => none

/-- A setting that is a truth value. -/
def truth? : Toml → Option Bool
  | .boolean b => some b
  | _ => none

/-- A projection mark: a 32-bit number. -/
def mark? : Toml → Option Int32
  | .integer n => if -(Nat.pow 2 31) ≤ n ∧ n < Nat.pow 2 31 then some (Int32.ofInt n) else none
  | _ => none

/-- A setting that is a table of projection marks. -/
def marks? : Toml → Option (List (String × Int32))
  | .table _ entries => entries.mapM fun e => (mark? e.2).map (e.1, ·)
  | _ => none

/-- Lay one field of a document over a configuration. -/
def set? (c : Config) (name : String) (v : Toml) : Option Config :=
  match name with
  | "locales" => (texts? v).map fun x => { c with locales := x }
  | "collection_name" => (text? v).map fun x => { c with collection := x }
  | "limit" => (number? v).map fun x => { c with limit := x }
  | "skip" => (number? v).map fun x => { c with skip := x }
  | "projections" => (marks? v).map c.withProjections
  | "default_sort_field" => (text? v).map fun x => { c with defaultSortField := x }
  | "include_references" => (truth? v).map fun x => { c with includeReferences := x }
  | "reference_depth" => (number? v).map fun x => { c with referenceDepth := x }
  | _ => some c

/-- The configuration of a TOML text. -/
def ofToml (text : String) : Except Error Config :=
  match (Toml.read? text).bind fun es => es.foldlM (fun c e => set? c e.1 e.2) {} with
  | some c => .ok c
  | none => .error .notToml

/-- The configuration of a file, given by its bytes if it can be read. -/
def ofFile (content : Option ByteArray) : Except Error Config :=
  match content.bind String.fromUTF8? with
  | some text => ofToml text
  | none => .error .unreadable

end ContentQuery.Config
