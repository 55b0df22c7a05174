/-
TOML documents.

A document is a table of named nodes.  A table remembers how it came to be,
because that decides who may add to it: a header may complete a table that other
headers only passed through, dotted keys may add to the tables of dotted keys,
and an inline table is closed.
-/
import ContentQuery.Entries

namespace ContentQuery

namespace Toml

/-- How a table came to be. -/
inductive TableKind
  /-- named by its own header -/
  | header
  /-- passed through by a header -/
  | implied
  /-- named by dotted keys -/
  | dotted
  /-- written in braces -/
  | inline
  deriving DecidableEq

end Toml

/-- A node of a document.  Numbers with a fraction and times are kept as they
were written. -/
inductive Toml
  | string (s : String)
  | integer (n : Int)
  | float (text : String)
  | boolean (b : Bool)
  | time (text : String)
  | array (items : List Toml)
  /-- an array of tables, by headers -/
  | tables (items : List (List (String × Toml)))
  | table (kind : Toml.TableKind) (entries : List (String × Toml))

namespace Toml

/-- The fields of a table. -/
abbrev Fields := List (String × Toml)

/-- Change the last item of a list. -/
def changeLast? {α : Type} (f : α → Option α) : List α → Option (List α)
  | [] => none
  | [x] => (f x).map ([·])
  | x :: rest => (changeLast? f rest).map (x :: ·)

/-- Change the table at a path below another, making the tables on the way.
`byKey` tells that the path is the front of a dotted key and not of a header. -/
def changeAt? (byKey : Bool) (f : TableKind → Fields → Option Fields) :
    List String → TableKind → Fields → Option Fields
  | [], kind, es => f kind es
  | k :: rest, _, es =>
    match Entries.get? es k with
    | none =>
      let kind := if byKey then TableKind.dotted else .implied
      (changeAt? byKey f rest kind []).map fun sub => Entries.insert es k (.table kind sub)
    | some (.table kind sub) =>
      if kind = .inline ∨ (byKey ∧ kind = .header) then none
      else (changeAt? byKey f rest kind sub).map fun sub => Entries.insert es k (.table kind sub)
    | some (.tables items) =>
      if byKey then none
      else
        (changeLast? (changeAt? byKey f rest .header) items).map fun items =>
          Entries.insert es k (.tables items)
    | some _ => none

/-- Add a value under a dotted key, given by the keys in front of its last one.
A table takes keys either one by one or by dotted keys, and each key once. -/
def addValue? (front : List String) (key : String) (v : Toml) (kind : TableKind)
    (es : Fields) : Option Fields :=
  changeAt? true (fun kind es =>
    if (kind == .dotted) == front.isEmpty then none
    else if (Entries.get? es key).isSome then none
    else some (Entries.insert es key v)) front kind es

/-- Open the table of a header. -/
def openTable? (front : List String) (key : String) (es : Fields) : Option Fields :=
  changeAt? false (fun _ es =>
    match Entries.get? es key with
    | none => some (Entries.insert es key (.table .header []))
    | some (.table .implied sub) => some (Entries.insert es key (.table .header sub))
    | some _ => none) front .header es

/-- Open another table of an array of tables. -/
def openItem? (front : List String) (key : String) (es : Fields) : Option Fields :=
  changeAt? false (fun _ es =>
    match Entries.get? es key with
    | none => some (Entries.insert es key (.tables [[]]))
    | some (.tables items) => some (Entries.insert es key (.tables (items ++ [[]])))
    | some _ => none) front .header es

/-- Add a value below the table of the last header. -/
def addBelow? (header front : List String) (key : String) (v : Toml) (es : Fields) :
    Option Fields :=
  changeAt? false (addValue? front key v) header .header es

end Toml

end ContentQuery
