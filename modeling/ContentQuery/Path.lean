/-
Dotted paths.

A path names places in a document by the keys on the way, with dots between
them.  A segment that reads as a number also picks one element of an array; any
other segment spreads over the documents of an array.

* `reach_append` — the places of a path are those of its second part, seen from
  the places of its first;
* `resolve` — the values that a path reaches in a document, in document order.
-/
import ContentQuery.Value
import ContentQuery.Text.Numeral

namespace ContentQuery.Path

/-- A path with more segments than this reaches nothing. -/
def maxDepth : Nat := 32

/-- The segments between the dots; the empty path has one, which is empty. -/
def segments (path : String) : List String :=
  (path.toList.splitOn '.').map String.ofList

/-- The path of a key below a path; at the root it is the key itself. -/
def join (path key : String) : String :=
  if path.isEmpty then key else path ++ "." ++ key

/-- The values one segment below a value. -/
def step (segment : String) : Value → List Value
  | .document d => (Entries.get? d segment).toList
  | .array items =>
    match Text.unsigned? segment with
    | some i => items[i]?.toList
    | none => items.flatMap fun
      | .document d => (Entries.get? d segment).toList
      | _ => []
  | _ => []

/-- The values that a list of segments leads to. -/
def reach : List String → Value → List Value
  | [], v => [v]
  | s :: rest, v => (step s v).flatMap (reach rest)

theorem reach_append (p q : List String) (v : Value) :
    reach (p ++ q) v = (reach p v).flatMap (reach q) := by
  induction p generalizing v with
  | nil => simp [reach]
  | cons s rest ih =>
    simp only [List.cons_append, reach, List.flatMap_assoc]
    exact congrArg (fun f => (step s v).flatMap f) (funext ih)

/-- The values that a path reaches in a document. -/
def resolve (d : Document) (path : String) : List Value :=
  let segs := segments path
  if path.isEmpty || maxDepth < segs.length then [] else reach segs (.document d)

end ContentQuery.Path
