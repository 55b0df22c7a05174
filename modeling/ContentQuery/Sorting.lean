/-
Sorting documents.

A sort key is a path and a direction; a document is placed by the first value
that the path reaches, and one without such a value comes before all others in
ascending order.  Sorting is by insertion from the right end, so documents that
compare equal keep their order.
-/
import ContentQuery.Path
import ContentQuery.Value.Order

namespace ContentQuery

/-- The direction of a sort. -/
inductive Direction
  | ascending | descending
  deriving DecidableEq

/-- The sign of a direction. -/
def Direction.sign : Direction → Int
  | ascending => 1
  | descending => -1

/-- The order of two keys in a direction. -/
def Direction.orient : Direction → Ordering → Ordering
  | ascending, o => o
  | descending, o => o.swap

/-- One key of a sort. -/
structure SortKey where
  field : String
  direction : Direction
  deriving DecidableEq

namespace Sorting

/-- The order of two values that may be missing. -/
def comparePresent : Option Value → Option Value → Ordering
  | some a, some b => a.compare b
  | some _, none => .gt
  | none, some _ => .lt
  | none, none => .eq

/-- The order of two documents by one key. -/
def compareBy (key : SortKey) (a b : Document) : Ordering :=
  key.direction.orient
    (comparePresent (Path.resolve a key.field).head? (Path.resolve b key.field).head?)

/-- The order of two documents by the first key that tells them apart. -/
def compare (a b : Document) : List SortKey → Ordering
  | [] => .eq
  | key :: rest => (compareBy key a b).then (compare a b rest)

/-- Insert a value into a list in descending order, in front of those that it
does not precede. -/
def place {α : Type} (precedes : α → α → Bool) (x : α) : List α → List α
  | [] => [x]
  | y :: ys => if precedes x y then y :: place precedes x ys else x :: y :: ys

/-- A list in ascending order. -/
def sortBy {α : Type} (precedes : α → α → Bool) (xs : List α) : List α :=
  (xs.foldl (fun sorted x => place precedes x sorted) []).reverse

/-- Documents in the order of some sort keys. -/
def sort (keys : List SortKey) (docs : List Document) : List Document :=
  sortBy (fun a b => compare a b keys == .lt) docs

end Sorting

end ContentQuery
