/-
Which references are expanded.

With explicit paths, a reference is expanded when one of them names it or goes
on through it: `authors` is expanded for `authors.books`.
-/
namespace ContentQuery

/-- Which references are expanded. -/
inductive ExpandMode
  | none
  | all
  /-- those on the way to one of some paths -/
  | paths (included : List String)
  deriving DecidableEq

/-- Whether a path is another one or leads to it. -/
def leadsTo (path included : String) : Bool :=
  included == path || (path.toList ++ ['.']).isPrefixOf included.toList

/-- Whether a reference at a path is expanded. -/
def ExpandMode.eligible (path : String) : ExpandMode → Bool
  | none => false
  | all => true
  | paths included => included.any (leadsTo path)

end ContentQuery
