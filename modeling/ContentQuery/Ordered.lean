/-
Increasing lists, as sets in order.

Inserting keeps a list increasing under the given comparison and puts each
member in once.
-/
namespace ContentQuery.Ordered

variable {α : Type}

/-- Insert a member into an increasing list, unless it is there. -/
def insert (cmp : α → α → Ordering) (x : α) : List α → List α
  | [] => [x]
  | y :: ys =>
    match cmp x y with
    | .lt => x :: y :: ys
    | .eq => y :: ys
    | .gt => y :: insert cmp x ys

/-- The members of a list, each once and in order. -/
def ofList (cmp : α → α → Ordering) (xs : List α) : List α :=
  xs.foldl (fun acc x => insert cmp x acc) []

/-- Put a value under a key of a list of entries with increasing keys. -/
def put {κ : Type} (cmp : κ → κ → Ordering) (k : κ) (v : α) : List (κ × α) → List (κ × α)
  | [] => [(k, v)]
  | (k', w) :: rest =>
    match cmp k k' with
    | .lt => (k, v) :: (k', w) :: rest
    | .eq => (k', v) :: rest
    | .gt => (k', w) :: put cmp k v rest

/-- Entries with their keys in order; of two with one key the later counts. -/
def ofEntries {κ : Type} (cmp : κ → κ → Ordering) (es : List (κ × α)) : List (κ × α) :=
  es.foldl (fun acc e => put cmp e.1 e.2 acc) []

end ContentQuery.Ordered
