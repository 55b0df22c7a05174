/-
Where the descriptors of a payload are.

A location is the way from the root of a payload to a descriptor, by keys and
array indices.  Its path is made of the keys alone.  The scan lists descriptors
in document order and never looks inside one; `setAt` puts a value at a
location.
-/
import ContentQuery.Path
import ContentQuery.Reference.Descriptor

namespace ContentQuery.Reference

/-- A step from a value into one of its parts. -/
inductive Segment
  | key (k : String)
  | index (i : Nat)
  deriving DecidableEq

/-- The key of a step into a document. -/
def Segment.key? : Segment → Option String
  | key k => some k
  | index _ => none

/-- The dotted path of the keys among some steps, below a path. -/
def pathFrom (path : String) (segments : List Segment) : String :=
  (segments.filterMap Segment.key?).foldl Path.join path

/-- A descriptor and where it is. -/
structure Location where
  segments : List Segment
  descriptor : Descriptor
  raw : Value

namespace Location

/-- The path of a location, without array indices. -/
def path (l : Location) : String := pathFrom "" l.segments

/-- The location seen from a value that holds the part. -/
def under (s : Segment) (l : Location) : Location := { l with segments := s :: l.segments }

end Location

mutual

/-- The descriptors in a value. -/
def scanValue : Value → List Location
  | .document d =>
    match Descriptor.ofDocument? d with
    | some r => [⟨[], r, .document d⟩]
    | none => scan d
  | .array items => scanItems 0 items
  | _ => []

/-- The descriptors in the items of an array, from an index on. -/
def scanItems (i : Nat) : List Value → List Location
  | [] => []
  | v :: rest => (scanValue v).map (.under (.index i)) ++ scanItems (i + 1) rest

/-- The descriptors in a payload, in document order. -/
def scan : List (String × Value) → List Location
  | [] => []
  | (k, v) :: rest => (scanValue v).map (.under (.key k)) ++ scan rest

end

/-- A document with a new value for one of its keys: put there when the way ends
at the key, else made from what is there. -/
def setField (rest : List Segment) (d : Document) (k : String) (new : Value)
    (inside : Value → Value) : Document :=
  match rest with
  | [] => Entries.insert d k new
  | _ :: _ => Entries.modify d k inside

/-- A value with another at a place inside it.  A way that does not fit leaves
the value as it is. -/
def setIn : List Segment → Value → Value → Value
  | [], _, new => new
  | .key k :: rest, .document d, new =>
    .document (setField rest d k new fun v => setIn rest v new)
  | .index i :: rest, .array items, new => .array (items.modify i fun v => setIn rest v new)
  | _ :: _, v, _ => v

/-- A payload with a value at a location. -/
def setAt (d : Document) (segments : List Segment) (new : Value) : Document :=
  match segments with
  | .key k :: rest => setField rest d k new fun v => setIn rest v new
  | _ => d

end ContentQuery.Reference
