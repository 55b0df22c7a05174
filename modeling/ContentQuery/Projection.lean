/-
Projections: which fields of a document are kept.

A projection is a document of paths with truthy values, to include, or falsy
ones, to exclude; the two are not mixed, except for `_id`, which is kept unless
it is excluded by name.

* an exclusion drops what its paths name, in sub-documents and in the documents
  of arrays;
* an inclusion copies what its paths name, in the order of the paths.  The
  documents of an array keep their places among themselves, and what is no
  document is left out.
-/
import ContentQuery.Error
import ContentQuery.Path

namespace ContentQuery

/-- Whether a projection's value includes its path. -/
def Value.truthy : Value → Bool
  | bool b => b
  | int32 n => n != 0
  | int64 n => n != 0
  | double x => !x.isZero
  | _ => true

namespace Projection

/-- The key of a document's own id. -/
def idKey : String := "_id"

/-- Drop what a list of segments names. -/
def drop : List String → Document → Document
  | [], d => d
  | [s], d => Entries.erase d s
  | s :: rest, d => Entries.modify d s fun
    | .document sub => .document (drop rest sub)
    | .array items => .array (items.map fun
      | .document sub => .document (drop rest sub)
      | v => v)
    | v => v

/-- Apply `f` to the pairs of a source document and the value in its slot, as
far as both lists go; a slot that holds no document stays as it is. -/
def fillSlots (f : Document → Document → Document) : List Document → List Value → List Value
  | src :: srcs, .document dst :: slots => .document (f src dst) :: fillSlots f srcs slots
  | _ :: srcs, slot :: slots => slot :: fillSlots f srcs slots
  | _, slots => slots

/-- Copy what a list of segments names from `src` into `dst`. -/
def copy : List String → Document → Document → Document
  | [], _, dst => dst
  | [s], src, dst =>
    match Entries.get? src s with
    | some v => Entries.insert dst s v
    | none => dst
  | s :: rest, src, dst =>
    match Entries.get? src s with
    | some (.document sub) =>
      let present := match Entries.get? dst s with
        | some (.document d) => d
        | _ => []
      Entries.insert dst s (.document (copy rest sub present))
    | some (.array items) =>
      let subs := items.filterMap Value.document?
      let slots := match Entries.get? dst s with
        | some (.array slots) => slots
        | _ => subs.map fun _ => .document []
      Entries.insert dst s (.array (fillSlots (copy rest) subs slots))
    | _ => dst

/-- Drop each of some paths, one after the other. -/
def dropAll (d : Document) (paths : List String) : Document :=
  paths.foldl (fun d path => drop (Path.segments path) d) d

/-- Copy each of some paths, one after the other. -/
def copyAll (d : Document) (paths : List String) : Document :=
  paths.foldl (fun dst path => copy (Path.segments path) d dst) []

/-- Whether a projection keeps the id. -/
def keepsId (projection : Document) : Bool :=
  match Entries.get? projection idKey with
  | some v => v.truthy
  | none => true

/-- The paths that a projection includes. -/
def included (projection : Document) : List String :=
  (projection.filter fun e => e.1 != idKey && e.2.truthy).map Prod.fst

/-- The paths that a projection excludes. -/
def excluded (projection : Document) : List String :=
  (projection.filter fun e => e.1 != idKey && !e.2.truthy).map Prod.fst

/-- Put the id of the whole document into what was included of it. -/
def copyId (d out : Document) : Document :=
  match Entries.get? d idKey with
  | some id => Entries.insert out idKey id
  | none => out

/-- The part of a document that a projection keeps. -/
def apply (projection d : Document) : Except StoreFault Document :=
  let plus := included projection
  let minus := excluded projection
  if !plus.isEmpty && !minus.isEmpty then .error .mixedProjection
  else if plus.isEmpty then
    let out := dropAll d minus
    .ok (if keepsId projection then out else Entries.erase out idKey)
  else
    let out := copyAll d plus
    .ok (if keepsId projection then copyId d out else Entries.erase out idKey)

end Projection

end ContentQuery
