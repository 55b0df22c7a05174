/-
What a projection does to one field.

Copying or dropping a path changes the field of its first segment, by what is left of the
path, and leaves the other fields alone:

* `get?_copy_cons`, `get?_copy_of_ne` — copying fills the slot of the field from the same
  field of the source;
* `get?_drop_cons` — dropping prunes what the field holds.
-/
import ContentQuery.Proofs.Exclusion

namespace ContentQuery.Projection

variable {k : String}

/-! ### Copying -/

/-- What copying the rest of a path from a value makes of the slot of its key. -/
def fill : List String → Value → Option Value → Option Value
  | [], v, _ => some v
  | s :: rest, .document sub, slot =>
    let present := match slot with
      | some (.document d) => d
      | _ => []
    some (.document (copy (s :: rest) sub present))
  | s :: rest, .array items, slot =>
    let subs := items.filterMap Value.document?
    let slots := match slot with
      | some (.array slots) => slots
      | _ => subs.map fun _ => .document []
    some (.array (fillSlots (copy (s :: rest)) subs slots))
  | _ :: _, _, slot => slot

theorem get?_copy_cons (k : String) (t : List String) (src dst : Document) :
    Entries.get? (copy (k :: t) src dst) k =
      (Entries.get? src k).elim (Entries.get? dst k) fun v => fill t v (Entries.get? dst k) := by
  match t with
  | [] =>
    rw [copy]
    cases Entries.get? src k with
    | none => rfl
    | some v => exact Entries.get?_insert_self dst k v
  | s :: rest =>
    rw [copy.eq_3 src dst k (s :: rest) (by simp)]
    cases Entries.get? src k with
    | none => rfl
    | some v =>
      cases v with
      | document sub => exact Entries.get?_insert_self dst k _
      | array items => exact Entries.get?_insert_self dst k _
      | _ => rfl

theorem get?_copy_of_ne {segs : List String} (h : segs.head? ≠ some k) (src dst : Document) :
    Entries.get? (copy segs src dst) k = Entries.get? dst k := by
  match segs with
  | [] => rfl
  | [s] =>
    have hs : s ≠ k := by simpa using h
    rw [copy]
    split
    · exact Entries.get?_insert_of_ne dst hs _
    · rfl
  | s :: t :: rest =>
    have hs : s ≠ k := by simpa using h
    rw [copy.eq_3 src dst s (t :: rest) (by simp)]
    split
    · exact Entries.get?_insert_of_ne dst hs _
    · exact Entries.get?_insert_of_ne dst hs _
    · rfl

/-! ### Dropping -/

/-- Change a document, and leave any other value as it is. -/
def inside (f : Document → Document) : Value → Value
  | .document sub => .document (f sub)
  | v => v

/-- What dropping the rest of a path leaves of a value. -/
def prune : List String → Value → Option Value
  | [], _ => none
  | s :: rest, .document sub => some (.document (drop (s :: rest) sub))
  | s :: rest, .array items => some (.array (items.map (inside (drop (s :: rest)))))
  | _ :: _, v => some v

theorem get?_drop_cons (k : String) (t : List String) (d : Document) :
    Entries.get? (drop (k :: t) d) k = (Entries.get? d k).bind (prune t) := by
  match t with
  | [] =>
    rw [drop, Entries.get?_erase_self]
    cases Entries.get? d k <;> rfl
  | s :: rest =>
    rw [drop.eq_3 d k (s :: rest) (by simp), Entries.get?_modify_self]
    cases Entries.get? d k with
    | none => rfl
    | some v => cases v <;> rfl

end ContentQuery.Projection
