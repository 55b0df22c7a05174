/-
What paths copy of a document.

Each path of an inclusion is copied into what the paths before it have made.  A value at
the end of a path is copied as a whole; below it, the documents of an array are paired
with the slots of the copy from the front:

* `get?_copied` — a field of the copy is made of the field of the source and of what is
  left of the paths below its key;
* `fill_self` — copying the rest of a path from a value into the value itself changes
  nothing, if the arrays on its way are in place;
* `spread_copied` — so what the paths cover is in the copy as it is in the source, and
  what stands apart from them is not in the copy;
* `copied_reordered` — and paths that cover the same copy the same.
-/
import ContentQuery.Proofs.PathRegions
import ContentQuery.Proofs.ProjectedKeys
import Mathlib.Data.List.Forall2

namespace ContentQuery

/-- The same value up to the order in which the fields of documents stand. -/
inductive Value.Reordered : Value → Value → Prop
  | refl (v : Value) : Reordered v v
  | document {d e : Document}
      (h : ∀ k, Option.Rel Reordered (Entries.get? d k) (Entries.get? e k)) :
      Reordered (.document d) (.document e)
  | array {xs ys : List Value} (h : List.Forall₂ Reordered xs ys) :
      Reordered (.array xs) (.array ys)

/-- The same document up to the order in which fields stand. -/
def Document.Reordered (d e : Document) : Prop :=
  ∀ k, Option.Rel Value.Reordered (Entries.get? d k) (Entries.get? e k)

namespace Document.Reordered

variable {d e : Document}

theorem insert (h : d.Reordered e) (k : String) (v : Value) :
    Document.Reordered (Entries.insert d k v) (Entries.insert e k v) := by
  intro j
  by_cases hj : k = j
  · subst hj
    rw [Entries.get?_insert_self, Entries.get?_insert_self]
    exact .some (.refl v)
  · rw [Entries.get?_insert_of_ne d hj, Entries.get?_insert_of_ne e hj]
    exact h j

theorem erase (h : d.Reordered e) (k : String) :
    Document.Reordered (Entries.erase d k) (Entries.erase e k) := by
  intro j
  by_cases hj : k = j
  · subst hj
    rw [Entries.get?_erase_self, Entries.get?_erase_self]
    exact .none
  · rw [Entries.get?_erase_of_ne d hj, Entries.get?_erase_of_ne e hj]
    exact h j

end Document.Reordered

namespace Projection

/-! ### One path after the other -/

/-- The paths of a document copied one after the other. -/
def copied (ps : List (List String)) (d : Document) : Document :=
  ps.foldl (fun dst p => copy p d dst) []

/-- What of a value the rests of some paths copy. -/
def kept (ts : List (List String)) (v : Value) : Option Value :=
  ts.foldl (fun slot t => fill t v slot) none

theorem get?_foldl_copy (ps : List (List String)) (src dst : Document) (k : String) :
    Entries.get? (ps.foldl (fun dst p => copy p src dst) dst) k =
      (Entries.get? src k).elim (Entries.get? dst k) fun v =>
        (tails k ps).foldl (fun slot t => fill t v slot) (Entries.get? dst k) := by
  rw [get?_foldl_tails (fun p dst => copy p src dst)
    (fun t slot => (Entries.get? src k).elim slot fun v => fill t v slot)
    (fun t dst => get?_copy_cons k t src dst) (fun p dst hp => get?_copy_of_ne hp src dst)]
  cases Entries.get? src k with
  | none => exact List.foldl_fixed _
  | some v => rfl

/-- A field of what is copied comes from the same field of the source. -/
theorem get?_copied (ps : List (List String)) (d : Document) (k : String) :
    Entries.get? (copied ps d) k = (Entries.get? d k).bind (kept (tails k ps)) := by
  rw [copied, get?_foldl_copy]
  cases Entries.get? d k <;> rfl

/-- An array of what `f` makes of the documents of some items. -/
def filled (items : List Value) (f : Document → Document) : Value :=
  .array ((items.filterMap Value.document?).map fun sub => .document (f sub))

/-- Slots that have been made for the documents of an array are filled one by one. -/
theorem fillSlots_map (f : Document → Document → Document) (g : Document → Document)
    (subs : List Document) :
    fillSlots f subs (subs.map fun sub => .document (g sub)) =
      subs.map fun sub => .document (f sub (g sub)) := by
  induction subs with
  | nil => rfl
  | cons sub rest ih => simp [fillSlots, ih]

theorem fill_filled (s : String) (rest : List String) (items : List Value)
    (f : Document → Document) :
    fill (s :: rest) (.array items) (some (filled items f)) =
      some (filled items fun sub => copy (s :: rest) sub (f sub)) :=
  congrArg (fun slots => some (Value.array slots)) (fillSlots_map _ _ _)

section Kept

variable {ts : List (List String)} {v : Value}

theorem kept_document (hne : ts ≠ []) (hend : [] ∉ ts) (sub : Document) :
    kept ts (.document sub) = some (.document (copied ts sub)) := by
  obtain ⟨t, rest, rfl⟩ := List.exists_cons_of_ne_nil hne
  obtain ⟨ht, hrest⟩ := List.forall_mem_cons.mp (List.forall_mem_ne'.mpr hend)
  obtain ⟨s, t, rfl⟩ := List.exists_cons_of_ne_nil ht
  exact foldl_slot Value.document (fun p dst => copy p sub dst)
    (fun t slot => fill t (.document sub) slot) (fun _ _ _ => rfl) hrest _

theorem kept_array (hne : ts ≠ []) (hend : [] ∉ ts) (items : List Value) :
    kept ts (.array items) = some (filled items (copied ts)) := by
  obtain ⟨t, rest, rfl⟩ := List.exists_cons_of_ne_nil hne
  obtain ⟨ht, hrest⟩ := List.forall_mem_cons.mp (List.forall_mem_ne'.mpr hend)
  obtain ⟨s, t, rfl⟩ := List.exists_cons_of_ne_nil ht
  -- the first path finds no slot and makes an empty document for each of the array
  have hfirst : fill (s :: t) (.array items) none =
      fill (s :: t) (.array items) (some (filled items fun _ => [])) := rfl
  have hslot := foldl_slot (filled items) (fun t f sub => copy t sub (f sub))
    (fun t slot => fill t (.array items) slot)
    (fun s rest f => fill_filled s rest items f) hrest fun sub => copy (s :: t) sub []
  rw [foldl_pointwise copy] at hslot
  rw [kept, List.foldl_cons, hfirst, fill_filled, hslot]
  rfl

theorem kept_closed (hend : [] ∉ ts) (hv : ∀ s rest, fill (s :: rest) v none = none) :
    kept ts v = none := by
  induction ts with
  | nil => rfl
  | cons t rest ih =>
    obtain ⟨ht, hrest⟩ := List.forall_mem_cons.mp (List.forall_mem_ne'.mpr hend)
    obtain ⟨s, t, rfl⟩ := List.exists_cons_of_ne_nil ht
    rw [kept, List.foldl_cons, hv]
    exact ih (List.forall_mem_ne'.mp hrest)

/-- A value is kept as a whole, if one of the paths ends at it and those after it find
nothing to change. -/
theorem kept_whole (before : List (List String)) {after : List (List String)}
    (hstay : ∀ t ∈ after, fill t v (some v) = some v) :
    kept (before ++ [] :: after) v = some v := by
  rw [kept, List.foldl_append, List.foldl_cons]
  show after.foldl (fun slot t => fill t v slot) (some v) = some v
  induction after with
  | nil => rfl
  | cons t rest ih =>
    obtain ⟨ht, hrest⟩ := List.forall_mem_cons.mp hstay
    rw [List.foldl_cons, ht]
    exact ih hrest

end Kept

/-! ### Arrays in place -/

/-- The documents of some items come before the others. -/
def documentsFirst : List Value → Bool
  | [] => true
  | v :: rest => if v.isDocument then documentsFirst rest else rest.all fun w => !w.isDocument

/-- Paired from the front with the items of its array, no document meets another one: as
far as the pairs go, documents come first. -/
def inPlace (items : List Value) : Bool :=
  documentsFirst (items.take (items.filterMap Value.document?).length)

/-- A value that is an array is in place. -/
def placed : Value → Bool
  | .array items => inPlace items
  | _ => true

/-- The arrays through which segments lead are in place. -/
def steady : List String → Value → Bool
  | [], _ => true
  | s :: rest, v => placed v && (parts v).all fun sub => (Entries.get? sub s).all (steady rest)

/-- Where a path comes after one that begins it, its rest leads through arrays in place. -/
def Aligned (ps : List (List String)) (v : Value) : Prop :=
  ps.Pairwise fun p q => p <+: q → ∀ w ∈ spread p v, steady (q.drop p.length) w = true

instance (ps : List (List String)) (v : Value) : Decidable (Aligned ps v) :=
  inferInstanceAs (Decidable (ps.Pairwise fun p q => p <+: q → ∀ w ∈ spread p v, _))

theorem fillSlots_of_no_document (f : Document → Document → Document) {subs : List Document}
    {slots : List Value} (h : (slots.take subs.length).all (fun w => !w.isDocument) = true) :
    fillSlots f subs slots = slots := by
  induction subs generalizing slots with
  | nil => cases slots <;> rfl
  | cons sub rest ih =>
    match slots with
    | [] => rfl
    | w :: slots =>
      rw [List.length_cons, List.take_succ_cons, List.all_cons, Bool.and_eq_true] at h
      have hstay := ih h.2
      cases w with
      | document d => cases h.1
      | _ => exact congrArg _ hstay

/-- Filling the items of an array from its own documents changes nothing. -/
theorem fillSlots_self {f : Document → Document → Document} {items : List Value}
    (h : inPlace items = true) (hf : ∀ sub ∈ items.filterMap Value.document?, f sub sub = sub) :
    fillSlots f (items.filterMap Value.document?) items = items := by
  induction items with
  | nil => rfl
  | cons v rest ih =>
    rw [inPlace] at h ih
    cases v with
    | document sub =>
      have hsubs : (Value.document sub :: rest).filterMap Value.document? =
          sub :: rest.filterMap Value.document? := rfl
      rw [hsubs] at h hf ⊢
      obtain ⟨hsub, hrest⟩ := List.forall_mem_cons.mp hf
      rw [fillSlots, hsub, ih h hrest]
    | _ =>
      -- the first slot is passed over, and the others that are reached hold no document
      refine fillSlots_of_no_document f ?_
      show ((_ :: rest).take (rest.filterMap Value.document?).length).all _ = true
      change documentsFirst ((_ :: rest).take (rest.filterMap Value.document?).length) = true at h
      cases hsubs : rest.filterMap Value.document? with
      | nil => rfl
      | cons sub subs =>
        rw [hsubs] at h
        exact h

/-- Copying from a document into itself changes nothing, if that is so of the field of
the path. -/
theorem copy_self {k : String} {t : List String} {d : Document}
    (h : ∀ w, Entries.get? d k = some w → fill t w (some w) = some w) : copy (k :: t) d d = d := by
  match t with
  | [] =>
    rw [copy]
    cases hw : Entries.get? d k with
    | none => rfl
    | some w => exact Entries.insert_of_get? hw
  | s :: rest =>
    rw [copy.eq_3 d d k (s :: rest) (by simp)]
    cases hw : Entries.get? d k with
    | none => rfl
    | some w =>
      have hfill := h w hw
      have hput := Entries.insert_of_get? hw
      cases w with
      | document sub => exact (congrArg (Entries.insert d k) (Option.some.inj hfill)).trans hput
      | array items => exact (congrArg (Entries.insert d k) (Option.some.inj hfill)).trans hput
      | _ => rfl

/-- Copying the rest of a path from a value into itself changes nothing, if the arrays on
its way are in place. -/
theorem fill_self {t : List String} {v : Value} (h : steady t v = true) :
    fill t v (some v) = some v := by
  induction t generalizing v with
  | nil => rfl
  | cons s rest ih =>
    rw [steady, Bool.and_eq_true] at h
    obtain ⟨hplace, hparts⟩ := h
    have hself : ∀ sub ∈ parts v, copy (s :: rest) sub sub = sub := by
      intro sub hsub
      refine copy_self fun w hw => ih ?_
      have hrest := List.all_eq_true.mp hparts sub hsub
      rwa [hw] at hrest
    cases v with
    | document sub =>
      exact congrArg (fun d => some (Value.document d)) (hself sub List.mem_cons_self)
    | array items => exact congrArg (fun l => some (Value.array l)) (fillSlots_self hplace hself)
    | _ => rfl

namespace Aligned

variable {ps ts : List (List String)} {d : Document} {v : Value}

theorem below (h : Aligned ps (.document d)) {k : String} (hv : Entries.get? d k = some v) :
    Aligned (tails k ps) v := by
  refine List.Pairwise.filterMap (tail? k) (fun p q hpq p' hp q' hq hpre w hw => ?_) h
  obtain rfl := tail?_eq_some_iff.mp hp
  obtain rfl := tail?_eq_some_iff.mp hq
  refine hpq (List.cons_prefix_cons.mpr ⟨rfl, hpre⟩) w ?_
  rwa [spread_cons_document, hv, Option.toList_some, List.flatMap_singleton]

theorem part (h : Aligned ts v) (hend : [] ∉ ts) {sub : Document} (hsub : sub ∈ parts v) :
    Aligned ts (.document sub) := by
  refine List.Pairwise.imp_of_mem (fun {p q} hp hq hpq hpre w hw => hpq hpre w ?_) h
  match p with
  | [] => exact absurd hp hend
  | s :: rest =>
    rw [spread_cons_document] at hw
    exact List.mem_flatMap.mpr ⟨sub, hsub, hw⟩

theorem kept_whole (h : Aligned ts v) (hend : [] ∈ ts) : kept ts v = some v := by
  obtain ⟨before, after, rfl⟩ := List.append_of_mem hend
  obtain ⟨-, hafter, -⟩ := List.pairwise_append.mp h
  refine Projection.kept_whole before fun t ht => fill_self ?_
  exact (List.pairwise_cons.mp hafter).1 t ht List.nil_prefix v List.mem_cons_self

end Aligned

theorem Unnested.aligned {ps : List (List String)} (h : Unnested ps) (v : Value) :
    Aligned ps v := by
  refine List.pairwise_of_forall_mem_list fun p hp q hq hpre w _ => ?_
  rw [h p hp q hq hpre, List.drop_length]
  rfl

/-! ### What the copy shows -/

theorem parts_filled (items : List Value) (f : Document → Document) :
    parts (filled items f) = (items.filterMap Value.document?).map f := by
  rw [filled, parts, List.filterMap_map]
  exact congrFun List.filterMap_eq_map _

theorem parts_kept {ts : List (List String)} (hne : ts ≠ []) (hend : [] ∉ ts) (v : Value) :
    (kept ts v).toList.flatMap parts = (parts v).map (copied ts) := by
  cases v with
  | document sub =>
    rw [kept_document hne hend]
    rfl
  | array items =>
    rw [kept_array hne hend, Option.toList_some, List.flatMap_singleton, parts_filled]
    rfl
  | _ =>
    rw [kept_closed hend fun _ _ => rfl]
    rfl

/-- Paths that are copied show what they cover as it is, and nothing that stands apart
from them. -/
theorem spread_copied {q : List String} {ps : List (List String)} {d : Document} (hne : ps ≠ [])
    (hend : [] ∉ ps) (hps : Aligned ps (.document d)) :
    (Covers ps q → spread q (.document (copied ps d)) = spread q (.document d)) ∧
      (Apart ps q → spread q (.document (copied ps d)) = []) := by
  induction q generalizing ps d with
  | nil =>
    obtain ⟨p, rest, rfl⟩ := List.exists_cons_of_ne_nil hne
    exact ⟨fun h => absurd (covers_nil.mp h) hend,
      fun h => absurd List.nil_prefix (h p List.mem_cons_self).2⟩
  | cons k q ih =>
    rw [spread_cons_document, spread_cons_document, get?_copied]
    cases hv : Entries.get? d k with
    | none => exact ⟨fun _ => rfl, fun _ => rfl⟩
    | some v =>
      have hbelow := hps.below hv
      rw [Option.bind_some]
      by_cases hhere : [] ∈ tails k ps
      · -- the value is copied as a whole
        have hpath : [k] ∈ ps := mem_tails.mp hhere
        rw [hbelow.kept_whole hhere]
        exact ⟨fun _ => rfl, fun h => absurd (List.prefix_append [k] q) (h [k] hpath).1⟩
      by_cases hnone : tails k ps = []
      · -- no path goes through the key
        rw [hnone]
        refine ⟨fun h => ?_, fun _ => rfl⟩
        obtain ⟨t, ht, -⟩ := (covers_cons hend).mp h
        rw [hnone] at ht
        cases ht
      match q with
      | [] =>
        obtain ⟨t, ht⟩ := List.exists_mem_of_ne_nil _ hnone
        exact ⟨fun h => absurd (covers_nil.mp ((covers_cons hend).mp h)) hhere,
          fun h => absurd List.nil_prefix (h.below t ht).2⟩
      | s :: q =>
        have hsub (sub : Document) (hmem : sub ∈ parts v) :=
          ih hnone hhere (hbelow.part hhere hmem)
        rw [spread_of_parts (parts_kept hnone hhere v), Option.toList_some,
          List.flatMap_singleton]
        refine ⟨fun h => ?_, fun h => ?_⟩
        · refine List.flatMap_congr fun sub hmem => ?_
          rw [(hsub sub hmem).1 ((covers_cons hend).mp h), spread_cons_document]
        · exact List.flatMap_eq_nil_iff.mpr fun sub hmem => (hsub sub hmem).2 h.below

/-- Paths that cover the same copy the same. -/
theorem copied_reordered {ps ps' : List (List String)} {d : Document} (hsame : SameCover ps ps')
    (hend : [] ∉ ps) (h : Aligned ps (.document d)) (h' : Aligned ps' (.document d)) :
    Document.Reordered (copied ps d) (copied ps' d) := by
  -- by induction on a bound on the lengths of the first paths
  have hbound : ∀ p ∈ ps, p.length < ps.flatten.length + 1 := fun p hp =>
    Nat.lt_succ_of_le (List.sublist_flatten_of_mem hp).length_le
  generalize ps.flatten.length + 1 = n at hbound
  induction n generalizing ps ps' d with
  | zero =>
    have hps : ps = [] := List.eq_nil_iff_forall_not_mem.mpr fun p hp =>
      absurd (hbound p hp) (Nat.not_lt_zero _)
    rw [hsame.eq_nil hps, hps]
    intro k
    exact .none
  | succ n ih =>
    intro k
    rw [get?_copied, get?_copied]
    cases hv : Entries.get? d k with
    | none => exact .none
    | some v =>
      have hbelow := h.below hv
      have hbelow' := h'.below hv
      have hcover := hsame.below hend k
      rw [Option.bind_some, Option.bind_some]
      by_cases hhere : [] ∈ tails k ps
      · rw [hbelow.kept_whole hhere, hbelow'.kept_whole (hcover.nil_mem_iff.mp hhere)]
        exact .some (.refl v)
      by_cases hnone : tails k ps = []
      · rw [hnone, hcover.eq_nil hnone]
        exact .none
      have hhere' : [] ∉ tails k ps' := mt hcover.nil_mem_iff.mpr hhere
      have hnone' : tails k ps' ≠ [] := mt hcover.symm.eq_nil hnone
      have hshort : ∀ t ∈ tails k ps, t.length < n := fun t ht =>
        Nat.lt_of_succ_lt_succ (hbound (k :: t) (mem_tails.mp ht))
      have hsub (sub : Document) (hmem : sub ∈ parts v) :
          Document.Reordered (copied (tails k ps) sub) (copied (tails k ps') sub) :=
        ih hcover hhere (hbelow.part hhere hmem) (hbelow'.part hhere' hmem) hshort
      cases v with
      | document sub =>
        rw [kept_document hnone hhere, kept_document hnone' hhere']
        exact .some (.document (hsub sub List.mem_cons_self))
      | array items =>
        rw [kept_array hnone hhere, kept_array hnone' hhere']
        refine .some (.array ?_)
        rw [List.forall₂_map_left_iff, List.forall₂_map_right_iff, List.forall₂_same]
        exact fun sub hmem => .document (hsub sub hmem)
      | _ =>
        rw [kept_closed hhere fun _ _ => rfl, kept_closed hhere' fun _ _ => rfl]
        exact .none

end Projection

end ContentQuery
