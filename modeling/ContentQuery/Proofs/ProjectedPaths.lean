/-
What paths reach in projected documents.

Copying and dropping go down a document by their segments, as a look-up does:

* `get?_dropped` — a field of what is left is made of the field of the source and of what
  is left of the paths below its key;
* `spread_dropped` — an exclusion shows nothing of what its paths cover, and leaves what
  stands apart from them;
* `resolve_apply` — so look-ups and projections address the same places.
-/
import ContentQuery.Proofs.CopiedPaths

namespace ContentQuery.Projection

/-! ### Dropping -/

/-- The paths of a document dropped one after the other. -/
def dropped (ps : List (List String)) (d : Document) : Document :=
  ps.foldl (fun d p => drop p d) d

/-- What of a value the rests of some paths leave. -/
def remaining (ts : List (List String)) (v : Value) : Option Value :=
  ts.foldl (fun slot t => slot.bind (prune t)) (some v)

theorem foldl_prune_none (ts : List (List String)) :
    ts.foldl (fun slot t => slot.bind (prune t)) none = none :=
  List.foldl_fixed' (fun _ => rfl) ts

/-- A field of what is left comes from the same field of the source. -/
theorem get?_dropped (ps : List (List String)) (d : Document) (k : String) :
    Entries.get? (dropped ps d) k = (Entries.get? d k).bind (remaining (tails k ps)) := by
  rw [dropped, get?_foldl_tails drop (fun t slot => slot.bind (prune t))
    (fun t d => get?_drop_cons k t d) (fun p d hp => get?_drop hp d)]
  cases Entries.get? d k with
  | none => exact foldl_prune_none _
  | some v => rfl

section Remaining

variable {ts : List (List String)}

/-- Once a path ends at a value, nothing is left of it. -/
theorem remaining_of_nil_mem (h : [] ∈ ts) (v : Value) : remaining ts v = none := by
  have hgone : ∀ slot : Option Value,
      ts.foldl (fun slot t => slot.bind (prune t)) slot = none := by
    induction ts with
    | nil => cases h
    | cons t rest ih =>
      intro slot
      rcases List.mem_cons.mp h with rfl | hrest
      · have hnone : slot.bind (prune []) = none := by cases slot <;> rfl
        rw [List.foldl_cons, hnone, foldl_prune_none]
      · exact ih hrest _
  exact hgone (some v)

theorem remaining_document (hend : [] ∉ ts) (sub : Document) :
    remaining ts (.document sub) = some (.document (dropped ts sub)) :=
  foldl_slot Value.document drop (fun t slot => slot.bind (prune t))
    (fun _ _ _ => rfl) (List.forall_mem_ne'.mpr hend) sub

theorem map_inside_inside (f g : Document → Document) (items : List Value) :
    (items.map (inside g)).map (inside f) = items.map (inside fun sub => f (g sub)) := by
  rw [List.map_map]
  refine List.map_congr_left fun v _ => ?_
  cases v <;> rfl

theorem remaining_array (hend : [] ∉ ts) (items : List Value) :
    remaining ts (.array items) = some (.array (items.map (inside (dropped ts)))) := by
  have hself : items.map (inside fun sub => sub) = items := by
    refine List.map_id'' (fun v => ?_) items
    cases v <;> rfl
  have hslot := foldl_slot (fun f => .array (items.map (inside f)))
    (fun t f sub => drop t (f sub)) (fun t slot => slot.bind (prune t))
    (fun s rest f => congrArg (fun items => some (Value.array items))
      (map_inside_inside (drop (s :: rest)) f items))
    (List.forall_mem_ne'.mpr hend) fun sub => sub
  rw [foldl_pointwise fun t _ d => drop t d, hself] at hslot
  exact hslot

theorem remaining_closed (hend : [] ∉ ts) {v : Value}
    (hv : ∀ s rest, prune (s :: rest) v = some v) : remaining ts v = some v := by
  induction ts with
  | nil => rfl
  | cons t rest ih =>
    obtain ⟨ht, hrest⟩ := List.forall_mem_cons.mp (List.forall_mem_ne'.mpr hend)
    obtain ⟨s, t, rfl⟩ := List.exists_cons_of_ne_nil ht
    rw [remaining, List.foldl_cons, Option.bind_some, hv]
    exact ih (List.forall_mem_ne'.mp hrest)

end Remaining

theorem parts_inside (items : List Value) (f : Document → Document) :
    parts (.array (items.map (inside f))) = (items.filterMap Value.document?).map f := by
  rw [parts, List.filterMap_map, List.map_filterMap]
  refine List.filterMap_congr fun v _ => ?_
  cases v <;> rfl

theorem parts_remaining {ts : List (List String)} (hend : [] ∉ ts) (v : Value) :
    (remaining ts v).toList.flatMap parts = (parts v).map (dropped ts) := by
  cases v with
  | document sub =>
    rw [remaining_document hend]
    rfl
  | array items =>
    rw [remaining_array hend, Option.toList_some, List.flatMap_singleton, parts_inside]
    rfl
  | _ =>
    rw [remaining_closed hend fun _ _ => rfl]
    rfl

/-- Paths that are dropped show nothing of what they cover, and leave what stands apart
from them as it is. -/
theorem spread_dropped {q : List String} {ps : List (List String)} (hend : [] ∉ ps)
    (d : Document) :
    (Covers ps q → spread q (.document (dropped ps d)) = []) ∧
      (Apart ps q → spread q (.document (dropped ps d)) = spread q (.document d)) := by
  induction q generalizing ps d with
  | nil =>
    refine ⟨fun h => absurd (covers_nil.mp h) hend, fun h => ?_⟩
    match ps with
    | [] => rfl
    | p :: rest => exact absurd List.nil_prefix (h p List.mem_cons_self).2
  | cons k q ih =>
    rw [spread_cons_document, spread_cons_document, get?_dropped]
    cases Entries.get? d k with
    | none => exact ⟨fun _ => rfl, fun _ => rfl⟩
    | some v =>
      rw [Option.bind_some]
      by_cases hhere : [] ∈ tails k ps
      · -- the value is dropped as a whole
        have hpath : [k] ∈ ps := mem_tails.mp hhere
        rw [remaining_of_nil_mem hhere]
        exact ⟨fun _ => rfl, fun h => absurd (List.prefix_append [k] q) (h [k] hpath).1⟩
      match q with
      | [] =>
        refine ⟨fun h => absurd (covers_nil.mp ((covers_cons hend).mp h)) hhere, fun h => ?_⟩
        match hts : tails k ps with
        | [] => rfl
        | t :: rest =>
          have ht : t ∈ tails k ps := by
            rw [hts]
            exact List.mem_cons_self
          exact absurd List.nil_prefix (h.below t ht).2
      | s :: q =>
        have hsub := fun sub => ih hhere sub
        rw [spread_of_parts (parts_remaining hhere v), Option.toList_some, List.flatMap_singleton]
        refine ⟨fun h => ?_, fun h => ?_⟩
        · exact List.flatMap_eq_nil_iff.mpr fun sub _ => (hsub sub).1 ((covers_cons hend).mp h)
        · refine List.flatMap_congr fun sub _ => ?_
          rw [(hsub sub).2 h.below, spread_cons_document]

/-! ### Projections -/

theorem copyAll_eq_copied (d : Document) (paths : List String) :
    copyAll d paths = copied (segmentsOf paths) d := by
  rw [copied, segmentsOf, List.foldl_map]
  rfl

theorem dropAll_eq_dropped (d : Document) (paths : List String) :
    dropAll d paths = dropped (segmentsOf paths) d := by
  rw [dropped, segmentsOf, List.foldl_map]
  rfl

/-- A path looks at one field of a document. -/
theorem resolve_congr {d e : Document} {q : String}
    (h : ∀ k, (Path.segments q).head? = some k → Entries.get? d k = Entries.get? e k) :
    Path.resolve d q = Path.resolve e q := by
  have hreach : Path.reach (Path.segments q) (.document d) =
      Path.reach (Path.segments q) (.document e) := by
    match hq : Path.segments q with
    | [] => exact absurd hq (segments_ne_nil q)
    | k :: rest =>
      have hk := h k (by rw [hq]; rfl)
      rw [Path.reach, Path.reach, Path.step, Path.step, hk]
  simp only [Path.resolve, hreach]

/-- Look-ups and projections address the same places: a look-up of a path that an
inclusion covers, and of one that stands apart from an exclusion, finds what it finds in
the whole document; of a path that stands apart from an inclusion, and of one that an
exclusion covers, it finds nothing. -/
theorem resolve_apply (p d : Document) {q : String}
    (hindex : ∀ s ∈ Path.segments q, Text.unsigned? s = none)
    (hid : (Path.segments q).head? ≠ some idKey) :
    (included p ≠ [] → excluded p = [] → Unnested (segmentsOf (included p)) →
      ∃ out, apply p d = .ok out ∧
        (Covers (segmentsOf (included p)) (Path.segments q) →
          Path.resolve out q = Path.resolve d q) ∧
        (Apart (segmentsOf (included p)) (Path.segments q) → Path.resolve out q = [])) ∧
      (included p = [] →
        ∃ out, apply p d = .ok out ∧
          (Covers (segmentsOf (excluded p)) (Path.segments q) → Path.resolve out q = []) ∧
          (Apart (segmentsOf (excluded p)) (Path.segments q) →
            Path.resolve out q = Path.resolve d q)) := by
  have hfield (out : Document) (hout : apply p d = .ok out) :
      Path.resolve out q = Path.resolve (if (included p).isEmpty then dropAll d (excluded p)
        else copyAll d (included p)) q := by
    refine resolve_congr fun k hk => ?_
    have hne : k ≠ idKey := by
      rintro rfl
      exact hid hk
    rw [get?_apply hout hne, apply_ite (fun e => Entries.get? e k)]
  refine ⟨fun hplus hminus hps => ?_, fun hplus => ?_⟩
  · obtain ⟨out, hout⟩ := exists_apply (p := p) (by rw [isMixed, hminus]; simp) d
    have hpaths : segmentsOf (included p) ≠ [] := mt List.map_eq_nil_iff.mp hplus
    have hends := nil_notMem_segmentsOf (included p)
    obtain ⟨hcover, hapart⟩ := spread_copied hpaths hends (hps.aligned (.document d))
    rw [← copyAll_eq_copied, ← reach_eq_spread hindex, ← reach_eq_spread hindex] at hcover
    rw [← copyAll_eq_copied, ← reach_eq_spread hindex] at hapart
    refine ⟨out, hout, fun h => ?_, fun h => ?_⟩
    · rw [hfield out hout, if_neg (by simpa using hplus), Path.resolve, Path.resolve, hcover h]
    · rw [hfield out hout, if_neg (by simpa using hplus), Path.resolve, hapart h]
      exact ite_self _
  · obtain ⟨out, hout⟩ := exists_apply (p := p) (by rw [isMixed, hplus]; simp) d
    obtain ⟨hcover, hapart⟩ := spread_dropped (nil_notMem_segmentsOf (excluded p)) d
    rw [← dropAll_eq_dropped, ← reach_eq_spread hindex] at hcover
    rw [← dropAll_eq_dropped, ← reach_eq_spread hindex, ← reach_eq_spread hindex] at hapart
    refine ⟨out, hout, fun h => ?_, fun h => ?_⟩
    · rw [hfield out hout, if_pos (by simpa using hplus), Path.resolve, hcover h]
      exact ite_self _
    · rw [hfield out hout, if_pos (by simpa using hplus), Path.resolve, Path.resolve, hapart h]

/-- A page with a list of sections and other items. -/
def sectionedPage : Document :=
  [("title", .string "News"),
    ("sections", .array [.int32 7, .document [("head", .string "a"), ("body", .string "b")],
      .array [.document [("head", .string "nested")]],
      .document [("head", .string "c"), ("pin", .bool true)]])]

/-- Two paths through the sections, to be included or excluded. -/
def sectionPaths (mark : Int32) : Document :=
  [("sections.head", .int32 mark), ("sections.body", .int32 mark)]

theorem resolve_sectionedPage :
    (∃ out, apply (sectionPaths 1) sectionedPage = .ok out ∧
      Path.resolve out "sections.head" = Path.resolve sectionedPage "sections.head" ∧
      Path.resolve sectionedPage "sections.head" = [.string "a", .string "c"]) ∧
    (∃ out, apply (sectionPaths 0) sectionedPage = .ok out ∧
      Path.resolve out "sections.pin" = Path.resolve sectionedPage "sections.pin" ∧
      Path.resolve sectionedPage "sections.pin" = [.bool true]) := by
  obtain ⟨hinclude, -⟩ := resolve_apply (sectionPaths 1) sectionedPage (q := "sections.head")
    (by decide) (by decide)
  obtain ⟨out, hout, hcover, -⟩ := hinclude (by decide) (by decide) (by decide)
  obtain ⟨-, hexclude⟩ := resolve_apply (sectionPaths 0) sectionedPage (q := "sections.pin")
    (by decide) (by decide)
  obtain ⟨out', hout', -, hapart⟩ := hexclude (by decide)
  exact ⟨⟨out, hout, hcover (by decide), rfl⟩, ⟨out', hout', hapart (by decide), rfl⟩⟩

end ContentQuery.Projection
