/-
Inclusions whose paths overlap.

A path that an included one begins names a part of what is copied already.  Copying that
part once more pairs the documents of each array on its way with the items of the copy, in
which other items may stand between them:

* `apply_reordered` — as long as the arrays are in place, inclusions that cover the same
  make the same of a document;
* `apply_of_overlap` — so a path below an included one adds nothing, the order of the
  paths changes nothing, and what is included is copied as it is;
* `apply_itemsOutOfPlace` — an array that is not in place is altered by a path below it.
-/
import ContentQuery.Proofs.PayloadPaths
import ContentQuery.Proofs.ProjectedPaths
import Mathlib.Data.List.Perm.Basic

namespace ContentQuery.Projection

/-- A projection includes paths and excludes none. -/
def IsInclusion (p : Document) : Prop := included p ≠ [] ∧ excluded p = []

/-- Put the id of a document into what is copied of it, or take it out. -/
def withIdOf (keeps : Bool) (d out : Document) : Document :=
  if keeps then copyId d out else Entries.erase out idKey

variable {p p' d : Document}

theorem apply_of_isInclusion (h : IsInclusion p) (d : Document) :
    apply p d = .ok (withIdOf (keepsId p) d (copied (segmentsOf (included p)) d)) := by
  obtain ⟨hplus, hminus⟩ := h
  have hnonempty : (included p).isEmpty = false := List.isEmpty_eq_false_iff.mpr hplus
  unfold apply
  dsimp only
  rw [hminus, hnonempty, ← copyAll_eq_copied]
  rfl

theorem reordered_withIdOf {out out' : Document} (h : out.Reordered out') (keeps : Bool)
    (d : Document) : Document.Reordered (withIdOf keeps d out) (withIdOf keeps d out') := by
  unfold withIdOf copyId
  split
  · split
    · exact h.insert idKey _
    · exact h
  · exact h.erase idKey

/-- Inclusions that cover the same make the same of a document whose arrays are in place
for both. -/
theorem apply_reordered (h : IsInclusion p) (h' : IsInclusion p') (hid : keepsId p = keepsId p')
    (hsame : SameCover (segmentsOf (included p)) (segmentsOf (included p')))
    (hp : Aligned (segmentsOf (included p)) (.document d))
    (hp' : Aligned (segmentsOf (included p')) (.document d)) :
    ∃ out out', apply p d = .ok out ∧ apply p' d = .ok out' ∧ out.Reordered out' := by
  refine ⟨_, _, apply_of_isInclusion h d, apply_of_isInclusion h' d, ?_⟩
  rw [hid]
  exact reordered_withIdOf (copied_reordered hsame (nil_notMem_segmentsOf _) hp hp') _ d

/-! ### The paths of an inclusion -/

theorem included_append (p p' : Document) : included (p ++ p') = included p ++ included p' := by
  simp [included]

theorem excluded_append (p p' : Document) : excluded (p ++ p') = excluded p ++ excluded p' := by
  simp [excluded]

section Marked

variable {path : String} {mark : Value}

theorem included_cons (hpath : path ≠ idKey) (hmark : mark.truthy = true) (p : Document) :
    included ((path, mark) :: p) = path :: included p := by
  simp [included, hpath, hmark]

theorem excluded_cons (hmark : mark.truthy = true) (p : Document) :
    excluded ((path, mark) :: p) = excluded p := by
  simp [excluded, hmark]

theorem keepsId_insert (hpath : path ≠ idKey) (mark : Value) (before after : Document) :
    keepsId (before ++ (path, mark) :: after) = keepsId (before ++ after) := by
  have hget : Entries.get? (before ++ (path, mark) :: after) idKey =
      Entries.get? (before ++ after) idKey := by
    rw [Entries.get?_append, Entries.get?_append, Entries.get?, if_neg hpath]
  rw [keepsId, keepsId, hget]

end Marked

theorem extension_ne_idKey (path rest : String) : path ++ "." ++ rest ≠ idKey := by
  intro h
  have hdot : '.' ∈ (path ++ "." ++ rest).toList := by simp [String.toList_append]
  rw [h] at hdot
  exact absurd hdot (by decide)

/-- Without one of its entries, a projection leads through the same arrays or fewer. -/
theorem aligned_without {before after : Document} {e : String × Value} {v : Value}
    (h : Aligned (segmentsOf (included (before ++ e :: after))) v) :
    Aligned (segmentsOf (included (before ++ after))) v := by
  have hsub : List.Sublist (before ++ after) (before ++ e :: after) :=
    (List.sublist_cons_self e after).append_left before
  exact List.Pairwise.sublist (((hsub.filter _).map _).map _) h

/-! ### What does not matter to an inclusion -/

/-- A path below an included one adds nothing. -/
theorem apply_extension (before after : Document) (path rest : String) {mark : Value}
    (h : IsInclusion (before ++ after)) (hpath : path ∈ included (before ++ after))
    (hmark : mark.truthy = true)
    (hp : Aligned (segmentsOf (included (before ++ (path ++ "." ++ rest, mark) :: after)))
      (.document d)) :
    ∃ out out', apply (before ++ after) d = .ok out ∧
      apply (before ++ (path ++ "." ++ rest, mark) :: after) d = .ok out' ∧
      out.Reordered out' := by
  have hid := extension_ne_idKey path rest
  have hnew : included (before ++ (path ++ "." ++ rest, mark) :: after) =
      included before ++ (path ++ "." ++ rest) :: included after := by
    rw [included_append, included_cons hid hmark]
  have hnone : excluded (before ++ (path ++ "." ++ rest, mark) :: after) = [] := by
    rw [excluded_append, excluded_cons hmark, ← excluded_append, h.2]
  have hcovered : Covers (segmentsOf (included (before ++ after)))
      (Path.segments (path ++ "." ++ rest)) := by
    refine ⟨Path.segments path, List.mem_map_of_mem hpath, ?_⟩
    rw [Path.segments_append_dot]
    exact List.prefix_append _ _
  rw [included_append, segmentsOf, List.map_append] at hcovered
  refine apply_reordered h ⟨?_, hnone⟩ (keepsId_insert hid mark before after).symm ?_ ?_ hp
  · rw [hnew]
    exact List.append_ne_nil_of_right_ne_nil _ (List.cons_ne_nil _ _)
  · rw [hnew, included_append, segmentsOf, segmentsOf, List.map_append, List.map_append]
    exact SameCover.of_covers hcovered
  · exact aligned_without hp

/-- The order of the paths does not matter. -/
theorem apply_perm (h : IsInclusion p) (hperm : p.Perm p') (hkeys : (Entries.keys p).Nodup)
    (hp : Aligned (segmentsOf (included p)) (.document d))
    (hp' : Aligned (segmentsOf (included p')) (.document d)) :
    ∃ out out', apply p d = .ok out ∧ apply p' d = .ok out' ∧ out.Reordered out' := by
  have hplus : (included p).Perm (included p') := (hperm.filter _).map _
  have hminus : (excluded p).Perm (excluded p') := (hperm.filter _).map _
  have hsegments : (segmentsOf (included p)).Perm (segmentsOf (included p')) := hplus.map _
  have h' : IsInclusion p' := by
    refine ⟨fun hnil => h.1 ?_, ?_⟩
    · rw [hnil] at hplus
      exact hplus.eq_nil
    · rw [h.2] at hminus
      exact hminus.symm.eq_nil
  have hid : keepsId p = keepsId p' := by
    rw [keepsId, keepsId, Entries.get?_eq_of_perm hperm hkeys]
  exact apply_reordered h h' hid (SameCover.of_perm hsegments) hp hp'

/-- What is included is copied as it is. -/
theorem spread_apply (h : IsInclusion p) (hp : Aligned (segmentsOf (included p)) (.document d))
    {out : Document} (hout : apply p d = .ok out) {path : String} (hpath : path ∈ included p)
    (hid : (Path.segments path).head? ≠ some idKey) :
    spread (Path.segments path) (.document out) = spread (Path.segments path) (.document d) := by
  have hends := nil_notMem_segmentsOf (included p)
  have hnonempty : segmentsOf (included p) ≠ [] := mt List.map_eq_nil_iff.mp h.1
  obtain ⟨hcopied, -⟩ := spread_copied hnonempty hends hp
  have hmem : Path.segments path ∈ segmentsOf (included p) := List.mem_map_of_mem hpath
  rw [← hcopied (covers_of_mem hmem)]
  match hsegs : Path.segments path with
  | [] => exact absurd hsegs (segments_ne_nil path)
  | k :: rest =>
    have hk : k ≠ idKey := by
      rintro rfl
      exact hid (by rw [hsegs]; rfl)
    rw [spread_cons_document, spread_cons_document, get?_apply hout hk,
      if_neg (mt List.isEmpty_iff.mp h.1), copyAll_eq_copied]

/-- In an inclusion whose arrays are in place, a path below an included one adds nothing,
the order of the paths changes nothing, and what is included is copied as it is. -/
theorem apply_of_overlap (before after : Document) (path rest : String) {mark : Value}
    (hpath : path ∈ included (before ++ after)) (hminus : excluded (before ++ after) = [])
    (hmark : mark.truthy = true) (d : Document)
    (hp : Aligned (segmentsOf (included (before ++ (path ++ "." ++ rest, mark) :: after)))
      (.document d)) :
    ∃ out, apply (before ++ after) d = .ok out ∧
      (∃ out', apply (before ++ (path ++ "." ++ rest, mark) :: after) d = .ok out' ∧
        out.Reordered out') ∧
      (∀ p' : Document, (before ++ after).Perm p' → (Entries.keys (before ++ after)).Nodup →
        Aligned (segmentsOf (included p')) (.document d) →
          ∃ out', apply p' d = .ok out' ∧ out.Reordered out') ∧
      ∀ q ∈ included (before ++ after), (Path.segments q).head? ≠ some idKey →
        spread (Path.segments q) (.document out) = spread (Path.segments q) (.document d) := by
  have h : IsInclusion (before ++ after) := ⟨List.ne_nil_of_mem hpath, hminus⟩
  obtain ⟨out, out', hout, hout', hsame⟩ := apply_extension before after path rest h hpath hmark hp
  have hown := aligned_without hp
  refine ⟨out, hout, ⟨out', hout', hsame⟩, fun p' hperm hkeys hp' => ?_, fun q hq hid => ?_⟩
  · obtain ⟨first, out', hfirst, hout', hsame⟩ := apply_perm h hperm hkeys hown hp'
    obtain rfl := Except.ok.inj (hout.symm.trans hfirst)
    exact ⟨out', hout', hsame⟩
  · exact spread_apply h hown hout hq hid

/-- A page with a list of items. -/
def itemsPage (items : List Value) : Document :=
  [("title", .string "News"), ("items", .array items)]

/-- An item with a rank. -/
def ranked (rank : Int32) : Value := .document [("rank", .int32 rank)]

theorem apply_itemsInPlace :
    ∃ out, apply [("title", .int32 1), ("items", .int32 1)]
        (itemsPage [ranked 1, ranked 2, .int32 7]) = .ok out ∧
      (∃ out', apply [("title", .int32 1), ("items", .int32 1), ("items.rank", .int32 1)]
        (itemsPage [ranked 1, ranked 2, .int32 7]) = .ok out' ∧ out.Reordered out') ∧
      (∃ out', apply [("items", .int32 1), ("title", .int32 1)]
        (itemsPage [ranked 1, ranked 2, .int32 7]) = .ok out' ∧ out.Reordered out') ∧
      spread ["items"] (.document out) = [.array [ranked 1, ranked 2, .int32 7]] := by
  have hmark : (Value.int32 1).truthy = true := rfl
  obtain ⟨out, hout, hextended, hperm, hcopied⟩ := apply_of_overlap
    [("title", .int32 1), ("items", .int32 1)] [] "items" "rank" (by decide) (by decide) hmark
    (itemsPage [ranked 1, ranked 2, .int32 7]) (by decide)
  refine ⟨out, hout, hextended, hperm _ (List.Perm.swap _ _ _) (by decide) (by decide), ?_⟩
  exact hcopied "items" (by decide) (by decide)

/-- Of items that are not in place, a path below the included one puts the second document
where the first one was; in the other order it changes nothing. -/
theorem apply_itemsOutOfPlace :
    ∃ out out', apply [("items", .int32 1)] (itemsPage [.int32 7, ranked 1, ranked 2]) = .ok out ∧
      apply [("items.rank", .int32 1), ("items", .int32 1)]
        (itemsPage [.int32 7, ranked 1, ranked 2]) = .ok out ∧
      apply [("items", .int32 1), ("items.rank", .int32 1)]
        (itemsPage [.int32 7, ranked 1, ranked 2]) = .ok out' ∧
      ¬ out.Reordered out' := by
  refine ⟨[("items", .array [.int32 7, ranked 1, ranked 2])],
    [("items", .array [.int32 7, ranked 2, ranked 2])], rfl, rfl, rfl, fun h => ?_⟩
  cases h "items" with
  | some hitems =>
    cases hitems with
    | array hitems =>
      obtain ⟨-, hitems⟩ := List.forall₂_cons.mp hitems
      obtain ⟨hitem, -⟩ := List.forall₂_cons.mp hitems
      cases hitem with
      | document hitem =>
        cases hitem "rank" with
        | some hrank => cases hrank

end ContentQuery.Projection
