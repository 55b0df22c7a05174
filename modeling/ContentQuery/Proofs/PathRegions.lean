/-
Regions of documents that paths name.

Copying and dropping go down a document by the segments of a path, and so does a look-up;
a segment that is no index spreads over the documents of an array.  Below a key only the
paths through that key go on:

* `covers_cons`, `Apart.below`, `Unnested.below` — what holds of some paths and another
  one holds of what is left of them below its first segment;
* `get?_foldl_tails` — what one step for each path does to one field;
* `reach_eq_spread` — a path without indices reaches the values to which its segments
  lead.
-/
import ContentQuery.Path
import ContentQuery.Proofs.Entries
import Mathlib.Data.List.Basic

namespace ContentQuery.Projection

/-- What is left below a key of a path that goes through it. -/
def tail? (k : String) : List String → Option (List String)
  | [] => none
  | s :: rest => if s = k then some rest else none

/-- What is left below a key of the paths that go through it. -/
def tails (k : String) (ps : List (List String)) : List (List String) := ps.filterMap (tail? k)

/-- One of the paths is the beginning of `q`. -/
def Covers (ps : List (List String)) (q : List String) : Prop := ∃ p ∈ ps, p <+: q

/-- Neither is one of the paths the beginning of `q`, nor `q` that of one of them. -/
def Apart (ps : List (List String)) (q : List String) : Prop := ∀ p ∈ ps, ¬ p <+: q ∧ ¬ q <+: p

/-- No path is the beginning of another one. -/
def Unnested (ps : List (List String)) : Prop := ∀ p ∈ ps, ∀ q ∈ ps, p <+: q → p = q

/-- Two lists of paths cover the same. -/
def SameCover (ps ps' : List (List String)) : Prop := ∀ q, Covers ps q ↔ Covers ps' q

instance (ps : List (List String)) (q : List String) : Decidable (Covers ps q) :=
  inferInstanceAs (Decidable (∃ p ∈ ps, _))

instance (ps : List (List String)) (q : List String) : Decidable (Apart ps q) :=
  inferInstanceAs (Decidable (∀ p ∈ ps, _ ∧ _))

instance (ps : List (List String)) : Decidable (Unnested ps) :=
  inferInstanceAs (Decidable (∀ p ∈ ps, ∀ q ∈ ps, _ → _))

section Regions

variable {ps ps' : List (List String)} {k : String} {q t : List String}

/-! ### Paths below a key -/

theorem tail?_eq_some_iff {p : List String} : tail? k p = some t ↔ p = k :: t := by
  match p with
  | [] => exact ⟨nofun, nofun⟩
  | s :: rest =>
    rw [tail?, Option.ite_none_right_eq_some, Option.some.injEq, List.cons.injEq]

theorem mem_tails : t ∈ tails k ps ↔ k :: t ∈ ps := by
  rw [tails, List.mem_filterMap]
  constructor
  · rintro ⟨p, hp, ht⟩
    rwa [← tail?_eq_some_iff.mp ht]
  · intro h
    exact ⟨k :: t, h, tail?_eq_some_iff.mpr rfl⟩

theorem covers_nil : Covers ps [] ↔ [] ∈ ps := by
  constructor
  · rintro ⟨p, hp, hpre⟩
    rwa [← List.prefix_nil.mp hpre]
  · intro h
    exact ⟨[], h, List.nil_prefix⟩

theorem covers_of_mem (h : q ∈ ps) : Covers ps q := ⟨q, h, List.prefix_rfl⟩

theorem covers_cons (h : [] ∉ ps) : Covers ps (k :: q) ↔ Covers (tails k ps) q := by
  constructor
  · rintro ⟨p, hp, hpre⟩
    match p with
    | [] => exact absurd hp h
    | s :: rest =>
      obtain ⟨rfl, hrest⟩ := List.cons_prefix_cons.mp hpre
      exact ⟨rest, mem_tails.mpr hp, hrest⟩
  · rintro ⟨t, ht, hpre⟩
    exact ⟨k :: t, mem_tails.mp ht, List.cons_prefix_cons.mpr ⟨rfl, hpre⟩⟩

theorem Apart.below (h : Apart ps (k :: q)) : Apart (tails k ps) q := by
  intro t ht
  obtain ⟨hpre, hpre'⟩ := h (k :: t) (mem_tails.mp ht)
  exact ⟨fun hp => hpre (List.cons_prefix_cons.mpr ⟨rfl, hp⟩),
    fun hp => hpre' (List.cons_prefix_cons.mpr ⟨rfl, hp⟩)⟩

namespace SameCover

theorem symm (h : SameCover ps ps') : SameCover ps' ps := fun q => (h q).symm

theorem nil_mem_iff (h : SameCover ps ps') : [] ∈ ps ↔ [] ∈ ps' := by
  rw [← covers_nil, ← covers_nil]
  exact h []

theorem below (h : SameCover ps ps') (hend : [] ∉ ps) (k : String) :
    SameCover (tails k ps) (tails k ps') := by
  intro q
  rw [← covers_cons hend, ← covers_cons (mt h.nil_mem_iff.mpr hend)]
  exact h (k :: q)

theorem eq_nil (h : SameCover ps ps') (hps : ps = []) : ps' = [] := by
  by_contra hne
  obtain ⟨p, hp⟩ := List.exists_mem_of_ne_nil ps' hne
  obtain ⟨q, hq, -⟩ := (h p).mpr (covers_of_mem hp)
  rw [hps] at hq
  cases hq

/-- A path that is covered already adds nothing. -/
theorem of_covers {before after : List (List String)} (h : Covers (before ++ after) t) :
    SameCover (before ++ after) (before ++ t :: after) := by
  intro q
  constructor
  · rintro ⟨p, hp, hpre⟩
    refine ⟨p, ?_, hpre⟩
    rcases List.mem_append.mp hp with hp | hp
    · exact List.mem_append_left _ hp
    · exact List.mem_append_right _ (List.mem_cons_of_mem t hp)
  · rintro ⟨p, hp, hpre⟩
    rcases List.mem_append.mp hp with hp | hp
    · exact ⟨p, List.mem_append_left _ hp, hpre⟩
    rcases List.mem_cons.mp hp with rfl | hp
    · obtain ⟨r, hr, hrp⟩ := h
      exact ⟨r, hr, hrp.trans hpre⟩
    · exact ⟨p, List.mem_append_right _ hp, hpre⟩

theorem of_perm (h : ps.Perm ps') : SameCover ps ps' := by
  intro q
  exact exists_congr fun p => and_congr_left fun _ => h.mem_iff

end SameCover

/-! ### One step for each path -/

/-- One step after the other for each of some paths, seen at one key: the steps of the
paths that do not go through it leave it alone. -/
theorem get?_foldl_tails (step : List String → Document → Document)
    (atKey : List String → Option Value → Option Value)
    (hself : ∀ t d, Entries.get? (step (k :: t) d) k = atKey t (Entries.get? d k))
    (hother : ∀ p d, p.head? ≠ some k → Entries.get? (step p d) k = Entries.get? d k)
    (ps : List (List String)) (d : Document) :
    Entries.get? (ps.foldl (fun d p => step p d) d) k =
      (tails k ps).foldl (fun slot t => atKey t slot) (Entries.get? d k) := by
  induction ps generalizing d with
  | nil => rfl
  | cons p rest ih =>
    rw [List.foldl_cons, ih]
    match p with
    | [] =>
      rw [hother [] d (by simp)]
      rfl
    | s :: t =>
      by_cases hs : s = k
      · subst hs
        rw [hself]
        simp [tails, tail?]
      · rw [hother (s :: t) d (by simpa using hs)]
        simp [tails, tail?, hs]

/-- Steps that go into what a slot holds, one after the other. -/
theorem foldl_slot {α : Type} (wrap : α → Value) (step : List String → α → α)
    (inSlot : List String → Option Value → Option Value)
    (h : ∀ s rest x, inSlot (s :: rest) (some (wrap x)) = some (wrap (step (s :: rest) x)))
    (hend : ∀ t ∈ ps, t ≠ []) (x : α) :
    ps.foldl (fun slot t => inSlot t slot) (some (wrap x)) =
      some (wrap (ps.foldl (fun x t => step t x) x)) := by
  induction ps generalizing x with
  | nil => rfl
  | cons t rest ih =>
    obtain ⟨ht, hrest⟩ := List.forall_mem_cons.mp hend
    obtain ⟨s, t, rfl⟩ := List.exists_cons_of_ne_nil ht
    rw [List.foldl_cons, h]
    exact ih hrest _

/-- Steps on all documents of an array are steps on each of them. -/
theorem foldl_pointwise (step : List String → Document → Document → Document)
    (ps : List (List String)) (f : Document → Document) :
    ps.foldl (fun f t sub => step t sub (f sub)) f =
      fun sub => ps.foldl (fun d t => step t sub d) (f sub) := by
  funext sub
  exact (List.foldl_hom (fun f : Document → Document => f sub) fun _ _ => rfl).symm

end Regions

/-! ### Where segments lead -/

/-- The documents of a value into which a segment looks that is no index. -/
def parts : Value → List Document
  | .document d => [d]
  | .array items => items.filterMap Value.document?
  | _ => []

/-- The values to which segments lead, if none of them is an index. -/
def spread : List String → Value → List Value
  | [], v => [v]
  | s :: rest, v => (parts v).flatMap fun sub => (Entries.get? sub s).toList.flatMap (spread rest)

theorem spread_cons_document (s : String) (rest : List String) (d : Document) :
    spread (s :: rest) (.document d) = (Entries.get? d s).toList.flatMap (spread rest) :=
  List.append_nil _

/-- What segments lead to from the documents of a slot that stand for those of a value,
changed by `f`. -/
theorem spread_of_parts {slot : Option Value} {v : Value} {f : Document → Document}
    (h : slot.toList.flatMap parts = (parts v).map f) (s : String) (rest : List String) :
    slot.toList.flatMap (spread (s :: rest)) =
      (parts v).flatMap fun sub => spread (s :: rest) (.document (f sub)) := by
  calc slot.toList.flatMap (spread (s :: rest))
      = (slot.toList.flatMap parts).flatMap fun sub =>
          (Entries.get? sub s).toList.flatMap (spread rest) := List.flatMap_assoc.symm
    _ = (parts v).flatMap fun sub => (Entries.get? (f sub) s).toList.flatMap (spread rest) := by
        rw [h, List.flatMap_map]
    _ = _ := List.flatMap_congr fun sub _ => (spread_cons_document s rest (f sub)).symm

theorem step_eq_flatMap_parts {s : String} (hs : Text.unsigned? s = none) (v : Value) :
    Path.step s v = (parts v).flatMap fun sub => (Entries.get? sub s).toList := by
  cases v with
  | document d => exact (List.append_nil _).symm
  | array items =>
    simp only [Path.step, hs, parts]
    induction items with
    | nil => rfl
    | cons item rest ih =>
      rw [List.flatMap_cons, ih]
      cases item <;> rfl
  | _ => rfl

/-- A path without indices reaches the values to which its segments lead. -/
theorem reach_eq_spread {q : List String} (h : ∀ s ∈ q, Text.unsigned? s = none) (v : Value) :
    Path.reach q v = spread q v := by
  induction q generalizing v with
  | nil => rfl
  | cons s rest ih =>
    obtain ⟨hs, hrest⟩ := List.forall_mem_cons.mp h
    calc Path.reach (s :: rest) v
        = ((parts v).flatMap fun sub => (Entries.get? sub s).toList).flatMap (Path.reach rest) := by
          rw [Path.reach, step_eq_flatMap_parts hs]
      _ = ((parts v).flatMap fun sub => (Entries.get? sub s).toList).flatMap (spread rest) :=
          List.flatMap_congr fun w _ => ih hrest w
      _ = spread (s :: rest) v := List.flatMap_assoc

/-! ### Segments of paths -/

/-- The segments of some paths. -/
def segmentsOf (paths : List String) : List (List String) := paths.map Path.segments

theorem segments_ne_nil (path : String) : Path.segments path ≠ [] := by
  intro h
  exact List.splitOn_ne_nil _ _ (List.map_eq_nil_iff.mp h)

theorem nil_notMem_segmentsOf (paths : List String) : [] ∉ segmentsOf paths := by
  intro h
  obtain ⟨path, -, hpath⟩ := List.mem_map.mp h
  exact segments_ne_nil path hpath

end ContentQuery.Projection
