/-
Increasing lists, and the parts of an increasing list of keys.

* `mem_ofList`, `increasing_ofList` — putting the members of a list in order keeps
  them, and has each of them once;
* `eq_of_increasing` — an increasing list is known by its members;
* `increasing_parts` — the parts of increasing keys come in the order of their
  content types and locales, one of each, and the uids of a part are increasing.
-/
import ContentQuery.Proofs.Lookup
import Mathlib.Data.List.Nodup
import Mathlib.Data.String.Basic

namespace ContentQuery

/-! ### Increasing lists -/

theorem Key.eq_of_compare {a b : Key} (h : Key.compare a b = .eq) : a = b := by
  obtain ⟨at', al, au⟩ := a
  obtain ⟨bt, bl, bu⟩ := b
  simp only [Key.compare, Ordering.then_eq_eq, Std.LawfulEqOrd.compare_eq_iff_eq] at h
  obtain ⟨rfl, rfl, rfl⟩ := h
  rfl

instance : Std.TransCmp Key.compare :=
  inferInstanceAs (Std.TransCmp (compareLex (compareOn Key.contentType)
    (compareLex (compareOn Key.locale) (compareOn Key.uid))))

namespace Ordered

section Members

variable {α : Type} {cmp : α → α → Ordering} (h : ∀ a b, cmp a b = .eq → a = b)
include h

theorem mem_insert (x y : α) (xs : List α) : y ∈ insert cmp x xs ↔ y = x ∨ y ∈ xs := by
  induction xs with
  | nil => simp [insert]
  | cons z rest ih =>
    rw [insert]
    cases hc : cmp x z with
    | lt => simp
    | eq =>
      obtain rfl := h x z hc
      simp
    | gt =>
      simp only [List.mem_cons, ih]
      exact or_left_comm

theorem mem_foldl_insert (y : α) (xs acc : List α) :
    y ∈ xs.foldl (fun acc x => insert cmp x acc) acc ↔ y ∈ acc ∨ y ∈ xs := by
  induction xs generalizing acc with
  | nil => simp
  | cons x rest ih =>
    rw [List.foldl_cons, ih, mem_insert h, List.mem_cons]
    grind

theorem mem_ofList (y : α) (xs : List α) : y ∈ ofList cmp xs ↔ y ∈ xs := by
  rw [ofList, mem_foldl_insert h]
  simp

variable [Std.TransCmp cmp]

theorem increasing_insert (x : α) {xs : List α} (hxs : xs.Pairwise (cmp · · = .lt)) :
    (insert cmp x xs).Pairwise (cmp · · = .lt) := by
  induction xs with
  | nil => exact List.pairwise_singleton _ x
  | cons z rest ih =>
    obtain ⟨hz, hrest⟩ := List.pairwise_cons.mp hxs
    rw [insert]
    cases hc : cmp x z with
    | lt =>
      refine List.pairwise_cons.mpr ⟨fun y hy => ?_, hxs⟩
      rcases List.mem_cons.mp hy with rfl | hy
      · exact hc
      · exact Std.TransCmp.lt_trans hc (hz y hy)
    | eq => exact hxs
    | gt =>
      refine List.pairwise_cons.mpr ⟨fun y hy => ?_, ih hrest⟩
      rcases (mem_insert h x y rest).mp hy with rfl | hy
      · exact Std.OrientedCmp.gt_iff_lt.mp hc
      · exact hz y hy

theorem increasing_ofList (xs : List α) : (ofList cmp xs).Pairwise (cmp · · = .lt) := by
  suffices hacc : ∀ acc : List α, acc.Pairwise (cmp · · = .lt) →
      (xs.foldl (fun acc x => insert cmp x acc) acc).Pairwise (cmp · · = .lt) from hacc [] .nil
  induction xs with
  | nil => exact fun _ hacc => hacc
  | cons x rest ih =>
    intro acc hacc
    exact ih _ (increasing_insert h x hacc)

omit h in
theorem nodup_of_increasing {xs : List α} (hxs : xs.Pairwise (cmp · · = .lt)) : xs.Nodup := by
  refine hxs.imp fun {a b} hlt => ?_
  rintro rfl
  have hself : cmp a a = .eq := Std.ReflCmp.compare_self
  rw [hself] at hlt
  cases hlt

omit h in
/-- An increasing list is known by its members. -/
theorem eq_of_increasing {xs ys : List α} (hxs : xs.Pairwise (cmp · · = .lt))
    (hys : ys.Pairwise (cmp · · = .lt)) (hmem : ∀ y, y ∈ xs ↔ y ∈ ys) : xs = ys := by
  have hperm : xs.Perm ys :=
    (List.perm_ext_iff_of_nodup (nodup_of_increasing hxs) (nodup_of_increasing hys)).mpr hmem
  refine hperm.eq_of_pairwise (fun a b _ _ hab hba => ?_) hxs hys
  -- neither of two members can come before the other
  rw [Std.OrientedCmp.gt_iff_lt.mpr hba] at hab
  cases hab

end Members

end Ordered

/-! ### The order of parts -/

theorem compare_eq_lt_iff {a b : String} : compare a b = .lt ↔ a < b :=
  compareOfLessAndEq_eq_lt

theorem Key.compare_eq_lt_iff {a b : Key} :
    Key.compare a b = .lt ↔ a.contentType < b.contentType ∨
      a.contentType = b.contentType ∧
        (a.locale < b.locale ∨ a.locale = b.locale ∧ a.uid < b.uid) := by
  simp only [Key.compare, Ordering.then_eq_lt, Std.LawfulEqOrd.compare_eq_iff_eq,
    ContentQuery.compare_eq_lt_iff]

namespace Reference

/-- One part comes before another: its content type does, or else its locale. -/
def Part.Precedes (p q : Part) : Prop :=
  p.contentType < q.contentType ∨ p.contentType = q.contentType ∧ p.locale < q.locale

theorem Part.Precedes.trans {p q r : Part} (hpq : p.Precedes q) (hqr : q.Precedes r) :
    p.Precedes r := by
  rcases hpq with hpq | ⟨hpq, hpq'⟩
  · rcases hqr with hqr | ⟨hqr, -⟩
    · exact .inl (lt_trans hpq hqr)
    · exact .inl (hqr ▸ hpq)
  · rcases hqr with hqr | ⟨hqr, hqr'⟩
    · exact .inl (hpq ▸ hqr)
    · exact .inr ⟨hpq.trans hqr, lt_trans hpq' hqr'⟩

/-- The key of a uid of a part. -/
def Part.key (p : Part) (uid : String) : Key := ⟨p.contentType, p.locale, uid⟩

theorem Part.names_key {p : Part} {uid : String} (h : uid ∈ p.uids) :
    p.names (p.key uid) = true := by
  simp [names, holds, key, h]

theorem Part.holds_iff {p : Part} {k : Key} :
    p.holds k = true ↔ p.contentType = k.contentType ∧ p.locale = k.locale := by
  simp [holds]

/-- Of two parts, one of which comes before the other, no key is in both. -/
theorem Part.Precedes.disjoint {p q : Part} (h : p.Precedes q) {k : Key} (hp : p.names k = true) :
    q.names k = false := by
  obtain ⟨hct, hloc⟩ := Part.holds_iff.mp (Bool.and_eq_true_iff.mp hp).1
  rw [Part.names, Bool.and_eq_false_iff]
  left
  rw [← Bool.not_eq_true, Part.holds_iff]
  rintro ⟨hct', hloc'⟩
  rcases h with h | ⟨-, h⟩
  · exact lt_irrefl _ (hct'.trans hct.symm ▸ h)
  · exact lt_irrefl _ (hloc'.trans hloc.symm ▸ h)

/-- Parts in increasing order, each with some uids in increasing order. -/
structure Increasing (ps : List Part) : Prop where
  pairs : ps.Pairwise Part.Precedes
  uids : ∀ p ∈ ps, p.uids ≠ [] ∧ p.uids.Pairwise (· < ·)

/-- A key that comes before all keys of a part joins it, or comes before it. -/
theorem Part.lt_or_precedes {p : Part} {k : Key} (hne : p.uids ≠ [])
    (h : ∀ uid ∈ p.uids, Key.compare k (p.key uid) = .lt) :
    if p.holds k = true then ∀ uid ∈ p.uids, k.uid < uid
    else (Part.mk k.contentType k.locale [k.uid]).Precedes p := by
  split
  · rename_i hk
    obtain ⟨hct, hloc⟩ := Part.holds_iff.mp hk
    intro uid hmem
    rcases Key.compare_eq_lt_iff.mp (h uid hmem) with hlt | ⟨-, hlt | ⟨-, hlt⟩⟩
    · exact absurd (hct ▸ hlt) (lt_irrefl _)
    · exact absurd (hloc ▸ hlt) (lt_irrefl _)
    · exact hlt
  · rename_i hk
    obtain ⟨uid, hmem⟩ := List.exists_mem_of_ne_nil _ hne
    rcases Key.compare_eq_lt_iff.mp (h uid hmem) with hlt | ⟨hct, hlt | ⟨hloc, -⟩⟩
    · exact .inl hlt
    · exact .inr ⟨hct, hlt⟩
    · exact absurd (Part.holds_iff.mpr ⟨hct.symm, hloc.symm⟩) hk

theorem increasing_parts {keys : List Key} (h : keys.Pairwise (Key.compare · · = .lt)) :
    Increasing (parts keys) := by
  induction keys with
  | nil => exact ⟨.nil, by simp [parts]⟩
  | cons k rest ih =>
    obtain ⟨hk, hrest⟩ := List.pairwise_cons.mp h
    obtain ⟨hpairs, huids⟩ := ih hrest
    -- the parts behind the key have keys of the rest
    have hlt : ∀ q ∈ parts rest, ∀ uid ∈ q.uids, Key.compare k (q.key uid) = .lt := by
      intro q hq uid huid
      have hany : (parts rest).any (fun p => p.names (q.key uid)) = true :=
        List.any_eq_true.mpr ⟨q, hq, Part.names_key huid⟩
      rw [any_names_parts, decide_eq_true_iff] at hany
      exact hk _ hany
    rw [parts]
    cases hparts : parts rest with
    | nil => exact ⟨List.pairwise_singleton _ _, by simp⟩
    | cons p ps =>
      rw [hparts] at hpairs huids hlt
      obtain ⟨hp, hps⟩ := List.pairwise_cons.mp hpairs
      obtain ⟨⟨hne, hinc⟩, hothers⟩ := List.forall_mem_cons.mp huids
      have hjoin := Part.lt_or_precedes hne (hlt p List.mem_cons_self)
      dsimp only
      split
      · -- the key is the first of the part that is there
        rename_i hholds
        rw [if_pos hholds] at hjoin
        refine ⟨List.pairwise_cons.mpr ⟨hp, hps⟩, List.forall_mem_cons.mpr ⟨⟨by simp, ?_⟩, hothers⟩⟩
        exact List.pairwise_cons.mpr ⟨hjoin, hinc⟩
      · -- the key begins a part of its own
        rename_i hholds
        rw [if_neg hholds] at hjoin
        refine ⟨List.pairwise_cons.mpr ⟨?_, hpairs⟩, List.forall_mem_cons.mpr ⟨?_, huids⟩⟩
        · exact List.forall_mem_cons.mpr ⟨hjoin, fun q hq => hjoin.trans (hp q hq)⟩
        · exact ⟨by simp, List.pairwise_singleton _ _⟩

end Reference

end ContentQuery
