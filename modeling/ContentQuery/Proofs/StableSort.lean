/-
Sorting, and the page that a find cuts out.

* `IsStableSort` — a list is another one in order, and members that compare equal stand
  as they stood before;
* `IsStableSort.unique` — there is only one such list;
* `isStableSort_sortBy` — sorting by insertion makes it, for every comparison that is a
  total preorder;
* `isStableSort_sort` — so do the sort keys of a find, as long as they reach values that
  have a place in their bracket;
* `find_sorted_page` — a find returns a window of that list, projected document by
  document, or fails at the first document that it would return.
-/
import ContentQuery.Pattern.Reading
import ContentQuery.Proofs.Pages
import ContentQuery.Proofs.ValueOrder

namespace ContentQuery

namespace Sorting

/-- A list is another one in order, with equal members as they stood there. -/
structure IsStableSort {α : Type} (cmp : α → α → Ordering) (xs ys : List α) : Prop where
  perm : ys.Perm xs
  ordered : ys.Pairwise fun a b => cmp a b ≠ .gt
  stable : ∀ x ∈ xs, ys.filter (fun y => cmp x y = .eq) = xs.filter fun y => cmp x y = .eq

section Stable

variable {α : Type} {cmp : α → α → Ordering}

/-- Nothing stands before the head of a list in order. -/
theorem head_of_ordered [Std.ReflCmp cmp] {y z : α} {ys : List α}
    (h : (y :: ys).Pairwise fun a b => cmp a b ≠ .gt) (hz : z ∈ y :: ys) : cmp y z ≠ .gt := by
  have hself : cmp y y = .eq := Std.ReflCmp.compare_self
  rcases List.mem_cons.mp hz with heq | hz
  · rw [heq, hself]
    decide
  · exact (List.pairwise_cons.mp h).1 z hz

/-- Of two lists in order with the same members, equal ones in the same sequence, there
is only one. -/
theorem eq_of_ordered [Std.OrientedCmp cmp] {ys zs : List α} (hperm : ys.Perm zs)
    (hys : ys.Pairwise fun a b => cmp a b ≠ .gt) (hzs : zs.Pairwise fun a b => cmp a b ≠ .gt)
    (hstable : ∀ x ∈ ys, ys.filter (fun y => cmp x y = .eq) = zs.filter fun y => cmp x y = .eq) :
    ys = zs := by
  induction ys generalizing zs with
  | nil => exact hperm.nil_eq
  | cons y ys ih =>
    cases zs with
    | nil => exact hperm.eq_nil
    | cons z zs =>
      -- each of the two heads is somewhere in the other list
      have hyz : cmp y z ≠ .gt := head_of_ordered hys (hperm.mem_iff.mpr List.mem_cons_self)
      have hzy : cmp z y ≠ .gt := head_of_ordered hzs (hperm.mem_iff.mp List.mem_cons_self)
      have hself : cmp y y = .eq := Std.ReflCmp.compare_self
      have heq : cmp y z = .eq := Std.OrientedCmp.isLE_antisymm
        (Ordering.ne_gt_iff_isLE.mp hyz) (Ordering.ne_gt_iff_isLE.mp hzy)
      have hhead := hstable y List.mem_cons_self
      rw [List.filter_cons_of_pos (by simpa using hself),
        List.filter_cons_of_pos (by simpa using heq)] at hhead
      obtain rfl := (List.cons.inj hhead).1
      refine congrArg (y :: ·) (ih hperm.cons_inv hys.of_cons hzs.of_cons fun x hx => ?_)
      have htail := hstable x (List.mem_cons_of_mem y hx)
      rw [List.filter_cons, List.filter_cons] at htail
      split at htail
      · exact (List.cons.inj htail).2
      · exact htail

/-- There is only one stable sort of a list. -/
theorem IsStableSort.unique [Std.OrientedCmp cmp] {xs ys zs : List α} (hy : IsStableSort cmp xs ys)
    (hz : IsStableSort cmp xs zs) : zs = ys := by
  refine eq_of_ordered (hz.perm.trans hy.perm.symm) hz.ordered hy.ordered fun x hx => ?_
  have hmem := hz.perm.mem_iff.mp hx
  rw [hz.stable x hmem, hy.stable x hmem]

variable [Std.TransCmp cmp]

/-- A list that is filled from the front goes down. -/
theorem descending_place (x : α) {acc : List α} (hacc : acc.Pairwise fun a b => cmp b a ≠ .gt) :
    (place (fun a b => cmp a b == .lt) x acc).Pairwise fun a b => cmp b a ≠ .gt := by
  induction acc with
  | nil => exact List.pairwise_singleton _ x
  | cons y ys ih =>
    obtain ⟨hy, hys⟩ := List.pairwise_cons.mp hacc
    rw [place]
    split
    · rename_i hlt
      refine List.pairwise_cons.mpr ⟨fun z hz => ?_, ih hys⟩
      rcases List.mem_cons.mp ((place_perm _ x ys).mem_iff.mp hz) with rfl | hz
      · rw [eq_of_beq hlt]
        decide
      · exact hy z hz
    · rename_i hge
      have hyx : (cmp y x).isLE := by
        rw [← Std.OrientedCmp.isGE_iff_isLE]
        revert hge
        cases cmp x y <;> decide
      refine List.pairwise_cons.mpr ⟨fun z hz => ?_, hacc⟩
      rcases List.mem_cons.mp hz with rfl | hz
      · exact Ordering.ne_gt_iff_isLE.mpr hyx
      · have hzy := Ordering.ne_gt_iff_isLE.mp (hy z hz)
        exact Ordering.ne_gt_iff_isLE.mpr (Std.TransCmp.isLE_trans hzy hyx)

/-- Among the members that equal a given one, a new one comes first. -/
theorem filter_place (x z : α) (acc : List α) :
    (place (fun a b => cmp a b == .lt) x acc).filter (fun y => cmp z y = .eq) =
      (x :: acc).filter fun y => cmp z y = .eq := by
  induction acc with
  | nil => rfl
  | cons y ys ih =>
    rw [place]
    split
    · rename_i hlt
      rw [List.filter_cons, ih, List.filter_cons, List.filter_cons, List.filter_cons]
      -- no value equals both of two that differ
      by_cases hx : cmp z x = .eq
      · have hy : ¬ cmp z y = .eq := by
          intro hy
          rw [Std.TransCmp.congr_left (Std.OrientedCmp.eq_symm hx), hy] at hlt
          cases hlt
        simp [hx, hy]
      · simp [hx]
    · rfl

theorem descending_foldl_place (xs : List α) {acc : List α}
    (hacc : acc.Pairwise fun a b => cmp b a ≠ .gt) :
    (xs.foldl (fun sorted x => place (fun a b => cmp a b == .lt) x sorted) acc).Pairwise
      fun a b => cmp b a ≠ .gt := by
  induction xs generalizing acc with
  | nil => exact hacc
  | cons x rest ih => exact ih (descending_place x hacc)

theorem filter_foldl_place (z : α) (xs acc : List α) :
    (xs.foldl (fun sorted x => place (fun a b => cmp a b == .lt) x sorted) acc).filter
        (fun y => cmp z y = .eq) =
      (xs.filter fun y => cmp z y = .eq).reverse ++ acc.filter fun y => cmp z y = .eq := by
  induction xs generalizing acc with
  | nil => rfl
  | cons x rest ih =>
    rw [List.foldl_cons, ih, filter_place, List.filter_cons, List.filter_cons]
    split
    · simp
    · rfl

/-- Sorting by insertion is stable. -/
theorem isStableSort_sortBy (xs : List α) :
    IsStableSort cmp xs (sortBy (fun a b => cmp a b == .lt) xs) where
  perm := by
    have hfold := foldl_place_perm (fun a b => cmp a b == .lt) xs []
    rw [List.append_nil] at hfold
    exact (List.reverse_perm _).trans hfold
  ordered := List.pairwise_reverse.mpr (descending_foldl_place xs .nil)
  stable x _ := by
    rw [sortBy, List.filter_reverse, filter_foldl_place, List.filter_nil, List.append_nil,
      List.reverse_reverse]

end Stable

theorem place_congr {α : Type} {p q : α → α → Bool} {x : α} {acc : List α}
    (h : ∀ y ∈ acc, p x y = q x y) : place p x acc = place q x acc := by
  induction acc with
  | nil => rfl
  | cons y ys ih =>
    obtain ⟨hy, hys⟩ := List.forall_mem_cons.mp h
    rw [place, place, hy, ih hys]

/-- A sort only compares members of the list. -/
theorem sortBy_congr {α : Type} {p q : α → α → Bool} {xs : List α}
    (h : ∀ a ∈ xs, ∀ b ∈ xs, p a b = q a b) : sortBy p xs = sortBy q xs := by
  suffices hfold : ∀ ys acc : List α, (∀ a ∈ ys ++ acc, a ∈ xs) →
      ys.foldl (fun sorted x => place p x sorted) acc =
        ys.foldl (fun sorted x => place q x sorted) acc by
    rw [sortBy, sortBy, hfold xs [] (by simp)]
  intro ys
  induction ys with
  | nil => exact fun _ _ => rfl
  | cons y rest ih =>
    intro acc hmem
    have hplace : place p y acc = place q y acc := place_congr fun a ha =>
      h y (hmem y (by simp)) a (hmem a (by simp [ha]))
    rw [List.foldl_cons, List.foldl_cons, hplace]
    refine ih _ fun a ha => hmem a ?_
    have hperm := (place_perm q y acc).append_left rest
    exact ((hperm.trans List.perm_middle).mem_iff).mp ha

/-! ### The order of documents -/

/-- Where the first value stands that a sort key reaches. -/
def standing? (key : SortKey) (d : Document) : Option Value.Standing :=
  (Path.resolve d key.field).head?.map Value.standing

/-- The order of documents by where the values of a key stand. -/
def orderBy (key : SortKey) (a b : Document) : Ordering :=
  key.direction.orient (Ord.compare (standing? key a) (standing? key b))

/-- The order of documents by where the values of some keys stand. -/
def order : List SortKey → Document → Document → Ordering
  | [] => fun _ _ => .eq
  | key :: rest => compareLex (orderBy key) (order rest)

instance (key : SortKey) : Std.TransCmp (orderBy key) := by
  have hup : Std.TransCmp (compareOn (standing? key)) := inferInstance
  obtain ⟨field, direction⟩ := key
  cases direction with
  | ascending => exact hup
  | descending =>
    have hdown : orderBy ⟨field, .descending⟩ = fun a b =>
        compareOn (standing? ⟨field, .descending⟩) b a :=
      funext fun a => funext fun b => Std.OrientedCmp.eq_swap.symm
    rw [hdown]
    exact Std.TransCmp.opposite

instance transCmp_order (keys : List SortKey) : Std.TransCmp (order keys) := by
  induction keys with
  | nil => exact { eq_swap := rfl, isLE_trans := fun _ _ => rfl }
  | cons key rest ih => exact inferInstanceAs (Std.TransCmp (compareLex (orderBy key) (order rest)))

/-- Every value that the keys first reach in a document has a place in its bracket. -/
def Placed (keys : List SortKey) (d : Document) : Prop :=
  ∀ key ∈ keys, ∀ v ∈ (Path.resolve d key.field).head?, v.isUnplaced = false

instance (keys : List SortKey) (d : Document) : Decidable (Placed keys d) :=
  inferInstanceAs (Decidable (∀ key ∈ keys, ∀ v ∈ (Path.resolve d key.field).head?, _))

theorem comparePresent_of_placed {a b : Option Value} (ha : ∀ v ∈ a, v.isUnplaced = false)
    (hb : ∀ v ∈ b, v.isUnplaced = false) :
    comparePresent a b = Ord.compare (a.map Value.standing) (b.map Value.standing) := by
  cases a with
  | none => cases b <;> rfl
  | some v =>
    cases b with
    | none => rfl
    | some w => exact Value.compare_of_placed (ha v rfl) (hb w rfl)

/-- Documents compare by where their values stand. -/
theorem compare_eq_order {keys : List SortKey} {a b : Document} (ha : Placed keys a)
    (hb : Placed keys b) : compare a b keys = order keys a b := by
  induction keys with
  | nil => rfl
  | cons key rest ih =>
    obtain ⟨hakey, harest⟩ := List.forall_mem_cons.mp ha
    obtain ⟨hbkey, hbrest⟩ := List.forall_mem_cons.mp hb
    rw [compare, ih harest hbrest, compareBy, comparePresent_of_placed hakey hbkey]
    rfl

/-- Documents whose sort keys reach values with a place are sorted in a stable way. -/
theorem isStableSort_sort {keys : List SortKey} {docs : List Document}
    (h : ∀ d ∈ docs, Placed keys d) :
    IsStableSort (fun a b => compare a b keys) docs (sort keys docs) := by
  have hsame : ∀ a ∈ docs, ∀ b ∈ docs, compare a b keys = order keys a b := fun a ha b hb =>
    compare_eq_order (h a ha) (h b hb)
  have hsort : IsStableSort (order keys) docs (sort keys docs) := by
    rw [sort, sortBy_congr fun a ha b hb => by rw [hsame a ha b hb]]
    exact isStableSort_sortBy docs
  obtain ⟨hperm, hordered, hstable⟩ := hsort
  refine ⟨hperm, hordered.imp_of_mem fun {a b} ha hb hle => ?_, fun d hd => ?_⟩
  · rwa [hsame a (hperm.mem_iff.mp ha) b (hperm.mem_iff.mp hb)]
  · have hfilter {xs : List Document} (hxs : ∀ e ∈ xs, e ∈ docs) :
        xs.filter (fun e => compare d e keys = .eq) = xs.filter fun e => order keys d e = .eq :=
      List.filter_congr fun e he => by rw [hsame d hd e (hxs e he)]
    rw [hfilter fun e he => hperm.mem_iff.mp he, hfilter fun e he => he, hstable d hd]

instance : Std.OrientedCmp comparePresent where
  eq_swap {a b} := by
    cases a with
    | none => cases b <;> rfl
    | some v =>
      cases b with
      | none => rfl
      | some w =>
        show v.compare w = (w.compare v).swap
        exact Std.OrientedCmp.eq_swap

instance (key : SortKey) : Std.OrientedCmp (compareBy key) where
  eq_swap {a b} := by
    have hswap (x y : Option Value) : comparePresent x y = (comparePresent y x).swap :=
      Std.OrientedCmp.eq_swap
    rw [compareBy, compareBy, hswap]
    cases key.direction <;> rfl

/-- To turn a comparison of documents round is to turn its answer round. -/
instance orientedCmp_compare (keys : List SortKey) :
    Std.OrientedCmp fun a b => compare a b keys := by
  induction keys with
  | nil => exact { eq_swap := rfl }
  | cons key rest ih =>
    exact inferInstanceAs (Std.OrientedCmp (compareLex (compareBy key) fun a b => compare a b rest))

/-- Without a key all documents are equal, and stay as they are. -/
theorem sort_nil (docs : List Document) : sort [] docs = docs := by
  have hsort : IsStableSort (fun a b => compare a b []) docs (sort [] docs) :=
    isStableSort_sort fun d _ key hkey => absurd hkey (by simp)
  refine IsStableSort.unique ⟨.refl docs, ?_, fun _ _ => rfl⟩ hsort
  exact List.pairwise_of_forall fun _ _ h => by cases h

end Sorting

namespace MemoryStore

theorem getElem?_window {α : Type} (skip limit : Option Nat) (xs : List α) (i : Nat) :
    (window skip limit xs)[i]? =
      if ∀ n ∈ limit, n = 0 ∨ i < n then xs[skip.getD 0 + i]? else none := by
  rw [← List.getElem?_drop]
  cases limit with
  | none => simp [window]
  | some n =>
    cases n with
    | zero => simp [window]
    | succ n => simp [window, List.getElem?_take]

/-- What a find returns of a document that it has selected. -/
def Shows (projection : Option Document) (d shown : Document) : Prop :=
  match projection with
  | none => d = shown
  | some p => Projection.apply p d = .ok shown

theorem projectAll_eq_ok_iff {projection : Option Document} {docs out : List Document} :
    projectAll projection docs = .ok out ↔ List.Forall₂ (Shows projection) docs out := by
  cases projection with
  | none =>
    show Except.ok docs = .ok out ↔ List.Forall₂ Eq docs out
    rw [Except.ok.injEq, List.forall₂_eq_eq_eq]
  | some p =>
    rw [projectAll_eq]
    cases hmixed : Projection.isMixed p with
    | true =>
      have hshows (d e : Document) : ¬ Shows (some p) d e := by
        rw [Shows, Projection.apply_of_mixed hmixed]
        exact nofun
      cases docs with
      | nil => simp [eq_comm]
      | cons d rest =>
        rw [if_pos ⟨rfl, List.cons_ne_nil d rest⟩]
        constructor
        · exact nofun
        · rintro (_ | ⟨hd, -⟩)
          exact absurd hd (hshows d _)
    | false =>
      have hshows : Shows (some p) = fun d e => projectedOrSelf p d = e := by
        funext d e
        obtain ⟨out, hout⟩ := Projection.exists_apply hmixed d
        rw [Shows, projectedOrSelf, hout, Except.ok.injEq]
        rfl
      rw [if_neg (by simp), Except.ok.injEq, hshows, ← List.forall₂_map_left_iff,
        List.forall₂_eq_eq_eq]

theorem projectAll_eq_error_iff {projection : Option Document} {docs : List Document}
    {cause : StoreFault} :
    projectAll projection docs = .error cause ↔
      cause = .mixedProjection ∧ docs ≠ [] ∧ ∃ p ∈ projection, Projection.isMixed p = true := by
  cases projection with
  | none => simp [projectAll]
  | some p =>
    have hsome : (∃ q ∈ some p, Projection.isMixed q = true) ↔ Projection.isMixed p = true := by
      simp
    rw [projectAll_eq, hsome]
    split
    · rename_i h
      rw [Except.error.injEq, eq_comm]
      exact ⟨fun hcause => ⟨hcause, h.2, h.1⟩, fun hcause => hcause.1⟩
    · rename_i h
      exact ⟨nofun, fun hcause => absurd ⟨hcause.2.2, hcause.2.1⟩ h⟩

/-- A find selects a page of the one list that has the matching documents in order and
equal ones in the order of their insertion, and projects it document by document.  It
fails if there is a document to project and the projection is mixed. -/
theorem find_sorted_page [PatternLanguage] (s : MemoryStore) (collection : String)
    {filter : Document} {f : Filter}
    (hparse : Filter.parse filter = .ok f) (hscript : f.usesScript = false)
    (options : FindOptions)
    (hplaced : ∀ d ∈ s.documents collection, f.accepts d = true →
      Sorting.Placed (options.sort.getD []) d) :
    ∃ sorted page,
      let matching := (s.documents collection).filter fun d => f.accepts d
      let order := fun a b => Sorting.compare a b (options.sort.getD [])
      Sorting.IsStableSort order matching sorted ∧
      (∀ other, Sorting.IsStableSort order matching other → other = sorted) ∧
      (∀ i, page[i]? = if ∀ n ∈ options.limit, n = 0 ∨ i < n then sorted[options.skip.getD 0 + i]?
        else none) ∧
      (∀ out, s.find collection filter options = .ok out ↔
        List.Forall₂ (Shows options.projection) page out) ∧
      (∀ cause, s.find collection filter options = .error cause ↔
        cause = .mixedProjection ∧ page ≠ [] ∧
          ∃ p ∈ options.projection, Projection.isMixed p = true) := by
  set matching := (s.documents collection).filter fun d => f.accepts d
  have hsort : Sorting.IsStableSort (fun a b => Sorting.compare a b (options.sort.getD [])) matching
      (Sorting.sort (options.sort.getD []) matching) :=
    Sorting.isStableSort_sort fun d hd => by
      obtain ⟨hmem, haccepts⟩ := List.mem_filter.mp hd
      exact hplaced d hmem haccepts
  have hfind : s.find collection filter options = projectAll options.projection
      (window options.skip options.limit (Sorting.sort (options.sort.getD []) matching)) := by
    have hmatch : s.matching collection filter = .ok matching := by
      rw [MemoryStore.matching, readFilter, hparse]
      simp only [hscript, Bool.false_eq_true, if_false]
      rfl
    rw [find, hmatch]
    cases options.sort with
    | none => rw [Option.getD_none, Sorting.sort_nil]; rfl
    | some keys => rfl
  refine ⟨_, _, hsort, fun other => hsort.unique, getElem?_window _ _ _, fun out => ?_,
    fun cause => ?_⟩
  · rw [hfind]
    exact projectAll_eq_ok_iff
  · rw [hfind]
    exact projectAll_eq_error_iff

/-! ### Notes of different ranks -/

/-- A note with a rank, if it has one. -/
def rankedNote (uid : String) (rank : Option Value) : Document :=
  StoredDocument.toDocument
    ⟨⟨"note", "en", uid⟩, (rank.map fun v => ("rank", v)).toList⟩

/-- A page of the highest rank. -/
def rankedPage : Document :=
  StoredDocument.toDocument ⟨⟨"page", "en", "a"⟩, [("rank", .string "highest")]⟩

/-- Notes of which two have equal ranks, one a text and one none, and a page between them. -/
def rankedNotes : MemoryStore where
  collections := [("contents", [rankedNote "a" (some (.int32 2)), rankedNote "b" none, rankedPage,
    rankedNote "c" (some (.string "high")), rankedNote "d" (some (.int64 2))])]

/-- The two notes after the first, from the highest rank down. -/
def belowFirst : FindOptions where
  projection := some [("uid", .int32 1)]
  sort := some [⟨"data.rank", .descending⟩]
  limit := some 2
  skip := some 1

/-- All notes. -/
def allNotes : Document := [("content_type_uid", .string "note")]

open scoped Pattern in
/-- The page is not among what is sorted, so the note with a text is the first. -/
theorem find_rankedNotes :
    let f := Filter.field "content_type_uid" (.equals (.string "note"))
    Filter.parse allNotes = .ok f ∧ f.usesScript = false ∧
      (∀ d ∈ rankedNotes.documents "contents", f.accepts d = true →
        Sorting.Placed (belowFirst.sort.getD []) d) ∧
      ∃ sorted page,
        Sorting.IsStableSort (fun a b => Sorting.compare a b [⟨"data.rank", .descending⟩])
          [rankedNote "a" (some (.int32 2)), rankedNote "b" none,
            rankedNote "c" (some (.string "high")), rankedNote "d" (some (.int64 2))] sorted ∧
        page[0]? = sorted[1]? ∧ page[1]? = sorted[2]? ∧ page[2]? = none ∧
        rankedNotes.find "contents" allNotes belowFirst =
          .ok [[("uid", .string "a")], [("uid", .string "d")]] ∧
        List.Forall₂ (Shows belowFirst.projection) page
          [[("uid", .string "a")], [("uid", .string "d")]] := by
  intro f
  have hparse : Filter.parse allNotes = .ok f := rfl
  have hplaced : ∀ d ∈ rankedNotes.documents "contents", f.accepts d = true →
      Sorting.Placed (belowFirst.sort.getD []) d := by
    decide
  obtain ⟨sorted, page, hsorted, -, hpage, hfind, -⟩ :=
    find_sorted_page rankedNotes "contents" hparse rfl belowFirst hplaced
  have hmatching : (rankedNotes.documents "contents").filter (fun d => f.accepts d) =
      [rankedNote "a" (some (.int32 2)), rankedNote "b" none,
        rankedNote "c" (some (.string "high")), rankedNote "d" (some (.int64 2))] := rfl
  have hfound : rankedNotes.find "contents" allNotes belowFirst =
      .ok [[("uid", .string "a")], [("uid", .string "d")]] := rfl
  rw [hmatching] at hsorted
  exact ⟨hparse, rfl, hplaced, sorted, page, hsorted, hpage 0, hpage 1, hpage 2, hfound,
    (hfind _).mp hfound⟩

end MemoryStore

end ContentQuery
