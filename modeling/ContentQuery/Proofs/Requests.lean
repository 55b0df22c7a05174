/-
What an expansion asks for, level by level.

* `calls_resolve` — the calls of a run are those of its levels;
* `isSome_get?_levelStarts` — what a level knows is what the levels before it have
  found;
* `requests_of_levelStarts` — so each level asks for what its frontier names and has
  not been found yet, once and in order;
* `pairwise_batches` — and what one call finds, no later call asks for.
-/
import ContentQuery.Proofs.Calls
import ContentQuery.Proofs.LevelCalls

namespace ContentQuery

theorem MemoryStore.mem_storedKeys_iff {m : MemoryStore} {collection : String} {k : Key} :
    k ∈ m.storedKeys collection ↔ ∃ d ∈ m.documents collection, keyOf? d = some k := by
  rw [storedKeys, List.mem_dedup, List.mem_filterMap]

/-- The keys that are left when some documents are projected. -/
theorem MemoryStore.map_keyOf?_projectAll {p : Document} {raws docs : List Document}
    (h : projectAll (some p) raws = .ok docs) :
    docs.map keyOf? = raws.map fun raw => if Projection.keepsKeys p then keyOf? raw else none := by
  induction raws generalizing docs with
  | nil =>
    obtain rfl := Except.ok.inj h
    rfl
  | cons raw rest ih =>
    have h' : (raw :: rest).mapM (Projection.apply p) = .ok docs := h
    rw [List.mapM_cons] at h'
    obtain ⟨first, hfirst, h'⟩ := exists_of_bind_ok h'
    obtain ⟨others, hothers, h'⟩ := exists_of_bind_ok h'
    obtain rfl := Except.ok.inj h'
    rw [List.map_cons, List.map_cons, Projection.keyOf?_apply hfirst, ih hothers]

namespace Reference

theorem isSome_get?_byKey {found : List Document} {k : Key} :
    (Entries.get? (byKey found) k).isSome ↔ some k ∈ found.map keyOf? := by
  simp [get?_byKey, List.find?_isSome, List.mem_map]

/-! ### The levels of a run -/

namespace Expansion

variable (x : Expansion) (m : MemoryStore)

/-- What at most a number of levels start from, up to one that fails. -/
def starts [PatternLanguage] : Nat → Start → List Start
  | 0, _ => []
  | n + 1, s =>
    if s.frontier.isEmpty then []
    else s :: match (m.run (x.level s.arena s.frontier)).outcome with
      | .ok (arena, frontier) => starts n ⟨arena, frontier⟩
      | .error _ => []

/-- What the levels of a run start from. -/
def levelStarts [PatternLanguage] (docs : List Document) : List Start :=
  if x.mode = .none then []
  else x.starts m x.maxDepth ⟨rootArena docs, List.range docs.length⟩

theorem starts_succ [PatternLanguage] (n : Nat) (s : Start) :
    x.starts m (n + 1) s = if s.frontier.isEmpty then [] else s :: match x.answer m s with
      | .ok found => x.starts m n (x.grow s found)
      | .error _ => [] := by
  rw [starts, outcome_level]
  cases x.answer m s <;> rfl

theorem calls_levels [PatternLanguage] (n : Nat) (s : Start) :
    (m.run (x.levels n s.arena s.frontier)).calls =
      (x.starts m n s).flatMap fun t => (m.run (x.level t.arena t.frontier)).calls := by
  induction n generalizing s with
  | zero => rfl
  | succ n ih =>
    rw [starts_succ]
    by_cases hempty : s.frontier = []
    · simp [levels, hempty]
    · rw [x.levels_succ hempty, if_neg (by simpa using hempty), List.flatMap_cons]
      have houtcome := x.outcome_level m s
      cases hanswer : x.answer m s with
      | error cause =>
        rw [hanswer] at houtcome
        rw [m.calls_bind_of_error houtcome, List.flatMap_nil, List.append_nil]
      | ok found =>
        rw [hanswer] at houtcome
        rw [m.calls_bind_of_ok houtcome]
        exact congrArg _ (ih (x.grow s found))

theorem calls_resolve [PatternLanguage] (docs : List Document) :
    (m.run (x.resolve docs)).calls =
      (x.levelStarts m docs).flatMap fun t => (m.run (x.level t.arena t.frontier)).calls := by
  rw [levelStarts]
  by_cases hmode : x.mode = .none
  · rw [if_pos hmode, resolve, if_pos hmode]
    rfl
  · rw [if_neg hmode, ← calls_levels, resolve, if_neg hmode]
    show (m.run (Plan.bind _ fun r => Plan.bind _ fun _ => _)).calls = _
    refine m.calls_bind_of_quiet _ fun r => ?_
    rw [m.run_bind_of_ok (m.run_notes _)]
    rfl

/-! ### What a level knows -/

/-- The batch of a level asks for a key that is stored. -/
def Finds (s : Start) (k : Key) : Prop :=
  (∃ p ∈ x.batch s, p.names k = true) ∧ k ∈ m.storedKeys x.collection

theorem mem_map_keyOf?_matched [PatternLanguage] (s : Start) (k : Key) :
    some k ∈ ((x.batch s).flatMap (Part.matched m x.collection)).map keyOf? ↔ x.Finds m s k := by
  rw [Finds, MemoryStore.mem_storedKeys_iff, List.mem_map]
  constructor
  · rintro ⟨d, hd, hk⟩
    obtain ⟨p, hp, hd⟩ := List.mem_flatMap.mp hd
    obtain ⟨hmem, haccepts⟩ := List.mem_filter.mp hd
    rw [p.accepts_asFilter hk] at haccepts
    exact ⟨⟨p, hp, haccepts⟩, d, hmem, hk⟩
  · rintro ⟨⟨p, hp, hnames⟩, d, hmem, hk⟩
    refine ⟨d, List.mem_flatMap.mpr ⟨p, hp, List.mem_filter.mpr ⟨hmem, ?_⟩⟩, hk⟩
    rw [p.accepts_asFilter hk, hnames]

/-- A level finds stored documents, unless the projection takes their keys away. -/
theorem mem_map_keyOf?_answer [PatternLanguage] {s : Start} {found : List Document}
    (h : x.answer m s = .ok found) (k : Key) :
    some k ∈ found.map keyOf? ↔ Projection.keepsKeys x.projection = true ∧ x.Finds m s k := by
  rw [MemoryStore.map_keyOf?_projectAll h, ← mem_map_keyOf?_matched]
  cases Projection.keepsKeys x.projection with
  | true => simp
  | false => simp

theorem isSome_get?_grow [PatternLanguage] {s : Start} {found : List Document}
    (h : x.answer m s = .ok found) (k : Key) :
    (Entries.get? (x.grow s found).arena.fetched k).isSome ↔
      (Entries.get? s.arena.fetched k).isSome ∨
        (Projection.keepsKeys x.projection = true ∧ x.Finds m s k) := by
  rw [← mem_map_keyOf?_answer x m h, ← isSome_get?_byKey, grow,
    Entries.get?_insertAll _ (nodup_keys_byKey _), Option.isSome_or, Bool.or_eq_true, or_comm]

end Expansion

/-! ### The next level -/

/-- A level can start: parents stand in front, and the frontier has nodes only. -/
structure Ready (s : Start) : Prop where
  parentsFirst : ParentsFirst s.arena.nodes
  inRange : ∀ i ∈ s.frontier, i < s.arena.nodes.size

theorem ready_root (docs : List Document) : Ready ⟨rootArena docs, List.range docs.length⟩ := by
  refine ⟨parentsFirst_rootArena docs, fun i hi => ?_⟩
  simpa [rootArena] using List.mem_range.mp hi

theorem owner_mem_frontier {x : Expansion} {s : Start} {e : Edge}
    (he : e ∈ s.frontier.flatMap (x.edges s.arena.nodes)) :
    e.owner ∈ s.frontier ∧ e ∈ x.edges s.arena.nodes e.owner := by
  obtain ⟨i, hi, he⟩ := List.mem_flatMap.mp he
  obtain rfl := (x.owner_of_mem_edges he).1
  exact ⟨hi, he⟩

namespace Ready

variable {x : Expansion} {s : Start} (h : Ready s) (found : List Document)
include h

theorem grown : ∃ g : Growth, Grown (x.grow s found).arena.fetched s.arena.nodes
    (s.frontier.flatMap (x.edges s.arena.nodes)) g ∧
    g.nodes = (x.grow s found).arena.nodes ∧ g.next = (x.grow s found).frontier :=
  ⟨_, grown_foldl h.parentsFirst _ fun _ he => h.inRange _ (owner_mem_frontier he).1, rfl, rfl⟩

theorem grows : Grows s.arena.nodes (x.grow s found).arena.nodes := by
  obtain ⟨g, hg, hnodes, -⟩ := h.grown (x := x) found
  rw [← hnodes]
  exact hg.grows

theorem mem_frontier_grow (i : Nat) : i ∈ (x.grow s found).frontier ↔
    s.arena.nodes.size ≤ i ∧ i < (x.grow s found).arena.nodes.size := by
  obtain ⟨g, hg, hnodes, hnext⟩ := h.grown (x := x) found
  rw [← hnext, ← hnodes, hg.next, List.mem_range'_1, Nat.add_sub_cancel' hg.size_le]

theorem grow : Ready (x.grow s found) := by
  refine ⟨?_, fun i hi => ((h.mem_frontier_grow found i).mp hi).2⟩
  obtain ⟨g, hg, hnodes, -⟩ := h.grown (x := x) found
  rw [← hnodes]
  exact hg.parentsFirst

/-- Every node of the next frontier is the target of an edge. -/
theorem exists_edge {i : Nat} (hi : i ∈ (x.grow s found).frontier) :
    ∃ o ∈ s.frontier, ∃ e ∈ x.edges s.arena.nodes o, ∃ k ∈ e.keys, k ∉ ancestors s.arena.nodes o ∧
      ∃ payload, Entries.get? (x.grow s found).arena.fetched k = some payload ∧
        (x.grow s found).arena.nodes[i]? = some (e.target k payload) := by
  obtain ⟨hle, hlt⟩ := (h.mem_frontier_grow found i).mp hi
  obtain ⟨g, hg, hnodes, -⟩ := h.grown (x := x) found
  rw [← hnodes] at hlt ⊢
  have hnode : g.nodes[i]? = some g.nodes[i] := Array.getElem?_eq_getElem hlt
  obtain ⟨e, he, k, hk, hchild⟩ := hg.new i _ hle hnode
  obtain ⟨ho, he⟩ := owner_mem_frontier he
  unfold Edge.child? at hchild
  split at hchild
  · cases hchild
  · rename_i hon
    obtain ⟨payload, hget, htarget⟩ := Option.map_eq_some_iff.mp hchild
    rw [onPath_iff] at hon
    exact ⟨e.owner, ho, e, he, k, hk, hon, payload, hget, by rw [hnode, htarget]⟩

/-- Nothing that is found leads to nothing to go on with. -/
theorem frontier_grow_eq_nil (hnone : ∀ k, Entries.get? (x.grow s found).arena.fetched k = none) :
    (x.grow s found).frontier = [] := by
  refine List.eq_nil_iff_forall_not_mem.mpr fun i hi => ?_
  obtain ⟨o, -, e, -, k, -, -, payload, hget, -⟩ := h.exists_edge found hi
  rw [hnone k] at hget
  cases hget

end Ready

/-! ### What earlier levels have found -/

section Known

variable [PatternLanguage] {x : Expansion} {m : MemoryStore}

theorem starts_cases (n : Nat) (s : Start) :
    x.starts m (n + 1) s = [] ∨ x.starts m (n + 1) s = [s] ∨
      ∃ found, x.answer m s = .ok found ∧
        x.starts m (n + 1) s = s :: x.starts m n (x.grow s found) := by
  rw [x.starts_succ]
  split
  · exact .inl rfl
  · cases x.answer m s with
    | error cause => exact .inr (.inl rfl)
    | ok found => exact .inr (.inr ⟨found, rfl, rfl⟩)

/-- Without keys there is nothing to expand behind the first level. -/
theorem starts_of_not_keepsKeys (hkeys : Projection.keepsKeys x.projection = false) {s : Start}
    (h : Ready s) (hs : s.arena.fetched = []) (n : Nat) :
    x.starts m n s = [] ∨ x.starts m n s = [s] := by
  cases n with
  | zero => exact .inl rfl
  | succ n =>
    obtain hnil | hsingle | ⟨found, hanswer, hcons⟩ := starts_cases (x := x) (m := m) n s
    · exact .inl hnil
    · exact .inr hsingle
    · have hnone (k : Key) : Entries.get? (x.grow s found).arena.fetched k = none := by
        rw [← Option.not_isSome_iff_eq_none, x.isSome_get?_grow m hanswer, hs, hkeys]
        simp
      have hempty := h.frontier_grow_eq_nil found hnone
      right
      rw [hcons]
      cases n with
      | zero => rfl
      | succ n => rw [Expansion.starts, hempty]; rfl

/-- What a level knows is what its run knew before and what the levels before it have
found. -/
theorem isSome_get?_fetched (hkeys : Projection.keepsKeys x.projection = true) {n : Nat}
    {s t : Start} {earlier later : List Start} (h : x.starts m n s = earlier ++ t :: later)
    (k : Key) :
    (Entries.get? t.arena.fetched k).isSome ↔
      (Entries.get? s.arena.fetched k).isSome ∨ ∃ b ∈ earlier, x.Finds m b k := by
  induction n generalizing s earlier with
  | zero => simp [Expansion.starts] at h
  | succ n ih =>
    cases earlier with
    | nil =>
      -- the first level knows what its run knew
      have hfirst : s = t := by
        obtain hnil | hsingle | ⟨found, -, hcons⟩ := starts_cases (x := x) (m := m) n s
        · rw [hnil] at h
          cases h
        · rw [hsingle] at h
          exact (List.cons.inj h).1
        · rw [hcons] at h
          exact (List.cons.inj h).1
      simp [hfirst]
    | cons b rest =>
      obtain hnil | hsingle | ⟨found, hanswer, hcons⟩ := starts_cases (x := x) (m := m) n s
      · rw [hnil] at h
        cases h
      · rw [hsingle] at h
        simp at h
      · rw [hcons] at h
        obtain ⟨rfl, hrest⟩ := List.cons.inj h
        rw [ih hrest, x.isSome_get?_grow m hanswer, List.exists_mem_cons_iff, or_assoc, hkeys]
        simp

theorem isSome_get?_levelStarts {docs : List Document} {t : Start} {earlier later : List Start}
    (h : x.levelStarts m docs = earlier ++ t :: later) (k : Key) :
    (Entries.get? t.arena.fetched k).isSome ↔ ∃ b ∈ earlier, x.Finds m b k := by
  rw [Expansion.levelStarts] at h
  split at h
  · simp at h
  · cases hkeys : Projection.keepsKeys x.projection with
    | true =>
      rw [isSome_get?_fetched hkeys h]
      simp [rootArena]
    | false =>
      -- there is no level before the only one
      obtain hnil | hsingle := starts_of_not_keepsKeys (m := m) hkeys (ready_root docs) rfl x.maxDepth
      · rw [hnil] at h
        simp at h
      · rw [hsingle] at h
        obtain ⟨rfl, h⟩ | ⟨_, rfl, h⟩ := List.append_eq_cons_iff.mp h.symm
        · obtain ⟨rfl, -⟩ := List.cons.inj h
          simp [rootArena]
        · simp at h

end Known

/-! ### What a level asks for -/

theorem mem_wanted {a : Arena} {es : List Edge} {k : Key} :
    k ∈ Expansion.wanted a es ↔ ∃ e ∈ es, k ∈ e.keys ∧ Entries.get? a.fetched k = none ∧
      k ∉ ancestors a.nodes e.owner := by
  rw [Expansion.wanted, Ordered.mem_ofList fun _ _ => Key.eq_of_compare]
  simp [Expansion.missing, onPath_eq_false_iff]

/-- A reference of the frontier names a key that is not on the way to its owner. -/
def Start.Names (x : Expansion) (s : Start) (k : Key) : Prop :=
  ∃ o ∈ s.frontier, k ∉ ancestors s.arena.nodes o ∧ ∃ e ∈ x.edges s.arena.nodes o, k ∈ e.keys

theorem mem_wanted_iff_names (x : Expansion) (s : Start) (k : Key) :
    k ∈ Expansion.wanted s.arena (s.frontier.flatMap (x.edges s.arena.nodes)) ↔
      s.Names x k ∧ Entries.get? s.arena.fetched k = none := by
  rw [mem_wanted]
  constructor
  · rintro ⟨e, he, hk, hnone, hon⟩
    obtain ⟨ho, he⟩ := owner_mem_frontier he
    exact ⟨⟨e.owner, ho, hon, e, he, hk⟩, hnone⟩
  · rintro ⟨⟨o, ho, hon, e, he, hk⟩, hnone⟩
    refine ⟨e, List.mem_flatMap.mpr ⟨o, ho, he⟩, hk, hnone, ?_⟩
    rwa [(x.owner_of_mem_edges he).1]

/-- The batch of a level asks for what its frontier names and is not yet known. -/
theorem exists_names_batch (x : Expansion) (s : Start) (k : Key) :
    (∃ p ∈ x.batch s, p.names k = true) ↔ s.Names x k ∧ Entries.get? s.arena.fetched k = none := by
  rw [← List.any_eq_true, Expansion.batch, any_names_parts, decide_eq_true_iff,
    mem_wanted_iff_names]

theorem increasing_batch (x : Expansion) (s : Start) : Increasing (x.batch s) :=
  increasing_parts (Ordered.increasing_ofList (fun _ _ => Key.eq_of_compare) _)

/-- The calls of a level that comes behind some others: one for each content type and
locale of the keys that are named and not found yet, in increasing order, with the
uids in increasing order. -/
structure Requests [PatternLanguage] (m : MemoryStore) (x : Expansion) (earlier : List Start)
    (s : Start) : Prop where
  calls : (m.run (x.level s.arena s.frontier)).calls = untilFailure ((x.batch s).map (x.lookup m))
  complete : Projection.isMixed x.projection = false →
    (m.run (x.level s.arena s.frontier)).calls = (x.batch s).map (x.lookup m)
  increasing : Increasing (x.batch s)
  names : ∀ k, (∃ p ∈ x.batch s, p.names k = true) ↔
    s.Names x k ∧ ¬ ∃ b ∈ earlier, x.Finds m b k

section Run

variable [PatternLanguage] {m : MemoryStore} {x : Expansion} {docs : List Document}

theorem requests_of_levelStarts {s : Start} {earlier later : List Start}
    (h : x.levelStarts m docs = earlier ++ s :: later) : Requests m x earlier s := by
  have hcalls := x.calls_level m s
  refine ⟨hcalls, fun hmixed => ?_, increasing_batch x s, fun k => ?_⟩
  · rw [hcalls]
    exact untilFailure_lookup m x.collection hmixed (x.batch s)
  · rw [exists_names_batch, ← isSome_get?_levelStarts h k, Option.not_isSome_iff_eq_none]

/-- What one call finds, no later call of the run asks for. -/
theorem pairwise_batches : ((x.levelStarts m docs).flatMap x.batch).Pairwise fun p q =>
    ∀ k ∈ m.storedKeys x.collection, p.names k = true → q.names k = false := by
  refine List.pairwise_flatMap.mpr ⟨fun s _ => ?_, ?_⟩
  · refine (increasing_batch x s).pairs.imp ?_
    intro p q hpq k _ hk
    exact hpq.disjoint hk
  · rw [List.pairwise_iff_getElem]
    intro i j hi hj hij p hp q hq k hk hnames
    -- the later level comes behind the earlier one
    have hsplit : x.levelStarts m docs = (x.levelStarts m docs).take j ++
        (x.levelStarts m docs)[j] :: (x.levelStarts m docs).drop (j + 1) := by
      rw [← List.drop_eq_getElem_cons hj, List.take_append_drop]
    have hmem : (x.levelStarts m docs)[i] ∈ (x.levelStarts m docs).take j :=
      List.mem_take_iff_getElem.mpr ⟨i, by omega, rfl⟩
    rw [← Bool.not_eq_true]
    intro hq'
    obtain ⟨-, hnot⟩ := ((requests_of_levelStarts hsplit).names k).mp ⟨q, hq, hq'⟩
    exact hnot ⟨_, hmem, ⟨p, hp, hnames⟩, hk⟩

end Run

end Reference

end ContentQuery
