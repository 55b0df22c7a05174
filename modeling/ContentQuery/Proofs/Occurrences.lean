/-
Runs over the same documents, however often and in which order they come.

Two levels are alike when every node that one of them expands looks like some node
that the other one expands: it has the same key, payload and path, and the same keys
above it.

* `Alike.batch_eq` — alike levels ask for the same;
* `alike_grow` — and they lead to alike levels;
* `calls_resolve_congr` — so repeating or permuting the documents of a run does not
  change its calls;
* `resolve_requests` — what the calls of a run are.
-/
import ContentQuery.Pattern.Reading
import ContentQuery.Proofs.Requests

namespace ContentQuery.Reference

/-! ### What is found gets a node -/

theorem Filled.exists_kid {look : Key → Option Document} {nodes : Array Node} {e : Edge}
    {ks : List Key} {ts : List Target} (hf : Filled look nodes e ks ts) {k : Key} (hk : k ∈ ks)
    (hon : onPath nodes e.owner k = false) {payload : Document} (hlook : look k = some payload) :
    ∃ i ∈ kidsOf ts, ∃ atts, nodes[i]? = some { e.target k payload with attachments := atts } := by
  induction hf with
  | nil => cases hk
  | cycle hcycle _ ih =>
    rcases List.mem_cons.mp hk with rfl | hk
    · rw [hcycle] at hon
      cases hon
    · exact ih hk
  | missing _ hnone _ ih =>
    rcases List.mem_cons.mp hk with rfl | hk
    · rw [hnone] at hlook
      cases hlook
    · exact ih hk
  | found _ hfound hnode _ ih =>
    rcases List.mem_cons.mp hk with rfl | hk
    · rw [hfound] at hlook
      obtain rfl := Option.some.inj hlook
      exact ⟨_, List.mem_cons_self, _, hnode⟩
    · obtain ⟨i, hi, hnode'⟩ := ih hk
      exact ⟨i, List.mem_cons_of_mem _ hi, hnode'⟩

theorem Attached.exists_kid {look : Key → Option Document} {nodes : Array Node} {es : List Edge}
    {atts : List Attachment} (hall : List.Forall₂ (Attached look nodes) es atts) {e : Edge}
    (he : e ∈ es) {k : Key} (hk : k ∈ e.keys) (hon : onPath nodes e.owner k = false)
    {payload : Document} (hlook : look k = some payload) :
    ∃ i ∈ kids atts, ∃ atts', nodes[i]? = some { e.target k payload with attachments := atts' } := by
  induction hall with
  | nil => cases he
  | cons hatt _ ih =>
    rw [kids, List.flatMap_cons]
    rcases List.mem_cons.mp he with rfl | he
    · obtain ⟨i, hi, hnode⟩ := hatt.filled.exists_kid hk hon hlook
      exact ⟨i, List.mem_append_left _ hi, hnode⟩
    · obtain ⟨i, hi, hnode⟩ := ih he
      exact ⟨i, List.mem_append_right _ hi, hnode⟩

/-- A key that closes no cycle and is found gets a node of the next frontier. -/
theorem Ready.exists_target {x : Expansion} {s : Start} (h : Ready s) (found : List Document)
    {o : Nat} (ho : o ∈ s.frontier) {e : Edge} (he : e ∈ x.edges s.arena.nodes o) {k : Key}
    (hk : k ∈ e.keys) (hon : k ∉ ancestors s.arena.nodes o) {payload : Document}
    (hget : Entries.get? (x.grow s found).arena.fetched k = some payload) :
    ∃ i ∈ (x.grow s found).frontier, ∃ atts,
      (x.grow s found).arena.nodes[i]? = some { e.target k payload with attachments := atts } := by
  have hlt := h.inRange o ho
  obtain ⟨g, hg, hnodes, -⟩ := h.grown (x := x) found
  obtain ⟨atts, -, hall, -, hge⟩ := hg.old o _ (Array.getElem?_eq_getElem hlt)
  have howner := (x.owner_of_mem_edges he).1
  have hmem : e ∈ (s.frontier.flatMap (x.edges s.arena.nodes)).filter fun e => e.owner == o :=
    List.mem_filter.mpr ⟨List.mem_flatMap.mpr ⟨o, ho, he⟩, by simpa using howner⟩
  have hon' : onPath g.nodes e.owner k = false := by
    rw [howner, hg.grows.onPath_eq h.parentsFirst hg.parentsFirst hlt, onPath_eq_false_iff]
    exact hon
  obtain ⟨i, hi, atts', hnode⟩ := Attached.exists_kid hall hmem hk hon' hget
  rw [hnodes] at hnode
  refine ⟨i, (h.mem_frontier_grow found i).mpr ⟨hge i hi, ?_⟩, atts', hnode⟩
  exact (Array.getElem?_eq_some_iff.mp hnode).1

/-! ### Alike nodes -/

/-- A node of one arena looks like a node of another, from there up to the root. -/
structure SameNode (a : Array Node) (i : Nat) (b : Array Node) (j : Nat) : Prop where
  node : ∃ n n', a[i]? = some n ∧ b[j]? = some n' ∧ n'.key = n.key ∧ n'.payload = n.payload ∧
    n'.path = n.path
  ancestors : ancestors b j = ancestors a i

theorem edge?_congr (x : Expansion) {n n' : Node} (hkey : n'.key = n.key) (hpath : n'.path = n.path)
    (i j : Nat) (l : Location) :
    x.edge? j n' l = (x.edge? i n l).map fun e => { e with owner := j } := by
  have hlocale : x.ownerLocale n' = x.ownerLocale n := by
    unfold Expansion.ownerLocale
    rw [hkey]
  unfold Expansion.edge?
  rw [hpath, hlocale]
  dsimp only
  split
  · rfl
  · rfl

theorem SameNode.edges_eq {a b : Array Node} {i j : Nat} (h : SameNode a i b j) (x : Expansion) :
    x.edges b j = (x.edges a i).map fun e => { e with owner := j } := by
  obtain ⟨n, n', hn, hn', hkey, hpayload, hpath⟩ := h.node
  unfold Expansion.edges
  rw [hn, hn']
  dsimp only
  rw [hpayload, List.map_filterMap]
  exact List.filterMap_congr fun l _ => edge?_congr x hkey hpath i j l

/-- Two levels know the same, and the nodes that either expands look like nodes that
the other one expands. -/
structure Alike (s t : Start) : Prop where
  fetched : t.arena.fetched = s.arena.fetched
  covers : ∀ i ∈ s.frontier, ∃ j ∈ t.frontier, SameNode s.arena.nodes i t.arena.nodes j
  covered : ∀ j ∈ t.frontier, ∃ i ∈ s.frontier, SameNode t.arena.nodes j s.arena.nodes i

namespace Alike

variable {x : Expansion} {s t : Start}

theorem symm (h : Alike s t) : Alike t s := ⟨h.fetched.symm, h.covered, h.covers⟩

theorem names_of_names (h : Alike s t) {k : Key} (hk : s.Names x k) : t.Names x k := by
  obtain ⟨o, ho, hon, e, he, hk⟩ := hk
  obtain ⟨j, hj, hsame⟩ := h.covers o ho
  refine ⟨j, hj, by rwa [hsame.ancestors], { e with owner := j }, ?_, hk⟩
  rw [hsame.edges_eq x]
  exact List.mem_map_of_mem he

/-- Alike levels ask for the same. -/
theorem batch_eq (h : Alike s t) : x.batch t = x.batch s := by
  have hkey : ∀ a b, Key.compare a b = .eq → a = b := fun _ _ => Key.eq_of_compare
  refine congrArg parts (Ordered.eq_of_increasing (Ordered.increasing_ofList hkey _)
    (Ordered.increasing_ofList hkey _) fun k => ?_)
  show k ∈ Expansion.wanted _ _ ↔ k ∈ Expansion.wanted _ _
  rw [mem_wanted_iff_names, mem_wanted_iff_names, h.fetched]
  exact and_congr_left fun _ => ⟨h.symm.names_of_names, h.names_of_names⟩

theorem covers_grow (h : Alike s t) (hs : Ready s) (ht : Ready t) (found : List Document) :
    ∀ i ∈ (x.grow s found).frontier, ∃ j ∈ (x.grow t found).frontier,
      SameNode (x.grow s found).arena.nodes i (x.grow t found).arena.nodes j := by
  intro i hi
  have hfetched : (x.grow t found).arena.fetched = (x.grow s found).arena.fetched := by
    show Entries.insertAll t.arena.fetched _ = Entries.insertAll s.arena.fetched _
    rw [h.fetched]
  obtain ⟨o, ho, e, he, k, hk, hon, payload, hget, hnode⟩ := hs.exists_edge found hi
  obtain ⟨p, hp, hsame⟩ := h.covers o ho
  -- the same edge leaves the node that looks like the owner
  have he' : { e with owner := p } ∈ x.edges t.arena.nodes p := by
    rw [hsame.edges_eq x]
    exact List.mem_map_of_mem he
  obtain ⟨j, hj, atts, hnode'⟩ := ht.exists_target found hp he' hk (by rwa [hsame.ancestors])
    (hfetched ▸ hget)
  refine ⟨j, hj, ⟨_, _, hnode, hnode', rfl, rfl, rfl⟩, ?_⟩
  obtain rfl := (x.owner_of_mem_edges he).1
  rw [(ht.grow found).parentsFirst.ancestors_child hnode' rfl,
    (hs.grow found).parentsFirst.ancestors_child hnode rfl,
    (ht.grows found).ancestors_eq ht.parentsFirst (ht.grow found).parentsFirst (ht.inRange _ hp),
    (hs.grows found).ancestors_eq hs.parentsFirst (hs.grow found).parentsFirst (hs.inRange _ ho),
    hsame.ancestors]
  rfl

/-- Alike levels that find the same lead to alike levels. -/
theorem grow (h : Alike s t) (hs : Ready s) (ht : Ready t) (found : List Document) :
    Alike (x.grow s found) (x.grow t found) := by
  refine ⟨?_, h.covers_grow hs ht found, h.symm.covers_grow ht hs found⟩
  show Entries.insertAll t.arena.fetched _ = Entries.insertAll s.arena.fetched _
  rw [h.fetched]

theorem frontier_eq_nil_iff (h : Alike s t) : t.frontier = [] ↔ s.frontier = [] := by
  simp only [List.eq_nil_iff_forall_not_mem]
  constructor
  · intro hnone i hi
    obtain ⟨j, hj, -⟩ := h.covers i hi
    exact hnone j hj
  · intro hnone j hj
    obtain ⟨i, hi, -⟩ := h.covered j hj
    exact hnone i hi

/-- Alike levels are followed by levels that ask for the same. -/
theorem map_batch_starts [PatternLanguage] (h : Alike s t) (hs : Ready s) (ht : Ready t)
    (m : MemoryStore) (n : Nat) :
    (x.starts m n t).map x.batch = (x.starts m n s).map x.batch := by
  induction n generalizing s t with
  | zero => rfl
  | succ n ih =>
    rw [x.starts_succ, x.starts_succ]
    simp only [List.isEmpty_iff, h.frontier_eq_nil_iff]
    split
    · rfl
    · have hanswer : x.answer m t = x.answer m s := by
        rw [Expansion.answer, h.batch_eq]
        rfl
      rw [List.map_cons, List.map_cons, h.batch_eq, hanswer]
      cases x.answer m s with
      | error cause => rfl
      | ok found => exact congrArg _ (ih (h.grow hs ht found) (hs.grow found) (ht.grow found))

end Alike

/-! ### Whole runs -/

theorem exists_sameNode_root {docs docs' : List Document} (h : ∀ d ∈ docs, d ∈ docs') :
    ∀ i ∈ List.range docs.length, ∃ j ∈ List.range docs'.length,
      SameNode (rootArena docs).nodes i (rootArena docs').nodes j := by
  intro i hi
  have hlt : i < docs.length := List.mem_range.mp hi
  obtain ⟨j, hj, hdoc⟩ := List.getElem_of_mem (h docs[i] (List.getElem_mem hlt))
  have hnode : (rootArena docs).nodes[i]? = some (Node.root docs[i]) := by
    simp [rootArena, List.getElem?_eq_getElem hlt]
  have hnode' : (rootArena docs').nodes[j]? = some (Node.root docs[i]) := by
    simp [rootArena, List.getElem?_eq_getElem hj, hdoc]
  refine ⟨j, List.mem_range.mpr hj, ⟨_, _, hnode, hnode', rfl, rfl, rfl⟩, ?_⟩
  rw [(parentsFirst_rootArena docs).ancestors_root hnode rfl,
    (parentsFirst_rootArena docs').ancestors_root hnode' rfl]

section Runs

variable [PatternLanguage] (m : MemoryStore) (x : Expansion)

theorem calls_eq_flatMap_batch (docs : List Document) :
    (m.run (x.resolve docs)).calls =
      ((x.levelStarts m docs).map x.batch).flatMap fun b => untilFailure (b.map (x.lookup m)) := by
  rw [x.calls_resolve, List.flatMap_map]
  simp only [x.calls_level]

/-- A run over the same documents, each of them any number of times and in any order,
makes the same calls. -/
theorem calls_resolve_congr {docs docs' : List Document} (h : ∀ d, d ∈ docs' ↔ d ∈ docs) :
    (m.run (x.resolve docs')).calls = (m.run (x.resolve docs)).calls := by
  have halike : Alike ⟨rootArena docs, List.range docs.length⟩
      ⟨rootArena docs', List.range docs'.length⟩ :=
    ⟨rfl, exists_sameNode_root fun d => (h d).mpr, exists_sameNode_root fun d => (h d).mp⟩
  have hbatches : (x.levelStarts m docs').map x.batch = (x.levelStarts m docs).map x.batch := by
    rw [Expansion.levelStarts, Expansion.levelStarts]
    split
    · rfl
    · exact halike.map_batch_starts (ready_root docs) (ready_root docs') m x.maxDepth
  rw [calls_eq_flatMap_batch, calls_eq_flatMap_batch, hbatches]

/-- What an expansion asks for.  Each level asks for what its frontier names and no
level before it has found, once and in order; nothing that a call has found is asked
for again; and how often and in which order the documents come makes no difference. -/
theorem resolve_requests (docs : List Document) :
    let levels := x.levelStarts m docs
    (m.run (x.resolve docs)).calls =
        levels.flatMap (fun s => (m.run (x.level s.arena s.frontier)).calls) ∧
      (∀ earlier s later, levels = earlier ++ s :: later → Requests m x earlier s) ∧
      ((levels.flatMap x.batch).Pairwise fun p q =>
        ∀ k ∈ m.storedKeys x.collection, p.names k = true → q.names k = false) ∧
      ∀ docs' : List Document, (∀ d, d ∈ docs' ↔ d ∈ docs) →
        (m.run (x.resolve docs')).calls = (m.run (x.resolve docs)).calls :=
  ⟨x.calls_resolve m docs, fun _ _ _ h => requests_of_levelStarts h, pairwise_batches,
    fun _ h => calls_resolve_congr m x h⟩

end Runs

/-- A page in another language. -/
def foreignPage : Document :=
  StoredDocument.toDocument ⟨⟨"page", "fr", "c"⟩, [("next", pageLink "b")]⟩

/-- An expansion whose projection mixes an inclusion with an exclusion. -/
def mixedExpansion : Expansion :=
  { pagePairExpansion with projection := [("data.next", .int32 1), ("data.draft", .int32 0)] }

open scoped Pattern in
/-- Two pages in two languages name one page each.  The first of the two lookups finds
a page, which cannot be projected, and so the other one is not made. -/
theorem resolve_mixed :
    let batches := (mixedExpansion.levelStarts pagePair
      [linkedPage "a" "b", foreignPage]).flatMap mixedExpansion.batch
    let calls := (pagePair.run (mixedExpansion.resolve [linkedPage "a" "b", foreignPage])).calls
    batches = [⟨"page", "en", ["b"]⟩, ⟨"page", "fr", ["b"]⟩] ∧ calls.length = 1 ∧
      calls ≠ batches.map (mixedExpansion.lookup pagePair) := by
  intro batches calls
  have hbatches : batches = [⟨"page", "en", ["b"]⟩, ⟨"page", "fr", ["b"]⟩] := rfl
  have hcalls : calls.length = 1 := rfl
  refine ⟨hbatches, hcalls, fun heq => ?_⟩
  rw [heq, List.length_map, hbatches] at hcalls
  exact absurd hcalls (by decide)

open scoped Pattern in
/-- Pages that are expanded twice are looked up once, and so is what both of them
name. -/
theorem resolve_requests_pagePair :
    (∀ d, d ∈ [linkedPage "b" "a", linkedPage "a" "b", linkedPage "a" "b"] ↔
        d ∈ [linkedPage "a" "b", linkedPage "b" "a"]) ∧
      (pagePair.run (pagePairExpansion.resolve
          [linkedPage "b" "a", linkedPage "a" "b", linkedPage "a" "b"])).calls =
        (pagePair.run (pagePairExpansion.resolve [linkedPage "a" "b", linkedPage "b" "a"])).calls ∧
      (pagePair.run (pagePairExpansion.resolve
        [linkedPage "a" "b", linkedPage "b" "a"])).calls.length = 1 := by
  have hmem (d : Document) : d ∈ [linkedPage "b" "a", linkedPage "a" "b", linkedPage "a" "b"] ↔
      d ∈ [linkedPage "a" "b", linkedPage "b" "a"] := by
    simp only [List.mem_cons, List.not_mem_nil, or_false, or_self]
    exact or_comm
  obtain ⟨-, -, -, hcongr⟩ :=
    resolve_requests pagePair pagePairExpansion [linkedPage "a" "b", linkedPage "b" "a"]
  exact ⟨hmem, hcongr _ hmem, rfl⟩

end ContentQuery.Reference
