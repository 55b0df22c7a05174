/-
Running the levels of an expansion against a store in memory.

Whatever has been put into the cache on the way, every key of a level is found to
have the payload that a lookup of that key alone gives.  `Staged` says what is so
between two levels:

* `staged_level` — one level succeeds, keeps `Staged` and logs nothing but cycles;
* `staged_levels` — so does any number of levels, and they end with an empty
  frontier or after as many levels as were allowed.
-/
import ContentQuery.Proofs.Entries
import ContentQuery.Proofs.Growth
import ContentQuery.Proofs.Increasing

namespace ContentQuery

namespace Reference

theorem nodup_keys_foldl_enter (found : List Document) {acc : List (Key × Document)}
    (hacc : (Entries.keys acc).Nodup) : (Entries.keys (found.foldl enter acc)).Nodup := by
  induction found generalizing acc with
  | nil => exact hacc
  | cons raw rest ih =>
    refine ih ?_
    unfold enter
    cases keyOf? raw with
    | none => exact hacc
    | some k => exact Entries.nodup_keys_upsert hacc k _

theorem nodup_keys_byKey (found : List Document) : (Entries.keys (byKey found)).Nodup := by
  rw [byKey_eq_foldl]
  exact nodup_keys_foldl_enter found .nil

/-! ### The edges of a frontier -/

namespace Expansion

variable (x : Expansion)

/-- The payload that an expansion finds for a key. -/
def look (m : MemoryStore) (k : Key) : Option Document :=
  m.payload? x.collection (some x.projection) k

theorem owner_of_mem_edges {nodes : Array Node} {i : Nat} {e : Edge} (he : e ∈ x.edges nodes i) :
    e.owner = i ∧ i < nodes.size := by
  unfold edges at he
  cases hi : nodes[i]? with
  | none => simp [hi] at he
  | some node =>
    simp only [hi, List.mem_filterMap, edge?] at he
    obtain ⟨l, -, he⟩ := he
    split at he
    · obtain rfl := Option.some.inj he
      obtain ⟨hlt, -⟩ := Array.getElem?_eq_some_iff.mp hi
      exact ⟨rfl, hlt⟩
    · cases he

theorem edges_eq_of_grows {a b : Array Node} (h : Grows a b) {i : Nat} (hi : i < a.size) :
    x.edges b i = x.edges a i := by
  have hnode : a[i]? = some a[i] := Array.getElem?_eq_getElem hi
  obtain ⟨atts, hnode'⟩ := h i _ hnode
  simp only [edges, hnode, hnode']
  rfl

theorem levels_nil (n : Nat) (a : Arena) : x.levels n a [] = pure (a, []) := by
  cases n <;> rfl

theorem levels_succ {a : Arena} {frontier : List Nat} (h : frontier ≠ []) (l : Nat) :
    x.levels (l + 1) a frontier = (x.level a frontier).bind fun r => x.levels l r.1 r.2 := by
  simp [levels, h]

/-- Among the edges of a frontier those of one owner are all its edges. -/
theorem filter_owner (nodes : Array Node) {frontier : List Nat} (h : frontier.Nodup) (i : Nat) :
    (frontier.flatMap (x.edges nodes)).filter (fun e => e.owner == i) =
      if i ∈ frontier then x.edges nodes i else [] := by
  induction frontier with
  | nil => rfl
  | cons j rest ih =>
    obtain ⟨hj, hrest⟩ := List.nodup_cons.mp h
    have hown : (x.edges nodes j).filter (fun e => e.owner == i) =
        if j = i then x.edges nodes j else [] := by
      split
      · refine List.filter_eq_self.mpr fun e he => ?_
        simpa [(x.owner_of_mem_edges he).1]
      · refine List.filter_eq_nil_iff.mpr fun e he => ?_
        simpa [(x.owner_of_mem_edges he).1]
    rw [List.flatMap_cons, List.filter_append, ih hrest, hown]
    by_cases hi : j = i
    · subst hi
      simp [hj]
    · have hi' : i ≠ j := fun heq => hi heq.symm
      simp [hi, hi']

end Expansion

variable (m : MemoryStore) (x : Expansion) (docs : List Document)

/-! ### The cache -/

/-- The payloads that are known after a level with some edges. -/
def fetchedAfter [PatternLanguage] (a : Arena) (es : List Edge) : List (Key × Document) :=
  Entries.insertAll a.fetched
    (byKey (foundBy m x.collection (some x.projection) (Expansion.wanted a es)))

section Cache

variable [PatternLanguage] {m x} {a : Arena} (hp : Projection.OnlyPayload x.projection)
include hp

theorem get?_fetchedAfter (es : List Edge) (k : Key) :
    Entries.get? (fetchedAfter m x a es) k =
      (if k ∈ Expansion.wanted a es then x.look m k else none).or (Entries.get? a.fetched k) := by
  have hp' : ∀ p ∈ some x.projection, Projection.OnlyPayload p := by simpa using hp
  rw [fetchedAfter, Entries.get?_insertAll _ (nodup_keys_byKey _),
    get?_byKey_foundBy m x.collection hp']
  rfl

/-- What is known is what a lookup of the key alone gives. -/
theorem look_of_get?_fetchedAfter
    (known : ∀ k payload, Entries.get? a.fetched k = some payload → x.look m k = some payload)
    (es : List Edge) {k : Key} {payload : Document}
    (h : Entries.get? (fetchedAfter m x a es) k = some payload) : x.look m k = some payload := by
  rw [get?_fetchedAfter hp, Option.or_eq_some_iff] at h
  rcases h with h | ⟨-, h⟩
  · split at h
    · exact h
    · cases h
  · exact known k payload h

/-- A key that closes no cycle is known when the lookups of its level are done. -/
theorem get?_fetchedAfter_of_mem
    (known : ∀ k payload, Entries.get? a.fetched k = some payload → x.look m k = some payload)
    {es : List Edge} {e : Edge} (he : e ∈ es) {k : Key} (hk : k ∈ e.keys)
    (hon : onPath a.nodes e.owner k = false) :
    Entries.get? (fetchedAfter m x a es) k = x.look m k := by
  rw [get?_fetchedAfter hp]
  cases hget : Entries.get? a.fetched k with
  | some payload =>
    rw [known k payload hget]
    split <;> rfl
  | none =>
    -- what is not in the cache is asked for
    have hmissing : k ∈ Expansion.missing a e := by
      simp [Expansion.missing, hk, hget, hon]
    have hwanted : k ∈ Expansion.wanted a es := by
      rw [Expansion.wanted, Ordered.mem_ofList fun _ _ => Key.eq_of_compare]
      exact List.mem_flatMap.mpr ⟨e, he, hmissing⟩
    rw [if_pos hwanted, Option.or_none]

theorem run_level (frontier : List Nat) :
    let es := frontier.flatMap (x.edges a.nodes)
    let fetched := fetchedAfter m x a es
    let g := es.foldl (attachEdge fetched) { nodes := a.nodes }
    m.run (x.level a frontier) =
      { outcome := .ok ({ nodes := g.nodes, fetched }, g.next)
        calls := (parts (Expansion.wanted a es)).map
          (Part.lookup m x.collection (some x.projection))
        log := g.log } := by
  intro es fetched g
  -- first the lookups, then the notes of the edges that close a cycle
  have hp' : ∀ p ∈ some x.projection, Projection.OnlyPayload p := by simpa using hp
  have hfetch := run_fetch_kept m x.collection hp' (Expansion.wanted a es)
  show m.run (Plan.bind (fetch _ _ (Expansion.wanted a es)) fun found => _) = _
  rw [m.run_bind_of_ok hfetch]
  show Plan.after _ _ (m.run (Plan.bind (Plan.notes g.log) fun _ => _)) = _
  rw [m.run_bind_of_ok (m.run_notes g.log)]
  simp only [Plan.after, Plan.pure_eq_done, MemoryStore.run_done, List.append_nil, List.nil_append]
  rfl

end Cache

/-! ### Between two levels -/

/-- An arena after `n` levels: the nodes below `b` have all their targets, and
the others are the frontier. -/
structure Staged (n b : Nat) (a : Arena) : Prop where
  parentsFirst : ParentsFirst a.nodes
  le_size : b ≤ a.nodes.size
  known : ∀ k payload, Entries.get? a.fetched k = some payload → x.look m k = some payload
  expanded : ∀ (i : Nat) (node : Node), a.nodes[i]? = some node → i < b →
    depth a.nodes i < n ∧
    List.Forall₂ (Attached (x.look m) a.nodes) (x.edges a.nodes i) node.attachments ∧
    (kids node.attachments).Nodup
  waiting : ∀ (i : Nat) (node : Node), a.nodes[i]? = some node → b ≤ i →
    depth a.nodes i = n ∧ node.attachments = []
  child : ∀ (i : Nat) (node : Node) (p : Nat), a.nodes[i]? = some node → node.parent = some p →
    ∃ k, node.key = some k ∧ (x.look m k).isSome ∧ k ∉ ancestors a.nodes p
  root : ∀ (i : Nat) (raw : Document), docs[i]? = some raw →
    ∃ atts, a.nodes[i]? = some { Node.root raw with attachments := atts }

/-- The nodes that wait for their targets. -/
def frontierFrom (b : Nat) (a : Arena) : List Nat := List.range' b (a.nodes.size - b)

theorem nodup_frontierFrom (b : Nat) (a : Arena) : (frontierFrom b a).Nodup := List.nodup_range'

theorem mem_frontierFrom {b : Nat} {a : Arena} (h : b ≤ a.nodes.size) (i : Nat) :
    i ∈ frontierFrom b a ↔ b ≤ i ∧ i < a.nodes.size := by
  rw [frontierFrom, List.mem_range'_1, Nat.add_sub_cancel' h]

/-- The arena of the roots. -/
def rootArena : Arena := { nodes := (docs.map Node.root).toArray }

theorem frontierFrom_rootArena :
    frontierFrom 0 (rootArena docs) = List.range docs.length := by
  simp [frontierFrom, rootArena, List.range_eq_range']

theorem exists_root {i : Nat} {node : Node} (hi : (rootArena docs).nodes[i]? = some node) :
    ∃ raw, docs[i]? = some raw ∧ Node.root raw = node := by
  simpa [rootArena] using hi

theorem parentsFirst_rootArena : ParentsFirst (rootArena docs).nodes := by
  intro i node hi p hp
  obtain ⟨raw, -, rfl⟩ := exists_root docs hi
  cases hp

theorem staged_rootArena : Staged m x docs 0 0 (rootArena docs) := by
  refine ⟨parentsFirst_rootArena docs, Nat.zero_le _, ?_, ?_, ?_, ?_, ?_⟩
  · intro k payload hk
    cases hk
  · intro i node _ hi
    omega
  · intro i node hi _
    obtain ⟨raw, -, rfl⟩ := exists_root docs hi
    exact ⟨(parentsFirst_rootArena docs).depth_root hi rfl, rfl⟩
  · intro i node p hi hp
    obtain ⟨raw, -, rfl⟩ := exists_root docs hi
    cases hp
  · intro i raw hi
    refine ⟨[], ?_⟩
    simp only [rootArena, List.getElem?_toArray, List.getElem?_map, hi]
    rfl

section Step

variable {m x docs} {n b : Nat} {a : Arena}

/-- The owner of an edge of the frontier waits. -/
theorem owner_of_mem_frontier (h : Staged m x docs n b a) {e : Edge}
    (he : e ∈ (frontierFrom b a).flatMap (x.edges a.nodes)) :
    b ≤ e.owner ∧ e.owner < a.nodes.size := by
  obtain ⟨i, hi, he⟩ := List.mem_flatMap.mp he
  rw [(x.owner_of_mem_edges he).1]
  exact (mem_frontierFrom h.le_size i).mp hi

/-- A new node is the target of an edge for a key that closes no cycle. -/
theorem exists_edge_of_new {es : List Edge} {g : Growth} {fetched : List (Key × Document)}
    (hfound : ∀ e ∈ es, ∀ k ∈ e.keys, onPath a.nodes e.owner k = false →
      Entries.get? fetched k = x.look m k)
    (hg : Grown fetched a.nodes es g) {i : Nat} {node : Node} (hle : a.nodes.size ≤ i)
    (hi : g.nodes[i]? = some node) :
    ∃ e ∈ es, ∃ k payload, k ∉ ancestors a.nodes e.owner ∧ x.look m k = some payload ∧
      node = e.target k payload := by
  obtain ⟨e, he, k, hk, hchild⟩ := hg.new i node hle hi
  unfold Edge.child? at hchild
  split at hchild
  · cases hchild
  · rename_i hon
    rw [Bool.not_eq_true] at hon
    rw [hfound e he k hk hon] at hchild
    obtain ⟨payload, hlook, rfl⟩ := Option.map_eq_some_iff.mp hchild
    exact ⟨e, he, k, payload, onPath_eq_false_iff.mp hon, hlook, rfl⟩

/-- After a level every node that it has started from has all its targets. -/
theorem expanded_of_grown (h : Staged m x docs n b a) {g : Growth}
    {fetched : List (Key × Document)}
    (hfound : ∀ e ∈ (frontierFrom b a).flatMap (x.edges a.nodes), ∀ k ∈ e.keys,
      onPath a.nodes e.owner k = false → Entries.get? fetched k = x.look m k)
    (hg : Grown fetched a.nodes ((frontierFrom b a).flatMap (x.edges a.nodes)) g) {i : Nat}
    {node : Node} (hi : g.nodes[i]? = some node) (hlt : i < a.nodes.size) :
    depth g.nodes i < n + 1 ∧
      List.Forall₂ (Attached (x.look m) g.nodes) (x.edges g.nodes i) node.attachments ∧
      (kids node.attachments).Nodup := by
  have hgrows := hg.grows
  have hi' : a.nodes[i]? = some a.nodes[i] := Array.getElem?_eq_getElem hlt
  obtain ⟨atts, hatts, hall, hnodup, -⟩ := hg.old i _ hi'
  obtain rfl : _ = node := Option.some.inj (hatts.symm.trans hi)
  rw [hgrows.depth_eq h.parentsFirst hg.parentsFirst hlt, x.edges_eq_of_grows hgrows hlt]
  rw [x.filter_owner a.nodes (nodup_frontierFrom b a)] at hall
  simp only [mem_frontierFrom h.le_size] at hall
  by_cases hb : b ≤ i
  · -- a node of the frontier gets its targets now
    obtain ⟨hdepth, hempty⟩ := h.waiting i _ hi' hb
    rw [if_pos ⟨hb, hlt⟩] at hall
    rw [hempty, List.nil_append]
    refine ⟨by omega, Attached.forall₂_congr ?_ hall, hnodup⟩
    intro e he k hk hon
    have hmem : e ∈ (frontierFrom b a).flatMap (x.edges a.nodes) :=
      List.mem_flatMap.mpr ⟨i, (mem_frontierFrom h.le_size i).mpr ⟨hb, hlt⟩, he⟩
    have hlt' := (owner_of_mem_frontier h hmem).2
    rw [hgrows.onPath_eq h.parentsFirst hg.parentsFirst hlt'] at hon
    exact (hfound e hmem k hk hon).symm
  · -- an earlier node keeps the targets it has
    obtain ⟨hdepth, hall', hnodup'⟩ := h.expanded i _ hi' (by omega)
    rw [if_neg fun hmem => hb hmem.1] at hall
    obtain rfl := List.forall₂_nil_left_iff.mp hall
    rw [List.append_nil]
    refine ⟨by omega, Attached.forall₂_mono hgrows h.parentsFirst hg.parentsFirst ?_ hall',
      hnodup'⟩
    intro e he
    rw [(x.owner_of_mem_edges he).1]
    exact hlt

/-- What attaching the edges of a frontier makes of a staged arena. -/
theorem staged_of_grown (h : Staged m x docs n b a) {g : Growth}
    {fetched : List (Key × Document)}
    (known : ∀ k payload, Entries.get? fetched k = some payload → x.look m k = some payload)
    (hfound : ∀ e ∈ (frontierFrom b a).flatMap (x.edges a.nodes), ∀ k ∈ e.keys,
      onPath a.nodes e.owner k = false → Entries.get? fetched k = x.look m k)
    (hg : Grown fetched a.nodes ((frontierFrom b a).flatMap (x.edges a.nodes)) g) :
    Staged m x docs (n + 1) a.nodes.size { nodes := g.nodes, fetched } := by
  have hgrows := hg.grows
  have hold (i : Nat) (hi : i < a.nodes.size) :
      ∃ node, a.nodes[i]? = some node := ⟨_, Array.getElem?_eq_getElem hi⟩
  refine ⟨hg.parentsFirst, hg.size_le, known, ?_, ?_, ?_, ?_⟩
  · intro i node hi hlt
    exact expanded_of_grown h hfound hg hi hlt
  · -- a new node is one level below its owner
    intro i node hi hle
    obtain ⟨e, he, k, payload, -, -, rfl⟩ := exists_edge_of_new hfound hg hle hi
    obtain ⟨hb, hlt⟩ := owner_of_mem_frontier h he
    obtain ⟨owner, ho⟩ := hold _ hlt
    refine ⟨?_, rfl⟩
    rw [hg.parentsFirst.depth_child hi rfl, hgrows.depth_eq h.parentsFirst hg.parentsFirst hlt,
      (h.waiting _ _ ho hb).1]
  · intro i node p hi hp
    by_cases hlt : i < a.nodes.size
    · obtain ⟨old, hi'⟩ := hold i hlt
      obtain ⟨atts, hatts⟩ := hgrows i old hi'
      obtain rfl : _ = node := Option.some.inj (hatts.symm.trans hi)
      obtain ⟨k, hkey, hlook, hk⟩ := h.child i old p hi' hp
      have hpi := h.parentsFirst i old hi' p hp
      rw [← hgrows.ancestors_eq h.parentsFirst hg.parentsFirst (by omega)] at hk
      exact ⟨k, hkey, hlook, hk⟩
    · obtain ⟨e, he, k, payload, hk, hlook, rfl⟩ := exists_edge_of_new hfound hg (by omega) hi
      obtain rfl : e.owner = p := Option.some.inj hp
      have hlt' := (owner_of_mem_frontier h he).2
      rw [← hgrows.ancestors_eq h.parentsFirst hg.parentsFirst hlt'] at hk
      exact ⟨k, rfl, by simp [hlook], hk⟩
  · intro i raw hi
    obtain ⟨_, hroot⟩ := h.root i raw hi
    obtain ⟨atts, hroot'⟩ := hgrows i _ hroot
    exact ⟨atts, hroot'⟩

/-- One level, run against the store. -/
theorem staged_level [PatternLanguage] (hp : Projection.OnlyPayload x.projection)
    (h : Staged m x docs n b a) :
    ∃ a' calls log, m.run (x.level a (frontierFrom b a)) =
        { outcome := .ok (a', frontierFrom a.nodes.size a'), calls, log } ∧
      Staged m x docs (n + 1) a.nodes.size a' ∧ ∀ line ∈ log, ∃ k path, line = cycleNote k path := by
  have hg : Grown (fetchedAfter m x a ((frontierFrom b a).flatMap (x.edges a.nodes))) a.nodes
      ((frontierFrom b a).flatMap (x.edges a.nodes)) _ :=
    grown_foldl h.parentsFirst _ fun _ he => (owner_of_mem_frontier h he).2
  have hrun := run_level (m := m) (a := a) hp (frontierFrom b a)
  simp only [hg.next] at hrun
  refine ⟨_, _, _, hrun, ?_, hg.log⟩
  exact staged_of_grown h (fun _ _ => look_of_get?_fetchedAfter hp h.known _)
    (fun e he k hk hon => get?_fetchedAfter_of_mem hp h.known he hk hon) hg

/-- At most a number of levels, run against the store. -/
theorem staged_levels [PatternLanguage] (hp : Projection.OnlyPayload x.projection)
    (h : Staged m x docs n b a) (l : Nat) :
    ∃ n' b' a' calls log, m.run (x.levels l a (frontierFrom b a)) =
        { outcome := .ok (a', frontierFrom b' a'), calls, log } ∧
      Staged m x docs n' b' a' ∧ (∀ line ∈ log, ∃ k path, line = cycleNote k path) ∧
      n' ≤ n + l ∧ (frontierFrom b' a' = [] ∨ n' = n + l) := by
  induction l generalizing n b a with
  | zero => exact ⟨n, b, a, [], [], rfl, h, by simp, by simp, .inr rfl⟩
  | succ l ih =>
    by_cases hempty : frontierFrom b a = []
    · refine ⟨n, b, a, [], [], ?_, h, by simp, by omega, .inl hempty⟩
      simp [Expansion.levels, hempty]
    · obtain ⟨a₁, calls₁, log₁, hrun₁, h₁, hlog₁⟩ := staged_level hp h
      obtain ⟨n', b', a', calls, log, hrun, h', hlog, hle, hend⟩ := ih h₁
      refine ⟨n', b', a', calls₁ ++ calls, log₁ ++ log, ?_, h', ?_, by omega, ?_⟩
      · rw [x.levels_succ hempty, m.run_bind_of_ok hrun₁, hrun]
        rfl
      · intro line hline
        exact (List.mem_append.mp hline).elim (hlog₁ line) (hlog line)
      · exact hend.imp_right fun heq => by omega

end Step

end Reference

end ContentQuery
