/-
What the depth limit cuts off.

A run logs that it has stopped at its depth limit when documents wait behind the last level
that is allowed.  Which documents these are does not depend on arenas, batches and caches:

* `Expansion.Reaches` — the documents that stand a number of references below the roots;
* `get?_fetched_grow` — a level finds for the keys of its edges what lookups of them find;
* `layered_grow` — the frontier of each level is what stands at its depth;
* `depthNote_mem_iff` — so the note is logged if and only if some document stands at the
  limit, whether there is anything to expand in it or not;
* `depthNote_mem_iff_cutsOff_iff` — it tells of a truncation except where all documents at
  the limit are without eligible references.
-/
import ContentQuery.Pattern.Reading
import ContentQuery.Proofs.Hidden
import ContentQuery.Proofs.Occurrences

namespace ContentQuery.Reference

/-! ### Documents at a depth -/

namespace Expansion

variable (x : Expansion)

/-- The payload that a batch finds for a key: that of a lookup of the key alone, unless the
projection takes the keys of documents away. -/
def answered (m : MemoryStore) (k : Key) : Option Document :=
  if Projection.keepsKeys x.projection then x.look m k else none

/-- A payload stands a number of references below a root, with its key and those above it,
at a path. -/
inductive Reaches (look : Key → Option Document) (docs : List Document) :
    Nat → List Key → String → Document → Prop
  | root {raw : Document} : raw ∈ docs → Reaches look docs 0 (keyOf? raw).toList "" (payloadOf raw)
  | follow {n : Nat} {above : List Key} {path : String} {payload found : Document} {l : Location}
      {k : Key} : Reaches look docs n above path payload → x.Follows above path payload l k →
      look k = some found →
      Reaches look docs (n + 1) (k :: above) (Path.join path l.path)
        (Entries.insert found embeddedContentType (.string (publicUid k.contentType)))

/-- Some document stands at a depth. -/
def Occupied (look : Key → Option Document) (docs : List Document) (n : Nat) : Prop :=
  ∃ above path payload, x.Reaches look docs n above path payload

/-- Some document that stands at the depth limit holds an eligible descriptor. -/
def CutsOff (look : Key → Option Document) (docs : List Document) : Prop :=
  ∃ above path payload, x.Reaches look docs x.maxDepth above path payload ∧
    ∃ l ∈ scan payload, x.mode.eligible (Path.join path l.path) = true

variable {x}

theorem Occupied.of_add {look : Key → Option Document} {docs : List Document} {n k : Nat}
    (h : x.Occupied look docs (n + k)) : x.Occupied look docs n := by
  induction k with
  | zero => exact h
  | succ k ih =>
    obtain ⟨_, _, _, h⟩ := h
    cases h with
    | follow h _ _ => exact ih ⟨_, _, _, h⟩

/-- Where lookups find nothing, nothing stands below the roots. -/
theorem not_occupied_succ {look : Key → Option Document} {docs : List Document} {n : Nat}
    (hnone : ∀ k, look k = none) : ¬ x.Occupied look docs (n + 1) := by
  rintro ⟨_, _, _, h⟩
  cases h with
  | follow _ _ hfound => simp [hnone] at hfound

theorem mem_edges_iff {nodes : Array Node} {o : Nat} {node : Node} (ho : nodes[o]? = some node)
    {e : Edge} : e ∈ x.edges nodes o ↔ ∃ l ∈ scan node.payload,
      x.mode.eligible (Path.join node.path l.path) = true ∧
        e = ⟨o, l, Path.join node.path l.path, l.descriptor.keys (x.ownerLocale node)⟩ := by
  rw [edges, ho, List.mem_filterMap]
  refine exists_congr fun l => and_congr_right fun _ => ?_
  rw [edge?, Option.ite_none_right_eq_some, Option.some.injEq, eq_comm (a := e)]

end Expansion

/-! ### What a level finds -/

section Found

variable {m : MemoryStore} {x : Expansion}

/-- Under a projection that cannot be applied only a batch without documents succeeds, and
such a projection hides every document from a lookup. -/
theorem look_of_mixed (h : Projection.isMixed x.projection = true) (k : Key) :
    x.look m k = none := by
  unfold Expansion.look MemoryStore.payload?
  cases (m.documents x.collection).find? fun d => keyOf? d == some k with
  | none => rfl
  | some raw =>
    have hnone : projected? (some x.projection) raw = none := by
      rw [projected?, Projection.apply_of_mixed h]
      rfl
    simp [hnone]

theorem look_of_not_mixed (h : Projection.isMixed x.projection = false) (k : Key) :
    x.look m k = ((m.documents x.collection).find? fun d => keyOf? d == some k).map
      fun d => payloadOf (projectedOrSelf x.projection d) := by
  unfold Expansion.look MemoryStore.payload?
  cases (m.documents x.collection).find? fun d => keyOf? d == some k with
  | none => rfl
  | some raw =>
    obtain ⟨out, hout⟩ := Projection.exists_apply h raw
    simp [projected?, projectedOrSelf, hout, Except.toOption]

/-- A batch finds for each key that it asks for what a lookup of that key finds. -/
theorem get?_byKey_answer [PatternLanguage] {s : Start} {found : List Document}
    (h : x.answer m s = .ok found) (k : Key) : Entries.get? (byKey found) k =
      if (x.batch s).any fun p => p.names k then x.answered m k else none := by
  cases hmixed : Projection.isMixed x.projection with
  | true =>
    rw [MemoryStore.eq_nil_of_projectAll hmixed h, Expansion.answered, look_of_mixed hmixed,
      ite_self, ite_self]
    rfl
  | false =>
    rw [get?_byKey, MemoryStore.eq_map_of_projectAll h, find?_projectedOrSelf hmixed,
      Expansion.answered]
    by_cases hkeeps : Projection.keepsKeys x.projection = true
    · rw [if_pos hkeeps, if_pos hkeeps, find?_flatMap_matched, look_of_not_mixed hmixed]
      split
      · simp [Function.comp_def]
      · rfl
    · rw [if_neg hkeeps, if_neg hkeeps, ite_self]
      rfl

/-- All that is known has been found by lookups. -/
def Known (x : Expansion) (m : MemoryStore) (s : Start) : Prop :=
  ∀ k payload, Entries.get? s.arena.fetched k = some payload → x.answered m k = some payload

theorem get?_grow [PatternLanguage] {s : Start} {found : List Document}
    (h : x.answer m s = .ok found) (k : Key) :
    Entries.get? (x.grow s found).arena.fetched k =
      (if (x.batch s).any fun p => p.names k then x.answered m k else none).or
        (Entries.get? s.arena.fetched k) := by
  rw [Expansion.grow, Entries.get?_insertAll _ (nodup_keys_byKey _), get?_byKey_answer h]

theorem known_grow [PatternLanguage] {s : Start} {found : List Document} (hs : Known x m s)
    (h : x.answer m s = .ok found) : Known x m (x.grow s found) := by
  intro k payload hget
  rw [get?_grow h, Option.or_eq_some_iff] at hget
  rcases hget with hget | ⟨-, hget⟩
  · split at hget
    · exact hget
    · cases hget
  · exact hs k payload hget

/-- A level knows of each key that its frontier names what a lookup of it finds. -/
theorem get?_fetched_grow [PatternLanguage] {s : Start} {found : List Document} (hs : Known x m s)
    (h : x.answer m s = .ok found) {k : Key} (hk : s.Names x k) :
    Entries.get? (x.grow s found).arena.fetched k = x.answered m k := by
  rw [get?_grow h]
  cases hget : Entries.get? s.arena.fetched k with
  | some payload =>
    rw [hs k payload hget]
    split <;> rfl
  | none =>
    rw [if_pos (List.any_eq_true.mpr ((exists_names_batch x s k).mpr ⟨hk, hget⟩)), Option.or_none]

end Found

/-! ### Levels and depths -/

/-- A node shows a document with its key and those above it, at a path. -/
structure Shows (x : Expansion) (nodes : Array Node) (i : Nat) (above : List Key) (path : String)
    (payload : Document) : Prop where
  node : ∃ node, nodes[i]? = some node ∧ node.payload = payload ∧ node.path = path ∧
    x.ownerLocale node = (above.head?.map Key.locale).getD x.locale
  ancestors : ancestors nodes i = above

/-- The frontier of a level is what stands at a depth. -/
structure Layered (x : Expansion) (m : MemoryStore) (docs : List Document) (d : Nat) (s : Start) :
    Prop where
  ready : Ready s
  known : Known x m s
  reaches : ∀ i ∈ s.frontier, ∃ above path payload,
    x.Reaches (x.answered m) docs d above path payload ∧ Shows x s.arena.nodes i above path payload
  shown : ∀ above path payload, x.Reaches (x.answered m) docs d above path payload →
    ∃ i ∈ s.frontier, Shows x s.arena.nodes i above path payload

section Levels

variable {m : MemoryStore} {x : Expansion} {docs : List Document}

theorem Layered.frontier_ne_nil_iff {d : Nat} {s : Start} (h : Layered x m docs d s) :
    s.frontier ≠ [] ↔ x.Occupied (x.answered m) docs d := by
  constructor
  · intro hne
    obtain ⟨i, hi⟩ := List.exists_mem_of_ne_nil _ hne
    obtain ⟨above, path, payload, hreaches, -⟩ := h.reaches i hi
    exact ⟨above, path, payload, hreaches⟩
  · rintro ⟨above, path, payload, hreaches⟩
    obtain ⟨i, hi, -⟩ := h.shown above path payload hreaches
    exact List.ne_nil_of_mem hi

theorem layered_roots : Layered x m docs 0 ⟨rootArena docs, List.range docs.length⟩ := by
  have hroot {i : Nat} {raw : Document} (hi : docs[i]? = some raw) :
      Shows x (rootArena docs).nodes i (keyOf? raw).toList "" (payloadOf raw) := by
    have hnode : (rootArena docs).nodes[i]? = some (Node.root raw) := by simp [rootArena, hi]
    refine ⟨⟨_, hnode, rfl, rfl, ?_⟩, (parentsFirst_rootArena docs).ancestors_root hnode rfl⟩
    rw [Expansion.ownerLocale, Node.root]
    cases keyOf? raw <;> rfl
  have hknown : Known x m ⟨rootArena docs, List.range docs.length⟩ := by
    intro k payload hget
    cases hget
  refine ⟨ready_root docs, hknown, fun i hi => ?_, fun above path payload h => ?_⟩
  · have hlt : i < docs.length := List.mem_range.mp hi
    exact ⟨_, _, _, .root (List.getElem_mem hlt), hroot (List.getElem?_eq_getElem hlt)⟩
  · cases h with
    | root hraw =>
      obtain ⟨i, hi⟩ := List.mem_iff_getElem?.mp hraw
      obtain ⟨hlt, -⟩ := List.getElem?_eq_some_iff.mp hi
      exact ⟨i, List.mem_range.mpr hlt, hroot hi⟩

/-- Where nothing waits, nothing stands further down. -/
theorem Layered.of_frontier_eq_nil {d : Nat} {s : Start} (h : Layered x m docs d s)
    (hempty : s.frontier = []) (n : Nat) : Layered x m docs (d + n) s where
  ready := h.ready
  known := h.known
  reaches := by
    rw [hempty]
    exact nofun
  shown := fun above path payload hreaches =>
    absurd hempty (h.frontier_ne_nil_iff.mpr
      (Expansion.Occupied.of_add ⟨above, path, payload, hreaches⟩))

variable [PatternLanguage]

/-- A level that succeeds goes on with what stands one step below. -/
theorem layered_grow {d : Nat} {s : Start} (h : Layered x m docs d s) {found : List Document}
    (hfound : x.answer m s = .ok found) : Layered x m docs (d + 1) (x.grow s found) := by
  have hready := h.ready.grow (x := x) found
  -- a new node shows what its edge leads to
  have hshows {i : Nat} {e : Edge} {k : Key} {payload : Document} {atts : List Attachment}
      (ho : e.owner ∈ s.frontier)
      (hi : (x.grow s found).arena.nodes[i]? =
        some { e.target k payload with attachments := atts }) :
      Shows x (x.grow s found).arena.nodes i (k :: ancestors s.arena.nodes e.owner) e.path
        (Entries.insert payload embeddedContentType (.string (publicUid k.contentType))) := by
    refine ⟨⟨_, hi, rfl, rfl, rfl⟩, ?_⟩
    rw [hready.parentsFirst.ancestors_child hi rfl, (h.ready.grows found).ancestors_eq
      h.ready.parentsFirst hready.parentsFirst (h.ready.inRange _ ho)]
    rfl
  refine ⟨hready, known_grow h.known hfound, fun i hi => ?_, fun above path payload hreaches => ?_⟩
  · obtain ⟨o, ho, e, he, k, hk, hon, payload, hget, hnode⟩ := h.ready.exists_edge found hi
    obtain ⟨above, path, owner, hreaches, ⟨node, hown, rfl, rfl, hlocale⟩, rfl⟩ := h.reaches o ho
    rw [get?_fetched_grow h.known hfound ⟨o, ho, hon, e, he, hk⟩] at hget
    obtain ⟨l, hl, heligible, rfl⟩ := (Expansion.mem_edges_iff hown).mp he
    exact ⟨_, _, _, .follow hreaches ⟨hl, heligible, hlocale ▸ hk, hon⟩ hget, hshows ho hnode⟩
  · cases hreaches with
    | follow hreaches hfollows hlook =>
      obtain ⟨o, ho, ⟨node, hown, rfl, rfl, hlocale⟩, rfl⟩ := h.shown _ _ _ hreaches
      have he := (Expansion.mem_edges_iff hown).mpr ⟨_, hfollows.scanned, hfollows.eligible, rfl⟩
      have hk := hlocale.symm ▸ hfollows.named
      rw [← get?_fetched_grow h.known hfound ⟨o, ho, hfollows.fresh, _, he, hk⟩] at hlook
      obtain ⟨i, hi, atts, hnode⟩ := h.ready.exists_target found ho he hk hfollows.fresh hlook
      exact ⟨i, hi, hshows ho hnode⟩

theorem isMixed_of_answer_error {s : Start} {cause : StoreFault} (h : x.answer m s = .error cause) :
    Projection.isMixed x.projection = true := by
  rw [Expansion.answer, MemoryStore.projectAll_eq] at h
  split at h
  · rename_i hmixed
    exact hmixed.1
  · cases h

/-- Levels that succeed end at what stands as many steps further down, and where one fails
nothing stands there. -/
theorem layered_levels {d : Nat} {s : Start} (h : Layered x m docs d s) (n : Nat) :
    (∃ r, (m.run (x.levels n s.arena s.frontier)).outcome = .ok r ∧
      Layered x m docs (d + n) ⟨r.1, r.2⟩) ∨
    ∃ e, (m.run (x.levels n s.arena s.frontier)).outcome = .error e ∧
      ¬ x.Occupied (x.answered m) docs (d + n) := by
  induction n generalizing d s with
  | zero => exact .inl ⟨_, rfl, h⟩
  | succ n ih =>
    by_cases hempty : s.frontier = []
    · refine .inl ⟨(s.arena, s.frontier), ?_, h.of_frontier_eq_nil hempty (n + 1)⟩
      rw [hempty]
      rfl
    · rw [x.levels_succ hempty, m.outcome_bind, x.outcome_level]
      cases hanswer : x.answer m s with
      | error cause =>
        refine .inr ⟨_, rfl, Expansion.not_occupied_succ fun k => ?_⟩
        rw [Expansion.answered, look_of_mixed (isMixed_of_answer_error hanswer), ite_self]
      | ok found =>
        have hrest := ih (layered_grow h hanswer)
        rw [Nat.add_assoc, Nat.add_comm 1] at hrest
        exact hrest

/-- The levels of a run up to its depth limit. -/
theorem layered_at_limit (m : MemoryStore) (x : Expansion) (docs : List Document) :
    (∃ r, (m.run (x.levels x.maxDepth (rootArena docs) (frontierFrom 0 (rootArena docs)))).outcome =
        .ok r ∧ Layered x m docs x.maxDepth ⟨r.1, r.2⟩) ∨
    ∃ e, (m.run (x.levels x.maxDepth (rootArena docs) (frontierFrom 0 (rootArena docs)))).outcome =
        .error e ∧ ¬ x.Occupied (x.answered m) docs x.maxDepth := by
  have hroots : Layered x m docs 0 ⟨rootArena docs, List.range docs.length⟩ := layered_roots
  have h := layered_levels hroots x.maxDepth
  rw [Nat.zero_add] at h
  rw [frontierFrom_rootArena]
  exact h

/-! ### The log -/

/-- A level logs nothing but the cycles that it ends. -/
theorem eq_cycleNote_of_mem_level {s : Start} (hs : Ready s) {line : LogLine}
    (h : line ∈ (m.run (x.level s.arena s.frontier)).log) : ∃ k path, line = cycleNote k path := by
  rcases (m.mem_log_bind _ _ _).mp h with hmem | ⟨found, -, hmem⟩
  · rw [run_fetch] at hmem
    cases hmem
  · rcases (m.mem_log_bind _ _ _).mp hmem with hmem | ⟨_, -, hmem⟩
    · rw [m.run_notes] at hmem
      exact (grown_foldl hs.parentsFirst _ fun e he =>
        hs.inRange _ (owner_mem_frontier he).1).log line hmem
    · cases hmem

theorem eq_cycleNote_of_mem_levels {s : Start} (hs : Ready s) {n : Nat} {line : LogLine}
    (h : line ∈ (m.run (x.levels n s.arena s.frontier)).log) :
    ∃ k path, line = cycleNote k path := by
  induction n generalizing s with
  | zero => cases h
  | succ n ih =>
    by_cases hempty : s.frontier = []
    · rw [hempty, Expansion.levels, List.isEmpty_nil, if_pos rfl] at h
      cases h
    · rw [x.levels_succ hempty] at h
      rcases (m.mem_log_bind _ _ _).mp h with hmem | ⟨r, hr, hmem⟩
      · exact eq_cycleNote_of_mem_level hs hmem
      · rw [x.outcome_level] at hr
        cases hanswer : x.answer m s with
        | error cause =>
          rw [hanswer] at hr
          cases hr
        | ok found =>
          rw [hanswer] at hr
          obtain rfl := Except.ok.inj hr
          exact ih (hs.grow found) hmem

/-- The note is logged if and only if some document stands at the depth limit. -/
theorem depthNote_mem_iff (hmode : x.mode ≠ .none) (docs : List Document) :
    depthNote x.maxDepth ∈ (m.run (x.resolve docs)).log ↔
      x.Occupied (x.answered m) docs x.maxDepth := by
  have hlog : depthNote x.maxDepth ∉
      (m.run (x.levels x.maxDepth (rootArena docs) (frontierFrom 0 (rootArena docs)))).log := by
    rw [frontierFrom_rootArena]
    intro hmem
    obtain ⟨k, path, heq⟩ := eq_cycleNote_of_mem_levels (ready_root docs) hmem
    exact depthNote_ne_cycleNote _ k path heq
  rw [resolve_eq_bind hmode, m.mem_log_bind, or_iff_right hlog]
  rcases layered_at_limit m x docs with ⟨r, hr, hlayered⟩ | ⟨e, he, hnone⟩
  · rw [← hlayered.frontier_ne_nil_iff, hr]
    simp only [Except.ok.injEq, exists_eq_left', m.run_bind_of_ok (m.run_notes _), Plan.log_after]
    by_cases hempty : r.2 = [] <;> simp [hempty]
  · rw [he]
    exact iff_of_false nofun hnone

/-! ### Further levels -/

theorem outcome_levels_add (n k : Nat) (s : Start) :
    (m.run (x.levels (n + k) s.arena s.frontier)).outcome =
      (m.run (x.levels n s.arena s.frontier)).outcome.bind fun r =>
        (m.run (x.levels k r.1 r.2)).outcome := by
  induction n generalizing s with
  | zero =>
    rw [Nat.zero_add]
    rfl
  | succ n ih =>
    rw [Nat.add_right_comm]
    by_cases hempty : s.frontier = []
    · rw [hempty, x.levels_nil, x.levels_nil]
      exact (congrArg (fun p => (m.run p).outcome) (x.levels_nil k s.arena)).symm
    · rw [x.levels_succ hempty, x.levels_succ hempty, m.outcome_bind, m.outcome_bind,
        x.outcome_level]
      cases x.answer m s with
      | error cause => rfl
      | ok found => exact ih (x.grow s found)

/-- Levels that have nothing to expand leave the nodes as they are. -/
theorem outcome_levels_of_no_edges {s : Start}
    (hnone : ∀ i ∈ s.frontier, x.edges s.arena.nodes i = []) (k : Nat) :
    ∃ r, (m.run (x.levels k s.arena s.frontier)).outcome = .ok r ∧ r.1.nodes = s.arena.nodes := by
  by_cases hempty : s.frontier = []
  · refine ⟨(s.arena, []), ?_, rfl⟩
    rw [hempty, x.levels_nil]
    rfl
  cases k with
  | zero => exact ⟨_, rfl, rfl⟩
  | succ k =>
    have hedges : s.frontier.flatMap (x.edges s.arena.nodes) = [] :=
      List.flatMap_eq_nil_iff.mpr hnone
    have hbatch : x.batch s = [] := by
      rw [Expansion.batch, hedges]
      rfl
    have hanswer : x.answer m s = .ok [] := by
      rw [Expansion.answer, hbatch]
      rfl
    have hgrow : x.grow s [] = ⟨s.arena, []⟩ := by
      rw [Expansion.grow, hedges]
      rfl
    refine ⟨(s.arena, []), ?_, rfl⟩
    rw [x.levels_succ hempty, m.outcome_bind, x.outcome_level, hanswer]
    show (m.run (x.levels k (x.grow s []).arena (x.grow s []).frontier)).outcome = _
    simp only [hgrow, x.levels_nil]
    rfl

/-- When nothing is cut off, more levels would make no difference. -/
theorem outcome_resolve_of_not_cutsOff (hmode : x.mode ≠ .none)
    (h : ¬ x.CutsOff (x.answered m) docs) (k : Nat) :
    (m.run ({ x with maxDepth := x.maxDepth + k }.resolve docs)).outcome =
      (m.run (x.resolve docs)).outcome := by
  have hfinish (d : Nat) (r : Arena × List Nat) :
      (m.run ((Plan.notes (if r.2.isEmpty then [] else [depthNote d])).bind fun _ =>
        pure (assemble r.1.nodes docs.length))).outcome = .ok (assemble r.1.nodes docs.length) := by
    rw [m.run_bind_of_ok (m.run_notes _)]
    rfl
  rw [resolve_eq_bind hmode, resolve_eq_bind (x := { x with maxDepth := x.maxDepth + k }) hmode,
    m.outcome_bind, m.outcome_bind, levels_withDepth,
    outcome_levels_add x.maxDepth k ⟨rootArena docs, frontierFrom 0 (rootArena docs)⟩]
  simp only [hfinish]
  rcases layered_at_limit m x docs with ⟨r, hr, hlayered⟩ | ⟨e, he, -⟩
  · -- no document that waits has anything to expand
    have hnone : ∀ i ∈ r.2, x.edges r.1.nodes i = [] := by
      intro i hi
      obtain ⟨above, path, payload, hreaches, ⟨node, hnode, rfl, rfl, -⟩, -⟩ :=
        hlayered.reaches i hi
      refine List.eq_nil_iff_forall_not_mem.mpr fun e he => ?_
      obtain ⟨l, hl, heligible, -⟩ := (Expansion.mem_edges_iff hnode).mp he
      exact h ⟨above, _, _, hreaches, l, hl, heligible⟩
    obtain ⟨r', hr', hnodes⟩ := outcome_levels_of_no_edges (m := m) (s := ⟨r.1, r.2⟩) hnone k
    rw [hr]
    show ((m.run (x.levels k r.1 r.2)).outcome.bind _) = .ok (assemble r.1.nodes docs.length)
    rw [hr']
    exact congrArg (fun nodes => Except.ok (assemble nodes docs.length)) hnodes
  · rw [he]
    rfl

end Levels

/-- The note tells that documents stand at the depth limit.  So it is logged whenever
references are cut off there, and besides that exactly when none of those documents holds
an eligible descriptor; any larger limit then has the same outcome. -/
theorem depthNote_mem_iff_cutsOff_iff [PatternLanguage] (m : MemoryStore) (x : Expansion)
    (docs : List Document) (hmode : x.mode ≠ .none) :
    let noted := depthNote x.maxDepth ∈ (m.run (x.resolve docs)).log
    (noted ↔ x.Occupied (x.answered m) docs x.maxDepth) ∧
      (x.CutsOff (x.answered m) docs → noted) ∧
      ((noted ↔ x.CutsOff (x.answered m) docs) ↔
        (x.Occupied (x.answered m) docs x.maxDepth → x.CutsOff (x.answered m) docs)) ∧
      (¬ x.CutsOff (x.answered m) docs → ∀ k,
        (m.run ({ x with maxDepth := x.maxDepth + k }.resolve docs)).outcome =
          (m.run (x.resolve docs)).outcome) := by
  intro noted
  have hnoted : noted ↔ x.Occupied (x.answered m) docs x.maxDepth := depthNote_mem_iff hmode docs
  have hcut : x.CutsOff (x.answered m) docs → x.Occupied (x.answered m) docs x.maxDepth := by
    rintro ⟨above, path, payload, hreaches, -⟩
    exact ⟨above, path, payload, hreaches⟩
  refine ⟨hnoted, fun h => hnoted.mpr (hcut h), ?_, outcome_resolve_of_not_cutsOff hmode⟩
  rw [hnoted]
  exact ⟨Iff.mp, fun h => ⟨h, hcut⟩⟩

/-- A page without references. -/
def lastPage : Document := StoredDocument.toDocument ⟨⟨"page", "en", "b"⟩, [("draft", .null)]⟩

/-- A page that names another one, and the limit that lets only that one be embedded. -/
def onePageDeep : Expansion := { pagePairExpansion with maxDepth := 1 }

open scoped Pattern in
/-- Where the two pages name each other, the reference of the second one is cut off. -/
theorem depthNote_mem_pagePair :
    onePageDeep.mode ≠ .none ∧
      depthNote 1 ∈ (pagePair.run (onePageDeep.resolve [linkedPage "a" "b"])).log ∧
      onePageDeep.Occupied (onePageDeep.answered pagePair) [linkedPage "a" "b"] 1 := by
  have hmode : onePageDeep.mode ≠ .none := by decide
  have hmem : depthNote 1 ∈ (pagePair.run (onePageDeep.resolve [linkedPage "a" "b"])).log :=
    List.mem_singleton.mpr rfl
  obtain ⟨hnoted, -⟩ :=
    depthNote_mem_iff_cutsOff_iff pagePair onePageDeep [linkedPage "a" "b"] hmode
  exact ⟨hmode, hmem, hnoted.mp hmem⟩

/-- A store whose only page is without references. -/
def lastPageOnly : MemoryStore where
  collections := [("pages", [lastPage])]

open scoped Pattern in
/-- The page that is named has nothing to expand, and the limit is noted. -/
theorem depthNote_mem_lastPage :
    onePageDeep.mode ≠ .none ∧
      ¬ (depthNote 1 ∈ (lastPageOnly.run (onePageDeep.resolve [linkedPage "a" "b"])).log ↔
        onePageDeep.CutsOff (onePageDeep.answered lastPageOnly) [linkedPage "a" "b"]) := by
  have hmem : depthNote 1 ∈ (lastPageOnly.run (onePageDeep.resolve [linkedPage "a" "b"])).log :=
    List.mem_singleton.mpr rfl
  refine ⟨by decide, fun h => ?_⟩
  obtain ⟨above, path, payload, hreaches, l, hl, -⟩ := h.mp hmem
  -- the only document at the limit is the page that the first one names
  cases hreaches with
  | follow hroot hfollows hfound =>
    cases hroot with
    | root hraw =>
      obtain rfl := List.mem_singleton.mp hraw
      obtain rfl := List.mem_singleton.mp hfollows.scanned
      obtain rfl := List.mem_singleton.mp hfollows.named
      obtain rfl := Option.some.inj hfound
      cases hl

end ContentQuery.Reference
