/-
What the levels of an expansion build, whatever a store answers.

Nodes come in as targets of edges, each behind its owner and once.  A level adds nodes and
attachments, and changes nothing that is there:

* `Completed` — an arena behind some levels of a run;
* `Built`, `built_grow` — what holds between two levels, and is kept by the next one;
* `place_unique` — a node of which no owner has a second one stands in one place;
* `sound_of_completed` — so the nodes make up trees, of distinct keys on every way up, with
  attachments at descriptors of their payloads, and the sweep takes each payload once.
-/
import ContentQuery.Proofs.AnyStore
import ContentQuery.Proofs.Requests
import ContentQuery.Proofs.Sweep

namespace ContentQuery.Reference

/-! ### Levels that succeed -/

/-- What some levels of a run have come to.  The store may have been asked any number of
times before each of them. -/
inductive Completed (x : Expansion) (s : Store) (docs : List Document) : Nat → Start → Prop
  | roots : Completed x s docs 0 ⟨rootArena docs, List.range docs.length⟩
  | level {l n : Nat} {t : Start} {a : Arena} {next : List Nat} : Completed x s docs l t →
      l < x.maxDepth → ((x.level t.arena t.frontier).run s n).outcome = .ok (a, next) →
      Completed x s docs (l + 1) ⟨a, next⟩

/-- A run of some levels goes on with levels that are completed. -/
theorem completed_of_levels {x : Expansion} {s : Store} {docs : List Document} {l k n : Nat}
    {t : Start} (h : Completed x s docs l t) (hle : l + k ≤ x.maxDepth) {a : Arena}
    {next : List Nat} (hrun : ((x.levels k t.arena t.frontier).run s n).outcome = .ok (a, next)) :
    ∃ l', Completed x s docs l' ⟨a, next⟩ := by
  induction k generalizing l n t with
  | zero =>
    obtain ⟨rfl, rfl⟩ := Prod.mk.inj (Except.ok.inj hrun)
    exact ⟨l, h⟩
  | succ k ih =>
    by_cases hempty : t.frontier = []
    · have hdone : x.levels (k + 1) t.arena t.frontier = pure (t.arena, t.frontier) := by
        simp [Expansion.levels, hempty]
      rw [hdone] at hrun
      obtain ⟨rfl, rfl⟩ := Prod.mk.inj (Except.ok.inj hrun)
      exact ⟨l, h⟩
    · rw [x.levels_succ hempty] at hrun
      obtain ⟨⟨a', next'⟩, n', hlevel, hrest⟩ := Plan.exists_of_run_bind_ok s hrun
      exact ih (h.level (by omega) hlevel) (by omega) hrest

/-! ### Between two levels -/

/-- The steps to the descriptors of some edges. -/
def segmentsOf (es : List Edge) : List (List Segment) := es.map fun e => e.location.segments

/-- The edges of a node are some of the locations of its payload, in order. -/
theorem segmentsOf_sublist (x : Expansion) (i : Nat) (node : Node) (ls : List Location) :
    (segmentsOf (ls.filterMap (x.edge? i node))).Sublist (ls.map Location.segments) := by
  induction ls with
  | nil => exact .slnil
  | cons l rest ih =>
    cases hedge : x.edge? i node l with
    | none =>
      rw [List.filterMap_cons_none hedge]
      exact ih.cons _
    | some e =>
      have hlocation : e.location = l := by
        rw [Expansion.edge?, Option.ite_none_right_eq_some] at hedge
        obtain ⟨-, heq⟩ := hedge
        rw [← Option.some.inj heq]
      rw [List.filterMap_cons_some hedge, segmentsOf, List.map_cons, List.map_cons, hlocation]
      exact ih.cons_cons _

/-- What holds of an arena behind `l` levels. -/
structure Built (x : Expansion) (docs : List Document) (l : Nat) (t : Start) : Prop where
  ready : Ready t
  nodup : t.frontier.Nodup
  size : docs.length ≤ t.arena.nodes.size
  root : ∀ (i : Nat) (node : Node), t.arena.nodes[i]? = some node →
    (node.parent = none ↔ i < docs.length)
  distinct : ∀ i < t.arena.nodes.size, (ancestors t.arena.nodes i).Nodup
  depth_le : ∀ i < t.arena.nodes.size, depth t.arena.nodes i ≤ l
  forest : Forest t.arena.nodes
  covered : Covered t.arena.nodes
  waiting : ∀ (i : Nat) (node : Node), t.arena.nodes[i]? = some node → i ∈ t.frontier →
    node.attachments = []
  places : ∀ (i : Nat) (node : Node), t.arena.nodes[i]? = some node → node.attachments = [] ∨
    node.attachments.map Attachment.segments = segmentsOf (x.edges t.arena.nodes i)
  document : ∀ (i : Nat) (node : Node), t.arena.nodes[i]? = some node →
    Document.wellFormed node.payload = true
  fetched : ∀ k payload, Entries.get? t.arena.fetched k = some payload →
    Document.wellFormed payload = true

theorem kids_append (atts atts' : List Attachment) :
    kids (atts ++ atts') = kids atts ++ kids atts' :=
  List.flatMap_append

variable {x : Expansion} {docs : List Document}

theorem built_roots (hdocs : ∀ d ∈ docs, Document.wellFormed d = true) :
    Built x docs 0 ⟨rootArena docs, List.range docs.length⟩ := by
  have hfirst := parentsFirst_rootArena docs
  have hroot {i : Nat} {node : Node} (hi : (rootArena docs).nodes[i]? = some node) :
      node.parent = none ∧ node.attachments = [] := by
    obtain ⟨raw, -, rfl⟩ := exists_root docs hi
    exact ⟨rfl, rfl⟩
  have hnode {i : Nat} (hi : i < (rootArena docs).nodes.size) :=
    Array.getElem?_eq_getElem hi
  have hsize : (rootArena docs).nodes.size = docs.length := by simp [rootArena]
  constructor
  case ready => exact ready_root docs
  case nodup => exact List.nodup_range
  case size => exact hsize.ge
  case root =>
    intro i node hi
    obtain ⟨hlt, -⟩ := Array.getElem?_eq_some_iff.mp hi
    exact iff_of_true (hroot hi).1 (hsize ▸ hlt)
  case distinct =>
    intro i hi
    rw [hfirst.ancestors_root (hnode hi) (hroot (hnode hi)).1]
    cases ((rootArena docs).nodes[i]).key <;> simp
  case depth_le =>
    intro i hi
    exact (hfirst.depth_root (hnode hi) (hroot (hnode hi)).1).le
  case forest =>
    intro i node hi
    rw [(hroot hi).2]
    exact ⟨.nil, fun j hj => absurd hj List.not_mem_nil⟩
  case covered =>
    intro i node p hi hp
    rw [(hroot hi).1] at hp
    cases hp
  case waiting => exact fun i node hi _ => (hroot hi).2
  case places => exact fun i node hi => .inl (hroot hi).2
  case document =>
    intro i node hi
    obtain ⟨raw, hraw, rfl⟩ := exists_root docs hi
    exact wellFormed_payloadOf (hdocs raw (List.mem_of_getElem? hraw))
  case fetched =>
    intro k payload hget
    cases hget

namespace Built

variable {l : Nat} {t : Start} (h : Built x docs l t) (found : List Document)
include h

/-- A node that was there before a level, and what the level has given it. -/
theorem old {i : Nat} (hi : i < t.arena.nodes.size) :
    ∃ atts, (x.grow t found).arena.nodes[i]? =
        some { t.arena.nodes[i] with attachments := t.arena.nodes[i].attachments ++ atts } ∧
      (kids atts).Nodup ∧
      (∀ j ∈ kids atts, t.arena.nodes.size ≤ j ∧ ∃ child,
        (x.grow t found).arena.nodes[j]? = some child ∧ child.parent = some i) ∧
      atts.map Attachment.segments =
        if i ∈ t.frontier then segmentsOf (x.edges t.arena.nodes i) else [] := by
  obtain ⟨g, hg, hnodes, -⟩ := h.ready.grown (x := x) found
  obtain ⟨atts, hatts, hall, hnodup, hge⟩ := hg.old i _ (Array.getElem?_eq_getElem hi)
  rw [hnodes] at hatts hall
  refine ⟨atts, hatts, hnodup, fun j hj => ⟨hge j hj, ?_⟩, ?_⟩
  · obtain ⟨e, he, child, hchild, hp⟩ := Attached.forall₂_parent_eq hall j hj
    obtain rfl : e.owner = i := by simpa using (List.mem_filter.mp he).2
    exact ⟨child, hchild, hp⟩
  · rw [x.filter_owner t.arena.nodes h.nodup i] at hall
    have hsegments : ∀ (es : List Edge) (atts : List Attachment),
        List.Forall₂ (Attached (Entries.get? (x.grow t found).arena.fetched)
          (x.grow t found).arena.nodes) es atts →
        atts.map Attachment.segments = segmentsOf es := by
      intro es atts hes
      induction hes with
      | nil => rfl
      | cons hatt _ ih =>
        rw [List.map_cons, ih, hatt.segments, segmentsOf, segmentsOf, List.map_cons]
    rw [hsegments _ _ hall]
    split <;> rfl

/-- A node that a level has added is the target of an edge of its frontier, for a key that
is not on the way to the owner. -/
theorem new {i : Nat} (hle : t.arena.nodes.size ≤ i) {node : Node}
    (hi : (x.grow t found).arena.nodes[i]? = some node) :
    ∃ (e : Edge) (k : Key) (payload : Document), e.owner < t.arena.nodes.size ∧
      k ∉ ancestors t.arena.nodes e.owner ∧
      Entries.get? (x.grow t found).arena.fetched k = some payload ∧ node = e.target k payload := by
  obtain ⟨hlt, -⟩ := Array.getElem?_eq_some_iff.mp hi
  obtain ⟨o, ho, e, he, k, -, hk, payload, hget, hnode⟩ :=
    h.ready.exists_edge found ((h.ready.mem_frontier_grow found i).mpr ⟨hle, hlt⟩)
  obtain ⟨rfl, hown⟩ := x.owner_of_mem_edges he
  exact ⟨e, k, payload, hown, hk, hget, Option.some.inj (hi.symm.trans hnode)⟩

/-- Whether a node is old or new, said of any node of the grown arena. -/
theorem old_or_new {i : Nat} {node : Node}
    (hi : (x.grow t found).arena.nodes[i]? = some node) :
    (∃ (hlt : i < t.arena.nodes.size) (atts : List Attachment),
      node = { t.arena.nodes[i] with attachments := t.arena.nodes[i].attachments ++ atts }) ∨
    t.arena.nodes.size ≤ i := by
  by_cases hlt : i < t.arena.nodes.size
  · obtain ⟨atts, hatts, -⟩ := h.old found hlt
    exact .inl ⟨hlt, atts, Option.some.inj (hi.symm.trans hatts)⟩
  · exact .inr (Nat.not_lt.mp hlt)

theorem forest_grow : Forest (x.grow t found).arena.nodes := by
  intro i node hi
  by_cases hlt : i < t.arena.nodes.size
  · have hold := Array.getElem?_eq_getElem hlt
    obtain ⟨atts, hatts, hnodup, hnew, -⟩ := h.old found hlt
    obtain ⟨hnodup', hkids⟩ := h.forest i _ hold
    obtain rfl := Option.some.inj (hi.symm.trans hatts)
    rw [kids_append]
    refine ⟨List.nodup_append.mpr ⟨hnodup', hnodup, fun j hj j' hj' => ?_⟩, fun j hj => ?_⟩
    · -- the targets of earlier levels stand in front of those of this one
      obtain ⟨child, hchild, -⟩ := hkids j hj
      obtain ⟨hlt', -⟩ := Array.getElem?_eq_some_iff.mp hchild
      have := (hnew j' hj').1
      omega
    · rcases List.mem_append.mp hj with hj | hj
      · obtain ⟨child, hchild, hp⟩ := hkids j hj
        obtain ⟨_, hchild'⟩ := h.ready.grows (x := x) found j child hchild
        exact ⟨_, hchild', hp⟩
      · exact (hnew j hj).2
  · obtain ⟨e, k, payload, -, -, -, rfl⟩ := h.new found (Nat.not_lt.mp hlt) hi
    exact ⟨.nil, fun j hj => absurd hj List.not_mem_nil⟩

theorem covered_grow : Covered (x.grow t found).arena.nodes := by
  intro i node p hi hp
  by_cases hlt : i < t.arena.nodes.size
  · -- what was a target of an old owner is one still
    obtain ⟨atts, hatts, -⟩ := h.old found hlt
    obtain rfl := Option.some.inj (hi.symm.trans hatts)
    obtain ⟨owner, howner, hmem⟩ := h.covered i _ p (Array.getElem?_eq_getElem hlt) hp
    obtain ⟨hp', rfl⟩ := Array.getElem?_eq_some_iff.mp howner
    obtain ⟨atts', hatts', -⟩ := h.old found hp'
    refine ⟨_, hatts', ?_⟩
    rw [kids_append]
    exact List.mem_append_left _ hmem
  · obtain ⟨hlt', -⟩ := Array.getElem?_eq_some_iff.mp hi
    obtain ⟨g, hg, hnodes, -⟩ := h.ready.grown (x := x) found
    rw [← hnodes] at hlt'
    obtain ⟨o, owner, howner, hmem⟩ := hg.placed i (Nat.not_lt.mp hlt) hlt'
    rw [hnodes] at howner
    obtain ⟨child, hchild, hparent⟩ := (h.forest_grow found o owner howner).2 i hmem
    obtain rfl := Option.some.inj (hi.symm.trans hchild)
    obtain rfl : o = p := Option.some.inj (hparent.symm.trans hp)
    exact ⟨owner, howner, hmem⟩

/-- A new node adds a key to the way up from its owner, which did not have it. -/
theorem distinct_grow {i : Nat} (hi : i < (x.grow t found).arena.nodes.size) :
    (ancestors (x.grow t found).arena.nodes i).Nodup := by
  have hgrows := h.ready.grows (x := x) found
  have hfirst := (h.ready.grow (x := x) found).parentsFirst
  have hnode := Array.getElem?_eq_getElem hi
  rcases h.old_or_new found hnode with ⟨hlt, -⟩ | hle
  · rw [hgrows.ancestors_eq h.ready.parentsFirst hfirst hlt]
    exact h.distinct i hlt
  · obtain ⟨e, k, payload, ho, hk, -, heq⟩ := h.new found hle hnode
    rw [hfirst.ancestors_child hnode (by rw [heq]; rfl), heq,
      hgrows.ancestors_eq h.ready.parentsFirst hfirst ho]
    exact List.nodup_cons.mpr ⟨hk, h.distinct _ ho⟩

theorem depth_grow_le {i : Nat} (hi : i < (x.grow t found).arena.nodes.size) :
    depth (x.grow t found).arena.nodes i ≤ l + 1 := by
  have hgrows := h.ready.grows (x := x) found
  have hfirst := (h.ready.grow (x := x) found).parentsFirst
  have hnode := Array.getElem?_eq_getElem hi
  rcases h.old_or_new found hnode with ⟨hlt, -⟩ | hle
  · rw [hgrows.depth_eq h.ready.parentsFirst hfirst hlt]
    exact (h.depth_le i hlt).trans (Nat.le_succ l)
  · obtain ⟨e, k, payload, ho, -, -, heq⟩ := h.new found hle hnode
    rw [hfirst.depth_child hnode (by rw [heq]; rfl),
      hgrows.depth_eq h.ready.parentsFirst hfirst ho]
    exact Nat.succ_le_succ (h.depth_le _ ho)

/-- A node of the frontier gets its attachments in one level, and no other node gets any. -/
theorem places_grow {i : Nat} {node : Node}
    (hi : (x.grow t found).arena.nodes[i]? = some node) : node.attachments = [] ∨
      node.attachments.map Attachment.segments =
        segmentsOf (x.edges (x.grow t found).arena.nodes i) := by
  by_cases hlt : i < t.arena.nodes.size
  · have hold := Array.getElem?_eq_getElem hlt
    obtain ⟨atts, hatts, -, -, hsegments⟩ := h.old found hlt
    obtain rfl := Option.some.inj (hi.symm.trans hatts)
    rw [x.edges_eq_of_grows (h.ready.grows found) hlt, List.map_append, hsegments]
    by_cases hmem : i ∈ t.frontier
    · rw [if_pos hmem, h.waiting i _ hold hmem]
      exact .inr rfl
    · rw [if_neg hmem] at hsegments ⊢
      rw [List.map_eq_nil_iff.mp hsegments, List.append_nil, List.append_nil]
      exact h.places i _ hold
  · obtain ⟨e, k, payload, -, -, -, rfl⟩ := h.new found (Nat.not_lt.mp hlt) hi
    exact .inl rfl

end Built

/-- A level that has found documents keeps what holds between levels. -/
theorem built_grow {l : Nat} {t : Start} (h : Built x docs l t) {found : List Document}
    (hfound : ∀ d ∈ found, Document.wellFormed d = true) :
    Built x docs (l + 1) (x.grow t found) := by
  have hfetched : ∀ k payload, Entries.get? (x.grow t found).arena.fetched k = some payload →
      Document.wellFormed payload = true := by
    intro k payload hget
    rw [Expansion.grow, Entries.get?_insertAll _ (nodup_keys_byKey _),
      Option.or_eq_some_iff] at hget
    rcases hget with hget | ⟨-, hget⟩
    · exact wellFormed_of_get?_byKey hfound hget
    · exact h.fetched k payload hget
  constructor
  case ready => exact h.ready.grow found
  case nodup =>
    obtain ⟨g, hg, -, hnext⟩ := h.ready.grown (x := x) found
    rw [← hnext, hg.next]
    exact List.nodup_range'
  case size => exact h.size.trans (h.ready.grows found).size_le
  case root =>
    intro i node hi
    rcases h.old_or_new found hi with ⟨hlt, atts, rfl⟩ | hle
    · exact h.root i t.arena.nodes[i] (Array.getElem?_eq_getElem hlt)
    · obtain ⟨e, k, payload, -, -, -, rfl⟩ := h.new found hle hi
      exact iff_of_false (Option.some_ne_none _) (by have := h.size; omega)
  case distinct => exact fun _ hi => h.distinct_grow found hi
  case depth_le => exact fun _ hi => h.depth_grow_le found hi
  case forest => exact h.forest_grow found
  case covered => exact h.covered_grow found
  case waiting =>
    intro i node hi hmem
    obtain ⟨hle, -⟩ := (h.ready.mem_frontier_grow found i).mp hmem
    obtain ⟨e, k, payload, -, -, -, rfl⟩ := h.new found hle hi
    rfl
  case places => exact fun _ _ hi => h.places_grow found hi
  case document =>
    intro i node hi
    rcases h.old_or_new found hi with ⟨hlt, atts, rfl⟩ | hle
    · exact h.document i t.arena.nodes[i] (Array.getElem?_eq_getElem hlt)
    · obtain ⟨e, k, payload, -, -, hget, rfl⟩ := h.new found hle hi
      exact Document.wellFormed_insert_string (hfetched k payload hget) _ _
  case fetched => exact hfetched

/-- What holds behind every level of a run. -/
theorem built_of_completed {s : Store} (hs : s.AnswersDocuments)
    (hdocs : ∀ d ∈ docs, Document.wellFormed d = true) {l : Nat} {t : Start}
    (h : Completed x s docs l t) : Built x docs l t ∧ l ≤ x.maxDepth := by
  induction h with
  | roots => exact ⟨built_roots hdocs, Nat.zero_le _⟩
  | level _ hlt hlevel ih =>
    obtain ⟨found, hfound, hgrow⟩ := exists_grow_of_level hs hlevel
    rw [← hgrow]
    exact ⟨built_grow ih.1 hfound, hlt⟩

/-! ### Places of targets -/

/-- A place for a target: a node, one of its attachments, and a position in it. -/
structure Place where
  owner : Nat
  attachment : Nat
  position : Nat

/-- The target that stands in a place of some attachments. -/
def targetIn (atts : List Attachment) (attachment position : Nat) : Option Target :=
  atts[attachment]?.bind fun a => a.targets[position]?

/-- The target that stands in a place. -/
def targetAt (nodes : Array Node) (p : Place) : Option Target :=
  nodes[p.owner]?.bind fun node => targetIn node.attachments p.attachment p.position

theorem mem_kidsOf {ts : List Target} {i : Nat} :
    i ∈ kidsOf ts ↔ ∃ position : Nat, ts[position]? = some (.node i) := by
  rw [← List.mem_iff_getElem?, kidsOf, List.mem_filterMap]
  constructor
  · rintro ⟨t, ht, hnode⟩
    cases t with
    | node j =>
      obtain rfl := Option.some.inj hnode
      exact ht
    | unexpanded raw => cases hnode
  · intro ht
    exact ⟨_, ht, rfl⟩

theorem mem_kids {atts : List Attachment} {i : Nat} :
    i ∈ kids atts ↔ ∃ attachment position, targetIn atts attachment position = some (.node i) := by
  rw [kids, List.mem_flatMap]
  constructor
  · rintro ⟨a, ha, hi⟩
    obtain ⟨attachment, ha⟩ := List.mem_iff_getElem?.mp ha
    obtain ⟨position, hi⟩ := mem_kidsOf.mp hi
    exact ⟨attachment, position, by rw [targetIn, ha]; exact hi⟩
  · rintro ⟨attachment, position, hi⟩
    obtain ⟨a, ha, hi⟩ := Option.bind_eq_some_iff.mp hi
    exact ⟨a, List.mem_of_getElem? ha, mem_kidsOf.mpr ⟨position, hi⟩⟩

/-- Two members of a list that are not related stand in the same position. -/
theorem eq_of_pairwise {α : Type} {R : α → α → Prop} {xs : List α} (h : xs.Pairwise R) {i j : Nat}
    {a b : α} (ha : xs[i]? = some a) (hb : xs[j]? = some b) (hab : ¬ R a b) (hba : ¬ R b a) :
    i = j := by
  obtain ⟨hi, rfl⟩ := List.getElem?_eq_some_iff.mp ha
  obtain ⟨hj, rfl⟩ := List.getElem?_eq_some_iff.mp hb
  rw [List.pairwise_iff_getElem] at h
  rcases Nat.lt_trichotomy i j with hlt | heq | hlt
  · exact absurd (h i j hi hj hlt) hab
  · exact heq
  · exact absurd (h j i hj hi hlt) hba

/-- A node that no owner has twice stands in one place of its attachments. -/
theorem place_unique {atts : List Attachment} (h : (kids atts).Nodup) {i a p a' p' : Nat}
    (hi : targetIn atts a p = some (.node i)) (hi' : targetIn atts a' p' = some (.node i)) :
    a = a' ∧ p = p' := by
  obtain ⟨att, ha, hp⟩ := Option.bind_eq_some_iff.mp hi
  obtain ⟨att', ha', hp'⟩ := Option.bind_eq_some_iff.mp hi'
  obtain ⟨hone, hdisjoint⟩ := List.nodup_flatMap.mp h
  have hmem := mem_kidsOf.mpr ⟨p, hp⟩
  have hmem' := mem_kidsOf.mpr ⟨p', hp'⟩
  obtain rfl : a = a' := eq_of_pairwise hdisjoint ha ha'
    (fun hdis => hdis hmem hmem') (fun hdis => hdis hmem' hmem)
  obtain rfl := Option.some.inj (ha.symm.trans ha')
  refine ⟨rfl, ?_⟩
  -- the targets that are nodes are distinct
  have hnodes := List.pairwise_filterMap.mp (hone att (List.mem_of_getElem? ha))
  exact eq_of_pairwise hnodes hp hp' (fun hne => hne i rfl i rfl rfl)
    (fun hne => hne i rfl i rfl rfl)

/-! ### What a run leaves behind -/

/-- The nodes of an arena behind `l` levels make up trees, one for each document. -/
structure Sound (docs : List Document) (l : Nat) (nodes : Array Node) : Prop where
  parentsFirst : ∀ (i : Nat) (node : Node), nodes[i]? = some node →
    ∀ p, node.parent = some p → p < i
  distinct : ∀ i < nodes.size, (ancestors nodes i).Nodup
  placed : ∀ (i : Nat) (node : Node) (p : Nat), nodes[i]? = some node → node.parent = some p →
    ∃ place : Place, place.owner = p ∧ ∀ q, targetAt nodes q = some (.node i) ↔ q = place
  owned : ∀ (q : Place) (i : Nat), targetAt nodes q = some (.node i) →
    ∃ node, nodes[i]? = some node ∧ node.parent = some q.owner
  depth_le : ∀ i < nodes.size, depth nodes i ≤ l
  described : ∀ (i : Nat) (node : Node), nodes[i]? = some node → ∀ att ∈ node.attachments,
    ∃ v r, valueAt att.segments (.document node.payload) = some v ∧ Descriptor.ofValue? v = some r
  diverge : ∀ (i : Nat) (node : Node), nodes[i]? = some node →
    (node.attachments.map Attachment.segments).Pairwise Diverge
  size : docs.length ≤ nodes.size
  root : ∀ (i : Nat) (node : Node), nodes[i]? = some node →
    (node.parent = none ↔ i < docs.length)

/-- The sweep over an arena takes the payload of every node that has a parent once, behind
the moment when the node is completed and at that when its parent is, and it takes no
root. -/
structure Assembled (nodes : Array Node) (roots : Nat) : Prop where
  completed : ∀ (i : Nat) (node : Node), nodes[i]? = some node →
    node.completed (finished nodes) = finished nodes i
  waiting : ∀ (i : Nat) (node : Node), nodes[i]? = some node → ∀ n ≤ nodes.size, i < n →
    payloadAt (sweptFrom nodes n) i = node.payload
  complete : ∀ (i : Nat) (node : Node), nodes[i]? = some node → ∀ n ≤ nodes.size, n ≤ i →
    (∀ p, node.parent = some p → p < n) → payloadAt (sweptFrom nodes n) i = finished nodes i
  taken : ∀ (i : Nat) (node : Node) (p : Nat), nodes[i]? = some node → node.parent = some p →
    ∀ n ≤ p, payloadAt (sweptFrom nodes n) i = []
  result : assemble nodes roots = (List.range roots).map (finished nodes)

namespace Built

variable {l : Nat} {t : Start} (h : Built x docs l t)
include h

/-- An attachment stands at a descriptor, and no attachment inside another one. -/
theorem attachments {i : Nat} {node : Node} (hi : t.arena.nodes[i]? = some node) :
    (∀ att ∈ node.attachments, ∃ v r,
      valueAt att.segments (.document node.payload) = some v ∧ Descriptor.ofValue? v = some r) ∧
    (node.attachments.map Attachment.segments).Pairwise Diverge := by
  rcases h.places i node hi with hnone | hplaces
  · rw [hnone]
    exact ⟨nofun, .nil⟩
  · have hwf := h.document i node hi
    have hsub : (segmentsOf (x.edges t.arena.nodes i)).Sublist
        ((scan node.payload).map Location.segments) := by
      rw [Expansion.edges, hi]
      exact segmentsOf_sublist x i node (scan node.payload)
    rw [hplaces]
    refine ⟨fun att hatt => ?_, (List.pairwise_map.mpr (scattered_scan hwf)).sublist hsub⟩
    have hmem : att.segments ∈ (scan node.payload).map Location.segments :=
      hsub.subset (hplaces ▸ List.mem_map_of_mem hatt)
    obtain ⟨loc, hloc, heq⟩ := List.mem_map.mp hmem
    obtain ⟨hvalue, hdescriptor⟩ := fits_of_mem_scan hwf loc hloc
    exact ⟨_, _, heq ▸ hvalue, hdescriptor⟩

theorem sound : Sound docs l t.arena.nodes where
  parentsFirst := h.ready.parentsFirst
  distinct := h.distinct
  placed := by
    intro i node p hi hp
    obtain ⟨owner, howner, hmem⟩ := h.covered i node p hi hp
    obtain ⟨attachment, position, hplace⟩ := mem_kids.mp hmem
    have hat : targetAt t.arena.nodes ⟨p, attachment, position⟩ = some (.node i) := by
      rw [targetAt, howner]
      exact hplace
    refine ⟨⟨p, attachment, position⟩, rfl, fun q => ⟨fun hq => ?_, fun hq => hq ▸ hat⟩⟩
    obtain ⟨owner', howner', hplace'⟩ := Option.bind_eq_some_iff.mp hq
    obtain ⟨hnodup, hkids⟩ := h.forest _ owner' howner'
    obtain ⟨child, hchild, hparent⟩ := hkids i (mem_kids.mpr ⟨_, _, hplace'⟩)
    obtain rfl := Option.some.inj (hi.symm.trans hchild)
    obtain ⟨q, attachment', position'⟩ := q
    obtain rfl : q = p := Option.some.inj (hparent.symm.trans hp)
    obtain rfl := Option.some.inj (howner.symm.trans howner')
    obtain ⟨rfl, rfl⟩ := place_unique hnodup hplace hplace'
    rfl
  owned := by
    intro q i hq
    obtain ⟨owner, howner, hplace⟩ := Option.bind_eq_some_iff.mp hq
    exact (h.forest _ owner howner).2 i (mem_kids.mpr ⟨_, _, hplace⟩)
  depth_le := h.depth_le
  described := fun i node hi => (h.attachments hi).1
  diverge := fun i node hi => (h.attachments hi).2
  size := h.size
  root := h.root

theorem assembled : Assembled t.arena.nodes docs.length where
  completed := fun i node => completed_finished h.ready.parentsFirst h.forest
  waiting := fun i node hi n hn =>
    (swept_finished h.ready.parentsFirst h.forest hn).waiting i node hi
  complete := fun i node hi n hn =>
    (swept_finished h.ready.parentsFirst h.forest hn).complete i node hi
  taken := fun i node p hi hp n =>
    payloadAt_of_le_parent h.ready.parentsFirst h.forest h.covered hi hp
  result := by
    refine assemble_eq_finished h.ready.parentsFirst h.forest fun i hi => ?_
    have hnode := Array.getElem?_eq_getElem (Nat.lt_of_lt_of_le hi h.size)
    exact ⟨_, hnode, (h.root i _ hnode).mpr hi⟩

end Built

/-- The payloads that a run comes out with are those of the arena behind its last level. -/
theorem exists_completed_of_resolve {x : Expansion} {s : Store} {docs out : List Document} {n : Nat}
    (h : ((x.resolve docs).run s n).outcome = .ok out) :
    ∃ l t, Completed x s docs l t ∧ out = assemble t.arena.nodes docs.length := by
  rw [Expansion.resolve] at h
  split at h
  · exact ⟨0, _, .roots, (Except.ok.inj h).symm⟩
  · obtain ⟨⟨a, next⟩, k, hlevels, h⟩ := Plan.exists_of_run_bind_ok s h
    obtain ⟨-, k', -, h⟩ := Plan.exists_of_run_bind_ok s h
    obtain ⟨l, hcompleted⟩ := completed_of_levels .roots (Nat.zero_add _).le hlevels
    exact ⟨l, _, hcompleted, (Except.ok.inj h).symm⟩

/-- Whatever documents a store answers with, behind every level that is completed the nodes
make up trees, and the sweep takes each payload but those of the roots once.  A run comes
out with the payloads of its roots, in order. -/
theorem sound_of_completed (x : Expansion) (s : Store) (docs : List Document)
    (hs : s.AnswersDocuments) (hdocs : ∀ d ∈ docs, Document.wellFormed d = true) :
    (∀ l t, Completed x s docs l t → l ≤ x.maxDepth ∧ Sound docs l t.arena.nodes ∧
      Assembled t.arena.nodes docs.length) ∧
    ∀ n out, ((x.resolve docs).run s n).outcome = .ok out →
      ∃ l t, Completed x s docs l t ∧ out = assemble t.arena.nodes docs.length := by
  refine ⟨fun l t h => ?_, fun n out => exists_completed_of_resolve⟩
  obtain ⟨hbuilt, hle⟩ := built_of_completed hs hdocs h
  exact ⟨hle, hbuilt.sound, hbuilt.assembled⟩

/-- A store that answers its first call and all others with two pages each, of which only
one is asked for. -/
def fickleStore : Store where
  find n _ _ _ :=
    .ok (if n = 0 then [linkedPage "z" "a", linkedPage "b" "c"]
      else [linkedPage "c" "z", linkedPage "b" "z"])
  count _ _ _ := .ok 0

/-- The page that comes out, where each page is the next one of the page before, and the
last one leads back. -/
def nestedPages : Document :=
  let below (payload : Value) : Value :=
    .document [("next", payload), ("draft", .null), (embeddedContentType, .string "page")]
  [("next", below (below (below (pageLink "a")))), ("draft", .null)]

theorem sound_of_completed_fickleStore :
    fickleStore.AnswersDocuments ∧
      (∀ d ∈ [linkedPage "a" "b"], Document.wellFormed d = true) ∧
      ∃ l t, Completed pagePairExpansion fickleStore [linkedPage "a" "b"] l t ∧
        Sound [linkedPage "a" "b"] l t.arena.nodes ∧
        assemble t.arena.nodes 1 = [nestedPages] := by
  have hs : fickleStore.AnswersDocuments := by
    intro n collection filter options docs hfind d hd
    have hall : ∀ d ∈ [linkedPage "z" "a", linkedPage "b" "c"] ++
        [linkedPage "c" "z", linkedPage "b" "z"], Document.wellFormed d = true := by decide
    obtain rfl := Except.ok.inj hfind
    split at hd
    · exact hall d (List.mem_append_left _ hd)
    · exact hall d (List.mem_append_right _ hd)
  have hdocs : ∀ d ∈ [linkedPage "a" "b"], Document.wellFormed d = true := by decide
  have hrun : ((pagePairExpansion.resolve [linkedPage "a" "b"]).run fickleStore 0).outcome =
      .ok [nestedPages] := by with_unfolding_all rfl
  obtain ⟨hsound, hout⟩ := sound_of_completed pagePairExpansion fickleStore _ hs hdocs
  obtain ⟨l, t, hcompleted, heq⟩ := hout 0 _ hrun
  exact ⟨hs, hdocs, l, t, hcompleted, (hsound l t hcompleted).2.1, heq.symm⟩

end ContentQuery.Reference
