/-
What one level of an expansion adds to an arena.

The edges of a level are attached one after the other, and each gets the targets
of its keys.  Nothing here depends on what a store has answered:

* `keysAttached` — the targets of one edge, with the nodes that are added for it;
* `grown_attachEdge` — attaching one more edge keeps `Grown`;
* `grown_foldl` — so a whole level has attached just its edges, each to its
  owner, and the new nodes are the frontier of the next level.
-/
import ContentQuery.Proofs.Lineage
import Mathlib.Data.List.Forall2

namespace ContentQuery.Reference

/-- The node that a target is. -/
def Target.node? : Target → Option Nat
  | node i => some i
  | unexpanded _ => none

/-- The nodes that some targets are. -/
def kidsOf (targets : List Target) : List Nat := targets.filterMap Target.node?

/-- The nodes that stand in some attachments. -/
def kids (atts : List Attachment) : List Nat := atts.flatMap fun a => kidsOf a.targets

/-- The node that a key of an edge adds, unless it closes a cycle or is not
found. -/
def Edge.child? (e : Edge) (fetched : List (Key × Document)) (nodes : Array Node) (k : Key) :
    Option Node :=
  if onPath nodes e.owner k then none else (Entries.get? fetched k).map (e.target k)

/-- The targets that some keys of an edge come to, where `look` finds the
payloads of keys. -/
inductive Filled (look : Key → Option Document) (nodes : Array Node) (e : Edge) :
    List Key → List Target → Prop
  | nil : Filled look nodes e [] []
  | cycle {k : Key} {ks : List Key} {ts : List Target} :
      onPath nodes e.owner k = true → Filled look nodes e ks ts →
      Filled look nodes e (k :: ks) (.unexpanded (e.left k) :: ts)
  | missing {k : Key} {ks : List Key} {ts : List Target} :
      onPath nodes e.owner k = false → look k = none → Filled look nodes e ks ts →
      Filled look nodes e (k :: ks) ts
  | found {k : Key} {ks : List Key} {ts : List Target} {payload : Document} {i : Nat}
      {atts : List Attachment} :
      onPath nodes e.owner k = false → look k = some payload →
      nodes[i]? = some { e.target k payload with attachments := atts } →
      Filled look nodes e ks ts → Filled look nodes e (k :: ks) (.node i :: ts)

/-- An attachment that gives an edge the targets of its keys. -/
structure Attached (look : Key → Option Document) (nodes : Array Node) (e : Edge)
    (a : Attachment) : Prop where
  segments : a.segments = e.location.segments
  toMany : a.toMany = e.location.descriptor.toMany
  filled : Filled look nodes e e.keys a.targets

variable {look : Key → Option Document} {fetched : List (Key × Document)}

/-! ### Attached edges in a growing arena -/

theorem Filled.mono {a b : Array Node} (h : Grows a b) (ha : ParentsFirst a)
    (hb : ParentsFirst b) {e : Edge} (ho : e.owner < a.size) {ks : List Key} {ts : List Target}
    (hf : Filled look a e ks ts) : Filled look b e ks ts := by
  -- the owner is an old node, so the same keys close a cycle
  have hpath := h.onPath_eq ha hb ho
  induction hf with
  | nil => exact .nil
  | cycle hon _ ih => exact .cycle (by rw [hpath, hon]) ih
  | missing hon hlook _ ih => exact .missing (by rw [hpath, hon]) hlook ih
  | found hon hlook hnode _ ih =>
    obtain ⟨atts, hnode'⟩ := h _ _ hnode
    exact .found (by rw [hpath, hon]) hlook hnode' ih

/-- Every node among the targets of an edge is a child of its owner. -/
theorem Filled.parent_eq {nodes : Array Node} {e : Edge} {ks : List Key} {ts : List Target}
    (hf : Filled look nodes e ks ts) :
    ∀ i ∈ kidsOf ts, ∃ node, nodes[i]? = some node ∧ node.parent = some e.owner := by
  induction hf with
  | nil => simp [kidsOf]
  | cycle _ _ ih => simpa [kidsOf, Target.node?] using ih
  | missing _ _ _ ih => exact ih
  | found _ _ hnode _ ih =>
    intro i hi
    rcases List.mem_cons.mp hi with rfl | hi
    · exact ⟨_, hnode, rfl⟩
    · exact ih i hi

/-- Only what is found for the keys that close no cycle matters. -/
theorem Filled.congr {look' : Key → Option Document} {nodes : Array Node} {e : Edge}
    {ks : List Key} {ts : List Target} (hf : Filled look nodes e ks ts)
    (h : ∀ k ∈ ks, onPath nodes e.owner k = false → look' k = look k) :
    Filled look' nodes e ks ts := by
  induction hf with
  | nil => exact .nil
  | cycle hon _ ih => exact .cycle hon (ih fun k hk => h k (List.mem_cons_of_mem _ hk))
  | missing hon hlook _ ih =>
    exact .missing hon ((h _ List.mem_cons_self hon).trans hlook)
      (ih fun k hk => h k (List.mem_cons_of_mem _ hk))
  | found hon hlook hnode _ ih =>
    exact .found hon ((h _ List.mem_cons_self hon).trans hlook) hnode
      (ih fun k hk => h k (List.mem_cons_of_mem _ hk))

/-- An edge is attached for any lookup that agrees on the keys that close no
cycle. -/
theorem Attached.forall₂_congr {look' : Key → Option Document} {nodes : Array Node}
    {es : List Edge} {atts : List Attachment}
    (h : ∀ e ∈ es, ∀ k ∈ e.keys, onPath nodes e.owner k = false → look' k = look k)
    (hall : List.Forall₂ (Attached look nodes) es atts) :
    List.Forall₂ (Attached look' nodes) es atts := by
  induction hall with
  | nil => exact .nil
  | cons hatt _ ih =>
    refine .cons ⟨hatt.segments, hatt.toMany, ?_⟩ (ih fun e he => h e (List.mem_cons_of_mem _ he))
    exact hatt.filled.congr (h _ List.mem_cons_self)

/-- Every node among the targets of some edges is a child of one of the owners. -/
theorem Attached.forall₂_parent_eq {nodes : Array Node} {es : List Edge} {atts : List Attachment}
    (hall : List.Forall₂ (Attached look nodes) es atts) :
    ∀ j ∈ kids atts, ∃ e ∈ es, ∃ child, nodes[j]? = some child ∧ child.parent = some e.owner := by
  induction hall with
  | nil => simp [kids]
  | cons hatt _ ih =>
    intro j hj
    rw [kids, List.flatMap_cons] at hj
    rcases List.mem_append.mp hj with hj | hj
    · exact ⟨_, List.mem_cons_self, hatt.filled.parent_eq j hj⟩
    · obtain ⟨e, he, hchild⟩ := ih j hj
      exact ⟨e, List.mem_cons_of_mem _ he, hchild⟩

theorem Attached.mono {a b : Array Node} (h : Grows a b) (ha : ParentsFirst a)
    (hb : ParentsFirst b) {e : Edge} (ho : e.owner < a.size) {att : Attachment}
    (hatt : Attached look a e att) : Attached look b e att :=
  ⟨hatt.segments, hatt.toMany, hatt.filled.mono h ha hb ho⟩

theorem Attached.forall₂_mono {a b : Array Node} (h : Grows a b) (ha : ParentsFirst a)
    (hb : ParentsFirst b) {es : List Edge} {atts : List Attachment}
    (ho : ∀ e ∈ es, e.owner < a.size) (hall : List.Forall₂ (Attached look a) es atts) :
    List.Forall₂ (Attached look b) es atts := by
  refine ((List.forall₂_and_left (p := fun e => e.owner < a.size) es atts).mpr
    ⟨ho, hall⟩).imp ?_
  rintro e att ⟨ho, hatt⟩
  exact hatt.mono h ha hb ho

theorem ParentsFirst.append {nodes : Array Node} (h : ParentsFirst nodes) {new : List Node}
    (hnew : ∀ n ∈ new, ∀ p, n.parent = some p → p < nodes.size) :
    ParentsFirst (nodes ++ new.toArray) := by
  intro i node hi p hp
  rw [Array.getElem?_append] at hi
  split at hi
  · exact h i node hi p hp
  · have hmem : node ∈ new := by
      rw [List.getElem?_toArray] at hi
      exact List.mem_of_getElem? hi
    have := hnew node hmem p hp
    omega

/-- A target of an edge stands behind its owner. -/
theorem ParentsFirst.push_target {nodes : Array Node} (h : ParentsFirst nodes) {e : Edge}
    (ho : e.owner < nodes.size) (k : Key) (payload : Document) :
    ParentsFirst (nodes.push (e.target k payload)) := by
  have hpush : nodes.push (e.target k payload) = nodes ++ [e.target k payload].toArray := by simp
  rw [hpush]
  refine h.append fun n hn p hp => ?_
  obtain rfl := List.mem_singleton.mp hn
  obtain rfl : e.owner = p := Option.some.inj hp
  exact ho

theorem ParentsFirst.modify {nodes : Array Node} (h : ParentsFirst nodes) (o : Nat)
    (f : List Attachment → List Attachment) :
    ParentsFirst (nodes.modify o fun node => { node with attachments := f node.attachments }) := by
  intro i node hi p hp
  rw [Array.getElem?_modify] at hi
  split at hi
  · obtain ⟨node', hnode', rfl⟩ := Option.map_eq_some_iff.mp hi
    exact h i node' hnode' p hp
  · exact h i node hi p hp

theorem Edge.child?_eq_of_grows {a b : Array Node} (h : Grows a b) (ha : ParentsFirst a)
    (hb : ParentsFirst b) {e : Edge} (ho : e.owner < a.size) (k : Key) :
    e.child? fetched b k = e.child? fetched a k := by
  rw [Edge.child?, Edge.child?, h.onPath_eq ha hb ho]

/-! ### One edge -/

/-- What giving an edge the targets `ts` of some keys makes of a level. -/
structure KeysAttached (fetched : List (Key × Document)) (e : Edge) (ks : List Key)
    (g g' : Growth) (ts : List Target) : Prop where
  parentsFirst : ParentsFirst g'.nodes
  added : ∃ new : List Node, g'.nodes = g.nodes ++ new.toArray ∧
    ∀ n ∈ new, ∃ k ∈ ks, e.child? fetched g.nodes k = some n
  next : g'.next = g.next ++ List.range' g.nodes.size (g'.nodes.size - g.nodes.size)
  kids : kidsOf ts = List.range' g.nodes.size (g'.nodes.size - g.nodes.size)
  filled : Filled (Entries.get? fetched) g'.nodes e ks ts
  log : ∀ line ∈ g'.log, line ∈ g.log ∨ ∃ k, line = cycleNote k e.path

namespace KeysAttached

variable {e : Edge} {g g' : Growth} {k : Key} {ks : List Key} {ts : List Target}

theorem grows (h : KeysAttached fetched e ks g g' ts) : Grows g.nodes g'.nodes := by
  obtain ⟨new, hnew, -⟩ := h.added
  rw [hnew]
  exact .append _ _

/-- What is added for some keys is added for more keys. -/
theorem added_cons (h : KeysAttached fetched e ks g g' ts) (k : Key) :
    ∃ new : List Node, g'.nodes = g.nodes ++ new.toArray ∧
      ∀ n ∈ new, ∃ j ∈ k :: ks, e.child? fetched g.nodes j = some n := by
  obtain ⟨new, hnew, hchild⟩ := h.added
  refine ⟨new, hnew, fun n hn => ?_⟩
  obtain ⟨j, hj, hn⟩ := hchild n hn
  exact ⟨j, List.mem_cons_of_mem k hj, hn⟩

theorem nil (hg : ParentsFirst g.nodes) : KeysAttached fetched e [] g g [] where
  parentsFirst := hg
  added := ⟨[], by simp, by simp⟩
  next := by simp
  kids := by simp [kidsOf]
  filled := .nil
  log := fun _ hline => .inl hline

/-- A key that closes a cycle adds a log line and no node. -/
theorem cycle (hg : ParentsFirst g.nodes) (ho : e.owner < g.nodes.size)
    (hon : onPath g.nodes e.owner k = true)
    (h : KeysAttached fetched e ks { g with log := g.log ++ [cycleNote k e.path] } g' ts) :
    KeysAttached fetched e (k :: ks) g g' (.unexpanded (e.left k) :: ts) where
  parentsFirst := h.parentsFirst
  added := h.added_cons k
  next := h.next
  kids := h.kids
  filled := .cycle (by rw [h.grows.onPath_eq hg h.parentsFirst ho, hon]) h.filled
  log := by
    intro line hline
    rcases h.log line hline with hold | hcycle
    · rcases List.mem_append.mp hold with hold | hnew
      · exact .inl hold
      · exact .inr ⟨k, List.mem_singleton.mp hnew⟩
    · exact .inr hcycle

/-- A key that is not found changes nothing. -/
theorem missing (hg : ParentsFirst g.nodes) (ho : e.owner < g.nodes.size)
    (hon : onPath g.nodes e.owner k = false) (hlook : Entries.get? fetched k = none)
    (h : KeysAttached fetched e ks g g' ts) : KeysAttached fetched e (k :: ks) g g' ts where
  parentsFirst := h.parentsFirst
  added := h.added_cons k
  next := h.next
  kids := h.kids
  filled := .missing (by rw [h.grows.onPath_eq hg h.parentsFirst ho, hon]) hlook h.filled
  log := h.log

/-- A key that is found adds one node. -/
theorem found {payload : Document} (hg : ParentsFirst g.nodes) (ho : e.owner < g.nodes.size)
    (hon : onPath g.nodes e.owner k = false) (hlook : Entries.get? fetched k = some payload)
    (h : KeysAttached fetched e ks
      { g with nodes := g.nodes.push (e.target k payload), next := g.next ++ [g.nodes.size] }
      g' ts) :
    KeysAttached fetched e (k :: ks) g g' (.node g.nodes.size :: ts) := by
  obtain ⟨new, hnew, hchild⟩ := h.added
  have hg' := hg.push_target ho k payload
  have hgrows : Grows g.nodes (g.nodes.push (e.target k payload)) := .push _ _
  have hsize : g'.nodes.size = g.nodes.size + 1 + new.length := by
    rw [hnew]
    simp
    omega
  have hrange : List.range' g.nodes.size (g'.nodes.size - g.nodes.size) =
      g.nodes.size :: List.range' (g.nodes.size + 1) (g'.nodes.size - (g.nodes.size + 1)) := by
    rw [show g'.nodes.size - g.nodes.size = g'.nodes.size - (g.nodes.size + 1) + 1 by omega]
    rfl
  refine ⟨h.parentsFirst, ⟨e.target k payload :: new, ?_, ?_⟩, ?_, ?_, ?_, h.log⟩
  · rw [hnew]
    simp
  · intro n hn
    rcases List.mem_cons.mp hn with rfl | hn
    · exact ⟨k, List.mem_cons_self, by simp [Edge.child?, hon, hlook]⟩
    · obtain ⟨j, hj, hn⟩ := hchild n hn
      rw [Edge.child?_eq_of_grows hgrows hg hg' ho] at hn
      exact ⟨j, List.mem_cons_of_mem k hj, hn⟩
  · -- the node goes in front of those that the other keys add
    rw [h.next, hrange, Array.size_push, List.append_assoc]
    rfl
  · rw [hrange]
    show g.nodes.size :: kidsOf ts = _
    rw [h.kids, Array.size_push]
  · have hon' : onPath g'.nodes e.owner k = false := by
      rw [(hgrows.trans h.grows).onPath_eq hg h.parentsFirst ho, hon]
    have hnode : g'.nodes[g.nodes.size]? = some { e.target k payload with attachments := [] } := by
      rw [hnew, Array.getElem?_append_left (by simp), Array.getElem?_push_size]
      rfl
    exact .found hon' hlook hnode h.filled

end KeysAttached

theorem keysAttached (fetched : List (Key × Document)) (e : Edge) (ks : List Key) (g : Growth)
    (acc : List Target) (hg : ParentsFirst g.nodes) (ho : e.owner < g.nodes.size) :
    ∃ g' ts, ks.foldl (attachKey fetched e) (g, acc) = (g', acc ++ ts) ∧
      KeysAttached fetched e ks g g' ts := by
  -- the nodes and targets of the keys before are those that a key starts from
  induction ks generalizing g acc with
  | nil => exact ⟨g, [], by simp, .nil hg⟩
  | cons k rest ih =>
    rw [List.foldl_cons]
    cases hon : onPath g.nodes e.owner k with
    | true =>
      obtain ⟨g', ts, heq, h⟩ :=
        ih { g with log := g.log ++ [cycleNote k e.path] } (acc ++ [.unexpanded (e.left k)]) hg ho
      refine ⟨g', .unexpanded (e.left k) :: ts, ?_, .cycle hg ho hon h⟩
      simpa [attachKey, hon] using heq
    | false =>
      cases hlook : Entries.get? fetched k with
      | none =>
        obtain ⟨g', ts, heq, h⟩ := ih g acc hg ho
        refine ⟨g', ts, ?_, .missing hg ho hon hlook h⟩
        simpa [attachKey, hon, hlook] using heq
      | some payload =>
        have hg' := hg.push_target ho k payload
        have hlt : e.owner < (g.nodes.push (e.target k payload)).size := by
          rw [Array.size_push]
          omega
        obtain ⟨g', ts, heq, h⟩ := ih
          { g with nodes := g.nodes.push (e.target k payload), next := g.next ++ [g.nodes.size] }
          (acc ++ [.node g.nodes.size]) hg' hlt
        refine ⟨g', .node g.nodes.size :: ts, ?_, .found hg ho hon hlook h⟩
        simpa [attachKey, hon, hlook] using heq

/-! ### A whole level -/

/-- A level in the making in which the edges `done` have been attached, each to
its owner in the arena `base` that the level started from. -/
structure Grown (fetched : List (Key × Document)) (base : Array Node) (done : List Edge)
    (g : Growth) : Prop where
  parentsFirst : ParentsFirst g.nodes
  size_le : base.size ≤ g.nodes.size
  old : ∀ (i : Nat) (node : Node), base[i]? = some node → ∃ atts,
    g.nodes[i]? = some { node with attachments := node.attachments ++ atts } ∧
    List.Forall₂ (Attached (Entries.get? fetched) g.nodes)
      (done.filter fun e => e.owner == i) atts ∧
    (kids atts).Nodup ∧ ∀ j ∈ kids atts, base.size ≤ j
  new : ∀ (i : Nat) (node : Node), base.size ≤ i → g.nodes[i]? = some node →
    ∃ e ∈ done, ∃ k ∈ e.keys, e.child? fetched base k = some node
  placed : ∀ i, base.size ≤ i → i < g.nodes.size →
    ∃ (o : Nat) (owner : Node), g.nodes[o]? = some owner ∧ i ∈ kids owner.attachments
  next : g.next = List.range' base.size (g.nodes.size - base.size)
  log : ∀ line ∈ g.log, ∃ k path, line = cycleNote k path

namespace Grown

variable {base : Array Node} {done : List Edge} {g : Growth}

theorem grows (h : Grown fetched base done g) : Grows base g.nodes := by
  intro i node hi
  obtain ⟨atts, hatts, -⟩ := h.old i node hi
  exact ⟨_, hatts⟩

theorem start (hbase : ParentsFirst base) : Grown fetched base [] { nodes := base } where
  parentsFirst := hbase
  size_le := Nat.le_refl _
  old := fun i node hi => ⟨[], by simpa using hi, .nil, by simp [kids], by simp [kids]⟩
  new := by
    intro i node hle hi
    obtain ⟨hlt, -⟩ := Array.getElem?_eq_some_iff.mp hi
    exact absurd hlt (Nat.not_lt.mpr hle)
  placed := fun i hle hlt => absurd hlt (Nat.not_lt.mpr hle)
  next := by simp
  log := by simp

end Grown

/-- The attachment of an edge, with the targets of its keys. -/
def Edge.attachment (e : Edge) (ts : List Target) : Attachment :=
  ⟨e.location.segments, e.location.descriptor.toMany, ts⟩

/-- Attaching an edge adds its nodes, and then gives its owner the attachment. -/
theorem exists_attachEdge (fetched : List (Key × Document)) {g : Growth} {e : Edge}
    (hg : ParentsFirst g.nodes) (ho : e.owner < g.nodes.size) :
    ∃ g' ts, KeysAttached fetched e e.keys g g' ts ∧
      attachEdge fetched g e = { g' with
        nodes := g'.nodes.modify e.owner fun node =>
          { node with attachments := node.attachments ++ [e.attachment ts] } } := by
  obtain ⟨g', ts, heq, hk⟩ := keysAttached fetched e e.keys g [] hg ho
  refine ⟨g', ts, hk, ?_⟩
  simp only [attachEdge, heq, List.nil_append, Edge.attachment]

theorem kids_concat (atts : List Attachment) (att : Attachment) :
    kids (atts ++ [att]) = kids atts ++ kidsOf att.targets := by
  simp [kids]

/-- New nodes are none of those that stand in attachments already. -/
theorem nodup_kids_concat {nodes : Array Node} {es : List Edge} {atts : List Attachment}
    {att : Attachment} {added : Nat} (hall : List.Forall₂ (Attached look nodes) es atts)
    (hnodup : (kids atts).Nodup) (hkids : kidsOf att.targets = List.range' nodes.size added) :
    (kids (atts ++ [att])).Nodup := by
  rw [kids_concat, hkids]
  refine List.nodup_append.mpr ⟨hnodup, List.nodup_range', ?_⟩
  intro j hj j' hj'
  obtain ⟨_, -, child, hchild, -⟩ := Attached.forall₂_parent_eq hall j hj
  obtain ⟨hlt, -⟩ := Array.getElem?_eq_some_iff.mp hchild
  have hge := (List.mem_range'_1.mp hj').1
  omega

/-- What an old node has in its attachments when one more edge has its targets. -/
theorem Grown.exists_attachments {base : Array Node} {done : List Edge} {g : Growth}
    (h : Grown fetched base done g) {nodes : Array Node} (hgrows : Grows g.nodes nodes)
    (hfirst : ParentsFirst nodes) {e : Edge} {att : Attachment} {added : Nat}
    (hatt : Attached (Entries.get? fetched) nodes e att)
    (hkids : kidsOf att.targets = List.range' g.nodes.size added) {i : Nat} {node : Node}
    (hi : base[i]? = some node) :
    ∃ atts, g.nodes[i]? = some { node with attachments := node.attachments ++ atts } ∧
      List.Forall₂ (Attached (Entries.get? fetched) nodes)
        ((done ++ [e]).filter fun e => e.owner == i)
        (if e.owner = i then atts ++ [att] else atts) ∧
      (kids (if e.owner = i then atts ++ [att] else atts)).Nodup ∧
      ∀ j ∈ kids (if e.owner = i then atts ++ [att] else atts), base.size ≤ j := by
  obtain ⟨hlt, -⟩ := Array.getElem?_eq_some_iff.mp hi
  have hle := h.size_le
  obtain ⟨atts, hatts, hall, hnodup, hge⟩ := h.old i node hi
  -- what the edges before this one have attached is kept by the new nodes
  have hall' : List.Forall₂ (Attached (Entries.get? fetched) nodes)
      (done.filter fun e => e.owner == i) atts := by
    refine Attached.forall₂_mono hgrows h.parentsFirst hfirst ?_ hall
    intro e' he'
    obtain rfl : e'.owner = i := by simpa using (List.mem_filter.mp he').2
    omega
  refine ⟨atts, hatts, ?_⟩
  rw [List.filter_append]
  by_cases hi' : e.owner = i
  · have hsingle : [e].filter (fun e => e.owner == i) = [e] := by simp [hi']
    rw [if_pos hi', hsingle]
    refine ⟨List.rel_append hall' (.cons hatt .nil), nodup_kids_concat hall hnodup hkids, ?_⟩
    intro j hj
    rw [kids_concat, hkids] at hj
    rcases List.mem_append.mp hj with hj | hj
    · exact hge j hj
    · exact Nat.le_trans hle (List.mem_range'_1.mp hj).1
  · have hnone : [e].filter (fun e => e.owner == i) = [] := by simp [hi']
    rw [if_neg hi', hnone, List.append_nil]
    exact ⟨hall', hnodup, hge⟩

/-- Attaching one more edge of the arena that a level started from. -/
theorem grown_attachEdge {base : Array Node} {done : List Edge} {g : Growth} {e : Edge}
    (hbase : ParentsFirst base) (h : Grown fetched base done g) (ho : e.owner < base.size) :
    Grown fetched base (done ++ [e]) (attachEdge fetched g e) := by
  have hle := h.size_le
  obtain ⟨g', ts, hk, hdef⟩ :=
    exists_attachEdge fetched h.parentsFirst (Nat.lt_of_lt_of_le ho hle)
  obtain ⟨new, hnew, hchild⟩ := hk.added
  have hgrow : Grows g'.nodes (attachEdge fetched g e).nodes := by
    rw [hdef]
    exact Grows.modify g'.nodes e.owner (· ++ [e.attachment ts])
  have hpf : ParentsFirst (attachEdge fetched g e).nodes := by
    rw [hdef]
    exact hk.parentsFirst.modify e.owner (· ++ [e.attachment ts])
  have hget (i : Nat) : (attachEdge fetched g e).nodes[i]? =
      if e.owner = i then g'.nodes[i]?.map fun node =>
        { node with attachments := node.attachments ++ [e.attachment ts] }
      else g'.nodes[i]? := by
    rw [hdef]
    exact Array.getElem?_modify
  have hsize : (attachEdge fetched g e).nodes.size = g'.nodes.size := by
    rw [hdef]
    exact Array.size_modify
  have hsize' : g.nodes.size ≤ g'.nodes.size := hk.grows.size_le
  have hatt : Attached (Entries.get? fetched) (attachEdge fetched g e).nodes e (e.attachment ts) :=
    ⟨rfl, rfl, hk.filled.mono hgrow hk.parentsFirst hpf (by omega)⟩
  refine ⟨hpf, by omega, ?_, ?_, ?_, ?_, ?_⟩
  · intro i node hi
    obtain ⟨hlt, -⟩ := Array.getElem?_eq_some_iff.mp hi
    obtain ⟨atts, hatts, hmore⟩ :=
      h.exists_attachments (hk.grows.trans hgrow) hpf hatt hk.kids hi
    refine ⟨if e.owner = i then atts ++ [e.attachment ts] else atts, ?_, hmore⟩
    rw [hget i, hnew, Array.getElem?_append_left (by omega), hatts]
    by_cases hi' : e.owner = i
    · rw [if_pos hi', if_pos hi', Option.map_some, List.append_assoc]
    · rw [if_neg hi', if_neg hi']
  · intro i node hle' hi
    -- a new node was there before this edge, or this edge has added it
    have hne : e.owner ≠ i := by omega
    rw [hget i, if_neg hne, hnew, Array.getElem?_append] at hi
    split at hi
    · obtain ⟨e', he', k, hk', hc⟩ := h.new i node hle' hi
      exact ⟨e', List.mem_append_left _ he', k, hk', hc⟩
    · rw [List.getElem?_toArray] at hi
      obtain ⟨k, hk', hc⟩ := hchild node (List.mem_of_getElem? hi)
      rw [Edge.child?_eq_of_grows h.grows hbase h.parentsFirst ho] at hc
      exact ⟨e, by simp, k, hk', hc⟩
  · -- a node that this edge adds is among its targets, the others keep their place
    intro i hle' hlt
    rw [hsize] at hlt
    by_cases hi : i < g.nodes.size
    · obtain ⟨o, owner, howner, hmem⟩ := h.placed i hle' hi
      have hold : g'.nodes[o]? = some owner := by
        obtain ⟨hlt', -⟩ := Array.getElem?_eq_some_iff.mp howner
        rw [hnew, Array.getElem?_append_left hlt', howner]
      refine ⟨o, _, by rw [hget o, hold, Option.map_some, ← apply_ite some], ?_⟩
      split
      · rw [kids_concat]
        exact List.mem_append_left _ hmem
      · exact hmem
    · have hlt' : e.owner < g'.nodes.size := by omega
      refine ⟨e.owner, _, by rw [hget, if_pos rfl, Array.getElem?_eq_getElem hlt',
        Option.map_some], ?_⟩
      rw [kids_concat, Edge.attachment, hk.kids]
      exact List.mem_append_right _ (List.mem_range'_1.mpr (by omega))
  · -- the frontier grows by just the nodes that are added
    rw [hsize, hdef]
    show g'.next = _
    obtain ⟨a, ha⟩ := Nat.exists_eq_add_of_le hle
    obtain ⟨b, hb⟩ := Nat.exists_eq_add_of_le hsize'
    rw [hk.next, h.next, hb, ha, Nat.add_sub_cancel_left, Nat.add_sub_cancel_left,
      List.range'_append_1, Nat.add_assoc, Nat.add_sub_cancel_left]
  · intro line hline
    rw [hdef] at hline
    rcases hk.log line hline with hold | ⟨k, rfl⟩
    · exact h.log line hold
    · exact ⟨k, e.path, rfl⟩

theorem grown_foldl {base : Array Node} (hbase : ParentsFirst base) (es : List Edge)
    (ho : ∀ e ∈ es, e.owner < base.size) :
    Grown fetched base es (es.foldl (attachEdge fetched) { nodes := base }) := by
  suffices h : ∀ (done : List Edge) (g : Growth), Grown fetched base done g →
      Grown fetched base (done ++ es) (es.foldl (attachEdge fetched) g) from
    h [] _ (.start hbase)
  induction es with
  | nil =>
    intro done g h
    rw [List.append_nil]
    exact h
  | cons e rest ih =>
    intro done g h
    have hstep := grown_attachEdge hbase h (ho e List.mem_cons_self)
    have hrest := ih (fun e' he' => ho e' (List.mem_cons_of_mem e he')) _ _ hstep
    rw [List.append_assoc] at hrest
    exact hrest

end ContentQuery.Reference
