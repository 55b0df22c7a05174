/-
Completing payloads from the last node to the first.

The sweep takes the payload of a target when its owner is completed, so every
payload is used once.  In an arena whose nodes form a forest the order of the
sweep makes it as good as a recursion from the roots:

* `payloadAt_complete`, `complete_of_tree` — completing one node, when its targets are
  complete;
* `swept_sweptFrom` — what this makes of the payloads from any node on;
* `assemble_eq` — the sweep gives the roots any values that solve the equation of
  every node, `Node.completed val = val i`.
-/
import ContentQuery.Proofs.Growth
import Mathlib.Data.Nat.Init

namespace ContentQuery.Reference

/-- The payload under an index, empty when there is none. -/
def payloadAt (payloads : Array Document) (j : Nat) : Document := payloads[j]?.getD []

/-- The value that a target stands for, from the documents of the nodes. -/
def Target.value (val : Nat → Document) : Target → Value
  | node i => .document (val i)
  | unexpanded raw => raw

/-- A payload with the targets of an attachment put in. -/
def Attachment.put (val : Nat → Document) (d : Document) (a : Attachment) : Document :=
  setAt d a.segments (a.value (a.targets.map (Target.value val)))

/-- The payload of a node with all its targets put in. -/
def Node.completed (val : Nat → Document) (node : Node) : Document :=
  node.attachments.foldl (Attachment.put val) node.payload

/-- Every target is a node of the arena that names its owner, and no owner has a
node twice. -/
def Forest (nodes : Array Node) : Prop :=
  ∀ (i : Nat) (node : Node), nodes[i]? = some node → (kids node.attachments).Nodup ∧
    ∀ j ∈ kids node.attachments, ∃ child, nodes[j]? = some child ∧ child.parent = some i

/-! ### Taking payloads -/

section Taking

variable {val val' : Nat → Document}

theorem Target.value_congr {ts : List Target} (h : ∀ j ∈ kidsOf ts, val j = val' j) :
    ts.map (Target.value val) = ts.map (Target.value val') := by
  refine List.map_congr_left fun t ht => ?_
  cases t with
  | unexpanded raw => rfl
  | node j =>
    have hj : j ∈ kidsOf ts := List.mem_filterMap.mpr ⟨.node j, ht, rfl⟩
    rw [Target.value, Target.value, h j hj]

theorem foldl_put_congr {atts : List Attachment} (h : ∀ j ∈ kids atts, val j = val' j)
    (d : Document) : atts.foldl (Attachment.put val) d = atts.foldl (Attachment.put val') d := by
  induction atts generalizing d with
  | nil => rfl
  | cons a rest ih =>
    have ha : a.targets.map (Target.value val) = a.targets.map (Target.value val') :=
      Target.value_congr fun j hj => h j (List.mem_flatMap.mpr ⟨a, List.mem_cons_self, hj⟩)
    have hrest : ∀ j ∈ kids rest, val j = val' j := by
      intro j hj
      obtain ⟨b, hb, hj⟩ := List.mem_flatMap.mp hj
      exact h j (List.mem_flatMap.mpr ⟨b, List.mem_cons_of_mem a hb, hj⟩)
    rw [List.foldl_cons, List.foldl_cons, Attachment.put, Attachment.put, ha, ih hrest]

end Taking

theorem payloadAt_modify (payloads : Array Document) (i j : Nat) (d : Document)
    (hi : i < payloads.size) :
    payloadAt (payloads.modify i fun _ => d) j = if i = j then d else payloadAt payloads j := by
  unfold payloadAt
  rw [Array.getElem?_modify]
  by_cases h : i = j
  · subst h
    simp [hi]
  · simp [h]

theorem payloadAt_take (payloads : Array Document) (i j : Nat) :
    payloadAt (payloads.modify i fun _ => []) j = if i = j then [] else payloadAt payloads j := by
  unfold payloadAt
  rw [Array.getElem?_modify]
  by_cases h : i = j
  · subst h
    cases payloads[i]? <;> simp
  · simp [h]

/-- Taking some targets gives their values, and leaves their nodes empty. -/
theorem takeTargets_eq (ts : List Target) (payloads : Array Document) (h : (kidsOf ts).Nodup) :
    ∃ left, takeTargets payloads ts = (ts.map (Target.value (payloadAt payloads)), left) ∧
      left.size = payloads.size ∧
      ∀ j, payloadAt left j = if j ∈ kidsOf ts then [] else payloadAt payloads j := by
  induction ts generalizing payloads with
  | nil => exact ⟨payloads, rfl, rfl, by simp [kidsOf]⟩
  | cons t rest ih =>
    cases t with
    | unexpanded raw =>
      obtain ⟨left, heq, hsize, hleft⟩ := ih payloads h
      refine ⟨left, ?_, hsize, hleft⟩
      simp only [takeTargets, heq, List.map_cons, Target.value]
    | node i =>
      obtain ⟨hi, hrest⟩ := List.nodup_cons.mp h
      obtain ⟨left, heq, hsize, hleft⟩ := ih (payloads.modify i fun _ => []) hrest
      -- no later target is this node, whose payload is gone by then
      have hvalues : rest.map (Target.value (payloadAt (payloads.modify i fun _ => []))) =
          rest.map (Target.value (payloadAt payloads)) := by
        refine Target.value_congr fun j hj => ?_
        rw [payloadAt_take, if_neg]
        rintro rfl
        exact hi hj
      refine ⟨left, ?_, by rw [hsize, Array.size_modify], fun j => ?_⟩
      · simp only [takeTargets, takePayload, heq, hvalues, List.map_cons, Target.value, payloadAt]
      · have hmem : j ∈ kidsOf (.node i :: rest) ↔ j = i ∨ j ∈ kidsOf rest := List.mem_cons
        rw [hleft, payloadAt_take]
        grind

/-- Attaching gives an owner the values of all its targets. -/
theorem foldl_attach_eq (atts : List Attachment) (d : Document) (payloads : Array Document)
    (h : (kids atts).Nodup) :
    ∃ left, atts.foldl attach (d, payloads) =
        (atts.foldl (Attachment.put (payloadAt payloads)) d, left) ∧
      left.size = payloads.size ∧
      ∀ j, payloadAt left j = if j ∈ kids atts then [] else payloadAt payloads j := by
  induction atts generalizing d payloads with
  | nil => exact ⟨payloads, rfl, rfl, by simp [kids]⟩
  | cons a rest ih =>
    have hsplit : kids (a :: rest) = kidsOf a.targets ++ kids rest := rfl
    rw [hsplit] at h ⊢
    obtain ⟨ha, hrest, hdisj⟩ := List.nodup_append.mp h
    obtain ⟨mid, hmid, hsize, hat⟩ := takeTargets_eq a.targets payloads ha
    obtain ⟨left, heq, hsize', hat'⟩ := ih (a.put (payloadAt payloads) d) mid hrest
    -- the later attachments have none of the nodes that the first one takes
    have hput : rest.foldl (Attachment.put (payloadAt mid)) (a.put (payloadAt payloads) d) =
        rest.foldl (Attachment.put (payloadAt payloads)) (a.put (payloadAt payloads) d) := by
      refine foldl_put_congr (fun j hj => ?_) _
      rw [hat, if_neg]
      exact fun hmem => hdisj j hmem j hj rfl
    have hattach : attach (d, payloads) a = (a.put (payloadAt payloads) d, mid) := by
      simp only [attach, hmid, Attachment.put]
    refine ⟨left, ?_, hsize'.trans hsize, fun j => ?_⟩
    · rw [List.foldl_cons, hattach, heq, hput, List.foldl_cons]
    · rw [hat', hat]
      simp only [List.mem_append]
      grind

/-! ### The sweep -/

/-- The payloads when all nodes from an index on have been completed: those that
no later owner has taken have their values, and the earlier nodes wait. -/
structure Swept (nodes : Array Node) (val : Nat → Document) (n : Nat)
    (payloads : Array Document) : Prop where
  size_eq : payloads.size = nodes.size
  waiting : ∀ (i : Nat) (node : Node), nodes[i]? = some node → i < n →
    payloadAt payloads i = node.payload
  complete : ∀ (i : Nat) (node : Node), nodes[i]? = some node → n ≤ i →
    (∀ p, node.parent = some p → p < n) → payloadAt payloads i = val i

section Sweep

variable {nodes : Array Node} {val : Nat → Document}

theorem Swept.start (nodes : Array Node) (val : Nat → Document) :
    Swept nodes val nodes.size (nodes.map Node.payload) where
  size_eq := Array.size_map
  waiting := by
    intro i node hi _
    simp [payloadAt, hi]
  complete := by
    intro i node hi hle
    obtain ⟨hlt, -⟩ := Array.getElem?_eq_some_iff.mp hi
    omega

theorem lt_of_mem_kids (h : ParentsFirst nodes) (hforest : Forest nodes) {n : Nat} {node : Node}
    (hnode : nodes[n]? = some node) {j : Nat} (hj : j ∈ kids node.attachments) : n < j := by
  obtain ⟨child, hchild, hparent⟩ := (hforest n node hnode).2 j hj
  exact h j child hchild n hparent

/-- Completing a node whose targets are complete takes the payloads of its targets, and
outside of the node and its targets nothing changes. -/
theorem payloadAt_complete (h : ParentsFirst nodes) (hforest : Forest nodes)
    (hval : ∀ (i : Nat) (node : Node), nodes[i]? = some node → node.completed val = val i)
    {n : Nat} {payloads : Array Document} {node : Node} (hnode : nodes[n]? = some node)
    (hs : Swept nodes val (n + 1) payloads) :
    (complete nodes payloads n).size = nodes.size ∧ ∀ j, payloadAt (complete nodes payloads n) j =
      if n = j then val n else if j ∈ kids node.attachments then [] else payloadAt payloads j := by
  obtain ⟨hn, -⟩ := Array.getElem?_eq_some_iff.mp hnode
  obtain ⟨hnodup, hkids⟩ := hforest n node hnode
  obtain ⟨left, heq, hsize, hleft⟩ :=
    foldl_attach_eq node.attachments (payloadAt payloads n) (payloads.modify n fun _ => []) hnodup
  have hput : node.attachments.foldl (Attachment.put (payloadAt
      (payloads.modify n fun _ => []))) (payloadAt payloads n) = val n := by
    rw [← hval n node hnode, Node.completed, ← hs.waiting n node hnode (Nat.lt_succ_self n)]
    refine foldl_put_congr (fun j hj => ?_) _
    -- a target has been completed, and its owner has not taken it yet
    obtain ⟨child, hchild, hparent⟩ := hkids j hj
    have hlt := lt_of_mem_kids h hforest hnode hj
    rw [payloadAt_take, if_neg (by omega)]
    refine hs.complete j child hchild hlt fun p hp => ?_
    obtain rfl : n = p := Option.some.inj (hparent.symm.trans hp)
    exact Nat.lt_succ_self n
  have hdef : complete nodes payloads n = left.modify n fun _ => val n := by
    rw [← hput]
    simp only [complete, hnode, takePayload]
    rw [show payloads[n]?.getD [] = payloadAt payloads n from rfl, heq]
  have hsize' : left.size = nodes.size := by
    rw [hsize, Array.size_modify, hs.size_eq]
  refine ⟨by rw [hdef, Array.size_modify, hsize'], fun j => ?_⟩
  rw [hdef, payloadAt_modify _ _ _ _ (by omega), hleft, payloadAt_take]
  grind

/-- Completing a node whose targets are complete. -/
theorem complete_of_tree (h : ParentsFirst nodes) (hforest : Forest nodes)
    (hval : ∀ (i : Nat) (node : Node), nodes[i]? = some node → node.completed val = val i)
    {n : Nat} {payloads : Array Document} (hn : n < nodes.size)
    (hs : Swept nodes val (n + 1) payloads) : Swept nodes val n (complete nodes payloads n) := by
  have hnode : nodes[n]? = some nodes[n] := Array.getElem?_eq_getElem hn
  obtain ⟨hsize, hat⟩ := payloadAt_complete h hforest hval hnode hs
  refine ⟨hsize, ?_, ?_⟩
  · intro i node hi hlt
    rw [hat, if_neg (by omega), if_neg]
    · exact hs.waiting i node hi (by omega)
    · intro hmem
      have := lt_of_mem_kids h hforest hnode hmem
      omega
  · intro i node hi hle hparent
    rw [hat]
    by_cases hin : n = i
    · rw [if_pos hin, hin]
    · rw [if_neg hin, if_neg]
      · refine hs.complete i node hi (by omega) fun p hp => ?_
        have := hparent p hp
        omega
      · intro hmem
        obtain ⟨child, hchild, hp⟩ := (hforest n _ hnode).2 i hmem
        obtain rfl : node = child := Option.some.inj (hi.symm.trans hchild)
        have := hparent n hp
        omega

/-- The payloads when the nodes from an index on have been completed. -/
def sweptFrom (nodes : Array Node) (n : Nat) : Array Document :=
  (List.range' n (nodes.size - n)).reverse.foldl (complete nodes) (nodes.map Node.payload)

theorem sweptFrom_size (nodes : Array Node) :
    sweptFrom nodes nodes.size = nodes.map Node.payload := by
  rw [sweptFrom, Nat.sub_self]
  rfl

theorem sweptFrom_of_lt {n : Nat} (hn : n < nodes.size) :
    sweptFrom nodes n = complete nodes (sweptFrom nodes (n + 1)) n := by
  have hrange : List.range' n (nodes.size - n) =
      n :: List.range' (n + 1) (nodes.size - (n + 1)) := by
    rw [show nodes.size - n = nodes.size - (n + 1) + 1 by omega]
    rfl
  rw [sweptFrom, hrange, List.reverse_cons, List.foldl_concat]
  rfl

/-- The assembled documents are the first payloads that the sweep leaves. -/
theorem assemble_eq_take (nodes : Array Node) (roots : Nat) :
    assemble nodes roots = (sweptFrom nodes 0).toList.take roots := by
  rw [assemble, sweptFrom, List.range_eq_range', Nat.sub_zero]

theorem swept_sweptFrom (h : ParentsFirst nodes) (hforest : Forest nodes)
    (hval : ∀ (i : Nat) (node : Node), nodes[i]? = some node → node.completed val = val i)
    {n : Nat} (hn : n ≤ nodes.size) : Swept nodes val n (sweptFrom nodes n) := by
  -- downwards from the end, where nothing has been completed
  induction hn using Nat.decreasingInduction with
  | self =>
    rw [sweptFrom_size]
    exact Swept.start nodes val
  | of_succ n hlt ih =>
    rw [sweptFrom_of_lt hlt]
    exact complete_of_tree h hforest hval hlt ih

/-- The roots come out with any values that solve the equations of the nodes. -/
theorem assemble_eq (h : ParentsFirst nodes) (hforest : Forest nodes)
    (hval : ∀ (i : Nat) (node : Node), nodes[i]? = some node → node.completed val = val i)
    {roots : Nat} (hroots : ∀ i < roots, ∃ node, nodes[i]? = some node ∧ node.parent = none) :
    assemble nodes roots = (List.range roots).map val := by
  have hs := swept_sweptFrom h hforest hval (Nat.zero_le _)
  rw [assemble_eq_take]
  -- of the payloads only what `Swept` says of them matters
  generalize sweptFrom nodes 0 = payloads at hs ⊢
  refine List.ext_getElem? fun i => ?_
  rw [List.getElem?_take, List.getElem?_map]
  by_cases hi : i < roots
  · obtain ⟨node, hnode, hp⟩ := hroots i hi
    have hlt : i < payloads.size := by
      obtain ⟨hlt, -⟩ := Array.getElem?_eq_some_iff.mp hnode
      rwa [hs.size_eq]
    have hat := hs.complete i node hnode (Nat.zero_le i) (by simp [hp])
    rw [if_pos hi, List.getElem?_range hi, Option.map_some, ← hat]
    simp [payloadAt, hlt]
  · rw [if_neg hi, List.getElem?_eq_none (by simpa using hi), Option.map_none]

end Sweep

end ContentQuery.Reference
