/-
Every payload at every moment of the sweep.

The sweep completes the nodes of an arena from the last one to the first, and takes the
payloads of targets out of their places.  Where the nodes make up trees, a payload is seen
in three states: as its level has left it, complete, and taken by its parent:

* `completed_finished` — the payload of a node that is complete has those of its targets;
* `swept_finished` — a payload that waits is as its level has left it, and one that is
  complete keeps its place until its parent is completed;
* `payloadAt_of_le_parent` — then it is gone for good;
* `assemble_eq_finished` — and the roots, which nothing takes, come out in order.
-/
import ContentQuery.Proofs.Assembly
import Mathlib.Data.Nat.Init

namespace ContentQuery.Reference

/-- Every node that has a parent is among its targets. -/
def Covered (nodes : Array Node) : Prop :=
  ∀ (i : Nat) (node : Node) (p : Nat), nodes[i]? = some node → node.parent = some p →
    ∃ owner : Node, nodes[p]? = some owner ∧ i ∈ kids owner.attachments

/-- The payload of a node with those of its targets put in, a number of steps deep. -/
def finishedWithin (nodes : Array Node) : Nat → Nat → Document
  | 0, _ => []
  | fuel + 1, i =>
    match nodes[i]? with
    | none => []
    | some node => node.completed (finishedWithin nodes fuel)

/-- The payload of a node with those of its targets put in, and those of theirs. -/
def finished (nodes : Array Node) (i : Nat) : Document := finishedWithin nodes nodes.size i

theorem finishedWithin_of_size_le {nodes : Array Node} {i : Nat} (h : nodes.size ≤ i) (fuel : Nat) :
    finishedWithin nodes fuel i = [] := by
  cases fuel with
  | zero => rfl
  | succ fuel => rw [finishedWithin, Array.getElem?_eq_none h]

section Trees

variable {nodes : Array Node} (h : ParentsFirst nodes) (hforest : Forest nodes)
include h hforest

/-- More steps than there are nodes behind a node make no difference. -/
theorem finishedWithin_stable {i a b : Nat} (ha : nodes.size ≤ i + a) (hb : nodes.size ≤ i + b) :
    finishedWithin nodes a i = finishedWithin nodes b i := by
  induction a generalizing i b with
  | zero =>
    rw [Nat.add_zero] at ha
    rw [finishedWithin_of_size_le ha, finishedWithin_of_size_le ha]
  | succ a ih =>
    cases b with
    | zero =>
      rw [Nat.add_zero] at hb
      rw [finishedWithin_of_size_le hb, finishedWithin_of_size_le hb]
    | succ b =>
      rw [finishedWithin, finishedWithin]
      cases hnode : nodes[i]? with
      | none => rfl
      | some node =>
        refine foldl_put_congr (fun j hj => ?_) node.payload
        have hlt := lt_of_mem_kids h hforest hnode hj
        exact ih (by omega) (by omega)

/-- The payload of a node that is complete has those of its targets. -/
theorem completed_finished {i : Nat} {node : Node} (hnode : nodes[i]? = some node) :
    node.completed (finished nodes) = finished nodes i := by
  obtain ⟨hlt, -⟩ := Array.getElem?_eq_some_iff.mp hnode
  obtain ⟨k, hk⟩ : ∃ k, nodes.size = k + 1 := ⟨nodes.size - 1, by omega⟩
  have hself : finished nodes i = node.completed (finishedWithin nodes k) := by
    rw [finished, hk, finishedWithin, hnode]
  rw [hself]
  refine foldl_put_congr (fun j hj => ?_) node.payload
  have := lt_of_mem_kids h hforest hnode hj
  exact finishedWithin_stable h hforest (by omega) (by omega)

theorem swept_finished {n : Nat} (hn : n ≤ nodes.size) :
    Swept nodes (finished nodes) n (sweptFrom nodes n) :=
  swept_sweptFrom h hforest (fun _ _ => completed_finished h hforest) hn

/-- A payload that its parent has taken is gone for good. -/
theorem payloadAt_of_le_parent (hcovered : Covered nodes) {i p : Nat} {node : Node}
    (hnode : nodes[i]? = some node) (hp : node.parent = some p) {n : Nat} (hn : n ≤ p) :
    payloadAt (sweptFrom nodes n) i = [] := by
  obtain ⟨owner, howner, hmem⟩ := hcovered i node p hnode hp
  obtain ⟨hlt, -⟩ := Array.getElem?_eq_some_iff.mp howner
  have hpi := h i node hnode p hp
  -- a node at which the sweep completes a payload, and what that does to the others
  have hstep (j : Nat) (hj : j < nodes.size) := payloadAt_complete h hforest
    (fun _ _ => completed_finished h hforest) (Array.getElem?_eq_getElem hj)
    (swept_finished h hforest hj)
  induction hn using Nat.decreasingInduction with
  | self =>
    obtain ⟨-, hat⟩ := hstep p hlt
    rw [sweptFrom_of_lt hlt, hat, if_neg (by omega), if_pos]
    obtain rfl := Option.some.inj ((Array.getElem?_eq_getElem hlt).symm.trans howner)
    exact hmem
  | of_succ n hn ih =>
    have hn' : n < nodes.size := by omega
    obtain ⟨-, hat⟩ := hstep n hn'
    rw [sweptFrom_of_lt hn', hat, if_neg (by omega), ih, ite_self]

theorem assemble_eq_finished {roots : Nat}
    (hroots : ∀ i < roots, ∃ node, nodes[i]? = some node ∧ node.parent = none) :
    assemble nodes roots = (List.range roots).map (finished nodes) :=
  assemble_eq h hforest (fun _ _ => completed_finished h hforest) hroots

end Trees

end ContentQuery.Reference
