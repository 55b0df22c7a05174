/-
The way from a node of an arena to its root.

Parents stand in front of their children, so the way up ends within as many
steps as there are nodes, and it does not change while nodes are added behind
the others and attachments are given to owners:

* `ParentsFirst.wayUp_child` — the way of a node is the node and then the way of
  its parent;
* `Grows.ancestors_eq`, `Grows.depth_eq` — growing an arena changes the way of no
  node;
* `onPath_iff` — the cycle check looks a key up among the ancestors.
-/
import ContentQuery.Reference.Expansion
import Mathlib.Tactic.ByContra

namespace ContentQuery.Reference

/-- Every parent stands in front of its children. -/
def ParentsFirst (nodes : Array Node) : Prop :=
  ∀ (i : Nat) (node : Node), nodes[i]? = some node → ∀ p, node.parent = some p → p < i

/-- The way from a node to its root. -/
def wayUp (nodes : Array Node) (i : Nat) : List Node := lineage nodes nodes.size i

/-- The keys on the way from a node to its root, its own first. -/
def ancestors (nodes : Array Node) (i : Nat) : List Key := (wayUp nodes i).filterMap Node.key

/-- The number of steps from a node to its root. -/
def depth (nodes : Array Node) (i : Nat) : Nat := (wayUp nodes i).tail.length

theorem onPath_iff {nodes : Array Node} {i : Nat} {k : Key} :
    onPath nodes i k = true ↔ k ∈ ancestors nodes i := by
  simp [onPath, ancestors, wayUp]

theorem onPath_eq_false_iff {nodes : Array Node} {i : Nat} {k : Key} :
    onPath nodes i k = false ↔ k ∉ ancestors nodes i := by
  rw [← onPath_iff, Bool.not_eq_true]

namespace ParentsFirst

variable {nodes : Array Node} (h : ParentsFirst nodes)
include h

/-- Fuel beyond the index of a node makes no difference. -/
theorem lineage_stable {i a b : Nat} (ha : i < a) (hb : i < b) :
    lineage nodes a i = lineage nodes b i := by
  induction i using Nat.strongRecOn generalizing a b with
  | _ i ih =>
    obtain ⟨a, rfl⟩ : ∃ a', a = a' + 1 := ⟨a - 1, by omega⟩
    obtain ⟨b, rfl⟩ : ∃ b', b = b' + 1 := ⟨b - 1, by omega⟩
    rw [lineage, lineage]
    cases hnode : nodes[i]? with
    | none => rfl
    | some node =>
      cases hp : node.parent with
      | none => simp only [hp]
      | some p =>
        -- the parent stands in front, so either fuel reaches it
        have hlt := h i node hnode p hp
        simp only [hp, ih p hlt (a := a) (b := b) (by omega) (by omega)]

theorem wayUp_root {i : Nat} {node : Node} (hi : nodes[i]? = some node)
    (hp : node.parent = none) : wayUp nodes i = [node] := by
  obtain ⟨hlt, -⟩ := Array.getElem?_eq_some_iff.mp hi
  rw [wayUp, h.lineage_stable hlt (Nat.lt_succ_self i), lineage, hi]
  simp only [hp]

theorem wayUp_child {i p : Nat} {node : Node} (hi : nodes[i]? = some node)
    (hp : node.parent = some p) : wayUp nodes i = node :: wayUp nodes p := by
  obtain ⟨hlt, -⟩ := Array.getElem?_eq_some_iff.mp hi
  have hpi := h i node hi p hp
  rw [wayUp, h.lineage_stable hlt (Nat.lt_succ_self i), lineage, hi]
  simp only [hp]
  rw [wayUp, h.lineage_stable (b := nodes.size) hpi (by omega)]

theorem ancestors_root {i : Nat} {node : Node} (hi : nodes[i]? = some node)
    (hp : node.parent = none) : ancestors nodes i = node.key.toList := by
  rw [ancestors, h.wayUp_root hi hp]
  cases hk : node.key <;> simp [hk]

theorem ancestors_child {i p : Nat} {node : Node} (hi : nodes[i]? = some node)
    (hp : node.parent = some p) :
    ancestors nodes i = node.key.toList ++ ancestors nodes p := by
  rw [ancestors, h.wayUp_child hi hp, ancestors]
  cases hk : node.key <;> simp [hk]

theorem depth_root {i : Nat} {node : Node} (hi : nodes[i]? = some node)
    (hp : node.parent = none) : depth nodes i = 0 := by
  rw [depth, h.wayUp_root hi hp]
  rfl

theorem wayUp_ne_nil {i : Nat} (hi : i < nodes.size) : wayUp nodes i ≠ [] := by
  have hnode : nodes[i]? = some nodes[i] := Array.getElem?_eq_getElem hi
  cases hp : nodes[i].parent with
  | none => simp [h.wayUp_root hnode hp]
  | some p => simp [h.wayUp_child hnode hp]

theorem depth_child {i p : Nat} {node : Node} (hi : nodes[i]? = some node)
    (hp : node.parent = some p) : depth nodes i = depth nodes p + 1 := by
  obtain ⟨hlt, -⟩ := Array.getElem?_eq_some_iff.mp hi
  have hpi := h i node hi p hp
  have hne := h.wayUp_ne_nil (i := p) (by omega)
  rw [depth, h.wayUp_child hi hp, List.tail_cons, depth, List.length_tail]
  have := List.length_pos_iff.mpr hne
  omega

end ParentsFirst

/-! ### Growing -/

/-- An arena with more nodes behind the present ones, and with more attachments
of the present ones. -/
def Grows (a b : Array Node) : Prop :=
  ∀ (i : Nat) (node : Node), a[i]? = some node → ∃ atts, b[i]? = some { node with attachments := atts }

namespace Grows

variable {a b c : Array Node}

theorem trans (hab : Grows a b) (hbc : Grows b c) : Grows a c := by
  intro i node hi
  obtain ⟨_, hb⟩ := hab i node hi
  obtain ⟨atts, hc⟩ := hbc i _ hb
  exact ⟨atts, hc⟩

theorem append (a more : Array Node) : Grows a (a ++ more) := by
  intro i node hi
  obtain ⟨hlt, -⟩ := Array.getElem?_eq_some_iff.mp hi
  exact ⟨node.attachments, by rw [Array.getElem?_append_left hlt, hi]⟩

theorem push (a : Array Node) (node : Node) : Grows a (a.push node) := by
  rw [← Array.append_singleton]
  exact append a #[node]

theorem modify (a : Array Node) (o : Nat) (f : List Attachment → List Attachment) :
    Grows a (a.modify o fun node => { node with attachments := f node.attachments }) := by
  intro i node hi
  rw [Array.getElem?_modify, hi]
  by_cases ho : o = i
  · exact ⟨f node.attachments, by rw [if_pos ho]; rfl⟩
  · exact ⟨node.attachments, by rw [if_neg ho]⟩

theorem size_le (h : Grows a b) : a.size ≤ b.size := by
  by_contra hlt
  have hi : a[b.size]? = some a[b.size] := Array.getElem?_eq_getElem (by omega)
  obtain ⟨_, hb⟩ := h _ _ hi
  simp at hb

/-- The way up from a node passes nodes of the same keys. -/
theorem map_key_wayUp (h : Grows a b) (ha : ParentsFirst a) (hb : ParentsFirst b) {i : Nat}
    (hi : i < a.size) : (wayUp b i).map Node.key = (wayUp a i).map Node.key := by
  induction i using Nat.strongRecOn with
  | _ i ih =>
    have hnode : a[i]? = some a[i] := Array.getElem?_eq_getElem hi
    obtain ⟨atts, hnode'⟩ := h i _ hnode
    cases hp : a[i].parent with
    | none => rw [ha.wayUp_root hnode hp, hb.wayUp_root hnode' hp, List.map_singleton,
        List.map_singleton]
    | some p =>
      have hlt := ha i _ hnode p hp
      rw [ha.wayUp_child hnode hp, hb.wayUp_child hnode' hp, List.map_cons, List.map_cons,
        ih p hlt (by omega)]

theorem ancestors_eq (h : Grows a b) (ha : ParentsFirst a) (hb : ParentsFirst b) {i : Nat}
    (hi : i < a.size) : ancestors b i = ancestors a i := by
  have hmap := congrArg (List.filterMap id) (h.map_key_wayUp ha hb hi)
  rw [List.filterMap_map, List.filterMap_map, Function.id_comp] at hmap
  exact hmap

theorem depth_eq (h : Grows a b) (ha : ParentsFirst a) (hb : ParentsFirst b) {i : Nat}
    (hi : i < a.size) : depth b i = depth a i := by
  have hlen := congrArg List.length (h.map_key_wayUp ha hb hi)
  rw [List.length_map, List.length_map] at hlen
  rw [depth, depth, List.length_tail, List.length_tail, hlen]

theorem onPath_eq (h : Grows a b) (ha : ParentsFirst a) (hb : ParentsFirst b) {i : Nat}
    (hi : i < a.size) (k : Key) : onPath b i k = onPath a i k := by
  rw [Bool.eq_iff_iff, onPath_iff, onPath_iff, h.ancestors_eq ha hb hi]

end Grows

end ContentQuery.Reference
