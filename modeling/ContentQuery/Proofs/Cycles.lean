/-
What ends the expansion of a cycle.

The keys between a node and its root are distinct, and all but that of the root
are keys of stored documents.  So no way down is longer than the number of stored
keys, and the frontier is empty one level later at the latest:

* `depth_le_storedKeys` — the bound on every way down;
* `exists_descent` — so the levels run out, whatever more would be allowed;
* `resolve_runs_out` — a depth limit beyond the number of stored keys is never
  reached and changes nothing.
-/
import ContentQuery.Pattern.Reading
import ContentQuery.Proofs.DepthFirst
import Mathlib.Data.List.Dedup
import Mathlib.Data.List.Perm.Subperm

namespace ContentQuery

/-- The keys of the documents of a collection, each of them once. -/
def MemoryStore.storedKeys (m : MemoryStore) (collection : String) : List Key :=
  ((m.documents collection).filterMap keyOf?).dedup

/-- A key that leads to a payload is stored. -/
theorem MemoryStore.mem_storedKeys {m : MemoryStore} {collection : String}
    {projection : Option Document} {k : Key} (h : (m.payload? collection projection k).isSome) :
    k ∈ m.storedKeys collection := by
  unfold payload? at h
  cases hfind : (m.documents collection).find? fun d => keyOf? d == some k with
  | none => simp [hfind] at h
  | some raw =>
    have hkey : keyOf? raw = some k := by simpa using List.find?_some hfind
    exact List.mem_dedup.mpr (List.mem_filterMap.mpr ⟨raw, List.mem_of_find?_eq_some hfind, hkey⟩)

namespace Reference

variable {m : MemoryStore} {x : Expansion} {docs : List Document} {n b : Nat} {a : Arena}

/-! ### How far down a node can be -/

/-- The keys below the root on the way to a node. -/
theorem exists_keys_below_root (h : Staged m x docs n b a) {i : Nat} (hi : i < a.nodes.size) :
    ∃ ks : List Key, ks.length = depth a.nodes i ∧ ks.Nodup ∧
      (∀ k ∈ ks, k ∈ m.storedKeys x.collection) ∧ ∀ k ∈ ks, k ∈ ancestors a.nodes i := by
  induction i using Nat.strongRecOn with
  | _ i ih =>
    have hnode : a.nodes[i]? = some a.nodes[i] := Array.getElem?_eq_getElem hi
    cases hparent : a.nodes[i].parent with
    | none => exact ⟨[], (h.parentsFirst.depth_root hnode hparent).symm, by simp⟩
    | some p =>
      have hpi := h.parentsFirst i _ hnode p hparent
      obtain ⟨k, hkey, hlook, hk⟩ := h.child i _ p hnode hparent
      obtain ⟨ks, hlen, hnodup, hstored, habove⟩ := ih p hpi (by omega)
      have hup : ancestors a.nodes i = k :: ancestors a.nodes p := by
        rw [h.parentsFirst.ancestors_child hnode hparent, hkey]
        rfl
      refine ⟨k :: ks, ?_, ?_, ?_, ?_⟩
      · rw [h.parentsFirst.depth_child hnode hparent, List.length_cons, hlen]
      · -- the key of a node is none of those above it, for that would close a cycle
        exact List.nodup_cons.mpr ⟨fun hmem => hk (habove k hmem), hnodup⟩
      · exact List.forall_mem_cons.mpr ⟨MemoryStore.mem_storedKeys hlook, hstored⟩
      · rw [hup]
        intro j hj
        rcases List.mem_cons.mp hj with rfl | hj
        · exact List.mem_cons_self
        · exact List.mem_cons_of_mem k (habove j hj)

theorem depth_le_storedKeys (h : Staged m x docs n b a) {i : Nat} (hi : i < a.nodes.size) :
    depth a.nodes i ≤ (m.storedKeys x.collection).length := by
  obtain ⟨ks, hlen, hnodup, hstored, -⟩ := exists_keys_below_root h hi
  rw [← hlen]
  exact (List.subperm_of_subset hnodup hstored).length_le

/-- Beyond as many levels as there are keys nothing waits. -/
theorem le_storedKeys_of_waiting (h : Staged m x docs n b a) (hwait : frontierFrom b a ≠ []) :
    n ≤ (m.storedKeys x.collection).length := by
  obtain ⟨i, hi⟩ := List.exists_mem_of_ne_nil _ hwait
  obtain ⟨hb, hlt⟩ := (mem_frontierFrom h.le_size i).mp hi
  rw [← (h.waiting i _ (Array.getElem?_eq_getElem hlt) hb).1]
  exact depth_le_storedKeys h hlt

/-! ### Running out -/

/-- Some levels, each of a frontier that is not empty, lead from one arena and its
frontier to another. -/
inductive Descends [PatternLanguage] (m : MemoryStore) (x : Expansion) :
    Nat → Arena → List Nat → Arena → List Nat → Prop
  | stay (a : Arena) (frontier : List Nat) : Descends m x 0 a frontier a frontier
  | level {l : Nat} {a a' a'' : Arena} {frontier next last : List Nat} :
      frontier ≠ [] → (m.run (x.level a frontier)).outcome = .ok (a', next) →
      Descends m x l a' next a'' last → Descends m x (l + 1) a frontier a'' last

/-- The levels run out, and to allow more of them makes no difference. -/
theorem exists_descent [PatternLanguage] (hp : Projection.OnlyPayload x.projection) {n b : Nat}
    {a : Arena} (h : Staged m x docs n b a) (hn : n ≤ (m.storedKeys x.collection).length + 1) :
    ∃ l a' calls log, n + l ≤ (m.storedKeys x.collection).length + 1 ∧
      Descends m x l a (frontierFrom b a) a' [] ∧
      (∀ d, l ≤ d → m.run (x.levels d a (frontierFrom b a)) =
        { outcome := .ok (a', []), calls, log }) ∧
      ∀ line ∈ log, ∃ k path, line = cycleNote k path := by
  by_cases hempty : frontierFrom b a = []
  · rw [hempty]
    refine ⟨0, a, [], [], by omega, .stay a [], fun d _ => ?_, by simp⟩
    rw [x.levels_nil]
    rfl
  · have hle := le_storedKeys_of_waiting h hempty
    obtain ⟨a₁, calls₁, log₁, hrun₁, h₁, hlog₁⟩ := staged_level hp h
    -- one level further down fewer levels are left than keys are stored
    obtain ⟨l, a', calls, log, hl, hdescends, hrun, hlog⟩ := exists_descent hp h₁ (by omega)
    refine ⟨l + 1, a', calls₁ ++ calls, log₁ ++ log, by omega, ?_, ?_, ?_⟩
    · exact .level hempty (by rw [hrun₁]) hdescends
    · intro d hd
      obtain ⟨d, rfl⟩ : ∃ d', d = d' + 1 := ⟨d - 1, by omega⟩
      rw [x.levels_succ hempty, m.run_bind_of_ok hrun₁, hrun d (by omega)]
      rfl
    · intro line hline
      exact (List.mem_append.mp hline).elim (hlog₁ line) (hlog line)
termination_by (m.storedKeys x.collection).length + 1 - n
decreasing_by omega

/-! ### The depth limit -/

/-- A level does not know how many more are allowed. -/
theorem level_withDepth (x : Expansion) (d : Nat) (a : Arena) (frontier : List Nat) :
    { x with maxDepth := d }.level a frontier = x.level a frontier := rfl

theorem levels_withDepth (x : Expansion) (d l : Nat) (a : Arena) (frontier : List Nat) :
    { x with maxDepth := d }.levels l a frontier = x.levels l a frontier := by
  induction l generalizing a frontier with
  | zero => rfl
  | succ l ih =>
    by_cases hempty : frontier = []
    · rw [hempty]
      rfl
    · rw [Expansion.levels_succ _ hempty, x.levels_succ hempty, level_withDepth]
      exact congrArg _ (funext fun r => ih r.1 r.2)

theorem Descends.withDepth [PatternLanguage] {l : Nat} {a a' : Arena} {frontier last : List Nat}
    (h : Descends m x l a frontier a' last) (d : Nat) :
    Descends m { x with maxDepth := d } l a frontier a' last := by
  induction h with
  | stay a frontier => exact .stay a frontier
  | level hne hrun _ ih => exact .level hne hrun ih

theorem depthNote_ne_cycleNote (d : Nat) (k : Key) (path : String) :
    depthNote d ≠ cycleNote k path := by
  intro h
  -- the texts part at their eleventh character
  have hchar := congrArg (fun line => line.text.toList[10]?) h
  simp only [depthNote, cycleNote, String.toList_append, List.append_assoc] at hchar
  rw [List.getElem?_append_left (by decide), List.getElem?_append_left (by decide)] at hchar
  exact absurd hchar (by decide)

/-- Any limit beyond the number of stored keys gives the same expansion: its levels
run out before the limit, which is not mentioned in the log. -/
theorem resolve_runs_out [PatternLanguage] (m : MemoryStore) (x : Expansion) (docs : List Document)
    (hp : Projection.OnlyPayload x.projection) (hmode : x.mode ≠ .none) :
    ∃ l a r, l ≤ (m.storedKeys x.collection).length + 1 ∧
      r.outcome = .ok (assemble a.nodes docs.length) ∧ (∀ d, depthNote d ∉ r.log) ∧
      ∀ d, (m.storedKeys x.collection).length < d →
        Descends m { x with maxDepth := d } l (rootArena docs) (List.range docs.length) a [] ∧
        (m.run ({ x with maxDepth := d }.levels d (rootArena docs)
          (List.range docs.length))).outcome = .ok (a, []) ∧
        m.run ({ x with maxDepth := d }.resolve docs) = r := by
  obtain ⟨l, a, calls, log, hl, hdescends, hrun, hlog⟩ :=
    exists_descent hp (staged_rootArena m x docs) (Nat.zero_le _)
  have hfrontier := frontierFrom_rootArena docs
  have hrunDepth (d : Nat) (hd : (m.storedKeys x.collection).length < d) :
      m.run ({ x with maxDepth := d }.levels d (rootArena docs)
        (frontierFrom 0 (rootArena docs))) = { outcome := .ok (a, []), calls, log } := by
    rw [levels_withDepth, hrun d (by omega)]
  refine ⟨l, a, { outcome := .ok (assemble a.nodes docs.length), calls, log }, by omega, rfl,
    ?_, fun d hd => ⟨?_, ?_, ?_⟩⟩
  · intro d hmem
    obtain ⟨k, path, heq⟩ := hlog _ hmem
    exact depthNote_ne_cycleNote d k path heq
  · rw [← hfrontier]
    exact hdescends.withDepth d
  · rw [← hfrontier, hrunDepth d hd]
  · rw [resolve_eq_bind (x := { x with maxDepth := d }) hmode]
    rw [m.run_bind_of_ok (hrunDepth d hd), m.run_bind_of_ok (m.run_notes _)]
    simp [Plan.after]

open scoped Pattern in
/-- The two pages that name each other need three levels at most. -/
theorem pagePair_runs_out :
    Projection.OnlyPayload pagePairExpansion.projection ∧ pagePairExpansion.mode ≠ .none ∧
    ∃ l a r, l ≤ 3 ∧ r.outcome = .ok (assemble a.nodes 1) ∧ (∀ d, depthNote d ∉ r.log) ∧
      ∀ d, 2 < d →
        Descends pagePair { pagePairExpansion with maxDepth := d } l
          (rootArena [linkedPage "a" "b"]) [0] a [] ∧
        (pagePair.run ({ pagePairExpansion with maxDepth := d }.levels d
          (rootArena [linkedPage "a" "b"]) [0])).outcome = .ok (a, []) ∧
        pagePair.run ({ pagePairExpansion with maxDepth := d }.resolve [linkedPage "a" "b"]) = r := by
  have hp : Projection.OnlyPayload pagePairExpansion.projection := by decide
  have hmode : pagePairExpansion.mode ≠ .none := by decide
  exact ⟨hp, hmode, resolve_runs_out pagePair pagePairExpansion [linkedPage "a" "b"] hp hmode⟩

end Reference

end ContentQuery
