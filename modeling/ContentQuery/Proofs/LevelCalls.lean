/-
The lookups of one level, whatever the projection.

A lookup fails when its answer cannot be projected, and then it is the last one of
its level:

* `calls_level`, `outcome_level` — the calls of a level are those of its batch, and
  what they find is what the level goes on with;
* `untilFailure_lookup` — only a projection that mixes inclusions with
  exclusions fails, so without one all parts are asked for.
-/
import ContentQuery.Proofs.Cycles
import ContentQuery.Proofs.ProjectedKeys

namespace ContentQuery

namespace Reference

/-! ### A batch -/

section Batch

variable [PatternLanguage] (m : MemoryStore) (collection : String)

/-- Without a mixed projection every part is asked for. -/
theorem untilFailure_lookup {p : Document} (h : Projection.isMixed p = false) (ps : List Part) :
    untilFailure (ps.map (Part.lookup m collection (some p))) =
      ps.map (Part.lookup m collection (some p)) := by
  refine untilFailure_eq_self ?_
  rw [List.forall_mem_map]
  intro q hq
  rw [Part.lookup, MemoryStore.projectAll_eq, if_neg (by simp [h])]
  rfl

end Batch

/-! ### A level -/

/-- What a level starts from: the arena so far, and the nodes whose references it
expands. -/
structure Start where
  arena : Arena
  frontier : List Nat

namespace Expansion

variable [PatternLanguage] (x : Expansion) (m : MemoryStore)

/-- The parts that a level asks for. -/
def batch (s : Start) : List Part :=
  parts (wanted s.arena (s.frontier.flatMap (x.edges s.arena.nodes)))

/-- The call that asks for a part of a level. -/
def lookup (p : Part) : CallRecord := p.lookup m x.collection (some x.projection)

/-- The documents that the batch of a level finds, as far as they can be projected. -/
def answer (s : Start) : Except StoreFault (List Document) :=
  MemoryStore.projectAll (some x.projection)
    ((x.batch s).flatMap (Part.matched m x.collection))

/-- What a level makes of what it has found, for the next level to start from. -/
def grow (s : Start) (found : List Document) : Start :=
  let fetched := Entries.insertAll s.arena.fetched (byKey found)
  let g := (s.frontier.flatMap (x.edges s.arena.nodes)).foldl (attachEdge fetched)
    { nodes := s.arena.nodes }
  ⟨{ nodes := g.nodes, fetched }, g.next⟩

theorem calls_level (s : Start) :
    (m.run (x.level s.arena s.frontier)).calls = untilFailure ((x.batch s).map (x.lookup m)) := by
  show (m.run (Plan.bind (fetch _ _ _) fun found => _)).calls = _
  rw [m.calls_bind_of_quiet, run_fetch]
  · rfl
  · intro found
    show (m.run (Plan.bind (Plan.notes _) fun _ => _)).calls = []
    rw [m.run_bind_of_ok (m.run_notes _)]
    rfl

theorem outcome_level (s : Start) :
    (m.run (x.level s.arena s.frontier)).outcome = (MemoryStore.report (x.answer m s)).map
      fun found => ((x.grow s found).arena, (x.grow s found).frontier) := by
  show (m.run (Plan.bind (fetch _ _ _) fun found => _)).outcome = _
  rw [m.outcome_bind, run_fetch]
  show ((MemoryStore.report (x.answer m s)).map byKey).bind _ = _
  cases x.answer m s with
  | error cause => rfl
  | ok found =>
    show (m.run (Plan.bind (Plan.notes _) fun _ => _)).outcome = _
    rw [m.run_bind_of_ok (m.run_notes _)]
    rfl

end Expansion

end Reference

end ContentQuery
