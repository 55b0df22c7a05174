/-
Running plans against a store in memory.

A store in memory answers a request in the same way however often it has been
asked, so what a run leaves behind does not depend on the calls before it:

* `run_toStore` — the number of earlier calls does not matter;
* `run_bind_of_ok` — a plan after one that has succeeded, with everything that
  is reported;
* `run_map` — a plan of which only the outcome is changed;
* `outcome_bind` — a plan after another succeeds if both do;
* `calls_bind_of_ok`, `calls_bind_of_error` — the calls of a plan, and those of the
  plan after it if it has succeeded;
* `mem_log_bind` — and so for what is logged.
-/
import ContentQuery.Store.Memory

namespace ContentQuery

namespace Plan

variable {α β : Type}

@[simp] theorem pure_eq_done (a : α) : (pure a : Plan α) = done (.ok a) := rfl

@[simp] theorem bind_eq_bind (p : Plan α) (f : α → Plan β) : p >>= f = p.bind f := rfl

@[simp] theorem outcome_after (calls : List CallRecord) (log : List LogLine) (r : Report α) :
    (after calls log r).outcome = r.outcome := rfl

@[simp] theorem log_after (calls : List CallRecord) (log : List LogLine) (r : Report α) :
    (after calls log r).log = log ++ r.log := rfl

end Plan

namespace MemoryStore

variable [PatternLanguage] {α β : Type} (m : MemoryStore)

/-- What a plan leaves behind when it is run against a store in memory. -/
def run (p : Plan α) : Report α := p.run m.toStore 0

@[simp] theorem find_toStore (n : Nat) (c : String) (filter : Document) (options : FindOptions) :
    m.toStore.find n c filter options = report (m.find c filter options) := rfl

@[simp] theorem count_toStore (n : Nat) (c : String) (filter : Document) :
    m.toStore.count n c filter = report (m.count c filter) := rfl

theorem run_toStore (p : Plan α) (n : Nat) : p.run m.toStore n = m.run p := by
  unfold run
  -- from any two numbers of calls, since the plan goes on with the next ones
  suffices h : ∀ k, p.run m.toStore n = p.run m.toStore k from h 0
  induction p generalizing n with
  | done outcome => intro k; rfl
  | note line next ih => intro k; rw [Plan.run, Plan.run, ih n k]
  | find c filter options next ih =>
    intro k
    simp only [Plan.run, find_toStore]
    cases report (m.find c filter options) with
    | ok docs => simp only [ih docs (n + 1) (k + 1)]
    | error e => rfl
  | count c filter next ih =>
    intro k
    simp only [Plan.run, count_toStore]
    cases report (m.count c filter) with
    | ok total => simp only [ih total (n + 1) (k + 1)]
    | error e => rfl

@[simp] theorem run_done (outcome : Except Error α) : m.run (.done outcome) = { outcome } := rfl

@[simp] theorem run_ofExcept (outcome : Except Error α) :
    m.run (Plan.ofExcept outcome) = { outcome } := rfl

theorem run_ask (c : String) (filter : Document) (options : FindOptions) :
    m.run (Plan.ask c filter options) =
      match report (m.find c filter options) with
      | .ok docs => { outcome := .ok docs, calls := [⟨.find c filter options, some docs.length⟩] }
      | .error e => { outcome := .error e, calls := [⟨.find c filter options, none⟩] } := by
  simp only [run, Plan.ask, Plan.run, find_toStore]
  cases report (m.find c filter options) <;> rfl

@[simp] theorem outcome_run_ask (c : String) (filter : Document) (options : FindOptions) :
    (m.run (Plan.ask c filter options)).outcome = report (m.find c filter options) := by
  rw [run_ask]
  cases report (m.find c filter options) <;> rfl

@[simp] theorem outcome_run_askCount (c : String) (filter : Document) :
    (m.run (Plan.askCount c filter)).outcome = report (m.count c filter) := by
  simp only [run, Plan.askCount, Plan.run, count_toStore]
  cases report (m.count c filter) <;> rfl

theorem run_notes (lines : List LogLine) :
    m.run (Plan.notes lines) = { outcome := .ok (), log := lines } := by
  induction lines with
  | nil => rfl
  | cons line rest ih =>
    show Plan.after [] [line] (m.run (Plan.notes rest)) = _
    rw [ih]
    rfl

theorem run_bind (p : Plan α) (f : α → Plan β) :
    m.run (p.bind f) = Plan.continued m.toStore 0 (m.run p) f :=
  Plan.run_bind m.toStore p f 0

theorem run_bind_of_ok {p : Plan α} {a : α} {calls : List CallRecord} {log : List LogLine}
    (h : m.run p = { outcome := .ok a, calls, log }) (f : α → Plan β) :
    m.run (p.bind f) = Plan.after calls log (m.run (f a)) := by
  rw [run_bind, h]
  simp only [Plan.continued, run_toStore]

/-- A plan that only makes something of what another one has found. -/
theorem run_map (p : Plan α) (f : α → β) :
    m.run (p.bind fun a => pure (f a)) = { m.run p with outcome := (m.run p).outcome.map f } := by
  rw [run_bind]
  cases h : (m.run p).outcome with
  | ok a => simp [Plan.continued, h, Plan.run, Plan.after, Except.map]
  | error e => simp [Plan.continued, h, Except.map]

theorem outcome_bind (p : Plan α) (f : α → Plan β) :
    (m.run (p.bind f)).outcome = (m.run p).outcome.bind fun a => (m.run (f a)).outcome := by
  rw [run_bind]
  cases h : (m.run p).outcome with
  | ok a => simp only [Plan.continued, h, run_toStore, Plan.outcome_after]; rfl
  | error e => simp only [Plan.continued, h]; rfl

theorem outcome_do (p : Plan α) (f : α → Plan β) :
    (m.run (p >>= f)).outcome = (m.run p).outcome >>= fun a => (m.run (f a)).outcome :=
  m.outcome_bind p f

theorem calls_bind_of_ok {p : Plan α} {a : α} (h : (m.run p).outcome = .ok a) (f : α → Plan β) :
    (m.run (p.bind f)).calls = (m.run p).calls ++ (m.run (f a)).calls := by
  rw [run_bind]
  simp only [Plan.continued, h, run_toStore]
  rfl

theorem calls_bind_of_error {p : Plan α} {e : Error} (h : (m.run p).outcome = .error e)
    (f : α → Plan β) : (m.run (p.bind f)).calls = (m.run p).calls := by
  rw [run_bind]
  simp only [Plan.continued, h]

/-- What a plan logs, and what the plan after it does if it has succeeded. -/
theorem mem_log_bind (p : Plan α) (f : α → Plan β) (line : LogLine) :
    line ∈ (m.run (p.bind f)).log ↔ line ∈ (m.run p).log ∨
      ∃ a, (m.run p).outcome = .ok a ∧ line ∈ (m.run (f a)).log := by
  rw [run_bind]
  cases h : (m.run p).outcome with
  | ok a => simp [Plan.continued, h, run_toStore]
  | error e => simp [Plan.continued, h]

/-- A plan that asks nothing adds no calls. -/
theorem calls_bind_of_quiet (p : Plan α) {f : α → Plan β} (h : ∀ a, (m.run (f a)).calls = []) :
    (m.run (p.bind f)).calls = (m.run p).calls := by
  cases hp : (m.run p).outcome with
  | ok a => rw [m.calls_bind_of_ok hp, h, List.append_nil]
  | error e => exact m.calls_bind_of_error hp f

end MemoryStore

end ContentQuery
