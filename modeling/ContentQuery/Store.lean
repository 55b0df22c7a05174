/-
Stores, and computations that ask them.

The library only reads from a store, by finding documents and by counting them.
A `Plan` is a computation that may ask a store on its way; `Plan.run` answers
its requests one after the other and stops at the first one that fails.  The
report of a run has the outcome, every request with the size of its answer, and
the log lines.

* `run_bind` — running one plan after another runs the second where the first
  left off, if it succeeded;
* `Store.failingAt` — a store of which one call fails.
-/
import ContentQuery.Error
import ContentQuery.Sorting

namespace ContentQuery

/-- How found documents are returned: sorted, then cut to a page, then
projected.  A limit of zero is no limit. -/
structure FindOptions where
  projection : Option Document := none
  sort : Option (List SortKey) := none
  limit : Option Nat := none
  skip : Option Nat := none

/-- A request for the documents of a collection that match a filter, or for
their number. -/
inductive Request
  | find (collection : String) (filter : Document) (options : FindOptions)
  | count (collection : String) (filter : Document)

/-- The severity of a log line. -/
inductive Severity
  | info | warn
  deriving DecidableEq

/-- A line of the query log. -/
structure LogLine where
  severity : Severity
  text : String
  deriving DecidableEq

/-- A store.  The first argument of each call is the number of calls that the
run has made before; a store that always answers alike ignores it. -/
structure Store where
  find : Nat → String → Document → FindOptions → Except Error (List Document)
  count : Nat → String → Document → Except Error Nat

/-- A request with the size of its answer, if it was answered. -/
structure CallRecord where
  request : Request
  answered : Option Nat

/-- What a run leaves behind. -/
structure Report (α : Type) where
  outcome : Except Error α
  calls : List CallRecord := []
  log : List LogLine := []

/-- A computation that may ask a store and write log lines.

A request goes on with its answer alone.  Every call to a store passes an error on at once:
wherever the store is asked, in a query, in a level of references or for a schema, no error
is caught, tried again or replaced by a default.  So there is nothing to do behind a call
that fails, and `Plan.run` ends there with the error of the store. -/
inductive Plan (α : Type) : Type
  | done (outcome : Except Error α)
  | note (line : LogLine) (next : Plan α)
  | find (collection : String) (filter : Document) (options : FindOptions)
      (next : List Document → Plan α)
  | count (collection : String) (filter : Document) (next : Nat → Plan α)

namespace Plan

variable {α β : Type}

/-- One plan after another. -/
protected def bind (p : Plan α) (f : α → Plan β) : Plan β :=
  match p with
  | done (.ok a) => f a
  | done (.error e) => done (.error e)
  | note line next => note line (next.bind f)
  | find c filter options next => find c filter options fun docs => (next docs).bind f
  | count c filter next => count c filter fun n => (next n).bind f

instance : Monad Plan where
  pure a := done (.ok a)
  bind := Plan.bind

/-- A plan that fails. -/
def fail (e : Error) : Plan α := done (.error e)

/-- A plan without requests. -/
def ofExcept (outcome : Except Error α) : Plan α := done outcome

/-- The documents of a collection that match a filter. -/
def ask (collection : String) (filter : Document) (options : FindOptions) :
    Plan (List Document) :=
  find collection filter options fun docs => done (.ok docs)

/-- The number of documents of a collection that match a filter. -/
def askCount (collection : String) (filter : Document) : Plan Nat :=
  count collection filter fun n => done (.ok n)

/-- Write some log lines. -/
def notes (lines : List LogLine) : Plan Unit :=
  lines.foldr note (done (.ok ()))

/-- Put calls and log lines in front of those of a report. -/
def after (calls : List CallRecord) (log : List LogLine) (r : Report α) : Report α :=
  { r with calls := calls ++ r.calls, log := log ++ r.log }

/-- Run a plan against a store that has answered `n` calls before. -/
def run (s : Store) : Plan α → Nat → Report α
  | done outcome, _ => { outcome }
  | note line next, n => after [] [line] (run s next n)
  | find c filter options next, n =>
    match s.find n c filter options with
    | .ok docs =>
      after [⟨.find c filter options, some docs.length⟩] [] (run s (next docs) (n + 1))
    | .error e => { outcome := .error e, calls := [⟨.find c filter options, none⟩] }
  | count c filter next, n =>
    match s.count n c filter with
    | .ok k => after [⟨.count c filter, some k⟩] [] (run s (next k) (n + 1))
    | .error e => { outcome := .error e, calls := [⟨.count c filter, none⟩] }

/-- Continue a report with the plan that its outcome leads to. -/
def continued (s : Store) (n : Nat) (r : Report α) (f : α → Plan β) : Report β :=
  match r.outcome with
  | .ok a => after r.calls r.log (run s (f a) (n + r.calls.length))
  | .error e => { outcome := .error e, calls := r.calls, log := r.log }

theorem continued_after (s : Store) (n : Nat) (calls : List CallRecord) (log : List LogLine)
    (r : Report α) (f : α → Plan β) :
    continued s n (after calls log r) f =
      after calls log (continued s (n + calls.length) r f) := by
  cases h : r.outcome with
  | ok a => simp [continued, after, h, Nat.add_assoc]
  | error e => simp [continued, after, h]

theorem run_bind (s : Store) (p : Plan α) (f : α → Plan β) (n : Nat) :
    run s (p.bind f) n = continued s n (run s p n) f := by
  induction p generalizing n with
  | done outcome =>
    cases outcome with
    | ok a => simp [Plan.bind, run, continued, after]
    | error e => rfl
  | note line next ih => simp [Plan.bind, run, ih, continued_after]
  | find c filter options next ih =>
    cases h : s.find n c filter options with
    | ok docs => simp [Plan.bind, run, h, ih, continued_after]
    | error e => simp [Plan.bind, run, h, continued]
  | count c filter next ih =>
    cases h : s.count n c filter with
    | ok k => simp [Plan.bind, run, h, ih, continued_after]
    | error e => simp [Plan.bind, run, h, continued]

end Plan

/-- The store of which the `k`-th call of a run, counted from one, fails. -/
def Store.failingAt (s : Store) (k : Nat) (e : Error) : Store where
  find n c filter options := if n + 1 = k then .error e else s.find n c filter options
  count n c filter := if n + 1 = k then .error e else s.count n c filter

end ContentQuery
