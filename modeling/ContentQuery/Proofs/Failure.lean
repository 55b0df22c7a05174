/-
Runs against a store of which one call fails.

A plan asks for one thing after another and goes on with the answer alone, so a
failing call splits a run in two: what lies before it is as it would be without
the failure, and what lies behind it does not take place.

* `Plan.run_failingAt` — a run that ends before the failing call does not notice
  it, and any other run ends at that call, with its error;
* `QueryState.run_interrupted` — the same for a query, whatever it asks for.
-/
import ContentQuery.Pattern.Reading
import ContentQuery.Proofs.Pages

namespace ContentQuery

/-- A call that was made and not answered. -/
def CallRecord.unanswered (call : CallRecord) : CallRecord := { call with answered := none }

/-- What becomes of a run when the call that `j` others come before fails.  The
calls up to there are made, and none behind them. -/
structure Report.FailsAt {α : Type} (whole : Report α) (j : Nat) (e : Error) (cut : Report α) :
    Prop where
  unnoticed : whole.calls.length ≤ j → cut = whole
  noticed : j < whole.calls.length → cut.outcome = .error e ∧
    ∃ call, whole.calls[j]? = some call ∧ cut.calls = whole.calls.take j ++ [call.unanswered]

namespace Plan

variable {α β : Type}

/-- A call, and the run that its answer leads to. -/
def called (request : Request) (size : β → Nat) (answer : Except Error β) (next : β → Report α) :
    Report α :=
  match answer with
  | .ok b => after [⟨request, some (size b)⟩] [] (next b)
  | .error e => { outcome := .error e, calls := [⟨request, none⟩] }

theorem run_find (s : Store) (c : String) (filter : Document) (options : FindOptions)
    (next : List Document → Plan α) (k : Nat) :
    run s (find c filter options next) k =
      called (.find c filter options) List.length (s.find k c filter options)
        fun docs => run s (next docs) (k + 1) := by
  rw [run]
  cases s.find k c filter options <;> rfl

theorem run_count (s : Store) (c : String) (filter : Document) (next : Nat → Plan α) (k : Nat) :
    run s (count c filter next) k =
      called (.count c filter) id (s.count k c filter) fun n => run s (next n) (k + 1) := by
  rw [run]
  cases s.count k c filter <;> rfl

section Called

variable {request : Request} {size : β → Nat} {next next' : β → Report α} {e : Error}

/-- The first call of a run fails. -/
theorem called_failsAt_zero (answer : Except Error β) :
    (called request size answer next).FailsAt 0 e (called request size (.error e) next') := by
  cases answer with
  | ok b =>
    refine ⟨fun h => ?_, fun _ => ⟨rfl, _, rfl, rfl⟩⟩
    simp [called, after] at h
  | error e' =>
    refine ⟨fun h => ?_, fun _ => ⟨rfl, _, rfl, rfl⟩⟩
    simp [called] at h

/-- A later call fails, if the first one is answered at all. -/
theorem called_failsAt_succ {j : Nat} (h : ∀ b, (next b).FailsAt j e (next' b))
    (answer : Except Error β) :
    (called request size answer next).FailsAt (j + 1) e (called request size answer next') := by
  cases answer with
  | ok b =>
    refine ⟨fun hle => ?_, fun hlt => ?_⟩
    · have hle' : (next b).calls.length ≤ j := by simpa [called, after] using hle
      simp only [called, (h b).unnoticed hle']
    · have hlt' : j < (next b).calls.length := by simpa [called, after] using hlt
      obtain ⟨houtcome, call, hcall, hcalls⟩ := (h b).noticed hlt'
      refine ⟨houtcome, call, ?_, ?_⟩
      · simpa [called, after] using hcall
      · simp [called, after, hcalls]
  | error e' =>
    -- nothing follows a call that fails by itself
    refine ⟨fun _ => rfl, fun hlt => ?_⟩
    simp [called] at hlt

end Called

/-- Running a plan behind `k` calls, when the call that `j` more come before
fails. -/
theorem run_failingAt (s : Store) (e : Error) (p : Plan α) (k j : Nat) :
    (run s p k).FailsAt j e (run (s.failingAt (k + j + 1) e) p k) := by
  induction p generalizing k j with
  | done outcome => exact ⟨fun _ => rfl, fun h => absurd h (Nat.not_lt_zero j)⟩
  | note line next ih =>
    refine ⟨fun hle => ?_, fun hlt => (ih k j).noticed hlt⟩
    rw [run, run, (ih k j).unnoticed hle]
  | find c filter options next ih =>
    rw [run_find, run_find]
    cases j with
    | zero =>
      have hfails : (s.failingAt (k + 0 + 1) e).find k c filter options = .error e := if_pos rfl
      rw [hfails]
      exact called_failsAt_zero _
    | succ j =>
      have hanswers : (s.failingAt (k + (j + 1) + 1) e).find k c filter options =
          s.find k c filter options := if_neg (by omega)
      rw [hanswers, show k + (j + 1) + 1 = k + 1 + j + 1 by omega]
      exact called_failsAt_succ (fun docs => ih docs (k + 1) j) _
  | count c filter next ih =>
    rw [run_count, run_count]
    cases j with
    | zero =>
      have hfails : (s.failingAt (k + 0 + 1) e).count k c filter = .error e := if_pos rfl
      rw [hfails]
      exact called_failsAt_zero _
    | succ j =>
      have hanswers : (s.failingAt (k + (j + 1) + 1) e).count k c filter =
          s.count k c filter := if_neg (by omega)
      rw [hanswers, show k + (j + 1) + 1 = k + 1 + j + 1 by omega]
      exact called_failsAt_succ (fun n => ih n (k + 1) j) _

end Plan

namespace QueryState

@[simp] theorem calls_closeFind (q : CompiledQuery) (r : Report Envelope) :
    (q.closeFind r).calls = r.calls := by
  unfold CompiledQuery.closeFind
  split <;> rfl

@[simp] theorem calls_closeCount (q : CompiledQuery) (r : Report Envelope) :
    (q.closeCount r).calls = r.calls := by
  unfold CompiledQuery.closeCount
  split <;> rfl

/-- The log line behind a run says how it went, and touches nothing else. -/
theorem failsAt_closed {close : Report Envelope → Report Envelope}
    (houtcome : ∀ r, (close r).outcome = r.outcome) (hcalls : ∀ r, (close r).calls = r.calls)
    {whole cut : Report Envelope} {j : Nat} {e : Error} (h : whole.FailsAt j e cut) :
    (close whole).FailsAt j e (close cut) := by
  refine ⟨fun hle => ?_, fun hlt => ?_⟩
  · rw [h.unnoticed (by rwa [hcalls] at hle)]
  · rw [hcalls, hcalls, houtcome]
    exact h.noticed (by rwa [hcalls] at hlt)

theorem run_failsAt [PatternLanguage] (s : QueryState) (c : Config) (store : Store) (t : Terminal)
    (j : Nat)
    (e : Error) : (s.run c store t).FailsAt j e (s.run c (store.failingAt (j + 1) e) t) := by
  unfold run
  dsimp only
  split
  · exact ⟨fun _ => rfl, fun h => absurd h (Nat.not_lt_zero j)⟩
  · split
    · exact failsAt_closed (outcome_closeCount _) (calls_closeCount _)
        (by simpa using Plan.run_failingAt store e _ 0 j)
    · exact failsAt_closed (outcome_closeFind _) (calls_closeFind _)
        (by simpa using Plan.run_failingAt store e _ 0 j)

/-- A query against a store in memory of which the `n`-th call fails.  Without that
many calls it goes as it would go anyway.  Otherwise it ends with the failure, after
the same calls, of which the failing one is the last. -/
theorem run_interrupted [PatternLanguage] (s : QueryState) (c : Config) (m : MemoryStore)
    (t : Terminal) {n : Nat} (hn : 0 < n) (cause : StoreFault) :
    let whole := s.run c m.toStore t
    let cut := s.run c (m.interrupted (some (n, .store cause))) t
    (whole.calls.length < n → cut = whole) ∧
    (n ≤ whole.calls.length → cut.outcome = .error (.store cause) ∧
      ∃ last, whole.calls[n - 1]? = some last ∧
        cut.calls = whole.calls.take (n - 1) ++ [last.unanswered]) := by
  intro whole cut
  obtain ⟨j, rfl⟩ : ∃ j, n = j + 1 := ⟨n - 1, by omega⟩
  have h : whole.FailsAt j (.store cause) cut := s.run_failsAt c m.toStore t j (.store cause)
  exact ⟨fun hlt => h.unnoticed (Nat.lt_succ_iff.mp hlt), fun hle => h.noticed hle⟩

/-- The query for all pages with what they refer to, and for their number. -/
def linkedPages : QueryState :=
  { contentType := some "page", includeAll := true, includeCount := true }

open scoped Pattern in
/-- The pages are found and counted; what fails is the lookup of what they name. -/
theorem interrupted_linkedPages :
    let cause := StoreFault.failed "connection reset"
    let whole := linkedPages.run pageConfig Reference.pagePair.toStore .find
    let cut := linkedPages.run pageConfig
      (Reference.pagePair.interrupted (some (3, .store cause))) .find
    0 < 3 ∧ 3 ≤ whole.calls.length ∧ cut.outcome = .error (.store cause) ∧
      cut.calls.map (·.answered) = [some 2, some 2, none] := by
  intro cause whole cut
  have hlen : 3 ≤ whole.calls.length := Nat.le_refl 3
  obtain ⟨houtcome, last, -, hcalls⟩ :=
    (linkedPages.run_interrupted pageConfig Reference.pagePair .find (by decide) cause).2 hlen
  refine ⟨by decide, hlen, houtcome, ?_⟩
  rw [hcalls]
  rfl

end QueryState

end ContentQuery
