/-
The pages of a query.

Whether the store cuts out a page or the reference predicate comes first and the
page is cut afterwards, every page is a part of one list of results:

* `outcome_find` — a find goes on in one way from all results, wherever a page of
  them is cut out;
* `outcome_find_eq_ok` — one that succeeds shows a part of all results, and counts
  all of them;
* `outcome_count_eq_ok` — so does a count;
* `exists_results` — what the list of results is does not depend on the page, so
  successive pages go through it without a gap.
-/
import ContentQuery.Pattern.Reading
import ContentQuery.Proofs.Calls
import ContentQuery.Proofs.DepthFirst
import ContentQuery.Proofs.PayloadPaths
import ContentQuery.Proofs.ProjectedKeys
import ContentQuery.Query.Terminal

namespace ContentQuery

/-! ### Sorting -/

namespace Sorting

theorem place_perm {α : Type} (precedes : α → α → Bool) (x : α) (xs : List α) :
    (place precedes x xs).Perm (x :: xs) := by
  induction xs with
  | nil => rfl
  | cons y rest ih =>
    rw [place]
    split
    · exact (ih.cons y).trans (List.Perm.swap x y rest)
    · rfl

theorem foldl_place_perm {α : Type} (precedes : α → α → Bool) (xs acc : List α) :
    (xs.foldl (fun sorted x => place precedes x sorted) acc).Perm (xs ++ acc) := by
  induction xs generalizing acc with
  | nil => rfl
  | cons x rest ih =>
    rw [List.foldl_cons]
    have hplace := (place_perm precedes x acc).append_left rest
    exact (ih _).trans (hplace.trans List.perm_middle)

/-- Sorting only changes the order. -/
theorem sort_perm (keys : List SortKey) (docs : List Document) : (sort keys docs).Perm docs := by
  have hfold := foldl_place_perm (fun a b => compare a b keys == .lt) docs []
  rw [List.append_nil] at hfold
  exact (List.reverse_perm _).trans hfold

end Sorting

/-! ### Parts of what a store finds -/

namespace MemoryStore

variable (m : MemoryStore)

theorem report_eq_ok {α : Type} {x : Except StoreFault α} {a : α} :
    report x = .ok a ↔ x = .ok a := by
  cases x <;> simp [report]

theorem report_bind {α β : Type} (x : Except StoreFault α) (f : α → Except StoreFault β) :
    report (x.bind f) = (report x).bind fun a => report (f a) := by
  cases x <;> rfl

theorem report_map {α β : Type} (x : Except StoreFault α) (f : α → β) :
    report (x.map f) = (report x).map f := by
  cases x <;> rfl

theorem window_eq (skip : Nat) {limit : Nat} (h : limit ≠ 0) {α : Type} (xs : List α) :
    window (some skip) (some limit) xs = (xs.drop skip).take limit := by
  cases limit with
  | zero => exact absurd rfl h
  | succ n => rfl

/-- A find cuts its page out of what a find without a page finds. -/
theorem find_eq_bind [PatternLanguage] (collection : String) (filter : Document)
    (options : FindOptions) :
    m.find collection filter options =
      (m.find collection filter { sort := options.sort }).bind fun docs =>
        projectAll options.projection (window options.skip options.limit docs) := by
  unfold find
  cases m.matching collection filter with
  | error cause => rfl
  | ok docs => cases options.sort <;> rfl

/-- Sorting keeps the number of documents. -/
theorem count_eq_map [PatternLanguage] (collection : String) (filter : Document)
    (sort : Option (List SortKey)) :
    m.count collection filter = (m.find collection filter { sort }).map List.length := by
  unfold count find
  cases m.matching collection filter with
  | error cause => rfl
  | ok docs =>
    cases sort with
    | none => rfl
    | some keys =>
      show Except.ok docs.length = Except.ok (Sorting.sort keys docs).length
      rw [(Sorting.sort_perm keys docs).length_eq]

end MemoryStore

/-! ### All results of a query -/

/-- A query without its page and its projection. -/
def CompiledQuery.unpaged (q : CompiledQuery) : CompiledQuery :=
  { q with options := { sort := q.options.sort } }

/-- What becomes of all results: a page of them is projected and expanded, and the
schema goes with it. -/
def CompiledQuery.respond [PatternLanguage] (q : CompiledQuery) (m : MemoryStore) (skip limit : Nat)
    (all : List Document) : Except Error Envelope := do
  let page ← MemoryStore.report
    (MemoryStore.projectAll q.options.projection ((all.drop skip).take limit))
  let payloads ← (m.run (q.expansion.resolve page)).outcome
  let schema ← (m.run q.schema).outcome
  pure (Envelope.shape q payloads (if q.includeCount then some all.length else none) schema)

/-- A find, step by step. -/
theorem CompiledQuery.outcome_find [PatternLanguage] (q : CompiledQuery) (m : MemoryStore) :
    (m.run q.find).outcome = (do
      let docs ← (m.run q.candidates).outcome
      let count ← (m.run (q.total docs)).outcome
      let page ← MemoryStore.report (q.page docs)
      let payloads ← (m.run (q.expansion.resolve page)).outcome
      let schema ← (m.run q.schema).outcome
      pure (Envelope.shape q payloads count schema)) := by
  simp only [CompiledQuery.find, m.outcome_do, MemoryStore.run_ofExcept]
  rfl

namespace QueryState

/-- How many documents a query takes. -/
def pageLimit (s : QueryState) (c : Config) : Nat :=
  if s.single then 1 else s.limit.getD c.limit

/-- What a query shows of a stored document. -/
def shown (s : QueryState) (c : Config) (m : MemoryStore) (d : Document) : Document :=
  (s.normalize c).expansion.unfold m (projectedOrSelf (s.nativeProjection c) d)

theorem pageLimit_ne_zero {s : QueryState} {c : Config} (hc : c.fault? = none)
    (hs : s.limit ≠ some 0) : s.pageLimit c ≠ 0 := by
  unfold pageLimit
  split
  · exact Nat.one_ne_zero
  · cases hl : s.limit with
    | none => exact Config.limit_ne_zero hc
    | some n =>
      rintro rfl
      exact hs hl

section Candidates

variable [PatternLanguage] {s : QueryState} {c : Config} {m : MemoryStore}

theorem unpaged_of_direct (h : s.referenceQuery.isEmpty = true) :
    (s.normalize c).unpaged.candidates =
      Plan.ask (s.normalize c).collection (s.normalize c).filter { sort := s.nativeSort c } := by
  have href : (s.normalize c).referenceQuery = none := by simp [normalize, h]
  simp only [CompiledQuery.candidates, CompiledQuery.unpaged, href]
  rfl

theorem unpaged_of_deferred (h : s.referenceQuery.isEmpty = false) :
    (s.normalize c).unpaged.candidates = (s.normalize c).candidates := by
  simp [normalize, h, CompiledQuery.unpaged, CompiledQuery.candidates]

/-- Without a reference predicate the store finds all results, and cuts out and
projects a page of them. -/
theorem outcome_candidates_of_direct (hc : c.fault? = none) (hs : s.limit ≠ some 0)
    (h : s.referenceQuery.isEmpty = true) :
    (m.run (s.normalize c).candidates).outcome =
      (m.run (s.normalize c).unpaged.candidates).outcome.bind fun all => MemoryStore.report
        (MemoryStore.projectAll (some (s.nativeProjection c))
          ((all.drop (s.skip.getD c.skip)).take (s.pageLimit c))) := by
  have href : (s.normalize c).referenceQuery = none := by simp [normalize, h]
  have hoptions : (s.normalize c).options =
      { projection := some (s.nativeProjection c), sort := s.nativeSort c,
        limit := some (s.pageLimit c), skip := some (s.skip.getD c.skip) } := by
    simp [normalize, h, pageLimit]
  have hask : (s.normalize c).candidates =
      Plan.ask (s.normalize c).collection (s.normalize c).filter (s.normalize c).options := by
    simp only [CompiledQuery.candidates, href]
  rw [hask, unpaged_of_direct h, m.outcome_run_ask, m.outcome_run_ask, m.find_eq_bind, hoptions,
    MemoryStore.report_bind]
  simp only [MemoryStore.window_eq _ (pageLimit_ne_zero hc hs)]

/-- Without a reference predicate the store counts what it would find without a
page. -/
theorem outcome_total_of_direct (h : s.referenceQuery.isEmpty = true) {all : List Document}
    (hall : (m.run (s.normalize c).unpaged.candidates).outcome = .ok all) (docs : List Document) :
    (m.run ((s.normalize c).total docs)).outcome =
      .ok (if (s.normalize c).includeCount then some all.length else none) := by
  have hdefer : (s.normalize c).deferredPage = none := by simp [normalize, h]
  rw [unpaged_of_direct h, m.outcome_run_ask, MemoryStore.report_eq_ok] at hall
  have hcount : m.count (s.normalize c).collection (s.normalize c).filter = .ok all.length := by
    rw [m.count_eq_map _ _ (s.nativeSort c), hall]
    rfl
  rw [CompiledQuery.total, hdefer]
  split
  · dsimp only
    rw [m.outcome_do, m.outcome_run_askCount, hcount]
    rfl
  · rfl

/-- A find goes on from all results, wherever a page of them is cut out. -/
theorem outcome_find (hc : c.fault? = none) (hs : s.limit ≠ some 0) :
    (m.run (s.normalize c).find).outcome =
      (m.run (s.normalize c).unpaged.candidates).outcome.bind
        ((s.normalize c).respond m (s.skip.getD c.skip) (s.pageLimit c)) := by
  have hprojection : (s.normalize c).options.projection = some (s.nativeProjection c) := rfl
  rw [CompiledQuery.outcome_find]
  cases h : s.referenceQuery.isEmpty with
  | true =>
    have hpage (docs : List Document) : (s.normalize c).page docs = .ok docs := by
      simp [normalize, h, CompiledQuery.page]
    rw [outcome_candidates_of_direct hc hs h]
    cases hall : (m.run (s.normalize c).unpaged.candidates).outcome with
    | error e => rfl
    | ok all =>
      -- a page that cannot be projected fails in the store as it does in memory
      show Except.bind _ _ = CompiledQuery.respond _ _ _ _ _
      rw [CompiledQuery.respond, hprojection]
      refine congrArg (Except.bind _) (funext fun page => ?_)
      rw [outcome_total_of_direct h hall, hpage]
      rfl
  | false =>
    have hdefer : (s.normalize c).deferredPage = some (s.skip.getD c.skip, s.pageLimit c) := by
      simp [normalize, h, pageLimit]
    have htotal (docs : List Document) : (m.run ((s.normalize c).total docs)).outcome =
        .ok (if (s.normalize c).includeCount then some docs.length else none) := by
      rw [CompiledQuery.total, hdefer]
      split <;> rfl
    rw [unpaged_of_deferred h]
    refine congrArg (Except.bind _) (funext fun docs => ?_)
    rw [htotal, CompiledQuery.page, hdefer]
    rfl

/-- A count is the number of all results. -/
theorem outcome_count :
    (m.run (s.normalize c).count).outcome =
      (m.run (s.normalize c).unpaged.candidates).outcome.map fun all =>
        Envelope.countOnly (s.normalize c) all.length := by
  cases h : s.referenceQuery.isEmpty with
  | true =>
    have href : (s.normalize c).referenceQuery = none := by simp [normalize, h]
    rw [CompiledQuery.count, href, unpaged_of_direct h]
    dsimp only
    rw [m.outcome_do, m.outcome_run_askCount, m.outcome_run_ask,
      m.count_eq_map _ _ (s.nativeSort c), MemoryStore.report_map]
    cases MemoryStore.report (m.find (s.normalize c).collection (s.normalize c).filter
        { sort := s.nativeSort c }) <;> rfl
  | false =>
    have href : (s.normalize c).referenceQuery = some s.referenceQuery := by simp [normalize, h]
    rw [CompiledQuery.count, href, unpaged_of_deferred h]
    dsimp only
    rw [m.outcome_do]
    cases (m.run (s.normalize c).candidates).outcome <;> rfl

/-- What becomes of all results: each document of the page is shown as it would be
alone, unless the projection fails. -/
theorem respond_eq (hc : c.fault? = none) (skip limit : Nat) (all : List Document) :
    (s.normalize c).respond m skip limit all =
      if Projection.isMixed (s.nativeProjection c) = true ∧ (all.drop skip).take limit ≠ [] then
        .error (.store .mixedProjection)
      else (m.run (s.normalize c).schema).outcome.map fun schema =>
        Envelope.shape (s.normalize c) (((all.drop skip).take limit).map (s.shown c m))
          (if s.includeCount then some all.length else none) schema := by
  have hprojection : (s.normalize c).options.projection = some (s.nativeProjection c) := rfl
  have hp : Projection.OnlyPayload (s.normalize c).expansion.projection :=
    onlyPayload_renderProjection (Config.projections_eq_zero hc)
  rw [CompiledQuery.respond, hprojection, MemoryStore.projectAll_eq]
  split
  · rfl
  · have hresolve := Reference.outcome_resolve m (s.normalize c).expansion
      (((all.drop skip).take limit).map (projectedOrSelf (s.nativeProjection c))) hp
    rw [List.map_map] at hresolve
    show (m.run ((s.normalize c).expansion.resolve _)).outcome.bind _ = _
    rw [hresolve]
    cases (m.run (s.normalize c).schema).outcome <;> rfl

/-- A find that succeeds shows a page of all results. -/
theorem outcome_find_eq_ok (hc : c.fault? = none) (hs : s.limit ≠ some 0) {e : Envelope}
    (h : (m.run (s.normalize c).find).outcome = .ok e) :
    ∃ all schema, (m.run (s.normalize c).unpaged.candidates).outcome = .ok all ∧
      e = Envelope.shape (s.normalize c)
        (((all.map (s.shown c m)).drop (s.skip.getD c.skip)).take (s.pageLimit c))
        (if s.includeCount then some all.length else none) schema := by
  rw [outcome_find hc hs] at h
  obtain ⟨all, hall, h⟩ := exists_of_bind_ok h
  rw [respond_eq hc] at h
  split at h
  · cases h
  · cases hschema : (m.run (s.normalize c).schema).outcome with
    | error cause =>
      rw [hschema] at h
      cases h
    | ok schema =>
      rw [hschema] at h
      refine ⟨all, schema, hall, ?_⟩
      rw [← List.map_drop, ← List.map_take]
      exact (Except.ok.inj h).symm

/-- A count that succeeds is the number of all results. -/
theorem outcome_count_eq_ok {e : Envelope}
    (h : (m.run (s.normalize c).count).outcome = .ok e) :
    ∃ all, (m.run (s.normalize c).unpaged.candidates).outcome = .ok all ∧
      e = Envelope.countOnly (s.normalize c) all.length := by
  rw [outcome_count] at h
  cases hall : (m.run (s.normalize c).unpaged.candidates).outcome with
  | error cause =>
    rw [hall] at h
    cases h
  | ok all =>
    rw [hall] at h
    exact ⟨all, rfl, (Except.ok.inj h).symm⟩

end Candidates

/-! ### Runs -/

@[simp] theorem outcome_closeFind (q : CompiledQuery) (r : Report Envelope) :
    (q.closeFind r).outcome = r.outcome := by
  unfold CompiledQuery.closeFind
  split <;> rfl

@[simp] theorem outcome_closeCount (q : CompiledQuery) (r : Report Envelope) :
    (q.closeCount r).outcome = r.outcome := by
  unfold CompiledQuery.closeCount
  split <;> rfl

theorem outcome_run_find [PatternLanguage] (s : QueryState) (c : Config) (m : MemoryStore) :
    (s.run c m.toStore .find).outcome =
      (s.requireScope "find").bind fun _ => (m.run (s.normalize c).find).outcome := by
  unfold run
  simp only [reduceCtorEq, reduceIte]
  cases s.requireScope "find" with
  | error e => rfl
  | ok _ => exact outcome_closeFind _ _

theorem outcome_run_count [PatternLanguage] (s : QueryState) (c : Config) (m : MemoryStore) :
    (s.run c m.toStore .count).outcome =
      (s.requireScope "count").bind fun _ => (m.run (s.normalize c).count).outcome := by
  unfold run
  simp only [reduceCtorEq, reduceIte]
  cases s.requireScope "count" with
  | error e => rfl
  | ok _ => exact outcome_closeCount _ _

theorem run_findOne [PatternLanguage] (s : QueryState) (c : Config) (store : Store) :
    s.run c store .findOne = { s with single := true }.run c store .find := rfl

/-- The settings of a query that only say which page it shows, and what beside it. -/
structure Paging where
  limit : Option Nat
  skip : Option Nat
  single : Bool
  includeCount : Bool
  includeSchema : Bool

/-- A query with other paging settings. -/
def paged (s : QueryState) (p : Paging) : QueryState :=
  { s with
    limit := p.limit
    skip := p.skip
    single := p.single
    includeCount := p.includeCount
    includeSchema := p.includeSchema }

/-- All results of a query. -/
def results [PatternLanguage] (s : QueryState) (c : Config) (m : MemoryStore) : List Document :=
  match (m.run (s.normalize c).unpaged.candidates).outcome with
  | .ok all => all.map (s.shown c m)
  | .error _ => []

theorem results_paged [PatternLanguage] (s : QueryState) (p : Paging) (c : Config)
    (m : MemoryStore) :
    (s.paged p).results c m = s.results c m := rfl

/-- The value that stands for the first of some documents. -/
def firstOrNull : List Document → Value
  | [] => .null
  | d :: _ => .document d

/-- The documents of an envelope. -/
theorem result_shape (q : CompiledQuery) (payloads : List Document) (count : Option Nat)
    (schema : Option Document) :
    (Envelope.shape q payloads count schema).result =
      some (if q.single then firstOrNull payloads else .array (payloads.map .document)) := by
  unfold Envelope.shape
  cases q.single with
  | true => cases payloads <;> rfl
  | false => rfl

section Results

variable [PatternLanguage] {s : QueryState} {c : Config} {m : MemoryStore}

theorem results_of_outcome {all : List Document}
    (h : (m.run (s.normalize c).unpaged.candidates).outcome = .ok all) :
    s.results c m = all.map (s.shown c m) := by
  rw [results, h]

/-- What a find returns, of all results. -/
theorem find_result (hc : c.fault? = none) (hs : s.limit ≠ some 0) {e : Envelope}
    (h : (s.run c m.toStore .find).outcome = .ok e) :
    e.result = some (if s.single then firstOrNull ((s.results c m).drop (s.skip.getD c.skip))
      else .array ((((s.results c m).drop (s.skip.getD c.skip)).take
        (s.limit.getD c.limit)).map .document)) ∧
    (s.includeCount = true → e.count = some (s.results c m).length) := by
  rw [outcome_run_find] at h
  obtain ⟨_, -, h⟩ := exists_of_bind_ok h
  obtain ⟨all, schema, hall, rfl⟩ := outcome_find_eq_ok hc hs h
  rw [← results_of_outcome hall, pageLimit, result_shape]
  constructor
  · have hsingle : (s.normalize c).single = s.single := rfl
    rw [hsingle]
    cases s.single with
    | true => cases (s.results c m).drop (s.skip.getD c.skip) <;> rfl
    | false => rfl
  · intro hcount
    rw [hcount, results_of_outcome hall, List.length_map]
    rfl

/-- What a count returns. -/
theorem count_result {e : Envelope} (h : (s.run c m.toStore .count).outcome = .ok e) :
    e.count = some (s.results c m).length := by
  rw [outcome_run_count] at h
  obtain ⟨_, -, h⟩ := exists_of_bind_ok h
  obtain ⟨all, hall, rfl⟩ := outcome_count_eq_ok h
  rw [results_of_outcome hall, List.length_map]
  rfl

/-- The documents on a page. -/
theorem items_of_find (hc : c.fault? = none) (hs : s.limit ≠ some 0) (hsingle : s.single = false)
    {e : Envelope} (h : (s.run c m.toStore .find).outcome = .ok e) :
    e.items = ((s.results c m).drop (s.skip.getD c.skip)).take (s.limit.getD c.limit) := by
  have hresult := (find_result hc hs h).1
  rw [hsingle, if_neg Bool.false_ne_true] at hresult
  rw [Envelope.items, hresult]
  show (List.map Value.document _).filterMap Value.document? = _
  rw [List.filterMap_map]
  exact List.filterMap_some

end Results

/-- There is one list of results that the paging settings have no part in: every
page is a part of it, every count is its length, and pages of one length, one
behind the other, go through it from the start without a gap. -/
theorem exists_results [PatternLanguage] (m : MemoryStore) (c : Config) (hc : c.fault? = none)
    (s : QueryState) :
    ∃ all : List Document,
      (∀ p : Paging, (s.paged p).Reachable →
        (∀ e, ((s.paged p).run c m.toStore .find).outcome = .ok e →
          e.result = some (if p.single then firstOrNull (all.drop (p.skip.getD c.skip))
            else .array (((all.drop (p.skip.getD c.skip)).take
              (p.limit.getD c.limit)).map .document)) ∧
          (p.includeCount = true → e.count = some all.length)) ∧
        (∀ e, ((s.paged p).run c m.toStore .findOne).outcome = .ok e →
          e.result = some (firstOrNull (all.drop (p.skip.getD c.skip))) ∧
          (p.includeCount = true → e.count = some all.length)) ∧
        ∀ e, ((s.paged p).run c m.toStore .count).outcome = .ok e →
          e.count = some all.length) ∧
      ∀ (p : Paging) (n k : Nat) (page : Nat → Envelope), n ≠ 0 → p.single = false →
        (∀ i < k, ((s.paged { p with limit := some n, skip := some (i * n) }).run c
          m.toStore .find).outcome = .ok (page i)) →
        (List.range k).flatMap (fun i => (page i).items) = all.take (k * n) := by
  refine ⟨s.results c m, fun p hp => ⟨fun e he => ?_, fun e he => ?_, fun e he => ?_⟩, ?_⟩
  · exact find_result hc hp.limit_ne_zero he
  · rw [run_findOne] at he
    exact find_result (s := { s.paged p with single := true }) hc hp.limit_ne_zero he
  · exact count_result (s := s.paged p) he
  · intro p n k page hn hsingle hpages
    induction k with
    | zero => simp
    | succ k ih =>
      -- the last page starts where those before it end
      have hlast := items_of_find (s := s.paged { p with limit := some n, skip := some (k * n) })
        hc (by simpa [paged] using hn) hsingle (hpages k (Nat.lt_succ_self k))
      rw [List.range_succ, List.flatMap_append, List.flatMap_singleton, hlast,
        ih fun i hi => hpages i (Nat.lt_succ_of_lt hi)]
      rw [Nat.succ_mul, List.take_add]
      rfl

/-! ### The pages of a store of two -/

/-- A stack for the two pages that name each other. -/
def pageConfig : Config := { locales := ["en"], collection := "pages", projections := [("draft", 0)] }

/-- The query for all pages, of which it shows the one that comes behind some others. -/
def pageAt (n : Nat) : QueryState :=
  { contentType := some "page", limit := some 1, skip := some n, includeCount := true }

open scoped Pattern in
/-- Each of the two is shown alone, and one behind the other they are all results. -/
theorem results_of_pagePair :
    pageConfig.fault? = none ∧ (pageAt 1).Reachable ∧
      ∃ (all : List Document) (first second : Envelope), all.length = 2 ∧
        ((pageAt 0).run pageConfig Reference.pagePair.toStore .find).outcome = .ok first ∧
        ((pageAt 1).run pageConfig Reference.pagePair.toStore .find).outcome = .ok second ∧
        second.result = some (.array (((all.drop 1).take 1).map .document)) ∧
        second.items.length = 1 ∧ second.count = some 2 ∧ first.items ++ second.items = all := by
  have hc : pageConfig.fault? = none := by decide
  have hreach : (pageAt 1).Reachable :=
    ⟨[.contentType "page", .limit 1, .skip 1, .includeCount], rfl⟩
  have hshows (n : Nat) (hn : n < 2) : ((pageAt n).run pageConfig Reference.pagePair.toStore
      .find).outcome.map (fun e => e.items.length) = .ok 1 := by
    decide +revert +kernel
  obtain ⟨first, hfirst, -⟩ := exists_of_map_ok (hshows 0 (by decide))
  obtain ⟨second, hsecond, hitems⟩ := exists_of_map_ok (hshows 1 (by decide))
  obtain ⟨all, hpages, htiles⟩ := exists_results Reference.pagePair pageConfig hc (pageAt 1)
  obtain ⟨hfind, -, hcount⟩ := hpages ⟨some 1, some 1, false, true, false⟩ hreach
  obtain ⟨hresult, hnumber⟩ := hfind second hsecond
  have hlen : some 2 = some all.length := hcount ⟨"entries", none, some 2, "page", "en", none⟩ rfl
  have hall : (List.range 2).flatMap (fun i => (if i = 0 then first else second).items) =
      all.take 2 :=
    htiles ⟨none, none, false, true, false⟩ 1 2 _ Nat.one_ne_zero rfl fun
      | 0, _ => hfirst
      | 1, _ => hsecond
  rw [List.take_of_length_le (Option.some.inj hlen).ge] at hall
  exact ⟨hc, hreach, all, first, second, (Option.some.inj hlen).symm, hfirst, hsecond, hresult,
    hitems, hlen ▸ hnumber rfl, by simpa [List.range_succ] using hall⟩

end QueryState

end ContentQuery
