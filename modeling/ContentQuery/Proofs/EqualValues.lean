/-
Values to equal, as the store reads them.

A query writes a value to equal as it stands, and the store reads a document of operators
where one stands.  So a value is compared unless it has that form:

* `exists_outcome_find`, `exists_outcome_count`, `outcome_run_of_refused` — a query that
  includes no fields fails just if the store refuses its filter;
* `matching_whereEqual` — the store asks of the field what it reads of the value;
* `run_equalTo` — of a document of operators it asks for what these say, or it refuses it;
  any other value is compared;
* `matching_equalTo_operators` — the two are not the same.
-/
import ContentQuery.Pattern.Reading
import ContentQuery.Proofs.Deferred
import ContentQuery.Proofs.Hidden
import ContentQuery.Proofs.MergedFilters
import ContentQuery.Proofs.Scope

namespace ContentQuery

/-! ### Queries that fail -/

/-- The look-up of a schema does not fail. -/
theorem exists_outcome_schema [PatternLanguage] (q : CompiledQuery) (m : MemoryStore) :
    ∃ schema, (m.run q.schema).outcome = .ok schema := by
  rw [CompiledQuery.schema]
  split
  · obtain ⟨f, hf⟩ : ∃ f, MemoryStore.readFilter (CompiledQuery.schemaFilter q.contentType) =
        .ok f := ⟨_, rfl⟩
    have hmixed : ¬ Projection.isMixed [(Projection.idKey, .int32 0)] = true := by decide
    rw [m.outcome_do, m.outcome_run_ask, m.find_eq_bind, m.find_unpaged, MemoryStore.matching, hf]
    dsimp only [Except.map, Except.bind]
    rw [MemoryStore.projectAll_eq, if_neg fun h => hmixed h.1]
    exact ⟨_, rfl⟩
  · exact ⟨none, rfl⟩

namespace QueryState

section Exclusions

variable {s : QueryState} {c : Config} {m : MemoryStore}

theorem not_isMixed_of_exclusions (hc : c.fault? = none) (hzero : ∀ e ∈ s.projection, e.2 = 0) :
    ¬ Projection.isMixed (s.nativeProjection c) = true := by
  have hall : ∀ e ∈ c.projections ++ s.projection, e.2 = 0 :=
    fun e he => (List.mem_append.mp he).elim (Config.projections_eq_zero hc e) (hzero e)
  have hnone := (onlyPayload_renderProjection hall).included_eq_nil
  rw [nativeProjection_of_exclusions hzero, Projection.isMixed, hnone]
  simp

/-- A query that includes no fields runs if the store accepts its filter. -/
theorem exists_outcome_find [PatternLanguage] (hc : c.fault? = none) (hscope : s.contentType.isSome)
    (hs : s.limit ≠ some 0) (hzero : ∀ e ∈ s.projection, e.2 = 0) {docs : List Document}
    (h : m.matching c.collection (s.normalize c).filter = .ok docs) :
    ∃ e, (s.run c m.toStore .find).outcome = .ok e := by
  have hmatch : m.matching (s.normalize c).collection (s.normalize c).filter = .ok docs := h
  obtain ⟨schema, hschema⟩ := exists_outcome_schema (s.normalize c) m
  rw [outcome_run_find, requireScope_of_isSome hscope]
  show ∃ e, (m.run (s.normalize c).find).outcome = .ok e
  rw [outcome_find hc hs, outcome_unpaged, hmatch]
  show ∃ e, (s.normalize c).respond m _ _ _ = .ok e
  rw [respond_eq hc, if_neg fun h => not_isMixed_of_exclusions hc hzero h.1, hschema]
  exact ⟨_, rfl⟩

theorem exists_outcome_count [PatternLanguage] (hscope : s.contentType.isSome)
    {docs : List Document} (h : m.matching c.collection (s.normalize c).filter = .ok docs) :
    ∃ e, (s.run c m.toStore .count).outcome = .ok e := by
  have hmatch : m.matching (s.normalize c).collection (s.normalize c).filter = .ok docs := h
  rw [outcome_run_count, requireScope_of_isSome hscope]
  show ∃ e, (m.run (s.normalize c).count).outcome = .ok e
  rw [outcome_count, outcome_unpaged, hmatch]
  exact ⟨_, rfl⟩

/-- A query whose filter the store refuses fails with what the store says. -/
theorem outcome_run_of_refused [PatternLanguage] (hc : c.fault? = none)
    (hscope : s.contentType.isSome) (hs : s.limit ≠ some 0) {cause : StoreFault}
    (h : m.matching c.collection (s.normalize c).filter = .error cause) (t : Terminal) :
    (s.run c m.toStore t).outcome = .error (.store cause) := by
  have hmatch : m.matching (s.normalize c).collection (s.normalize c).filter = .error cause := h
  -- a query for one document is another query, to which the same applies
  have hfind (s' : QueryState) (hscope' : s'.contentType.isSome) (hs' : s'.limit ≠ some 0)
      (hmatch' : m.matching (s'.normalize c).collection (s'.normalize c).filter = .error cause) :
      (s'.run c m.toStore .find).outcome = .error (.store cause) := by
    rw [outcome_run_find, requireScope_of_isSome hscope']
    show (m.run (s'.normalize c).find).outcome = _
    rw [outcome_find hc hs', outcome_unpaged, hmatch']
    rfl
  cases t with
  | find => exact hfind s hscope hs hmatch
  | findOne => exact hfind { s with single := true } hscope hs hmatch
  | count =>
    rw [outcome_run_count, requireScope_of_isSome hscope]
    show (m.run (s.normalize c).count).outcome = _
    rw [outcome_count, outcome_unpaged, hmatch]
    rfl

end Exclusions

/-- A query does not fail, and what it finds is a page of some documents. -/
structure Selects [PatternLanguage] (s : QueryState) (c : Config) (m : MemoryStore)
    (docs : List Document) : Prop where
  matching : m.matching c.collection (s.normalize c).filter = .ok docs
  find : ∃ e, (s.run c m.toStore .find).outcome = .ok e ∧
    e.items = ((docs.map (s.shown c m)).drop (s.skip.getD c.skip)).take (s.limit.getD c.limit)
  findOne : ∃ e, (s.run c m.toStore .findOne).outcome = .ok e ∧
    e.result = some (firstOrNull ((docs.map (s.shown c m)).drop (s.skip.getD c.skip)))
  count : ∃ e, (s.run c m.toStore .count).outcome = .ok e ∧ e.count = some docs.length

/-! ### A value at a field -/

/-- The query for the documents of a content type with a value at a field. -/
def whereEqual (contentType key : String) (v : Value) : QueryState where
  contentType := some contentType
  filter := .field key (.equals v)

section WhereEqual

variable {contentType key : String} {v : Value} {c : Config} {m : MemoryStore}

theorem applyAll_equalTo (hct : contentType.isEmpty = false) (hkey : key.isEmpty = false)
    (v : Value) :
    applyAll {} [.contentType contentType, .equalTo key v] =
      .ok (whereEqual contentType key v) := by
  have hchosen : apply {} (.contentType contentType) = .ok { contentType := some contentType } :=
    if_neg (by simp [hct])
  have hadded : apply { contentType := some contentType } (.equalTo key v) =
      .ok (whereEqual contentType key v) := by
    rw [apply, requireKey, if_neg (by simp [hkey])]
    rfl
  rw [applyAll, hchosen]
  show (apply _ _ >>= _) = _
  rw [hadded]
  rfl

theorem results_whereEqual [PatternLanguage] {docs : List Document}
    (h : m.matching c.collection ((whereEqual contentType key v).normalize c).filter = .ok docs) :
    (whereEqual contentType key v).results c m =
      docs.map ((whereEqual contentType key v).shown c m) := by
  have hall : (m.run ((whereEqual contentType key v).normalize c).unpaged.candidates).outcome =
      .ok docs := by
    have hmatch : m.matching ((whereEqual contentType key v).normalize c).collection
        ((whereEqual contentType key v).normalize c).filter = .ok docs := h
    rw [outcome_unpaged, hmatch]
    rfl
  exact results_of_outcome hall

/-- The query selects what matches its filter. -/
theorem selects_whereEqual [PatternLanguage] (hc : c.fault? = none) {docs : List Document}
    (h : m.matching c.collection ((whereEqual contentType key v).normalize c).filter = .ok docs) :
    (whereEqual contentType key v).Selects c m docs := by
  have hlimit : (whereEqual contentType key v).limit ≠ some 0 := by simp [whereEqual]
  have hzero : ∀ e ∈ (whereEqual contentType key v).projection, e.2 = 0 := by simp [whereEqual]
  have hresults := results_whereEqual h
  refine ⟨h, ?find, ?findOne, ?count⟩
  case find =>
    obtain ⟨e, he⟩ := exists_outcome_find hc rfl hlimit hzero h
    refine ⟨e, he, ?_⟩
    rw [← hresults]
    exact items_of_find hc hlimit rfl he
  case findOne =>
    -- the arity has no part in what matches
    have hone : m.matching c.collection
        (({ whereEqual contentType key v with single := true } : QueryState).normalize c).filter =
          .ok docs := h
    obtain ⟨e, he⟩ := exists_outcome_find hc rfl (by exact hlimit) (by exact hzero) hone
    refine ⟨e, he, ?_⟩
    rw [← hresults]
    exact (find_result hc (by exact hlimit) he).1
  case count =>
    obtain ⟨e, he⟩ := exists_outcome_count rfl h
    refine ⟨e, he, ?_⟩
    rw [count_result he, hresults, List.length_map]

/-- What the store reads of a value under a path through the payload. -/
theorem readFilter_payloadPath (key : String) (v : Value) :
    MemoryStore.readFilter [(payloadPath key, v)] =
      match Filter.parsePredicate (payloadPath key) v with
      | .ok p => .ok (.field (payloadPath key) p)
      | .error cause => .error (.badFilter cause) := by
  -- the path is no combinator and no operator, so it is read as a field
  rw [MemoryStore.readFilter, Filter.parse, Filter.parseFields, if_neg (payloadPath_ne (by decide)),
    if_neg (payloadPath_ne (by decide)), if_neg (payloadPath_ne (by decide)),
    if_neg (by simp [Filter.isOperator_payloadPath]), if_neg (by simp)]
  cases Filter.parsePredicate (payloadPath key) v <;> rfl

/-- The query matches the documents of its scope that satisfy what is read of the value. -/
theorem matching_whereEqual [PatternLanguage] (hm : m.Filled) (hkey : key.isEmpty = false)
    (hshort : (Path.segments key).length < Path.maxDepth) (contentType : String) (v : Value) :
    m.matching c.collection ((whereEqual contentType key v).normalize c).filter =
      match Filter.parsePredicate (payloadPath key) v with
      | .ok p => .ok ((m.documents c.collection).filter fun d =>
        (whereEqual contentType key v).inScope c d && p.accepts (Path.resolve (payloadOf d) key))
      | .error cause => .error (.badFilter cause) := by
  have hrender : Filter.renderWith payloadPath (whereEqual contentType key v).filter =
      [(payloadPath key, v)] := rfl
  rw [MemoryStore.matching, readFilter_filter_normalize, hrender, readFilter_payloadPath]
  cases Filter.parsePredicate (payloadPath key) v with
  | error cause => rfl
  | ok p =>
    refine congrArg Except.ok (List.filter_congr fun d hd => ?_)
    obtain ⟨stored, id, rfl⟩ := hm.exists_stored hd
    have hct : (whereEqual contentType key v).contentType = some contentType := rfl
    rw [Filter.accepts_behind, Filter.accepts_field,
      resolve_payloadPath (get?_payload_withId stored id) hkey hshort]
    exact congrArg (· && _) (acceptsFields_scopeFields hct (keyOf?_withId stored id))

end WhereEqual

/-- Of operators the store reads conditions, if it reads anything. -/
theorem exists_conditions_of_operators {v : Value} {ops : Document}
    (hops : Filter.operators? v = some ops) (field : String) :
    (∃ conds, Filter.parsePredicate field v = .ok (.conditions conds)) ∨
      ∃ cause, Filter.parsePredicate field v = .error cause := by
  cases hread : Filter.parsePredicate field v with
  | error cause => exact .inr ⟨cause, rfl⟩
  | ok p =>
    rw [Filter.parsePredicate, hops] at hread
    obtain ⟨options, -, hread⟩ := exists_of_bind_ok hread
    obtain ⟨conds, -, hread⟩ := exists_of_bind_ok hread
    split_ifs at hread
    exact .inl ⟨conds, hread.symm⟩

/-- A query for a value at a field selects the documents of its scope in which the field
has the value, unless the value is a document of operators.  Of such a document it is not
the value that the field is compared with: its operators are applied to the field, and
what the store does not take for operators makes the query fail. -/
theorem run_equalTo [PatternLanguage] {m : MemoryStore} (hm : m.Filled) {c : Config}
    (hc : c.fault? = none)
    {contentType key : String} (hct : contentType.isEmpty = false) (hkey : key.isEmpty = false)
    (hshort : (Path.segments key).length < Path.maxDepth) (v : Value) :
    ∃ s, applyAll {} [.contentType contentType, .equalTo key v] = .ok s ∧
      (Filter.operators? v = none →
        s.Selects c m ((m.documents c.collection).filter fun d =>
          s.inScope c d && holds (Path.resolve (payloadOf d) key) v)) ∧
      ∀ ops, Filter.operators? v = some ops →
        (∃ conds, Filter.parsePredicate (payloadPath key) v = .ok (.conditions conds) ∧
          s.Selects c m ((m.documents c.collection).filter fun d =>
            s.inScope c d && conds.all (·.accepts (Path.resolve (payloadOf d) key)))) ∨
        ∃ cause, Filter.parsePredicate (payloadPath key) v = .error cause ∧
          ∀ t, (s.run c m.toStore t).outcome = .error (.store (.badFilter cause)) := by
  have hmatching := matching_whereEqual (c := c) hm hkey hshort contentType v
  refine ⟨whereEqual contentType key v, applyAll_equalTo hct hkey v, fun hnone => ?_,
    fun ops hops => ?_⟩
  · have hread : Filter.parsePredicate (payloadPath key) v = .ok (.equals v) := by
      rw [Filter.parsePredicate, hnone]
    rw [hread] at hmatching
    exact selects_whereEqual hc hmatching
  · rcases exists_conditions_of_operators hops (payloadPath key) with ⟨conds, hread⟩ | ⟨cause, hread⟩
    · rw [hread] at hmatching
      exact .inl ⟨conds, hread, selects_whereEqual hc hmatching⟩
    · rw [hread] at hmatching
      exact .inr ⟨cause, hread,
        outcome_run_of_refused hc rfl (by simp [whereEqual]) hmatching⟩

/-! ### A rank that reads as an operator -/

/-- A document of one operator. -/
def operator (name : String) (v : Value) : Value := .document [(name, v)]

/-- A note of a rank. -/
def rankNote (uid : String) (rank : Value) : StoredDocument :=
  ⟨⟨"note", "en-us", uid⟩, [("uid", .string uid), ("rank", rank)]⟩

/-- A store with a note of the first rank and a note of which the rank is a document. -/
def rankStore : MemoryStore :=
  let m := (MemoryStore.insertDocument {} "contents" (rankNote "a" (.int32 1))).2
  (m.insertDocument "contents" (rankNote "b" (operator "$gt" (.int32 0)))).2

theorem filled_rankStore : rankStore.Filled :=
  have hfirst : MemoryStore.insertPayload {} "contents" "note" "en-us"
      (rankNote "a" (.int32 1)).payload =
        .ok (.invented 0, (MemoryStore.insertDocument {} "contents" (rankNote "a" (.int32 1))).2) :=
    rfl
  have hsecond : (MemoryStore.insertDocument {} "contents"
      (rankNote "a" (.int32 1))).2.insertPayload "contents" "note" "en-us"
        (rankNote "b" (operator "$gt" (.int32 0))).payload = .ok (.invented 1, rankStore) :=
    rfl
  .payload (.payload .empty hfirst) hsecond

open scoped Pattern in
/-- The first note is found by its rank, and by what its rank satisfies. -/
theorem run_equalTo_rank :
    rankStore.Filled ∧
      (∃ s, applyAll {} [.contentType "note", .equalTo "rank" (.int32 1)] = .ok s ∧
        s.Selects {} rankStore [(rankNote "a" (.int32 1)).withId (.invented 0)]) ∧
      ∃ s, applyAll {} [.contentType "note", .equalTo "rank" (operator "$gte" (.int32 1))] =
          .ok s ∧
        s.Selects {} rankStore [(rankNote "a" (.int32 1)).withId (.invented 0)] := by
  have hc : Config.fault? {} = none := by decide
  have hct : "note".isEmpty = false := by decide
  have hkey : "rank".isEmpty = false := by decide
  have hshort : (Path.segments "rank").length < Path.maxDepth := by decide
  obtain ⟨s, hs, hvalue, -⟩ := run_equalTo filled_rankStore hc hct hkey hshort (.int32 1)
  obtain ⟨s', hs', -, hoperators⟩ :=
    run_equalTo filled_rankStore hc hct hkey hshort (operator "$gte" (.int32 1))
  obtain rfl := Except.ok.inj ((applyAll_equalTo hct hkey _).symm.trans hs)
  obtain rfl := Except.ok.inj ((applyAll_equalTo hct hkey _).symm.trans hs')
  refine ⟨filled_rankStore, ⟨_, hs, hvalue rfl⟩, _, hs', ?_⟩
  have hread : Filter.parsePredicate (payloadPath "rank") (operator "$gte" (.int32 1)) =
      .ok (.conditions [.compare .gte (.int32 1)]) := rfl
  rcases hoperators _ rfl with ⟨conds, hconds, hselects⟩ | ⟨cause, hcause, -⟩
  · obtain rfl := Predicate.conditions.inj (Except.ok.inj (hread.symm.trans hconds))
    exact hselects
  · cases hread.symm.trans hcause

open scoped Pattern in
/-- Of a value that reads as an operator the query selects a note that does not have it,
and not the note that does; of another such value it fails. -/
theorem matching_equalTo_operators :
    let v := operator "$gt" (.int32 0)
    let s := whereEqual "note" "rank" v
    rankStore.Filled ∧ applyAll {} [.contentType "note", .equalTo "rank" v] = .ok s ∧
      holds (Path.resolve (rankNote "a" (.int32 1)).payload "rank") v = false ∧
      holds (Path.resolve (rankNote "b" v).payload "rank") v = true ∧
      rankStore.matching "contents" (s.normalize {}).filter =
        .ok [(rankNote "a" (.int32 1)).withId (.invented 0)] ∧
      ∀ t, ((whereEqual "note" "rank" (operator "$near" (.int32 0))).run {} rankStore.toStore
        t).outcome = .error (.store (.badFilter (.unsupportedOperator "$near" "data.rank"))) := by
  refine ⟨filled_rankStore, rfl, by decide +kernel, by decide +kernel, rfl, fun t => ?_⟩
  cases t <;> rfl

end QueryState

end ContentQuery
