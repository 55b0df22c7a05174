/-
The locales of schemas.

A query for schemas and the lookup of a queried type's schema ask for no locale.  A
descriptor that names a schema is looked up in its owner's locale like any other, so only
stores without such descriptors are the same to a query when a schema changes its locale:

* `LeavesSchemas` — in no form in which a query sees a payload does a descriptor name a
  schema or stand in one;
* `run_twins` — then no query has different outcomes in twin stores;
* `find_linkedSchema` — with such a descriptor a query can have.
-/
import ContentQuery.Pattern.Reading
import ContentQuery.Proofs.Avoidance
import ContentQuery.Proofs.Deferred
import ContentQuery.Proofs.Twins

namespace ContentQuery

/-! ### Projections -/

/-- A find for one document projects the first that matches. -/
theorem MemoryStore.find_first [PatternLanguage] (m : MemoryStore) (collection : String)
    (filter p : Document) :
    m.find collection filter { projection := some p, limit := some 1 } =
      (m.matching collection filter).bind fun docs => projectAll (some p) (docs.take 1) := by
  rw [m.find_eq_bind, m.find_unpaged]
  cases m.matching collection filter <;> rfl

/-- What is looked up is the payload of a stored document, as it is projected. -/
theorem MemoryStore.exists_of_payload? {m : MemoryStore} {collection : String} {p : Document}
    {k : Key} {found : Document} (h : m.payload? collection (some p) k = some found) :
    ∃ raw ∈ m.documents collection, keyOf? raw = some k ∧
      found = payloadOf (projectedOrSelf p raw) := by
  obtain ⟨raw, hraw, h⟩ := Option.bind_eq_some_iff.mp h
  obtain ⟨out, hout, h⟩ := Option.bind_eq_some_iff.mp h
  obtain rfl := Option.some.inj h
  have hprojected : projectedOrSelf p raw = out := by
    have hout' : (Projection.apply p raw).toOption = some out := hout
    rw [projectedOrSelf, hout']
    rfl
  exact ⟨raw, List.mem_of_find?_eq_some hraw, by simpa using List.find?_some hraw,
    congrArg payloadOf hprojected.symm⟩

/-! ### Queries that leave schemas alone -/

namespace Reference

/-- No descriptor of a payload stands in a schema or names one. -/
def Apart (contentType : String) (payload : Document) : Prop :=
  ∀ l ∈ scan payload, contentType ≠ schemasUid ∧ l.descriptor.referenceTo ≠ schemasUid

instance (contentType : String) (payload : Document) : Decidable (Apart contentType payload) :=
  inferInstanceAs (Decidable (∀ l ∈ _, _ ∧ _))

variable {contentType : String} {payload : Document}

theorem Apart.avoids (h : Apart contentType payload) : Avoids schemasUid payload :=
  fun l hl => (h l hl).2

theorem Apart.scan_eq_nil (h : Apart contentType payload) (hct : contentType = schemasUid) :
    scan payload = [] :=
  List.eq_nil_iff_forall_not_mem.mpr fun l hl => (h l hl).1 hct

end Reference

namespace QueryState

/-- The forms in which a query looks for descriptors in a document: as it is stored, for
a reference predicate, and as it is projected when it is found or looked up. -/
def forms (s : QueryState) (c : Config) : List (Document → Document) :=
  (if s.referenceQuery.isEmpty then [] else [id]) ++
    if s.expandMode c = .none then []
    else [projectedOrSelf (s.nativeProjection c), projectedOrSelf (renderProjection c.projections)]

/-- In no form in which the query sees a document does a descriptor stand in a schema or
name one. -/
def LeavesSchemas (s : QueryState) (c : Config) (m : MemoryStore) : Prop :=
  ∀ d ∈ m.documents c.collection, ∀ k ∈ keyOf? d, ∀ form ∈ s.forms c,
    Reference.Apart k.contentType (payloadOf (form d))

instance (s : QueryState) (c : Config) (m : MemoryStore) : Decidable (s.LeavesSchemas c m) :=
  inferInstanceAs (Decidable (∀ d ∈ _, ∀ k ∈ keyOf? d, ∀ form ∈ _, Reference.Apart _ _))

/-! ### Twin stores -/

section TwinStores

variable {s : QueryState} {c : Config} {m m' : MemoryStore}

/-- Two documents of one place in two stores, of which the first is in the collection of a
stack. -/
def Paired (c : Config) (m : MemoryStore) (d d' : Document) : Prop :=
  d ∈ m.documents c.collection ∧ Document.Twin d d'

theorem mem_forms_of_references (h : s.referenceQuery.isEmpty = false) : id ∈ s.forms c := by
  simp [forms, h]

theorem mem_forms_of_expanded (h : s.expandMode c ≠ .none) :
    projectedOrSelf (s.nativeProjection c) ∈ s.forms c ∧
      projectedOrSelf (renderProjection c.projections) ∈ s.forms c := by
  simp [forms, h]

section Pairs

variable (hdocs : List.Forall₂ Document.Twin (m.documents c.collection) (m'.documents c.collection))
  (hleaves : s.LeavesSchemas c m)
include hdocs hleaves

/-- A reference predicate keeps both of two paired documents or neither. -/
theorem keepsOwner_eq_of_paired [PatternLanguage] (href : s.referenceQuery.isEmpty = false)
    {d d' : Document} (h : Paired c m d d') (locale : String) (paths : List String) :
    Reference.targetsByPath locale d = Reference.targetsByPath locale d' ∧
      Reference.keepsOwner m c.collection locale s.referenceQuery paths d =
        Reference.keepsOwner m' c.collection locale s.referenceQuery paths d' := by
  obtain ⟨hmem, htwin⟩ := h
  have hapart (k : Key) (hk : keyOf? d = some k) : Reference.Apart k.contentType (payloadOf d) :=
    hleaves d hmem k hk id (mem_forms_of_references href)
  have htargets : Reference.targetsByPath locale d = Reference.targetsByPath locale d' := by
    cases htwin with
    | same => rfl
    | schema hk hk' hct hct' huid hpayload =>
      -- a schema has no targets
      have hnone : Reference.scan (payloadOf d) = [] := (hapart _ hk).scan_eq_nil hct
      have hpayload' := (Document.Twin.schema hk hk' hct hct' huid hpayload).payloadOf_eq
      rw [Reference.targetsByPath_eq, Reference.targetsByPath_eq, ← hpayload', hnone]
      rfl
  have havoids : Reference.Avoids schemasUid (payloadOf d) := by
    obtain ⟨⟨k, hk⟩, -⟩ := htwin.exists_key
    exact (hapart k hk).avoids
  refine ⟨htargets, ?_⟩
  rw [Reference.keepsOwner, Reference.keepsOwner]
  refine congrArg (Option.any · _) (funext fun groups => ?_)
  rw [Reference.refersTo, Reference.refersTo, ← htargets]
  refine congrArg (List.all groups) (funext fun g => ?_)
  cases hkeys : Entries.get? (Reference.targetsByPath locale d) g.1 with
  | none => rfl
  | some keys =>
    have hfound : keys.filterMap (m.payload? c.collection none) =
        keys.filterMap (m'.payload? c.collection none) := List.filterMap_congr fun k hk =>
      payload?_eq_of_twins hdocs (Reference.contentType_ne_of_targets havoids hkeys k hk) none
    rw [Option.any_some, Option.any_some, hfound]

/-- A query keeps pairs. -/
theorem forall₂_semiJoined [PatternLanguage] {docs docs' : List Document}
    (h : List.Forall₂ (Paired c m) docs docs') :
    List.Forall₂ (Paired c m) (s.semiJoined c m docs) (s.semiJoined c m' docs') := by
  unfold semiJoined
  dsimp only
  cases href : s.referenceQuery.isEmpty with
  | true => exact h
  | false =>
    have hpaths : Reference.referencePaths (s.locale.getD c.defaultLocale) docs =
        Reference.referencePaths (s.locale.getD c.defaultLocale) docs' := by
      rw [Reference.referencePaths, Reference.referencePaths]
      refine congrArg (List.flatMap Entries.keys) ?_
      induction h with
      | nil => rfl
      | cons hd _ ih =>
        rw [List.map_cons, List.map_cons, ih,
          (keepsOwner_eq_of_paired hdocs hleaves href hd _ []).1]
    rw [hpaths]
    refine List.rel_filter (fun d d' hd => ?_) h
    exact Bool.eq_iff_iff.mp (keepsOwner_eq_of_paired hdocs hleaves href hd _ _).2

/-- Paired documents look alike once they are projected and expanded. -/
theorem shown_eq_of_paired {d d' : Document} (h : Paired c m d d') :
    s.shown c m d = s.shown c m' d' := by
  obtain ⟨hmem, htwin⟩ := h
  have hpayload := payloadOf_projectedOrSelf_congr htwin.get?_payload (s.nativeProjection c)
  rw [shown, shown]
  by_cases hmode : s.expandMode c = .none
  · have hmode' : (s.normalize c).expansion.mode = .none := hmode
    rw [Reference.unfold_of_mode_none hmode', Reference.unfold_of_mode_none hmode', hpayload]
  · obtain ⟨hfound, hlooked⟩ := mem_forms_of_expanded hmode
    cases htwin with
    | same hk hct =>
      have hlook (j : Key) (hj : j.contentType ≠ schemasUid) :
          (s.normalize c).expansion.look m j = (s.normalize c).expansion.look m' j :=
        payload?_eq_of_twins hdocs hj _
      have havoids (j : Key) (found : Document) (_ : j.contentType ≠ schemasUid)
          (h : (s.normalize c).expansion.look m j = some found) :
          Reference.Avoids schemasUid found := by
        obtain ⟨raw, hraw, hkey, rfl⟩ := MemoryStore.exists_of_payload? h
        exact (hleaves raw hraw j hkey _ hlooked).avoids
      exact Reference.depthFirst_congr hlook havoids _ _ _ (hleaves d hmem _ hk _ hfound).avoids
    | schema hk hk' hct hct' huid hget =>
      have hnone : Reference.scan (payloadOf (projectedOrSelf (s.nativeProjection c) d)) = [] :=
        (hleaves d hmem _ hk _ hfound).scan_eq_nil hct
      rw [Reference.Expansion.unfold, Reference.Expansion.unfold,
        Reference.depthFirst_of_scan_eq_nil hnone, ← hpayload,
        Reference.depthFirst_of_scan_eq_nil hnone]

theorem map_shown_eq_of_paired {docs docs' : List Document}
    (h : List.Forall₂ (Paired c m) docs docs') :
    docs.map (s.shown c m) = docs'.map (s.shown c m') := by
  induction h with
  | nil => rfl
  | cons hd _ ih => rw [List.map_cons, List.map_cons, ih, shown_eq_of_paired hdocs hleaves hd]

end Pairs

/-- The schema that goes with a response is the same in both stores. -/
theorem outcome_schema_eq_of_twins [PatternLanguage] {q : CompiledQuery}
    (hdocs : List.Forall₂ Document.Twin (m.documents q.collection) (m'.documents q.collection)) :
    (m.run q.schema).outcome = (m'.run q.schema).outcome := by
  unfold CompiledQuery.schema
  split
  · have halike := alike_matching_schema hdocs q.contentType
    rw [m.outcome_do, m'.outcome_do, m.outcome_run_ask, m'.outcome_run_ask, m.find_first,
      m'.find_first]
    generalize m.matching q.collection (CompiledQuery.schemaFilter q.contentType) = found at halike
    generalize m'.matching q.collection (CompiledQuery.schemaFilter q.contentType) = found' at halike
    cases halike with
    | error cause => rfl
    | ok h =>
      cases h with
      | nil => rfl
      | @cons d d' docs docs' hd _ =>
        -- nothing but the id is left out of the schema
        have hplain : Projection.isMixed [(Projection.idKey, .int32 0)] = false := by decide
        have hpayload := payloadOf_projectedOrSelf_congr hd.get?_payload
          [(Projection.idKey, .int32 0)]
        simp only [Except.bind, List.take_succ_cons, List.take_zero, MemoryStore.projectAll_eq,
          hplain, Bool.false_eq_true, false_and, if_false, List.map_cons, List.map_nil]
        exact congrArg (fun payload => Except.ok (some payload)) hpayload
  · rfl

section Runs

variable (htwins : m.Twins m') (hc : c.fault? = none) (hleaves : s.LeavesSchemas c m)
include htwins hleaves

/-- A query has the same results in twin stores, or fails in the same way. -/
theorem alike_unpaged [PatternLanguage] {contentType : String}
    (hct : s.contentType = some contentType) :
    Alike (Paired c m) (m.run (s.normalize c).unpaged.candidates).outcome
      (m'.run (s.normalize c).unpaged.candidates).outcome := by
  have hdocs := htwins.documents c.collection
  have hpaired : List.Forall₂ (Paired c m) (m.documents c.collection) (m'.documents c.collection) :=
    (List.forall₂_and_left _ _).mpr ⟨fun d hd => hd, hdocs⟩
  have hmatching := alike_matching (fun _ _ h => h.2) hct hpaired
  rw [outcome_unpaged, outcome_unpaged]
  generalize m.matching (s.normalize c).collection (s.normalize c).filter = found at hmatching
  generalize m'.matching (s.normalize c).collection (s.normalize c).filter = found' at hmatching
  cases hmatching with
  | error cause => exact .error _
  | ok h =>
    refine .ok (forall₂_semiJoined hdocs hleaves ?_)
    unfold nativeSort
    cases s.sort with
    | none => exact h
    | some r =>
      refine Sorting.forall₂_sort (fun d d' hd key hkey => ?_) h
      obtain rfl := List.mem_singleton.mp hkey
      exact resolve_payloadPath_congr hd.2.get?_payload _

include hc in
theorem run_find_twins [PatternLanguage] (hs : s.limit ≠ some 0) :
    (s.run c m.toStore .find).outcome = (s.run c m'.toStore .find).outcome := by
  rw [outcome_run_find, outcome_run_find]
  cases hscope : s.requireScope "find" with
  | error e => rfl
  | ok u =>
    obtain ⟨contentType, hct⟩ := Option.isSome_iff_exists.mp (requireScope_eq_ok hscope)
    have halike := alike_unpaged htwins hleaves hct
    have hdocs := htwins.documents c.collection
    show (m.run (s.normalize c).find).outcome = (m'.run (s.normalize c).find).outcome
    rw [outcome_find hc hs, outcome_find hc hs]
    generalize (m.run (s.normalize c).unpaged.candidates).outcome = found at halike
    generalize (m'.run (s.normalize c).unpaged.candidates).outcome = found' at halike
    cases halike with
    | error cause => rfl
    | @ok all all' h =>
      have hpage := List.forall₂_take (s.pageLimit c) (List.forall₂_drop (s.skip.getD c.skip) h)
      have hshown := map_shown_eq_of_paired hdocs hleaves hpage
      have hempty : (all.drop (s.skip.getD c.skip)).take (s.pageLimit c) ≠ [] ↔
          (all'.drop (s.skip.getD c.skip)).take (s.pageLimit c) ≠ [] := by
        rw [← List.length_pos_iff, ← List.length_pos_iff, hpage.length_eq]
      have hschema := outcome_schema_eq_of_twins (q := s.normalize c) hdocs
      show CompiledQuery.respond _ _ _ _ _ = CompiledQuery.respond _ _ _ _ _
      rw [respond_eq hc, respond_eq hc, hshown, hschema, h.length_eq]
      simp only [hempty]

theorem run_count_twins [PatternLanguage] :
    (s.run c m.toStore .count).outcome = (s.run c m'.toStore .count).outcome := by
  rw [outcome_run_count, outcome_run_count]
  cases hscope : s.requireScope "count" with
  | error e => rfl
  | ok u =>
    obtain ⟨contentType, hct⟩ := Option.isSome_iff_exists.mp (requireScope_eq_ok hscope)
    have halike := alike_unpaged htwins hleaves hct
    show (m.run (s.normalize c).count).outcome = (m'.run (s.normalize c).count).outcome
    rw [outcome_count, outcome_count]
    generalize (m.run (s.normalize c).unpaged.candidates).outcome = found at halike
    generalize (m'.run (s.normalize c).unpaged.candidates).outcome = found' at halike
    cases halike with
    | error cause => rfl
    | ok h => exact congrArg (fun n => Except.ok (Envelope.countOnly _ n)) h.length_eq

end Runs

end TwinStores

/-- A query that leaves schemas alone has one outcome in stores that differ in the locales
of schemas, whether it finds schemas, adds one to its response or counts. -/
theorem run_twins [PatternLanguage] {m m' : MemoryStore} (htwins : m.Twins m') {c : Config}
    (hc : c.fault? = none) {s : QueryState} (hs : s.Reachable) (hleaves : s.LeavesSchemas c m)
    (t : Terminal) : (s.run c m.toStore t).outcome = (s.run c m'.toStore t).outcome := by
  cases t with
  | find => exact run_find_twins htwins hc hleaves hs.limit_ne_zero
  | findOne =>
    rw [run_findOne, run_findOne]
    exact run_find_twins (s := { s with single := true }) htwins hc hleaves hs.limit_ne_zero
  | count => exact run_count_twins htwins hleaves

/-! ### Two pages and their schema -/

/-- A store of a page with a link, another page, and the schema of pages in some locale. -/
def schemaStore (link : Value) (locale : String) : MemoryStore :=
  let m := (MemoryStore.insertDocument {} "pages" ⟨⟨"page", "en", "a"⟩, [("link", link)]⟩).2
  let m := (m.insertDocument "pages" ⟨⟨"page", "en", "b"⟩, [("title", .string "one")]⟩).2
  (m.insertDocument "pages" ⟨⟨schemasUid, locale, "page"⟩, [("title", .string "Page")]⟩).2

theorem twins_schemaStore (link : Value) (locale locale' : String) :
    (schemaStore link locale).Twins (schemaStore link locale') :=
  .document _ ⟨rfl, rfl, rfl, fun h => absurd rfl h⟩ <|
    .document _ ⟨rfl, rfl, rfl, fun _ => rfl⟩ <|
      .document _ ⟨rfl, rfl, rfl, fun _ => rfl⟩ .empty

/-- The query for the pages that refer to a page of some title, with their schema. -/
def titledPages : QueryState where
  contentType := some "page"
  includeAll := true
  includeSchema := true
  referenceQuery := .field "link.title" (.equals (.string "one"))

open scoped Pattern in
/-- The schema goes with the response from either locale. -/
theorem run_twins_titledPages :
    let m := schemaStore (Reference.pageLink "b") "en"
    let m' := schemaStore (Reference.pageLink "b") "fr"
    m.Twins m' ∧ pageConfig.fault? = none ∧ titledPages.Reachable ∧
      titledPages.LeavesSchemas pageConfig m ∧
      (titledPages.run pageConfig m.toStore .find).outcome =
        (titledPages.run pageConfig m'.toStore .find).outcome ∧
      (titledPages.run pageConfig m'.toStore .find).outcome.map
        (fun e => (e.items.length, e.schema.isSome)) = .ok (1, true) := by
  intro m m'
  have htwins : m.Twins m' := twins_schemaStore _ _ _
  have hc : pageConfig.fault? = none := by decide
  have hs : titledPages.Reachable :=
    ⟨[.contentType "page", .includeReferences, .includeSchema,
      .queryReferences [("link.title", .string "one")]], rfl⟩
  have hleaves : titledPages.LeavesSchemas pageConfig m := by decide +kernel
  exact ⟨htwins, hc, hs, hleaves, run_twins htwins hc hs hleaves .find, by decide +kernel⟩

/-- The query for all pages with what they refer to. -/
def expandedPages : QueryState := { contentType := some "page", includeAll := true }

open scoped Pattern in
/-- A descriptor finds a schema in the locale of its owner and in no other. -/
theorem find_linkedSchema :
    let link : Value := .document [(Reference.Field.referenceTo, .string schemasUid),
      (Reference.Field.values, .string "page")]
    (schemaStore link "en").Twins (schemaStore link "fr") ∧
      Reference.scan [("title", .string "Page")] = [] ∧
      pageConfig.fault? = none ∧ expandedPages.Reachable ∧
      (expandedPages.run pageConfig (schemaStore link "en").toStore .find).outcome ≠
        (expandedPages.run pageConfig (schemaStore link "fr").toStore .find).outcome := by
  intro link
  have hfound : (expandedPages.run pageConfig (schemaStore link "en").toStore .find).outcome.map
      (fun e => e.items.map fun d => (Document.documentAt? d "link").isSome) =
        .ok [true, false] := by decide +kernel
  have hmissing : (expandedPages.run pageConfig (schemaStore link "fr").toStore .find).outcome.map
      (fun e => e.items.map fun d => (Document.documentAt? d "link").isSome) =
        .ok [false, false] := by decide +kernel
  refine ⟨twins_schemaStore _ _ _, rfl, by decide, ⟨[.contentType "page", .includeReferences], rfl⟩,
    fun heq => ?_⟩
  rw [heq, hmissing] at hfound
  exact absurd hfound (by decide)

end QueryState

end ContentQuery
