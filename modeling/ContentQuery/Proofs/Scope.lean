/-
What a compiled filter selects.

The filter that a query has accumulated is written under the payload field, put
behind the fields that scope the query, and read back by the store.  Nothing is
lost or overwritten on the way:

* `Filled.exists_stored` — what a store holds that has been filled with payloads
  and stored documents;
* `accepts_renamed` — a filter with its paths under the payload field accepts a
  stored document when the filter accepts the payload;
* `readFilter_normalize` — what the store reads of a compiled filter;
* `matching_normalize` — so a query selects the documents of its scope whose
  payload its filter accepts.
-/
import ContentQuery.Pattern.Reading
import ContentQuery.Proofs.Lookup
import ContentQuery.Proofs.PayloadPaths
import ContentQuery.Proofs.RoundTrip

namespace ContentQuery

/-! ### Filled stores -/

/-- The stores that come from an empty one by inserting payloads and stored
documents. -/
inductive MemoryStore.Filled : MemoryStore → Prop
  | empty : Filled {}
  | document {m : MemoryStore} (collection : String) (d : StoredDocument) :
      Filled m → Filled (m.insertDocument collection d).2
  | payload {m m' : MemoryStore} {collection contentType locale : String} {payload : Document}
      {id : ObjectId} :
      Filled m → m.insertPayload collection contentType locale payload = .ok (id, m') → Filled m'
  /-- finds that have been served -/
  | served {m : MemoryStore} (n : Nat) : Filled m → Filled { m with findCalls := n }

/-- The stored form of a document, with its id. -/
def StoredDocument.withId (s : StoredDocument) (id : ObjectId) : Document :=
  s.toDocument ++ [(Projection.idKey, .objectId id)]

namespace MemoryStore

theorem documents_append (m : MemoryStore) (collection other : String) (d : Document) :
    (m.append collection d).documents other =
      if collection = other then m.documents other ++ [d] else m.documents other := by
  unfold documents append
  by_cases h : collection = other
  · subst h
    rw [if_pos rfl, Entries.get?_upsert_self]
    rfl
  · rw [if_neg h, Entries.get?_upsert_of_ne _ h]

/-- An insertion adds one document, in its stored form and with an id. -/
theorem documents_insertDocument (m : MemoryStore) (collection other : String)
    (s : StoredDocument) :
    (m.insertDocument collection s).2.documents other =
      if collection = other then m.documents other ++ [s.withId (.invented m.inventedIds)]
      else m.documents other :=
  m.documents_append collection other (s.withId (.invented m.inventedIds))

theorem mem_insertDocument {m : MemoryStore} {collection other : String} {s : StoredDocument}
    {d : Document} (hd : d ∈ (m.insertDocument collection s).2.documents other) :
    d ∈ m.documents other ∨ d = s.withId (.invented m.inventedIds) := by
  rw [documents_insertDocument] at hd
  split at hd
  · exact (List.mem_append.mp hd).imp_right List.mem_singleton.mp
  · exact .inl hd

/-- Everything in a filled store is a stored form with an id. -/
theorem Filled.exists_stored {m : MemoryStore} (h : m.Filled) {collection : String} {d : Document}
    (hd : d ∈ m.documents collection) : ∃ s id, d = StoredDocument.withId s id := by
  induction h with
  | empty => cases hd
  | @document m inserted s _ ih =>
    rcases mem_insertDocument hd with hd | rfl
    · exact ih hd
    · exact ⟨s, _, rfl⟩
  | @payload m m' inserted contentType locale payload id _ hinsert ih =>
    unfold insertPayload at hinsert
    split at hinsert
    · -- a payload is inserted as the document that is made of it
      rename_i s _
      have hm : m' = (m.insertDocument inserted s).2 := by rw [Except.ok.inj hinsert]
      rw [hm] at hd
      rcases mem_insertDocument hd with hd | rfl
      · exact ih hd
      · exact ⟨s, _, rfl⟩
    · cases hinsert
  | served n _ ih => exact ih hd

end MemoryStore

theorem keyOf?_withId (s : StoredDocument) (id : ObjectId) : keyOf? (s.withId id) = some s.key := rfl

theorem get?_payload_withId (s : StoredDocument) (id : ObjectId) :
    Entries.get? (s.withId id) Wrapper.payload = some (.document s.payload) := rfl

/-! ### Filters under the payload field -/

namespace Filter

/-- The paths are short enough to be followed below the payload field. -/
def ShallowFields (fields : List (String × Predicate)) : Prop :=
  ∀ e ∈ fields, (Path.segments e.1).length < Path.maxDepth

theorem isOperator_payloadPath (path : String) : isOperator (payloadPath path) = false := by
  rw [isOperator, toList_payloadPath]
  rfl

theorem readable_payloadPath {fields : List (String × Predicate)}
    (h : DistinctFields fields ∧ LiteralFields fields) : Readable payloadPath fields where
  distinct := h.1
  literal := h.2
  named := by
    intro e he
    exact ⟨isEmpty_payloadPath e.1, isOperator_payloadPath e.1⟩

instance (fields : List (String × Predicate)) : Decidable (ShallowFields fields) :=
  inferInstanceAs (Decidable (∀ e ∈ fields, _))

section Renamed

variable [PatternLanguage] {d payload : Document}

theorem acceptsFields_renamed (hd : Entries.get? d Wrapper.payload = some (.document payload))
    {fields : List (String × Predicate)} (hdistinct : DistinctFields fields)
    (hshort : ShallowFields fields) :
    acceptsFields d (fields.map fun e => (payloadPath e.1, e.2)) = acceptsFields payload fields := by
  rw [acceptsFields, acceptsFields, List.all_map, Bool.eq_iff_iff, List.all_eq_true,
    List.all_eq_true]
  refine forall₂_congr fun e he => ?_
  rw [Function.comp_apply, resolve_payloadPath hd (hdistinct.2 e he).1 (hshort e he)]

mutual

/-- A filter under the payload field accepts what the filter accepts as a payload. -/
theorem accepts_renamed (hd : Entries.get? d Wrapper.payload = some (.document payload))
    (f : Filter) (hdistinct : f.Every DistinctFields) (hshort : f.Every ShallowFields) :
    accepts d (f.renamed payloadPath) = accepts payload f := by
  cases f with
  | mk fields allOf anyOf script =>
    obtain ⟨hfields, hall, hany⟩ := hdistinct
    obtain ⟨hshort, hshortAll, hshortAny⟩ := hshort
    have hempty : (renamedEach payloadPath anyOf).isEmpty = anyOf.isEmpty := by
      cases anyOf <;> rfl
    rw [renamed, accepts, accepts, acceptsFields_renamed hd hfields hshort,
      acceptsEach_renamed hd allOf hall hshortAll, acceptsSome_renamed hd anyOf hany hshortAny,
      hempty]

theorem acceptsEach_renamed (hd : Entries.get? d Wrapper.payload = some (.document payload))
    (fs : List Filter) (hdistinct : EveryOf DistinctFields fs)
    (hshort : EveryOf ShallowFields fs) :
    acceptsEach d (renamedEach payloadPath fs) = acceptsEach payload fs := by
  cases fs with
  | nil => rfl
  | cons f rest =>
    rw [renamedEach, acceptsEach, acceptsEach, accepts_renamed hd f hdistinct.1 hshort.1,
      acceptsEach_renamed hd rest hdistinct.2 hshort.2]

theorem acceptsSome_renamed (hd : Entries.get? d Wrapper.payload = some (.document payload))
    (fs : List Filter) (hdistinct : EveryOf DistinctFields fs)
    (hshort : EveryOf ShallowFields fs) :
    acceptsSome d (renamedEach payloadPath fs) = acceptsSome payload fs := by
  cases fs with
  | nil => rfl
  | cons f rest =>
    rw [renamedEach, acceptsSome, acceptsSome, accepts_renamed hd f hdistinct.1 hshort.1,
      acceptsSome_renamed hd rest hdistinct.2 hshort.2]

end

end Renamed

mutual

theorem usesScript_renamed (rename : String → String) (f : Filter) :
    (f.renamed rename).usesScript = f.usesScript := by
  cases f with
  | mk fields allOf anyOf script =>
    rw [renamed, usesScript, usesScript, anyUsesScript_renamed rename allOf,
      anyUsesScript_renamed rename anyOf]

theorem anyUsesScript_renamed (rename : String → String) (fs : List Filter) :
    anyUsesScript (renamedEach rename fs) = anyUsesScript fs := by
  cases fs with
  | nil => rfl
  | cons f rest =>
    rw [renamedEach, anyUsesScript, anyUsesScript, usesScript_renamed rename f,
      anyUsesScript_renamed rename rest]

end

end Filter

/-! ### The fields that scope a query -/

namespace QueryState

/-- What the scope of a query asks of the wrapper. -/
def scopeFields (s : QueryState) (contentType locale : String) : List (String × Predicate) :=
  [(Wrapper.contentType, .equals (.string contentType))] ++
  (if ContentClass.of contentType = .schema then []
    else [(Wrapper.locale, .equals (.string locale))]) ++
  s.uid.toList.map fun uid => (Wrapper.uid, .equals (.string uid))

/-- Whether a stored document is in the scope of a query: it has the content type,
the chosen or the default locale, unless it is a schema, and the uid if one was
given. -/
def inScope (s : QueryState) (c : Config) (d : Document) : Bool :=
  (keyOf? d).any fun k =>
    s.contentType == some k.contentType &&
      (ContentClass.of k.contentType == .schema || k.locale == s.locale.getD c.defaultLocale) &&
      s.uid.all (k.uid == ·)

variable (s : QueryState) (contentType locale : String)

theorem scope_eq :
    s.scope contentType locale =
      [(Wrapper.contentType, .string contentType)] ++
      (if ContentClass.of contentType = .schema then [] else [(Wrapper.locale, .string locale)]) ++
      s.uid.toList.map fun uid => (Wrapper.uid, .string uid) := by
  unfold scope
  by_cases hclass : ContentClass.of contentType = .schema
  · cases s.uid <;> simp only [hclass, if_true] <;> rfl
  · cases s.uid <;> simp only [hclass, if_false] <;> rfl

theorem key_of_mem_scope {k : String} (h : k ∈ Entries.keys (s.scope contentType locale)) :
    k ∈ [Wrapper.contentType, Wrapper.locale, Wrapper.uid] := by
  rw [scope_eq, Entries.keys_append, Entries.keys_append, List.mem_append, List.mem_append] at h
  rcases h with (h | h) | h
  · obtain rfl := List.mem_singleton.mp h
    simp
  · split at h
    · cases h
    · obtain rfl := List.mem_singleton.mp h
      simp
  · obtain ⟨e, he, rfl⟩ := List.mem_map.mp h
    obtain ⟨uid, -, rfl⟩ := List.mem_map.mp he
    simp

theorem parseFields_scope :
    Filter.parseFields {} (s.scope contentType locale) =
      .ok { fields := s.scopeFields contentType locale } := by
  rw [scope_eq, scopeFields]
  by_cases hclass : ContentClass.of contentType = .schema
  · rw [if_pos hclass, if_pos hclass]
    cases s.uid <;> rfl
  · rw [if_neg hclass, if_neg hclass]
    cases s.uid <;> rfl

/-- The scope field of the uid, if there is one, accepts the documents of that uid. -/
theorem acceptsFields_uid [PatternLanguage] (s : QueryState) {d : Document} {k : Key}
    (hk : keyOf? d = some k) :
    Filter.acceptsFields d
        (s.uid.toList.map fun uid => (Wrapper.uid, Predicate.equals (.string uid))) =
      s.uid.all (k.uid == ·) := by
  have huid := holds_resolve_key (by decide) (by decide) (keyOf?_eq_some_iff.mp hk).2.2
  cases s.uid with
  | none => rfl
  | some uid => simp [Filter.acceptsFields, Predicate.accepts, huid]

/-- The scope fields accept the documents of the scope. -/
theorem acceptsFields_scopeFields [PatternLanguage] {s : QueryState} {c : Config}
    {contentType : String}
    (hct : s.contentType = some contentType) {d : Document} {k : Key} (hk : keyOf? d = some k) :
    Filter.acceptsFields d (s.scopeFields contentType (s.locale.getD c.defaultLocale)) =
      s.inScope c d := by
  obtain ⟨hwrapped, hlocale, -⟩ := keyOf?_eq_some_iff.mp hk
  have hwrapped' := holds_resolve_key (by decide) (by decide) hwrapped contentType
  have hlocale' := holds_resolve_key (by decide) (by decide) hlocale (s.locale.getD c.defaultLocale)
  have hscope : s.inScope c d = (some contentType == some k.contentType &&
      (ContentClass.of k.contentType == .schema || k.locale == s.locale.getD c.defaultLocale) &&
      s.uid.all (k.uid == ·)) := by
    rw [inScope, hk, hct]
    rfl
  have hmiddle : ((if ContentClass.of contentType = .schema then []
      else [(Wrapper.locale, Predicate.equals (.string (s.locale.getD c.defaultLocale)))]).all
        fun f => f.2.accepts (Path.resolve d f.1)) =
      (ContentClass.of contentType == .schema || k.locale == s.locale.getD c.defaultLocale) := by
    by_cases hclass : ContentClass.of contentType = .schema
    · simp [hclass]
    · simp [hclass, Predicate.accepts, hlocale']
  have hlast : ((s.uid.toList.map fun uid => (Wrapper.uid, Predicate.equals (.string uid))).all
        fun f => f.2.accepts (Path.resolve d f.1)) = s.uid.all (k.uid == ·) := acceptsFields_uid s hk
  rw [hscope, scopeFields, Filter.acceptsFields, List.all_append, List.all_append, hmiddle, hlast]
  by_cases heq : k.contentType = contentType
  · simp [Predicate.accepts, hwrapped', heq]
  · have hfalse : (k.contentType == contentType) = false := beq_eq_false_iff_ne.mpr heq
    have hfalse' : (contentType == k.contentType) = false :=
      beq_eq_false_iff_ne.mpr fun h => heq h.symm
    simp [Predicate.accepts, hwrapped', hfalse, hfalse']

end QueryState

/-! ### Compiled filters -/

namespace Filter

theorem usesScript_behind (f : Filter) (fields : List (String × Predicate)) :
    (f.behind { fields }).usesScript = f.usesScript := by
  cases f with
  | mk own allOf anyOf script => simp [behind, usesScript]

theorem accepts_behind [PatternLanguage] (d : Document) (f : Filter)
    (fields : List (String × Predicate)) :
    accepts d (f.behind { fields }) = (acceptsFields d fields && accepts d f) := by
  cases f with
  | mk own allOf anyOf script =>
    rw [behind, accepts, accepts, acceptsFields, List.all_append, Option.or_none, List.nil_append,
      List.nil_append]
    show (script.isNone && (acceptsFields d fields && acceptsFields d own) && _ && _) = _
    cases script.isNone <;> cases acceptsFields d fields <;> rfl

end Filter

namespace QueryState

variable {s : QueryState}

/-- The native filter has the scope in front of the accumulated filter. -/
theorem filter_normalize (s : QueryState) (c : Config) :
    (s.normalize c).filter =
      s.scope (s.contentType.getD "") (s.locale.getD c.defaultLocale) ++
        Filter.renderWith payloadPath s.filter := by
  refine Entries.insertAll_of_disjoint (Filter.nodup_keys_renderWith payloadPath s.filter) ?_
  intro k hk hmem
  have hscope := key_of_mem_scope s _ _ hmem
  have hplain : ∀ key ∈ [Wrapper.contentType, Wrapper.locale, Wrapper.uid],
      ¬ "data.".toList <+: key.toList ∧ key ≠ "$and" ∧ key ≠ "$or" ∧ key ≠ "$where" := by decide
  obtain ⟨hpath, hand, hor, hwhere⟩ := hplain k hscope
  obtain ⟨e, he, rfl⟩ := List.mem_map.mp hk
  rcases Filter.entry_of_mem_renderWith he with ⟨path, heq⟩ | rfl | rfl | heq
  · -- a path through the payload is no wrapper field
    exact payloadPath_ne hpath heq.symm
  · exact hand rfl
  · exact hor rfl
  · exact hwhere heq

/-- What the store reads of a compiled filter: what it reads of the accumulated filter
under the payload field, behind the scope. -/
theorem readFilter_filter_normalize (s : QueryState) (c : Config) :
    MemoryStore.readFilter (s.normalize c).filter =
      (MemoryStore.readFilter (Filter.renderWith payloadPath s.filter)).map fun f => f.behind
        { fields := s.scopeFields (s.contentType.getD "") (s.locale.getD c.defaultLocale) } := by
  have hparse : Filter.parse (s.normalize c).filter =
      (Filter.parse (Filter.renderWith payloadPath s.filter)).map fun f => f.behind
        { fields := s.scopeFields (s.contentType.getD "") (s.locale.getD c.defaultLocale) } := by
    rw [filter_normalize, Filter.parse, Filter.parseFields_append, parseFields_scope, Filter.parse,
      ← Filter.parseFields_behind, Filter.empty_behind]
    rfl
  rw [MemoryStore.readFilter, MemoryStore.readFilter, hparse]
  cases Filter.parse (Filter.renderWith payloadPath s.filter) with
  | error cause => rfl
  | ok f =>
    show (if _ = true then _ else _) = Except.map _ (if _ = true then _ else _)
    rw [Filter.usesScript_behind]
    split <;> rfl

/-- Without collisions nothing is lost on the way. -/
theorem readFilter_normalize (h : s.filter.Every (Filter.Readable payloadPath))
    (hscript : s.filter.usesScript = false) (c : Config) :
    MemoryStore.readFilter (s.normalize c).filter =
      .ok ((s.filter.renamed payloadPath).behind
        { fields := s.scopeFields (s.contentType.getD "") (s.locale.getD c.defaultLocale) }) := by
  have hparse : Filter.parse (Filter.renderWith payloadPath s.filter) =
      .ok (s.filter.renamed payloadPath) := by
    rw [Filter.parse, Filter.parseFields_renderWith (fun _ _ => payloadPath_injective) _ {} h,
      Filter.behind_empty]
  rw [readFilter_filter_normalize, MemoryStore.readFilter, hparse]
  show Except.map _ (if _ = true then _ else _) = _
  rw [Filter.usesScript_renamed, hscript]
  rfl

/-- A query selects the documents of its scope whose payload its filter accepts, in
the order of their insertion.  No predicate reaches beyond the scope. -/
theorem matching_normalize [PatternLanguage] {calls : List Call} {contentType : String}
    (m : MemoryStore) (c : Config) (hm : m.Filled) (hs : applyAll {} calls = .ok s)
    (hct : s.contentType = some contentType)
    (hwf : ∀ call ∈ calls, ∀ d ∈ call.predicates, Document.wellFormed d = true)
    (hequals : ∀ key v, .equalTo key v ∈ calls → Filter.operators? v = none)
    (hscript : s.filter.usesScript = false) (hshallow : s.filter.Every Filter.ShallowFields) :
    m.matching (s.normalize c).collection (s.normalize c).filter =
      .ok ((m.documents c.collection).filter fun d =>
        s.inScope c d && s.filter.accepts (payloadOf d)) := by
  have hdistinct : s.filter.Every Filter.DistinctFields := by
    refine (Filter.fieldInvariant_distinct.every_of_calls hwf (fun key v _ hkey => ?_) hs).1
    refine ⟨by simp [Entries.keys], fun e he => ?_⟩
    obtain rfl := List.mem_singleton.mp he
    exact ⟨hkey, trivial⟩
  have hliteral : s.filter.Every Filter.LiteralFields := by
    refine (Filter.fieldInvariant_literal.every_of_calls hwf (fun key v hmem _ => ?_) hs).1
    intro e he
    obtain rfl := List.mem_singleton.mp he
    exact hequals key v hmem
  -- without collisions and values of operators, what is written reads back
  have hread : s.filter.Every (Filter.Readable payloadPath) :=
    Filter.Every.imp (fun _ => Filter.readable_payloadPath) _ (Filter.Every.and _ hdistinct hliteral)
  have hcollection : (s.normalize c).collection = c.collection := rfl
  rw [MemoryStore.matching, readFilter_normalize hread hscript, hcollection, hct]
  refine congrArg Except.ok (List.filter_congr fun d hd => ?_)
  obtain ⟨stored, id, rfl⟩ := hm.exists_stored hd
  rw [Filter.accepts_behind,
    Filter.accepts_renamed (get?_payload_withId stored id) s.filter hdistinct hshallow]
  exact congrArg (· && _) (acceptsFields_scopeFields hct (keyOf?_withId stored id))

/-! ### A predicate that names another content type -/

/-- A note, in a store with others. -/
def note (contentType uid title : String) : StoredDocument :=
  ⟨⟨contentType, "en", uid⟩, [("title", .string title)]⟩

/-- A store with two notes and a draft. -/
def noteStore : MemoryStore :=
  let m := (MemoryStore.insertDocument {} "contents" (note "note" "a" "one")).2
  let m := (m.insertDocument "contents" (note "note" "b" "two")).2
  (m.insertDocument "contents" (note "draft" "c" "three")).2

/-- The query for notes of some title or of another content type. -/
def noteCalls : List Call :=
  [.contentType "note", .language "en",
    .or [[("title", .string "one")], [("content_type_uid", .string "draft")]]]

/-- The state that these calls lead to. -/
def noteQuery : QueryState where
  contentType := some "note"
  locale := some "en"
  filter :=
    { anyOf :=
        [.field "title" (.equals (.string "one")),
          .field "content_type_uid" (.equals (.string "draft"))] }

open scoped Pattern in
theorem matching_noteQuery :
    noteStore.Filled ∧ applyAll {} noteCalls = .ok noteQuery ∧
      noteStore.matching (noteQuery.normalize {}).collection (noteQuery.normalize {}).filter =
        .ok [(note "note" "a" "one").withId (.invented 0)] := by
  have hm : noteStore.Filled := .document _ _ (.document _ _ (.document _ _ .empty))
  have hs : applyAll {} noteCalls = .ok noteQuery := rfl
  have hwf : ∀ call ∈ noteCalls, ∀ d ∈ call.predicates, Document.wellFormed d = true := by decide
  have hequals : ∀ key v, .equalTo key v ∈ noteCalls → Filter.operators? v = none := by
    simp [noteCalls]
  have hshallow : noteQuery.filter.Every Filter.ShallowFields :=
    ⟨by decide, trivial, ⟨by decide, trivial, trivial⟩, ⟨by decide, trivial, trivial⟩, trivial⟩
  exact ⟨hm, hs, matching_normalize noteStore {} hm hs rfl hwf hequals rfl hshallow⟩

end QueryState

end ContentQuery
