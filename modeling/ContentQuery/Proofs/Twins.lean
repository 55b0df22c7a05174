/-
Stores that differ in the locales of schemas.

Two stores are twins when they were filled with the same documents, except that a schema
may be in another locale.  Of a pair of twin documents, one in each store:

* `Document.Twin` — a document that is no schema is its own twin, and schemas share their
  uid and their payload;
* `forall₂_twin_matching` — a query selects them both or neither, since no filter asks for
  the locale of a schema;
* `Sorting.forall₂_sort` — they keep their places among each other when they are sorted;
* `payload?_eq_of_twins` — a key that names no schema leads to one payload in both stores.
-/
import ContentQuery.Proofs.PayloadFilter
import ContentQuery.Query.Terminal
import Mathlib.Data.List.Forall2

namespace ContentQuery

/-! ### Twins -/

/-- Documents that differ at most in the locale of a schema. -/
structure StoredDocument.Twin (a b : StoredDocument) : Prop where
  contentType : a.key.contentType = b.key.contentType
  uid : a.key.uid = b.key.uid
  payload : a.payload = b.payload
  locale : a.key.contentType ≠ schemasUid → a.key.locale = b.key.locale

/-- Stores that were filled with twins. -/
inductive MemoryStore.Twins : MemoryStore → MemoryStore → Prop
  | empty : Twins {} {}
  | document {m m' : MemoryStore} (collection : String) {a b : StoredDocument} :
      a.Twin b → Twins m m' →
      Twins (m.insertDocument collection a).2 (m'.insertDocument collection b).2

/-- What twin stores hold in one place. -/
inductive Document.Twin : Document → Document → Prop
  | same {d : Document} {k : Key} : keyOf? d = some k → k.contentType ≠ schemasUid → Twin d d
  | schema {d d' : Document} {k k' : Key} : keyOf? d = some k → keyOf? d' = some k' →
      k.contentType = schemasUid → k'.contentType = schemasUid → k.uid = k'.uid →
      Entries.get? d Wrapper.payload = Entries.get? d' Wrapper.payload → Twin d d'

theorem StoredDocument.Twin.withId {a b : StoredDocument} (h : a.Twin b) (id : ObjectId) :
    Document.Twin (a.withId id) (b.withId id) := by
  by_cases hct : a.key.contentType = schemasUid
  · refine .schema (keyOf?_withId a id) (keyOf?_withId b id) hct (h.contentType ▸ hct) h.uid ?_
    rw [get?_payload_withId, get?_payload_withId, h.payload]
  · have heq : a = b := by
      obtain ⟨⟨act, aloc, auid⟩, apayload⟩ := a
      obtain ⟨⟨bct, bloc, buid⟩, bpayload⟩ := b
      obtain ⟨rfl, rfl, rfl, hlocale⟩ := h
      obtain rfl := hlocale hct
      rfl
    subst heq
    exact .same (keyOf?_withId a id) hct

namespace MemoryStore

variable {m m' : MemoryStore}

theorem Twins.inventedIds (h : m.Twins m') : m.inventedIds = m'.inventedIds := by
  induction h with
  | empty => rfl
  | document _ _ _ ih => exact congrArg (· + 1) ih

/-- Twin stores hold twins, one beside the other. -/
theorem Twins.documents (h : m.Twins m') (collection : String) :
    List.Forall₂ Document.Twin (m.documents collection) (m'.documents collection) := by
  induction h with
  | empty => exact .nil
  | @document m m' inserted a b hab hm ih =>
    rw [documents_insertDocument, documents_insertDocument, hm.inventedIds]
    split
    · exact List.rel_append ih (.cons (hab.withId _) .nil)
    · exact ih

end MemoryStore

namespace Document.Twin

variable {d d' : Document}

theorem get?_payload (h : Document.Twin d d') :
    Entries.get? d Wrapper.payload = Entries.get? d' Wrapper.payload := by
  cases h with
  | same => rfl
  | schema _ _ _ _ _ hpayload => exact hpayload

theorem payloadOf_eq (h : Document.Twin d d') : payloadOf d = payloadOf d' := by
  rw [payloadOf, payloadOf, Document.documentAt?, Document.documentAt?, h.get?_payload]

end Document.Twin

/-! ### Selecting -/

/-- The scope of a query does not tell twins apart: it names the locale of no schema. -/
theorem QueryState.inScope_eq_of_twin {d d' : Document} (h : Document.Twin d d') (s : QueryState)
    (c : Config) : s.inScope c d = s.inScope c d' := by
  cases h with
  | same => rfl
  | schema hk hk' hct hct' huid =>
    have hclass : ContentClass.of schemasUid = .schema := by decide
    rw [inScope, inScope, hk, hk', Option.any_some, Option.any_some, hct, hct', huid, hclass]
    rfl

theorem Document.Twin.exists_key {d d' : Document} (h : Document.Twin d d') :
    (∃ k, keyOf? d = some k) ∧ ∃ k, keyOf? d' = some k := by
  cases h with
  | same hk => exact ⟨⟨_, hk⟩, _, hk⟩
  | schema hk hk' => exact ⟨⟨_, hk⟩, _, hk'⟩

/-- A filter of payload paths behind the scope of a query accepts twins alike. -/
theorem QueryState.accepts_eq_of_twin [PatternLanguage] {d d' : Document} (h : Document.Twin d d')
    {s : QueryState}
    {c : Config} {contentType : String} (hct : s.contentType = some contentType) {f : Filter}
    (hf : f.Every Filter.PayloadFields) :
    Filter.accepts d (f.behind
      { fields := s.scopeFields contentType (s.locale.getD c.defaultLocale) }) =
    Filter.accepts d' (f.behind
      { fields := s.scopeFields contentType (s.locale.getD c.defaultLocale) }) := by
  obtain ⟨⟨k, hk⟩, k', hk'⟩ := h.exists_key
  rw [Filter.accepts_behind, Filter.accepts_behind, acceptsFields_scopeFields hct hk,
    acceptsFields_scopeFields hct hk', inScope_eq_of_twin h, Filter.accepts_congr h.get?_payload f hf]

/-- Two runs that fail in the same way, or find documents that go together. -/
inductive Alike {ε : Type} (R : Document → Document → Prop) :
    Except ε (List Document) → Except ε (List Document) → Prop
  | error (cause : ε) : Alike R (.error cause) (.error cause)
  | ok {docs docs' : List Document} : List.Forall₂ R docs docs' → Alike R (.ok docs) (.ok docs')

section Finding

variable {m m' : MemoryStore} {R : Document → Document → Prop}
  (hR : ∀ d d', R d d' → Document.Twin d d')
include hR

/-- A query selects twins in twin stores. -/
theorem alike_matching [PatternLanguage] {s : QueryState} {c : Config} {contentType : String}
    (hct : s.contentType = some contentType)
    (hdocs : List.Forall₂ R (m.documents c.collection) (m'.documents c.collection)) :
    Alike R (m.matching (s.normalize c).collection (s.normalize c).filter)
      (m'.matching (s.normalize c).collection (s.normalize c).filter) := by
  have hcollection : (s.normalize c).collection = c.collection := rfl
  rw [MemoryStore.matching, MemoryStore.matching, QueryState.readFilter_filter_normalize,
    hcollection, hct]
  cases hread : MemoryStore.readFilter (Filter.renderWith payloadPath s.filter) with
  | error cause => exact .error cause
  | ok f =>
    have hf := Filter.every_of_readFilter_payload hread
    refine .ok (List.rel_filter (fun d d' hd => ?_) hdocs)
    exact Bool.eq_iff_iff.mp (QueryState.accepts_eq_of_twin (hR d d' hd) hct hf)

end Finding

/-- The query for one schema, in some locale. -/
def schemaQuery (uid locale : String) : QueryState where
  contentType := some schemasUid
  locale := some locale
  uid := some uid

/-- A schema is looked up with the scope of a query for it, which names no locale. -/
theorem readFilter_schemaFilter (uid locale : String) :
    MemoryStore.readFilter (CompiledQuery.schemaFilter uid) =
      .ok { fields := (schemaQuery uid locale).scopeFields schemasUid locale } := by
  have hparse : Filter.parse (CompiledQuery.schemaFilter uid) =
      .ok { fields := (schemaQuery uid locale).scopeFields schemasUid locale } :=
    (schemaQuery uid locale).parseFields_scope schemasUid locale
  rw [MemoryStore.readFilter, hparse]
  rfl

/-- The lookup of a schema finds twins in twin stores. -/
theorem alike_matching_schema [PatternLanguage] {m m' : MemoryStore} {collection : String}
    (hdocs : List.Forall₂ Document.Twin (m.documents collection) (m'.documents collection))
    (uid : String) :
    Alike Document.Twin (m.matching collection (CompiledQuery.schemaFilter uid))
      (m'.matching collection (CompiledQuery.schemaFilter uid)) := by
  have hempty : Filter.Every Filter.PayloadFields {} :=
    Filter.every_empty (by simp [Filter.PayloadFields, Entries.keys])
  rw [MemoryStore.matching, MemoryStore.matching, readFilter_schemaFilter uid ""]
  refine .ok (List.rel_filter (fun d d' hd => ?_) hdocs)
  have haccepts := QueryState.accepts_eq_of_twin hd (s := schemaQuery uid "") (c := {}) rfl hempty
  rw [Filter.empty_behind] at haccepts
  exact Bool.eq_iff_iff.mp haccepts

/-! ### Sorting -/

namespace Sorting

variable {R : Document → Document → Prop}

theorem forall₂_place {precedes : Document → Document → Bool}
    (hp : ∀ a a' b b', R a a' → R b b' → precedes a b = precedes a' b') {x x' : Document}
    (hx : R x x') {xs xs' : List Document} (h : List.Forall₂ R xs xs') :
    List.Forall₂ R (place precedes x xs) (place precedes x' xs') := by
  induction h with
  | nil => exact .cons hx .nil
  | cons hy hrest ih =>
    rw [place, place, hp _ _ _ _ hx hy]
    split
    · exact .cons hy ih
    · exact .cons hx (.cons hy hrest)

theorem compare_congr {a a' b b' : Document} {keys : List SortKey}
    (ha : ∀ key ∈ keys, Path.resolve a key.field = Path.resolve a' key.field)
    (hb : ∀ key ∈ keys, Path.resolve b key.field = Path.resolve b' key.field) :
    compare a b keys = compare a' b' keys := by
  induction keys with
  | nil => rfl
  | cons key rest ih =>
    rw [compare, compare, compareBy, compareBy, ha key List.mem_cons_self,
      hb key List.mem_cons_self, ih (fun k hk => ha k (List.mem_cons_of_mem key hk))
        fun k hk => hb k (List.mem_cons_of_mem key hk)]

/-- Documents that go together and have the same sort values stay side by side. -/
theorem forall₂_sort {keys : List SortKey}
    (hR : ∀ d d', R d d' → ∀ key ∈ keys, Path.resolve d key.field = Path.resolve d' key.field)
    {docs docs' : List Document} (h : List.Forall₂ R docs docs') :
    List.Forall₂ R (sort keys docs) (sort keys docs') := by
  rw [sort, sort, sortBy, sortBy, List.forall₂_reverse_iff]
  refine List.rel_foldl (fun acc acc' hacc x x' hx => forall₂_place ?_ hx hacc) .nil h
  intro a a' b b' ha hb
  rw [compare_congr (hR a a' ha) (hR b b' hb)]

end Sorting

/-! ### Lookups -/

theorem find?_eq_of_twins {docs docs' : List Document} (h : List.Forall₂ Document.Twin docs docs')
    {k : Key} (hk : k.contentType ≠ schemasUid) :
    docs.find? (fun d => keyOf? d == some k) = docs'.find? fun d => keyOf? d == some k := by
  induction h with
  | nil => rfl
  | cons hd _ ih =>
    cases hd with
    | same => rw [List.find?_cons, List.find?_cons, ih]
    | schema hd hd' hct hct' =>
      -- a schema is passed over in both
      have hne (j : Key) (hj : j.contentType = schemasUid) : (some j == some k) = false :=
        beq_eq_false_iff_ne.mpr fun heq => hk (Option.some.inj heq ▸ hj)
      rw [List.find?_cons, List.find?_cons, hd, hd', hne _ hct, hne _ hct', ih]

/-- A key that names no schema leads to one payload in both stores. -/
theorem payload?_eq_of_twins {m m' : MemoryStore} {collection : String}
    (hdocs : List.Forall₂ Document.Twin (m.documents collection) (m'.documents collection))
    {k : Key} (hk : k.contentType ≠ schemasUid) (projection : Option Document) :
    m.payload? collection projection k = m'.payload? collection projection k := by
  rw [MemoryStore.payload?, MemoryStore.payload?, find?_eq_of_twins hdocs hk]

end ContentQuery
