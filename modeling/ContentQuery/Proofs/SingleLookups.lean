/-
Lookups of a single key.

A key can be looked up by itself, with a find for its content type, locale and uid.  A
batch asks for many keys with one find for all those of a content type and a locale, and
takes apart what comes back by key:

* `find_key` — the find for a key gives the documents of that key, in the order of
  insertion;
* `payload?_of_find` — the first of them is what the key leads to;
* `outcome_fetch_singly` — a batch maps each of its keys to the payload that the find for
  that key alone begins with, and maps no other key.
-/
import ContentQuery.Pattern.Reading
import ContentQuery.Proofs.Levels
import ContentQuery.Proofs.Scope

namespace ContentQuery

namespace Key

/-- The predicate document that a key is looked up with by itself. -/
def filter (k : Key) : Document :=
  [(Wrapper.contentType, .string k.contentType), (Wrapper.locale, .string k.locale),
    (Wrapper.uid, .string k.uid)]

/-- The filter that this predicate document writes. -/
def asFilter (k : Key) : Filter where
  fields :=
    [(Wrapper.contentType, .equals (.string k.contentType)),
      (Wrapper.locale, .equals (.string k.locale)), (Wrapper.uid, .equals (.string k.uid))]

theorem readFilter_filter (k : Key) : MemoryStore.readFilter k.filter = .ok k.asFilter := rfl

/-- Of the documents that have a key, the filter of a key accepts those that have it. -/
theorem accepts_asFilter [PatternLanguage] (k : Key) {d : Document} {j : Key}
    (h : keyOf? d = some j) :
    k.asFilter.accepts d = decide (j = k) := by
  obtain ⟨hct, hloc, huid⟩ := keyOf?_eq_some_iff.mp h
  have hct' := holds_resolve_key (by decide) (by decide) hct k.contentType
  have hloc' := holds_resolve_key (by decide) (by decide) hloc k.locale
  have huid' := holds_resolve_key (by decide) (by decide) huid k.uid
  have hfields : k.asFilter.accepts d = ((j.contentType == k.contentType) &&
      ((j.locale == k.locale) && (j.uid == k.uid))) := by
    simp [asFilter, Filter.accepts, Filter.acceptsFields, Filter.acceptsEach, Predicate.accepts,
      hct', hloc', huid']
  obtain ⟨jt, jl, ju⟩ := j
  obtain ⟨kt, kl, ku⟩ := k
  rw [hfields, Bool.eq_iff_iff]
  simp

end Key

namespace MemoryStore

variable [PatternLanguage] {m : MemoryStore} (hm : m.Filled) (collection : String)
  {projection : Option Document} (hp : ∀ p ∈ projection, Projection.OnlyPayload p)
include hm

/-- In a filled store a key selects the documents that have it. -/
theorem matching_key (k : Key) :
    m.matching collection k.filter =
      .ok ((m.documents collection).filter fun d => keyOf? d == some k) := by
  rw [matching, Key.readFilter_filter]
  refine congrArg Except.ok (List.filter_congr fun d hd => ?_)
  obtain ⟨s, id, rfl⟩ := hm.exists_stored hd
  rw [k.accepts_asFilter (keyOf?_withId s id), keyOf?_withId, Bool.eq_iff_iff]
  simp

include hp

/-- The find for a key gives the documents of the key, in the order of insertion. -/
theorem find_key (k : Key) :
    m.find collection k.filter { projection } =
      .ok (((m.documents collection).filter fun d => keyOf? d == some k).map
        (kept projection)) := by
  simp only [find, matching_key hm, window, Option.getD_none, List.drop_zero]
  exact projectAll_eq_map_kept hp _

/-- A key leads to the payload of the first document that the find for it gives. -/
theorem payload?_of_find {k : Key} {docs : List Document}
    (h : m.find collection k.filter { projection } = .ok docs) :
    m.payload? collection projection k = docs.head?.map payloadOf := by
  rw [find_key hm collection hp] at h
  rw [payload?_eq hp, ← Except.ok.inj h, List.head?_map, ← List.head?_filter, Option.map_map]
  rfl

end MemoryStore

namespace Reference

/-- A batch does not fail, and maps each of its keys, and no other, to the payload of the
first document that the find for that key alone gives, if it gives one. -/
theorem outcome_fetch_singly [PatternLanguage] {m : MemoryStore} (hm : m.Filled)
    (collection : String)
    {projection : Option Document} (hp : ∀ p ∈ projection, Projection.OnlyPayload p)
    (keys : List Key) :
    ∃ found, (m.run (fetch collection projection keys)).outcome = .ok found ∧
      (Entries.keys found).Nodup ∧
      ∀ k, ∃ docs, m.find collection k.filter { projection } = .ok docs ∧
        Entries.get? found k = if k ∈ keys then docs.head?.map payloadOf else none := by
  refine ⟨byKey (foundBy m collection projection keys), ?_, nodup_keys_byKey _, fun k => ?_⟩
  · rw [run_fetch_kept m collection hp]
  · have hfind := MemoryStore.find_key hm collection hp k
    refine ⟨_, hfind, ?_⟩
    rw [get?_byKey_foundBy m collection hp, MemoryStore.payload?_of_find hm collection hp hfind]

/-- A document in English with a mark that is to be hidden. -/
def markedDocument (contentType title : String) : StoredDocument :=
  ⟨⟨contentType, "en", "a"⟩, [("title", .string title), ("mark", .bool true)]⟩

/-- Two notes of one key, and a page. -/
def twoOfOneKey : MemoryStore :=
  let m := (MemoryStore.insertDocument {} "contents" (markedDocument "note" "one")).2
  let m := (m.insertDocument "contents" (markedDocument "page" "two")).2
  (m.insertDocument "contents" (markedDocument "note" "three")).2

open scoped Pattern in
/-- A batch of keys from three parts, one of which leads nowhere, finds the earlier of two
notes, and nothing that it was not asked for. -/
theorem outcome_fetch_twoOfOneKey :
    let unmarked : Document := [(Projection.idKey, .int32 0), ("data.mark", .int32 0)]
    let keys : List Key := [⟨"draft", "en", "a"⟩, ⟨"note", "en", "a"⟩, ⟨"note", "fr", "a"⟩]
    twoOfOneKey.Filled ∧ Projection.OnlyPayload unmarked ∧
      ∃ found, (twoOfOneKey.run (fetch "contents" (some unmarked) keys)).outcome = .ok found ∧
        Entries.get? found ⟨"note", "en", "a"⟩ = some [("title", .string "one")] ∧
        Entries.get? found ⟨"note", "fr", "a"⟩ = none ∧
        Entries.get? found ⟨"page", "en", "a"⟩ = none := by
  intro unmarked keys
  have hm : twoOfOneKey.Filled := .document _ _ (.document _ _ (.document _ _ .empty))
  have hp : Projection.OnlyPayload unmarked := by decide
  have hsome : ∀ p ∈ some unmarked, Projection.OnlyPayload p := by simpa using hp
  obtain ⟨found, hfound, -, hkeys⟩ := outcome_fetch_singly hm "contents" hsome keys
  refine ⟨hm, hp, found, hfound, ?_, ?_, ?_⟩
  · obtain ⟨docs, hdocs, hget⟩ := hkeys ⟨"note", "en", "a"⟩
    obtain rfl := Except.ok.inj hdocs
    exact hget
  · obtain ⟨docs, hdocs, hget⟩ := hkeys ⟨"note", "fr", "a"⟩
    obtain rfl := Except.ok.inj hdocs
    exact hget
  · obtain ⟨docs, -, hget⟩ := hkeys ⟨"page", "en", "a"⟩
    exact hget

end Reference

end ContentQuery
