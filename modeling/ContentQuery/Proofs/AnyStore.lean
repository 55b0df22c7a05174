/-
Levels of an expansion, whatever a store answers.

A store may answer a lookup with documents that were not asked for, and with others at
each call.  All that is known of an answer is that it is made of documents:

* `exists_of_run_bind_ok` — a run of two plans succeeds only if both do;
* `wellFormed_of_findParts` — what a batch finds are documents;
* `exists_grow_of_level` — so a level that succeeds goes on with some documents that it
  has found.
-/
import ContentQuery.Proofs.LevelCalls
import ContentQuery.Proofs.ScannedPlaces

namespace ContentQuery

/-- Whatever is found is a document: its keys are distinct, and so are those inside it. -/
def Store.AnswersDocuments (s : Store) : Prop :=
  ∀ n collection filter options docs, s.find n collection filter options = .ok docs →
    ∀ d ∈ docs, Document.wellFormed d = true

namespace Plan

variable {α β : Type} (s : Store)

/-- A run of two plans succeeds only if both do. -/
theorem exists_of_run_bind_ok {p : Plan α} {f : α → Plan β} {n : Nat} {b : β}
    (h : (run s (p.bind f) n).outcome = .ok b) :
    ∃ a k, (run s p n).outcome = .ok a ∧ (run s (f a) k).outcome = .ok b := by
  rw [run_bind, continued.eq_def] at h
  split at h
  · rename_i a ha
    exact ⟨a, _, ha, h⟩
  · cases h

end Plan

/-! ### Documents made of documents -/

theorem Document.wellFormed_insert_string {d : Document} (h : Document.wellFormed d = true)
    (k text : String) : Document.wellFormed (Entries.insert d k (.string text)) = true := by
  obtain ⟨hkeys, hfields⟩ := Document.wellFormed_iff.mp h
  refine Document.wellFormed_iff.mpr ⟨Entries.nodup_keys_upsert hkeys k _, fun e he => ?_⟩
  rcases Entries.mem_insert he with he | rfl
  · exact hfields e he
  · rfl

theorem wellFormed_payloadOf {raw : Document} (h : Document.wellFormed raw = true) :
    Document.wellFormed (payloadOf raw) = true := by
  obtain ⟨-, hfields⟩ := Document.wellFormed_iff.mp h
  rw [payloadOf, Document.documentAt?]
  cases hget : Entries.get? raw Wrapper.payload with
  | none => rfl
  | some v =>
    have hv := hfields _ (Entries.mem_of_get?_eq_some hget)
    cases v with
    | document d => exact hv
    | _ => rfl

namespace Reference

/-- What is found for a key is the payload of a document that was found. -/
theorem wellFormed_of_get?_byKey {found : List Document}
    (h : ∀ d ∈ found, Document.wellFormed d = true) {k : Key} {payload : Document}
    (hget : Entries.get? (byKey found) k = some payload) :
    Document.wellFormed payload = true := by
  rw [get?_byKey] at hget
  obtain ⟨raw, hraw, rfl⟩ := Option.map_eq_some_iff.mp hget
  exact wellFormed_payloadOf (h raw (List.mem_of_find?_eq_some hraw))

variable {s : Store}

/-- What a batch finds are documents. -/
theorem wellFormed_of_findParts (hs : s.AnswersDocuments) {collection : String}
    {options : FindOptions} {ps : List Part} {n : Nat} {found : List Document}
    (h : ((findParts collection options ps).run s n).outcome = .ok found) :
    ∀ d ∈ found, Document.wellFormed d = true := by
  induction ps generalizing n found with
  | nil =>
    obtain rfl := Except.ok.inj h
    exact nofun
  | cons p rest ih =>
    obtain ⟨docs, k, hdocs, h⟩ := Plan.exists_of_run_bind_ok s h
    obtain ⟨more, k', hmore, h⟩ := Plan.exists_of_run_bind_ok s h
    obtain rfl := Except.ok.inj h
    have hfind : s.find n collection p.filter options = .ok docs := by
      rw [Plan.ask, Plan.run] at hdocs
      split at hdocs
      · rename_i docs' hdocs'
        obtain rfl : docs' = docs := Except.ok.inj hdocs
        exact hdocs'
      · cases hdocs
    intro d hd
    rcases List.mem_append.mp hd with hd | hd
    · exact hs n _ _ _ docs hfind d hd
    · exact ih hmore d hd

/-- A level that succeeds goes on with some documents that it has found. -/
theorem exists_grow_of_level {x : Expansion} (hs : s.AnswersDocuments) {t : Start} {n : Nat}
    {a : Arena} {next : List Nat}
    (h : ((x.level t.arena t.frontier).run s n).outcome = .ok (a, next)) :
    ∃ found, (∀ d ∈ found, Document.wellFormed d = true) ∧ x.grow t found = ⟨a, next⟩ := by
  obtain ⟨byKeys, k, hfetch, h⟩ := Plan.exists_of_run_bind_ok s h
  obtain ⟨found, k', hfound, hkeys⟩ := Plan.exists_of_run_bind_ok s hfetch
  obtain rfl := Except.ok.inj hkeys
  obtain ⟨-, k'', -, h⟩ := Plan.exists_of_run_bind_ok s h
  have heq := Except.ok.inj h
  refine ⟨found, wellFormed_of_findParts hs hfound, ?_⟩
  injection heq with ha hnext
  rw [← ha, ← hnext]
  rfl

end Reference

end ContentQuery
