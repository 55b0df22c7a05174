/-
Fields that a configuration hides.

A field that the configuration excludes is taken out of what a query shows in four
places: by the store, in memory behind a reference predicate, with every batch of
lookups, and in the cache of those.  Whatever the way, it does not come back:

* `keys_depthFirst` — expanding references gives a payload no key and takes none away;
* `Expansion.Embeds` — the documents that an expansion puts in place of descriptors, at
  every depth;
* `notMem_keys_of_attaches` — none of them has a field that lookups hide;
* `run_hides` — so a find shows a hidden field only in the documents of its page, and in
  these only when it asks for fields itself.
-/
import ContentQuery.Pattern.Reading
import ContentQuery.Proofs.Pages

namespace ContentQuery

namespace Reference

/-! ### The keys of a payload -/

/-- The way to a descriptor starts at a key of the payload. -/
theorem exists_key_of_mem_scan {payload : List (String × Value)} {l : Location}
    (h : l ∈ scan payload) :
    ∃ k rest, l.segments = .key k :: rest ∧ k ∈ Entries.keys payload := by
  induction payload with
  | nil => cases h
  | cons e others ih =>
    obtain ⟨k, v⟩ := e
    rw [scan] at h
    rcases List.mem_append.mp h with h | h
    · obtain ⟨inner, -, rfl⟩ := List.mem_map.mp h
      exact ⟨k, inner.segments, rfl, List.mem_cons_self⟩
    · obtain ⟨k', rest, hsegs, hk'⟩ := ih h
      exact ⟨k', rest, hsegs, List.mem_cons_of_mem k hk'⟩

/-- Putting a value where something is leaves the keys as they are. -/
theorem keys_setAt {d : Document} {k : String} (hk : k ∈ Entries.keys d) (rest : List Segment)
    (new : Value) : Entries.keys (setAt d (.key k :: rest) new) = Entries.keys d := by
  rw [setAt, setField.eq_def]
  cases rest with
  | nil => rw [Entries.keys_insert, if_pos hk]
  | cons s rest => exact Entries.keys_modify d k _

/-- Expanding references gives a payload no key and takes none away. -/
theorem keys_depthFirst (x : Expansion) (look : Key → Option Document) (n : Nat) (above : List Key)
    (path : String) (payload : Document) :
    Entries.keys (x.depthFirst look n above path payload) = Entries.keys payload := by
  cases n with
  | zero => rfl
  | succ n =>
    rw [Expansion.depthFirst]
    refine List.foldlRecOn (motive := fun d => Entries.keys d = Entries.keys payload) _ _ rfl
      fun d hd l hl => ?_
    obtain ⟨k, rest, hsegs, hk⟩ := exists_key_of_mem_scan hl
    dsimp only
    split
    · rw [hsegs, keys_setAt (hd ▸ hk), hd]
    · exact hd

/-! ### Embedded documents -/

namespace Expansion

/-- An eligible descriptor of a payload names a key that is not above. -/
structure Follows (x : Expansion) (above : List Key) (path : String) (payload : Document)
    (l : Location) (k : Key) : Prop where
  scanned : l ∈ scan payload
  eligible : x.mode.eligible (Path.join path l.path) = true
  named : k ∈ l.descriptor.keys ((above.head?.map Key.locale).getD x.locale)
  fresh : k ∉ above

/-- The documents that stand in place of keys in what the recursion makes of a
payload: at the first level, or below a document at the first level. -/
inductive Attaches (x : Expansion) (look : Key → Option Document) :
    Nat → List Key → String → Document → Document → Prop
  | here {n : Nat} {above : List Key} {path : String} {payload d : Document} {l : Location}
      {k : Key} : x.Follows above path payload l k →
      l.inPlace? look above (fun k payload =>
        x.depthFirst look n (k :: above) (Path.join path l.path) payload) k = some (.document d) →
      Attaches x look (n + 1) above path payload d
  | deeper {n : Nat} {above : List Key} {path : String} {payload found d : Document} {l : Location}
      {k : Key} : x.Follows above path payload l k → look k = some found →
      Attaches x look n (k :: above) (Path.join path l.path)
        (Entries.insert found embeddedContentType (.string (publicUid k.contentType))) d →
      Attaches x look (n + 1) above path payload d

/-- Expanding the references of a raw document puts a document somewhere inside it. -/
def Embeds (x : Expansion) (m : MemoryStore) (raw d : Document) : Prop :=
  x.Attaches (x.look m) x.maxDepth (keyOf? raw).toList "" (payloadOf raw) d

/-- Of two pages that name each other one is embedded, with its own link left. -/
example : pagePairExpansion.Embeds pagePair (linkedPage "a" "b")
    [("next", pageLink "a"), (embeddedContentType, .string "page")] := by
  have hfollows : pagePairExpansion.Follows [⟨"page", "en", "a"⟩] ""
      [("next", pageLink "b"), ("draft", .null)]
      ⟨[.key "next"], ⟨"page", ["b"], false, none⟩, pageLink "b"⟩ ⟨"page", "en", "b"⟩ :=
    ⟨List.mem_singleton.mpr rfl, rfl, by decide, by decide⟩
  exact .here hfollows rfl

end Expansion

theorem notMem_keys_of_attaches {x : Expansion} {look : Key → Option Document} {field : String}
    (hlook : ∀ k found, look k = some found → field ∉ Entries.keys found)
    (hfield : field ≠ embeddedContentType) {n : Nat} {above : List Key} {path : String}
    {payload d : Document} (h : x.Attaches look n above path payload d) :
    field ∉ Entries.keys d := by
  induction h with
  | here hfollows hplace =>
    rw [Location.inPlace?, if_neg hfollows.fresh] at hplace
    obtain ⟨found, hfound, hd⟩ := Option.map_eq_some_iff.mp hplace
    obtain rfl := Value.document.inj hd
    -- its keys are those of the document that was found, and that of its content type
    rw [keys_depthFirst, Entries.insert, Entries.mem_keys_upsert]
    exact fun hmem => hmem.elim (hlook _ _ hfound) hfield
  | deeper _ _ _ ih => exact ih

/-- A lookup hides a field that its projection excludes. -/
theorem notMem_keys_of_look {x : Expansion} {m : MemoryStore} {field : String}
    (hp : Projection.OnlyPayload x.projection)
    (hfield : payloadPath field ∈ Entries.keys x.projection)
    (hsegs : Path.segments (payloadPath field) = [Wrapper.payload, field]) {k : Key}
    {found : Document} (h : x.look m k = some found) : field ∉ Entries.keys found := by
  have hp' : ∀ p ∈ some x.projection, Projection.OnlyPayload p := by simpa using hp
  rw [Expansion.look, MemoryStore.payload?_eq hp'] at h
  obtain ⟨raw, -, rfl⟩ := Option.map_eq_some_iff.mp h
  exact Projection.notMem_keys_payloadOf_trim hp hfield hsegs raw

end Reference

/-! ### Queries -/

namespace QueryState

variable {s : QueryState} {c : Config} {m : MemoryStore}

/-- Without a call for fields every mark of the projection excludes. -/
theorem projection_eq_zero {calls : List Call} (hcalls : ∀ fields, .only fields ∉ calls)
    (h : applyAll {} calls = .ok s) : ∀ e ∈ s.projection, e.2 = 0 := by
  refine invariant_of_step (fun s => ∀ e ∈ s.projection, e.2 = 0) (· ∈ calls) ?_ (fun _ hc => hc)
    (by simp) h
  intro s call s' hcall hs hstep
  cases hstep with
  | projects _ _ _ hmark =>
    cases hmark with
    | only => exact absurd hcall (hcalls _)
    | except =>
      intro e he
      rcases List.mem_append.mp he with he | he
      · exact hs e he
      · obtain ⟨f, -, rfl⟩ := List.mem_map.mp he
        rfl
  | _ => exact hs

/-- Then the projection of the query adds exclusions to those of the configuration. -/
theorem nativeProjection_of_exclusions (h : ∀ e ∈ s.projection, e.2 = 0) :
    s.nativeProjection c = renderProjection (c.projections ++ s.projection) := by
  have hnone : s.includesFields = false := by
    rw [includesFields, List.any_eq_false]
    intro e he
    simp [h e he]
  rw [nativeProjection, hnone, if_neg Bool.false_ne_true]

/-- Every document of a page was projected, by the store or in memory. -/
theorem projected_of_page [PatternLanguage] {docs page : List Document} (hc : c.fault? = none)
    (hs : s.limit ≠ some 0) (hdocs : (m.run (s.normalize c).candidates).outcome = .ok docs)
    (hpage : (s.normalize c).page docs = .ok page) :
    ∀ raw ∈ page, ∃ d, raw = projectedOrSelf (s.nativeProjection c) d := by
  have hof {all out : List Document}
      (h : MemoryStore.projectAll (some (s.nativeProjection c)) all = .ok out) :
      ∀ raw ∈ out, ∃ d, raw = projectedOrSelf (s.nativeProjection c) d := by
    intro raw hraw
    rw [MemoryStore.eq_map_of_projectAll h] at hraw
    obtain ⟨d, -, rfl⟩ := List.mem_map.mp hraw
    exact ⟨d, rfl⟩
  cases href : s.referenceQuery.isEmpty with
  | true =>
    have hsame : (s.normalize c).page docs = .ok docs := by
      simp [normalize, href, CompiledQuery.page]
    obtain rfl := Except.ok.inj (hsame.symm.trans hpage)
    rw [outcome_candidates_of_direct hc hs href] at hdocs
    obtain ⟨all, -, hdocs⟩ := exists_of_bind_ok hdocs
    exact hof (MemoryStore.report_eq_ok.mp hdocs)
  | false =>
    simp only [CompiledQuery.page, normalize, href] at hpage
    exact hof hpage

/-- A find that succeeds expands the documents of its page. -/
theorem exists_page [PatternLanguage] (hc : c.fault? = none) {e : Envelope}
    (he : (s.run c m.toStore .find).outcome = .ok e) :
    let q := s.normalize c
    ∃ docs page, (m.run q.candidates).outcome = .ok docs ∧ q.page docs = .ok page ∧
      e.result = some (if s.single then firstOrNull (page.map (q.expansion.unfold m))
        else .array ((page.map (q.expansion.unfold m)).map .document)) := by
  have hp : Projection.OnlyPayload (s.normalize c).expansion.projection :=
    onlyPayload_renderProjection (Config.projections_eq_zero hc)
  rw [outcome_run_find] at he
  obtain ⟨_, -, he⟩ := exists_of_bind_ok he
  rw [CompiledQuery.outcome_find] at he
  obtain ⟨docs, hdocs, he⟩ := exists_of_bind_ok he
  obtain ⟨count, -, he⟩ := exists_of_bind_ok he
  obtain ⟨page, hpage, he⟩ := exists_of_bind_ok he
  obtain ⟨payloads, hpayloads, he⟩ := exists_of_bind_ok he
  obtain ⟨schema, -, he⟩ := exists_of_bind_ok he
  obtain rfl := Except.ok.inj he
  rw [Reference.outcome_resolve m _ _ hp] at hpayloads
  obtain rfl := Except.ok.inj hpayloads
  rw [MemoryStore.report_eq_ok] at hpage
  exact ⟨docs, page, hdocs, hpage, result_shape _ _ _ _⟩

/-- Without fields that it asks for, a query shows no field that the configuration
excludes. -/
theorem notMem_keys_unfold (hc : c.fault? = none) (hzero : ∀ e ∈ s.projection, e.2 = 0)
    {field : String} (hfield : field ∈ Entries.keys c.projections)
    (hsegs : Path.segments (payloadPath field) = [Wrapper.payload, field]) (d : Document) :
    field ∉ Entries.keys
      ((s.normalize c).expansion.unfold m (projectedOrSelf (s.nativeProjection c) d)) := by
  have hall : ∀ e ∈ c.projections ++ s.projection, e.2 = 0 := fun e he =>
    (List.mem_append.mp he).elim (Config.projections_eq_zero hc e) (hzero e)
  have hfield' : field ∈ Entries.keys (c.projections ++ s.projection) := by
    rw [Entries.keys_append]
    exact List.mem_append_left _ hfield
  -- expansion keeps the keys that the projection has left
  rw [Reference.Expansion.unfold, Reference.keys_depthFirst, nativeProjection_of_exclusions hzero,
    projectedOrSelf, Projection.apply_of_onlyPayload (onlyPayload_renderProjection hall)]
  exact Projection.notMem_keys_payloadOf_trim (onlyPayload_renderProjection hall)
    (payloadPath_mem_renderProjection hfield') hsegs d

/-- A field that the configuration excludes, and that is no path, is in no document
that a find embeds, and in no document that it finds if it does not ask for fields. -/
theorem run_hides [PatternLanguage] (m : MemoryStore) {c : Config} (hc : c.fault? = none)
    {field : String} (hfield : field ∈ Entries.keys c.projections) (hdot : isDotted field = false)
    (hname : field ≠ Reference.embeddedContentType) {calls : List Call}
    (hs : applyAll {} calls = .ok s) {e : Envelope}
    (he : (s.run c m.toStore .find).outcome = .ok e) :
    let q := s.normalize c
    ∃ docs page, (m.run q.candidates).outcome = .ok docs ∧ q.page docs = .ok page ∧
      e.result = some (if s.single then firstOrNull (page.map (q.expansion.unfold m))
        else .array ((page.map (q.expansion.unfold m)).map .document)) ∧
      ∀ raw ∈ page,
        (∀ d, q.expansion.Embeds m raw d → field ∉ Entries.keys d) ∧
        ((∀ fields, .only fields ∉ calls) →
          field ∉ Entries.keys (q.expansion.unfold m raw)) := by
  have hsegs : Path.segments (payloadPath field) = [Wrapper.payload, field] := by
    rw [segments_payloadPath, Path.segments_of_undotted hdot]
  obtain ⟨docs, page, hdocs, hpage, hresult⟩ := exists_page hc he
  refine ⟨docs, page, hdocs, hpage, hresult, fun raw hraw => ⟨fun d hd => ?_, fun hcalls => ?_⟩⟩
  · have hp : Projection.OnlyPayload (s.normalize c).expansion.projection :=
      onlyPayload_renderProjection (Config.projections_eq_zero hc)
    have hlook (k : Key) (found : Document) (h : (s.normalize c).expansion.look m k = some found) :
        field ∉ Entries.keys found :=
      Reference.notMem_keys_of_look hp (payloadPath_mem_renderProjection hfield) hsegs h
    exact Reference.notMem_keys_of_attaches hlook hname hd
  · have hlimit : s.limit ≠ some 0 := Reachable.limit_ne_zero ⟨calls, hs⟩
    obtain ⟨d, rfl⟩ := projected_of_page hc hlimit hdocs hpage raw hraw
    exact notMem_keys_unfold hc (projection_eq_zero hcalls hs) hfield hsegs d

/-- Calls for all pages with what they refer to, without their titles. -/
def trimmedCalls : List Call := [.contentType "page", .includeReferences, .except ["title"]]

/-- The state that these calls lead to. -/
def trimmedPages : QueryState :=
  { contentType := some "page", includeAll := true, projection := [("title", 0)] }

open scoped Pattern in
theorem run_hides_draft :
    pageConfig.fault? = none ∧ "draft" ∈ Entries.keys pageConfig.projections ∧
      isDotted "draft" = false ∧ "draft" ≠ Reference.embeddedContentType ∧
      applyAll {} trimmedCalls = .ok trimmedPages ∧
      ∃ e, (trimmedPages.run pageConfig Reference.pagePair.toStore .find).outcome = .ok e ∧
        e.items.length = 2 ∧ ∃ page : List Document,
          let x := (trimmedPages.normalize pageConfig).expansion
          e.result = some (.array ((page.map (x.unfold Reference.pagePair)).map .document)) ∧
          ∀ raw ∈ page, (∀ d, x.Embeds Reference.pagePair raw d → "draft" ∉ Entries.keys d) ∧
            "draft" ∉ Entries.keys (x.unfold Reference.pagePair raw) := by
  have hc : pageConfig.fault? = none := by decide
  have hfield : "draft" ∈ Entries.keys pageConfig.projections := by decide
  have hdot : isDotted "draft" = false := by decide
  have hname : "draft" ≠ Reference.embeddedContentType := by decide
  have hs : applyAll {} trimmedCalls = .ok trimmedPages := rfl
  have hcalls : ∀ fields, .only fields ∉ trimmedCalls := by simp [trimmedCalls]
  have hlength : (trimmedPages.run pageConfig Reference.pagePair.toStore .find).outcome.map
      (fun e => e.items.length) = .ok 2 := by decide +kernel
  obtain ⟨e, he, hitems⟩ := exists_of_map_ok hlength
  obtain ⟨docs, page, -, -, hresult, hhidden⟩ :=
    run_hides Reference.pagePair hc hfield hdot hname hs he
  exact ⟨hc, hfield, hdot, hname, hs, e, he, hitems, page, hresult,
    fun raw hraw => ⟨(hhidden raw hraw).1, (hhidden raw hraw).2 hcalls⟩⟩

end QueryState

end ContentQuery
