/-
The keys of projected documents.

A query projects the documents that it finds, and those that it looks up for them.  What it
shows of them is named by paths below the payload, and an inclusion names the identity, too:

* `keepsKeys_renderProjection` — so no projection whose marks include or exclude loses a key;
* `Reachable.projection_marks` — calls give no other marks;
* `keys_byKey_congr` — what lookups have found is put together by keys alone;
* `keyOf?_of_compiled` — so ancestors, locales and lookups are the same, whatever a query
  includes or excludes.
-/
import ContentQuery.Proofs.Coherence
import ContentQuery.Proofs.PayloadPaths
import ContentQuery.Proofs.Requests

namespace ContentQuery

/-- The fields of the wrapper that make up the identity. -/
def identityFields : List String := [Wrapper.contentType, Wrapper.locale, Wrapper.uid]

/-- The fields of the identity are paths of one segment, and stand beside the payload. -/
theorem beside_of_mem_identityFields :
    ∀ field ∈ identityFields, Path.segments field = [field] ∧ field ≠ Projection.idKey ∧
      field ≠ Wrapper.payload ∧ ¬ "data.".toList <+: field.toList := by
  decide

namespace Projection

variable {p : Document} {field : String}

theorem keepsKeys_of_fields (h : ∀ field ∈ identityFields, keepsField p field = true) :
    keepsKeys p = true := by
  simp only [identityFields, List.forall_mem_cons] at h
  simp [keepsKeys, h]

/-- A field that is included by its name alone is kept. -/
theorem keepsField_of_included (h : field ∈ included p) (hfield : Path.segments field = [field]) :
    keepsField p field = true := by
  have hsome : (included p).isEmpty = false := by
    rw [← Bool.not_eq_true, List.isEmpty_iff]
    exact List.ne_nil_of_mem h
  rw [keepsField, hsome, if_neg Bool.false_ne_true, namesField, List.any_eq_true]
  exact ⟨field, h, beq_iff_eq.mpr hfield⟩

/-- Exclusions of payload fields keep every other field. -/
theorem OnlyPayload.keepsField (h : OnlyPayload p) (hfield : field ≠ Wrapper.payload) :
    keepsField p field = true := by
  have hnone : namesField (excluded p) field = false := by
    rw [namesField, List.any_eq_false]
    intro path hpath heq
    have hhead := h.head?_of_mem_excluded hpath
    rw [beq_iff_eq.mp heq] at hhead
    exact hfield (Option.some.inj hhead)
  rw [Projection.keepsField, h.included_eq_nil, List.isEmpty_nil, if_pos rfl, hnone, Bool.not_false]

end Projection

/-! ### Rendered projections -/

/-- An inclusion of payload fields includes the identity. -/
theorem mem_included_renderProjection {entries : List (String × Int32)}
    (h : ∃ e ∈ entries, e.2 = 1) {field : String} (hfield : field ∈ identityFields) :
    field ∈ Projection.included (renderProjection entries) := by
  have hany : (entries.any fun e => e.2 == 1) = true := by simpa using h
  obtain ⟨-, hid, -, hbeside⟩ := beside_of_mem_identityFields field hfield
  let kept (out : Document) : Prop := Entries.get? out field = some (.int32 1)
  have hwrapper : kept (identityFields.foldl (fun out k => Entries.insert out k (.int32 1))
      [(Projection.idKey, .int32 0)]) := by
    simp only [identityFields, List.mem_cons, List.not_mem_nil, or_false] at hfield
    rcases hfield with rfl | rfl | rfl <;> rfl
  have hget : kept (renderProjection entries) := by
    rw [renderProjection, hany]
    -- no path below the payload takes the place of the field
    refine List.foldlRecOn (motive := kept) _ _ hwrapper fun out hout e _ => ?_
    exact (Entries.get?_insert_of_ne out (payloadPath_ne hbeside) _).trans hout
  exact List.mem_map.mpr ⟨_, List.mem_filter.mpr ⟨Entries.mem_of_get?_eq_some hget,
    Bool.and_eq_true_iff.mpr ⟨bne_iff_ne.mpr hid, rfl⟩⟩, rfl⟩

/-- Projections that are rendered from marks to include and to exclude keep the keys. -/
theorem keepsKeys_renderProjection {entries : List (String × Int32)}
    (h : ∀ e ∈ entries, e.2 = 0 ∨ e.2 = 1) :
    Projection.keepsKeys (renderProjection entries) = true := by
  refine Projection.keepsKeys_of_fields fun field hfield => ?_
  obtain ⟨hsegments, -, hpayload, -⟩ := beside_of_mem_identityFields field hfield
  by_cases hplus : ∃ e ∈ entries, e.2 = 1
  · exact Projection.keepsField_of_included (mem_included_renderProjection hplus hfield) hsegments
  · have hzero : ∀ e ∈ entries, e.2 = 0 := fun e he =>
      (h e he).resolve_right fun hone => hplus ⟨e, he, hone⟩
    exact (onlyPayload_renderProjection hzero).keepsField hpayload

/-! ### Lookups -/

namespace Reference

/-- What lookups have found is put together by keys alone. -/
theorem keys_byKey_congr {found found' : List Document} (h : found.map keyOf? = found'.map keyOf?) :
    Entries.keys (byKey found) = Entries.keys (byKey found') := by
  suffices hacc : ∀ acc acc' : List (Key × Document), Entries.keys acc = Entries.keys acc' →
      Entries.keys (found.foldl enter acc) = Entries.keys (found'.foldl enter acc') by
    rw [byKey_eq_foldl, byKey_eq_foldl]
    exact hacc [] [] rfl
  induction found generalizing found' with
  | nil =>
    obtain rfl := List.map_eq_nil_iff.mp h.symm
    exact fun _ _ hacc => hacc
  | cons raw rest ih =>
    cases found' with
    | nil => cases h
    | cons raw' rest' =>
      obtain ⟨hkey, hrest⟩ := List.cons.inj h
      intro acc acc' hacc
      refine ih hrest _ _ ?_
      unfold enter
      rw [hkey]
      cases keyOf? raw' with
      | none => exact hacc
      | some k => rw [Option.elim_some, Option.elim_some, Entries.keys_upsert, Entries.keys_upsert, hacc]

/-- The locale in which the references of a document are looked up. -/
theorem Expansion.ownerLocale_root (x : Expansion) (d : Document) :
    x.ownerLocale (.root d) = ((keyOf? d).map Key.locale).getD x.locale := by
  rw [Expansion.ownerLocale, show (Node.root d).key = keyOf? d from rfl]
  cases keyOf? d <;> rfl

end Reference

/-! ### Compiled queries -/

namespace QueryState

variable {s : QueryState} {c : Config}

/-- The marks that calls give to fields include them or exclude them. -/
theorem Reachable.projection_marks (h : s.Reachable) : ∀ e ∈ s.projection, e.2 = 0 ∨ e.2 = 1 := by
  obtain ⟨calls, h⟩ := h
  have hnamed := invariant_of_step
    (fun s => ∀ e ∈ s.projection, e.1.isEmpty = false ∧ (e.2 = 0 ∨ e.2 = 1)) (fun _ => True)
    (fun _ _ _ _ hs hstep => hstep.projection hs) (fun _ _ => trivial) (by simp) h
  exact fun e he => (hnamed e he).2

/-- A compiled query keeps the keys of what it shows and of what it looks up. -/
theorem keepsKeys_of_compiled (hs : s.Reachable) (hc : c.fault? = none) {p : Document}
    (hp : (s.normalize c).options.projection = some p ∨ (s.normalize c).referenceProjection = p) :
    Projection.keepsKeys p = true := by
  have hdefault : ∀ e ∈ c.projections, e.2 = 0 ∨ e.2 = 1 := fun e he =>
    .inl (Config.projections_eq_zero hc e he)
  have hmarks := hs.projection_marks
  rcases hp with hp | rfl
  · obtain rfl : s.nativeProjection c = p := Option.some.inj hp
    refine keepsKeys_renderProjection ?_
    split
    · exact hmarks
    · exact List.forall_mem_append.mpr ⟨hdefault, hmarks⟩
  · exact keepsKeys_renderProjection hdefault

/-- What a compiled query shows of documents, and what it sees of those that it looks up, has
the keys of the documents.  So ancestors and locales are the same, and what is found is found
under the same keys. -/
theorem keyOf?_of_compiled (hs : s.Reachable) (hc : c.fault? = none) {p : Document}
    (hp : (s.normalize c).options.projection = some p ∨ (s.normalize c).referenceProjection = p) :
    (∀ raw out, Projection.apply p raw = .ok out → keyOf? out = keyOf? raw) ∧
    ∀ raws docs, MemoryStore.projectAll (some p) raws = .ok docs →
      docs.map (fun d => (Reference.Node.root d).key) =
          raws.map (fun d => (Reference.Node.root d).key) ∧
        (∀ x : Reference.Expansion, docs.map (fun d => x.ownerLocale (.root d)) =
          raws.map fun d => x.ownerLocale (.root d)) ∧
        Entries.keys (Reference.byKey docs) = Entries.keys (Reference.byKey raws) := by
  have hkeeps := keepsKeys_of_compiled hs hc hp
  refine ⟨fun raw out h => ?_, fun raws docs h => ?_⟩
  · rw [Projection.keyOf?_apply h, hkeeps, if_pos rfl]
  · have hkeys : docs.map keyOf? = raws.map keyOf? := by
      rw [MemoryStore.map_keyOf?_projectAll h, hkeeps]
      rfl
    have hlocale (x : Reference.Expansion) (ds : List Document) :
        ds.map (fun d => x.ownerLocale (.root d)) =
          (ds.map keyOf?).map fun k => (k.map Key.locale).getD x.locale := by
      simp only [x.ownerLocale_root, List.map_map, Function.comp_def]
    exact ⟨hkeys, fun x => by rw [hlocale, hlocale, hkeys], Reference.keys_byKey_congr hkeys⟩

/-- A query that asks to see the locale and the title that the payload of a page says. -/
def localeAndTitle : QueryState :=
  { contentType := some "page", projection := [("locale", 1), ("title", 1)] }

/-- A page of which the payload says another locale than the wrapper. -/
def translatedPage : Document :=
  [(Projection.idKey, .objectId (.invented 0)), (Wrapper.contentType, .string "page"),
    (Wrapper.locale, .string "en"), (Wrapper.uid, .string "a"),
    (Wrapper.payload, .document [(Wrapper.uid, .string "a"), ("draft", .bool true),
      ("locale", .string "fr"), ("title", .string "News")])]

theorem keyOf?_translatedPage :
    let c : Config := { projections := [("draft", 0)] }
    let shown : Document := [(Wrapper.contentType, .string "page"), (Wrapper.locale, .string "en"),
      (Wrapper.uid, .string "a"),
      (Wrapper.payload, .document [("locale", .string "fr"), ("title", .string "News")])]
    c.fault? = none ∧ localeAndTitle.Reachable ∧
      Projection.apply (localeAndTitle.nativeProjection c) translatedPage = .ok shown ∧
      keyOf? shown = keyOf? translatedPage ∧ keyOf? shown = some ⟨"page", "en", "a"⟩ := by
  intro c shown
  have hc : c.fault? = none := by decide
  have hs : localeAndTitle.Reachable := ⟨[.contentType "page", .only ["locale", "title"]], rfl⟩
  have hshown : Projection.apply (localeAndTitle.nativeProjection c) translatedPage = .ok shown := rfl
  have hkeys := keyOf?_of_compiled hs hc (.inl rfl)
  exact ⟨hc, hs, hshown, hkeys.1 _ _ hshown, rfl⟩

end QueryState

end ContentQuery
