/-
What a compiled filter sees of a document.

A filter may hold values that read as operators, so what the store reads of a compiled
filter need not be the filter that was accumulated.  It still names nothing of the wrapper
beside the scope:

* `every_of_parse_payload` — all paths that are read behind the scope go through the
  payload field, at every depth;
* `accepts_congr` — so documents with one payload are accepted alike.
-/
import ContentQuery.Proofs.Scope

namespace ContentQuery.Filter

/-- Every path goes through the payload field. -/
def PayloadFields (fields : List (String × Predicate)) : Prop :=
  ∀ k ∈ Entries.keys fields, ∃ path, k = payloadPath path

/-! ### Reading -/

theorem parseEach_of_parseOperands {operator : String} {items : List Value} {fs : List Filter}
    (h : parseOperands operator (.array items) = .ok fs) : parseEach operator items = .ok fs := by
  cases items with
  | nil => cases h
  | cons v rest => rwa [parseOperands_cons] at h

/-- Reading entries of which the plain keys are payload paths and the operands have been
looked at. -/
theorem every_of_parseFields_payload {d : List (String × Value)} {acc f : Filter}
    (hplain : ∀ e ∈ d, isOperator e.1 = false → ∃ path, e.1 = payloadPath path)
    (hoperands : ∀ e ∈ d, e.1 = "$and" ∨ e.1 = "$or" → ∀ fs, parseOperands e.1 e.2 = .ok fs →
      EveryOf PayloadFields fs)
    (hacc : acc.Every PayloadFields) (h : parseFields acc d = .ok f) : f.Every PayloadFields := by
  induction d generalizing acc with
  | nil =>
    obtain rfl := Except.ok.inj h
    exact hacc
  | cons e rest ih =>
    obtain ⟨key, v⟩ := e
    obtain ⟨hfields, hall, hany⟩ := every_iff.mp hacc
    have hoperands' := hoperands (key, v) List.mem_cons_self
    have ih' (acc : Filter) := @ih acc (fun e he => hplain e (List.mem_cons_of_mem _ he))
      fun e he => hoperands e (List.mem_cons_of_mem _ he)
    rw [parseFields] at h
    split_ifs at h with hand hor hwhere hop hempty
    · obtain ⟨fs, hfs, h⟩ := exists_of_bind_ok h
      have hread := hoperands' (.inl hand) fs hfs
      refine ih' _ ?_ h
      exact every_iff.mpr ⟨hfields, hall.append hread, hany⟩
    · obtain ⟨fs, hfs, h⟩ := exists_of_bind_ok h
      have hread := hoperands' (.inr hor) fs hfs
      refine ih' _ ?_ h
      exact every_iff.mpr ⟨hfields, hall, hany.append hread⟩
    · obtain ⟨script, -, h⟩ := exists_of_bind_ok h
      refine ih' _ ?_ h
      exact every_iff.mpr ⟨hfields, hall, hany⟩
    · obtain ⟨p, -, h⟩ := exists_of_bind_ok h
      have hpath := hplain (key, v) List.mem_cons_self (by simpa using hop)
      have hfields' : PayloadFields (acc.fields ++ [(key, p)]) := by
        intro k hk
        rw [Entries.keys_append] at hk
        rcases List.mem_append.mp hk with hk | hk
        · exact hfields k hk
        · obtain rfl := List.mem_singleton.mp hk
          exact hpath
      refine ih' _ ?_ h
      exact every_iff.mpr ⟨hfields', hall, hany⟩

mutual

/-- What is read of a filter under the payload field names payload paths, whatever its
values read as. -/
theorem every_of_parseFields_renderWith (f : Filter) {acc g : Filter}
    (hacc : acc.Every PayloadFields) (h : parseFields acc (renderWith payloadPath f) = .ok g) :
    g.Every PayloadFields := by
  cases f with
  | mk fields allOf anyOf script =>
    refine every_of_parseFields_payload (fun e he hop => ?_) (fun e he hkey fs hfs => ?_) hacc h
    · rcases entry_of_mem_renderWith he with hpath | rfl | rfl | hwhere
      · exact hpath
      · exact absurd hop (by decide : ¬ isOperator "$and" = false)
      · exact absurd hop (by decide : ¬ isOperator "$or" = false)
      · exact absurd (hwhere ▸ hop) (by decide : ¬ isOperator "$where" = false)
    · have hop : isOperator e.1 = true := by rcases hkey with hkey | hkey <;> rw [hkey] <;> rfl
      rcases entry_of_mem_renderWith he with ⟨path, hpath⟩ | rfl | rfl | hwhere
      · rw [hpath, isOperator_payloadPath] at hop
        cases hop
      · exact everyOf_of_parseEach_renderEach allOf (parseEach_of_parseOperands hfs)
      · exact everyOf_of_parseEach_renderEach anyOf (parseEach_of_parseOperands hfs)
      · rw [hwhere] at hkey
        exact absurd hkey (by decide)

theorem everyOf_of_parseEach_renderEach (fs : List Filter) {operator : String} {gs : List Filter}
    (h : parseEach operator (renderEach payloadPath fs) = .ok gs) : EveryOf PayloadFields gs := by
  cases fs with
  | nil =>
    obtain rfl := Except.ok.inj h
    trivial
  | cons f rest =>
    have hempty : Every PayloadFields {} := every_empty (by simp [PayloadFields, Entries.keys])
    obtain ⟨g, hg, h⟩ := exists_of_bind_ok h
    obtain ⟨gs, hgs, h⟩ := exists_of_bind_ok h
    obtain rfl := Except.ok.inj h
    exact ⟨every_of_parseFields_renderWith f hempty hg, everyOf_of_parseEach_renderEach rest hgs⟩

end

theorem every_of_readFilter_payload {f g : Filter}
    (h : MemoryStore.readFilter (renderWith payloadPath f) = .ok g) : g.Every PayloadFields := by
  unfold MemoryStore.readFilter at h
  split at h
  · cases h
  · rename_i read hparse
    have hempty : Every PayloadFields {} := every_empty (by simp [PayloadFields, Entries.keys])
    split_ifs at h
    obtain rfl := Except.ok.inj h
    exact every_of_parseFields_renderWith f hempty hparse

end ContentQuery.Filter

namespace ContentQuery

/-! ### Accepting -/

section Congruence

variable {d d' : Document}

/-- What a payload path reaches depends on the payload field alone. -/
theorem resolve_payloadPath_congr
    (h : Entries.get? d Wrapper.payload = Entries.get? d' Wrapper.payload) (path : String) :
    Path.resolve d (payloadPath path) = Path.resolve d' (payloadPath path) := by
  have hreach (rest : List String) : Path.reach (Wrapper.payload :: rest) (.document d) =
      Path.reach (Wrapper.payload :: rest) (.document d') := by
    rw [Path.reach, Path.reach, Path.step, Path.step, h]
  simp only [Path.resolve, segments_payloadPath, hreach]

namespace Filter

variable [PatternLanguage]

theorem acceptsFields_congr (h : Entries.get? d Wrapper.payload = Entries.get? d' Wrapper.payload)
    {fields : List (String × Predicate)} (hfields : PayloadFields fields) :
    acceptsFields d fields = acceptsFields d' fields := by
  rw [acceptsFields, acceptsFields, Bool.eq_iff_iff, List.all_eq_true, List.all_eq_true]
  refine forall₂_congr fun e he => ?_
  obtain ⟨path, hpath⟩ := hfields e.1 (Entries.mem_keys_of_mem he)
  rw [hpath, resolve_payloadPath_congr h]

mutual

/-- A filter of payload paths accepts documents with one payload alike. -/
theorem accepts_congr (h : Entries.get? d Wrapper.payload = Entries.get? d' Wrapper.payload)
    (f : Filter) (hf : f.Every PayloadFields) : accepts d f = accepts d' f := by
  cases f with
  | mk fields allOf anyOf script =>
    obtain ⟨hfields, hall, hany⟩ := hf
    rw [accepts, accepts, acceptsFields_congr h hfields, acceptsEach_congr h allOf hall,
      acceptsSome_congr h anyOf hany]

theorem acceptsEach_congr (h : Entries.get? d Wrapper.payload = Entries.get? d' Wrapper.payload)
    (fs : List Filter) (hfs : EveryOf PayloadFields fs) :
    acceptsEach d fs = acceptsEach d' fs := by
  cases fs with
  | nil => rfl
  | cons f rest =>
    rw [acceptsEach, acceptsEach, accepts_congr h f hfs.1, acceptsEach_congr h rest hfs.2]

theorem acceptsSome_congr (h : Entries.get? d Wrapper.payload = Entries.get? d' Wrapper.payload)
    (fs : List Filter) (hfs : EveryOf PayloadFields fs) :
    acceptsSome d fs = acceptsSome d' fs := by
  cases fs with
  | nil => rfl
  | cons f rest =>
    rw [acceptsSome, acceptsSome, accepts_congr h f hfs.1, acceptsSome_congr h rest hfs.2]

end

end Filter

end Congruence

end ContentQuery
