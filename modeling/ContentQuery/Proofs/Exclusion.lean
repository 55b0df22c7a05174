/-
Projections that exclude parts of the payload.

The projection that a stack is configured with takes fields out of the payload
and leaves the wrapper alone:

* `apply_of_onlyPayload` — such a projection never fails;
* `keyOf?_trim` — what it leaves of a document has the key of the document;
* `notMem_keys_payloadOf_trim` — a field of the payload that it names is gone, whatever
  else it names.
-/
import ContentQuery.Projection
import ContentQuery.StoredDocument

namespace ContentQuery.Projection

/-- A projection that names nothing but the id and, to exclude it, the payload
or something inside it. -/
def OnlyPayload (p : Document) : Prop :=
  ∀ e ∈ p, e.1 = idKey ∨
    (e.2.truthy = false ∧ (Path.segments e.1).head? = some Wrapper.payload)

instance (p : Document) : Decidable (OnlyPayload p) :=
  inferInstanceAs (Decidable (∀ e ∈ p, _ ∨ (_ ∧ _)))

/-- What a projection without inclusions keeps of a document. -/
def trim (p d : Document) : Document :=
  let out := dropAll d (excluded p)
  if keepsId p then out else Entries.erase out idKey

theorem get?_drop {segs : List String} {k : String} (h : segs.head? ≠ some k) (d : Document) :
    Entries.get? (drop segs d) k = Entries.get? d k := by
  match segs with
  | [] => rfl
  | [s] =>
    -- only the first segment is looked up in the document itself
    have hs : s ≠ k := by simpa using h
    exact Entries.get?_erase_of_ne d hs
  | s :: t :: rest =>
    have hs : s ≠ k := by simpa using h
    exact Entries.get?_modify_of_ne d hs _

theorem get?_dropAll {paths : List String} {k : String}
    (h : ∀ path ∈ paths, (Path.segments path).head? ≠ some k) (d : Document) :
    Entries.get? (dropAll d paths) k = Entries.get? d k := by
  induction paths generalizing d with
  | nil => rfl
  | cons path rest ih =>
    have hrest := ih (fun q hq => h q (List.mem_cons_of_mem path hq)) (drop (Path.segments path) d)
    rw [get?_drop (h path List.mem_cons_self)] at hrest
    exact hrest

namespace OnlyPayload

variable {p : Document}

theorem included_eq_nil (h : OnlyPayload p) : included p = [] := by
  have hnone : ∀ e ∈ p, ¬ (e.1 != idKey && e.2.truthy) = true := by
    intro e he
    rcases h e he with hid | ⟨hfalse, -⟩
    · simp [hid]
    · simp [hfalse]
  simpa [included, List.filter_eq_nil_iff] using hnone

theorem head?_of_mem_excluded (h : OnlyPayload p) {path : String} (hp : path ∈ excluded p) :
    (Path.segments path).head? = some Wrapper.payload := by
  obtain ⟨e, he, rfl⟩ := List.mem_map.mp hp
  obtain ⟨hmem, hkept⟩ := List.mem_filter.mp he
  rcases h e hmem with hid | ⟨-, hhead⟩
  · simp [hid] at hkept
  · exact hhead

theorem get?_trim (h : OnlyPayload p) {k : String} (hdata : k ≠ Wrapper.payload)
    (hid : k ≠ idKey) (d : Document) : Entries.get? (trim p d) k = Entries.get? d k := by
  have hdrop : Entries.get? (dropAll d (excluded p)) k = Entries.get? d k := by
    refine get?_dropAll (fun path hp => ?_) d
    rw [h.head?_of_mem_excluded hp]
    exact fun heq => hdata (Option.some.inj heq).symm
  unfold trim
  split
  · exact hdrop
  · rw [Entries.get?_erase_of_ne _ (Ne.symm hid), hdrop]

end OnlyPayload

/-- A projection of the payload alone never mixes inclusion and exclusion. -/
theorem apply_of_onlyPayload {p : Document} (h : OnlyPayload p) (d : Document) :
    apply p d = .ok (trim p d) := by
  simp [apply, h.included_eq_nil, trim]

theorem keyOf?_trim {p : Document} (h : OnlyPayload p) (d : Document) :
    keyOf? (trim p d) = keyOf? d := by
  have hct := h.get?_trim (k := Wrapper.contentType) (by decide) (by decide) d
  have hloc := h.get?_trim (k := Wrapper.locale) (by decide) (by decide) d
  have huid := h.get?_trim (k := Wrapper.uid) (by decide) (by decide) d
  simp only [keyOf?, Document.stringAt?, hct, hloc, huid]

/-! ### What is gone -/

theorem mem_keys_of_mem_keys_drop {segs : List String} {d : Document} {k : String}
    (h : k ∈ Entries.keys (drop segs d)) : k ∈ Entries.keys d := by
  match segs with
  | [] => exact h
  | [s] =>
    rw [drop, Entries.keys_erase] at h
    exact (List.mem_filter.mp h).1
  | s :: t :: rest =>
    rw [drop, Entries.keys_modify] at h
    · exact h
    · exact List.cons_ne_nil t rest

theorem payloadOf_drop_of_ne {segs : List String} (h : segs.head? ≠ some Wrapper.payload)
    (d : Document) : payloadOf (drop segs d) = payloadOf d := by
  rw [payloadOf, payloadOf, Document.documentAt?, Document.documentAt?, get?_drop h]

/-- Below the payload field the payload itself is what is dropped from. -/
theorem payloadOf_drop_below {segs : List String} (h : segs ≠ []) (d : Document) :
    payloadOf (drop (Wrapper.payload :: segs) d) = drop segs (payloadOf d) := by
  have hnil : drop segs [] = [] := by
    match segs with
    | [s] => rfl
    | s :: t :: rest => rfl
  obtain ⟨s, rest, rfl⟩ := List.exists_cons_of_ne_nil h
  rw [payloadOf, payloadOf, Document.documentAt?, Document.documentAt?, drop,
    Entries.get?_modify_self]
  · cases Entries.get? d Wrapper.payload with
    | none => exact hnil.symm
    | some v =>
      cases v with
      | document sub => rfl
      | _ => exact hnil.symm
  · exact List.cons_ne_nil s rest

/-- Dropping never gives the payload a key. -/
theorem mem_keys_of_mem_keys_payloadOf_drop {segs : List String} {d : Document} {k : String}
    (h : k ∈ Entries.keys (payloadOf (drop segs d))) : k ∈ Entries.keys (payloadOf d) := by
  match segs with
  | [] => exact h
  | s :: rest =>
    by_cases hs : s = Wrapper.payload
    · subst hs
      match rest with
      | [] =>
        have hgone : payloadOf (drop [Wrapper.payload] d) = [] := by
          rw [payloadOf, Document.documentAt?, drop, Entries.get?_erase_self]
          rfl
        rw [hgone] at h
        cases h
      | t :: rest =>
        rw [payloadOf_drop_below (List.cons_ne_nil t rest)] at h
        exact mem_keys_of_mem_keys_drop h
    · rwa [payloadOf_drop_of_ne (by simpa using hs)] at h

theorem notMem_keys_payloadOf_dropAll {paths : List String} {path n : String}
    (hpath : path ∈ paths) (hsegs : Path.segments path = [Wrapper.payload, n]) (d : Document) :
    n ∉ Entries.keys (payloadOf (dropAll d paths)) := by
  -- once the field is gone, the paths behind it do not bring it back
  have hkeeps (rest : List String) : ∀ d : Document, n ∉ Entries.keys (payloadOf d) →
      n ∉ Entries.keys (payloadOf (dropAll d rest)) := by
    induction rest with
    | nil => exact fun _ hd => hd
    | cons q rest ih => exact fun d hd => ih _ fun h => hd (mem_keys_of_mem_keys_payloadOf_drop h)
  induction paths generalizing d with
  | nil => cases hpath
  | cons q rest ih =>
    rcases List.mem_cons.mp hpath with rfl | hrest
    · refine hkeeps rest (drop (Path.segments path) d) ?_
      rw [hsegs, payloadOf_drop_below (List.cons_ne_nil n []), drop, Entries.keys_erase]
      simp
    · exact ih hrest _

theorem OnlyPayload.mem_excluded {p : Document} (h : OnlyPayload p) {path : String}
    (hpath : path ∈ Entries.keys p) (hid : path ≠ idKey) : path ∈ excluded p := by
  obtain ⟨e, he, rfl⟩ := List.mem_map.mp hpath
  refine List.mem_map.mpr ⟨e, List.mem_filter.mpr ⟨he, ?_⟩, rfl⟩
  obtain ⟨hfalse, -⟩ := (h e he).resolve_left hid
  simp [hid, hfalse]

/-- A field that an exclusion of the payload names is gone. -/
theorem notMem_keys_payloadOf_trim {p : Document} (h : OnlyPayload p) {path n : String}
    (hpath : path ∈ Entries.keys p) (hsegs : Path.segments path = [Wrapper.payload, n])
    (d : Document) : n ∉ Entries.keys (payloadOf (trim p d)) := by
  have hid : path ≠ idKey := by
    rintro rfl
    have hlen := congrArg List.length hsegs
    exact absurd hlen (by decide : (Path.segments idKey).length ≠ 2)
  have hgone := notMem_keys_payloadOf_dropAll (h.mem_excluded hpath hid) hsegs d
  unfold trim
  split
  · exact hgone
  · rwa [payloadOf, Document.documentAt?, Entries.get?_erase_of_ne _ (by decide)]

end ContentQuery.Projection
