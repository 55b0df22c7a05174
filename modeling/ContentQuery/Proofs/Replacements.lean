/-
Values put in the places of descriptors.

The scan of a payload says where its descriptors are, and putting a value at such a place
changes the payload there and nowhere else.  No place lies inside another one, so any number
of values can be put in their places one after the other, in any order:

* `mem_scan_iff` — the descriptors that are reported are those that lie inside no other one;
* `Patch`, `patched` — a value with others in some of its places, all put there at once;
* `setIn_patched` — one more value, put at a place that is apart from these;
* `valueAt_patched`, `outline_patched` — what is in the places, and what is anywhere else;
* `scan_putAll` — so values put in the places of all descriptors are there, and the payload
  around them is as it was.
-/
import ContentQuery.Proofs.ScannedPlaces
import Mathlib.Data.List.Pairwise

namespace ContentQuery.Reference

/-! ### One step into a value -/

theorem valueAt_cons (s : Segment) (rest : List Segment) (v : Value) :
    valueAt (s :: rest) v = (valueAt [s] v).bind (valueAt rest) := by
  cases s <;> cases v <;> simp [valueAt]

theorem valueAt_key (k : String) (d : Document) :
    valueAt [.key k] (.document d) = Entries.get? d k := by
  rw [valueAt, show valueAt [] = some from rfl, Option.bind_fun_some]

theorem valueAt_index (i : Nat) (items : List Value) :
    valueAt [.index i] (.array items) = items[i]? := by
  rw [valueAt, show valueAt [] = some from rfl, Option.bind_fun_some]

/-- A step leads into a document by a key, or into an array by an index. -/
theorem exists_of_step {s : Segment} {v part : Value} (h : valueAt [s] v = some part) :
    (∃ k d, s = .key k ∧ v = .document d ∧ Entries.get? d k = some part) ∨
      ∃ i items, s = .index i ∧ v = .array items ∧ items[i]? = some part := by
  cases s with
  | key k =>
    cases v with
    | document d => exact .inl ⟨k, d, rfl, rfl, by rwa [valueAt_key] at h⟩
    | _ => cases h
  | index i =>
    cases v with
    | array items => exact .inr ⟨i, items, rfl, rfl, by rwa [valueAt_index] at h⟩
    | _ => cases h

theorem wellFormed_of_step {s : Segment} {v part : Value} (h : valueAt [s] v = some part)
    (hwf : v.wellFormed = true) : part.wellFormed = true := by
  obtain ⟨k, d, rfl, rfl, hget⟩ | ⟨i, items, rfl, rfl, hget⟩ := exists_of_step h
  · exact (Document.wellFormed_iff.mp hwf).2 _ (Entries.mem_of_get?_eq_some hget)
  · exact Value.allWellFormed_iff.mp hwf _ (List.mem_of_getElem? hget)

/-! ### What is reported -/

theorem Location.under_inj {l l' : Location} {s t : Segment} :
    l.under s = l'.under t ↔ s = t ∧ l = l' := by
  cases l
  cases l'
  simp [Location.under, and_assoc]

theorem mem_scan_under {d : Document} (hkeys : (Entries.keys d).Nodup) {l : Location}
    {s : Segment} :
    l.under s ∈ scan d ↔ ∃ part, valueAt [s] (.document d) = some part ∧ l ∈ scanValue part := by
  rw [mem_scan]
  constructor
  · rintro ⟨e, he, inner, hinner, heq⟩
    obtain ⟨rfl, rfl⟩ := Location.under_inj.mp heq
    exact ⟨e.2, by rw [valueAt_key, Entries.get?_eq_some_of_mem hkeys he], hinner⟩
  · rintro ⟨part, hpart, hl⟩
    obtain ⟨k, d, rfl, hd, hget⟩ | ⟨_, _, _, hd, _⟩ := exists_of_step hpart
    · obtain rfl := Value.document.inj hd
      exact ⟨(k, part), Entries.mem_of_get?_eq_some hget, l, hl, rfl⟩
    · cases hd

theorem mem_scanItems_under {items : List Value} {l : Location} {s : Segment} :
    l.under s ∈ scanItems 0 items ↔
      ∃ part, valueAt [s] (.array items) = some part ∧ l ∈ scanValue part := by
  rw [mem_scanItems]
  constructor
  · rintro ⟨j, part, hj, inner, hinner, heq⟩
    rw [Nat.zero_add] at heq
    obtain ⟨rfl, rfl⟩ := Location.under_inj.mp heq
    exact ⟨part, by rw [valueAt_index, hj], hinner⟩
  · rintro ⟨part, hpart, hl⟩
    obtain ⟨_, _, _, hd, _⟩ | ⟨i, items, rfl, hd, hget⟩ := exists_of_step hpart
    · cases hd
    · obtain rfl := Value.array.inj hd
      exact ⟨i, part, hget, l, hl, by rw [Nat.zero_add]⟩

/-- The scan goes on into the parts of a value, unless this is a descriptor. -/
theorem mem_scanValue_under {v : Value} (hwf : v.wellFormed = true) {l : Location} {s : Segment} :
    l.under s ∈ scanValue v ↔ Descriptor.ofValue? v = none ∧
      ∃ part, valueAt [s] v = some part ∧ l ∈ scanValue part := by
  cases v with
  | document d =>
    rw [scanValue_document, show Descriptor.ofValue? (.document d) = Descriptor.ofDocument? d from rfl]
    cases Descriptor.ofDocument? d with
    | some r => simp [Location.under]
    | none => simpa using mem_scan_under (Document.wellFormed_iff.mp hwf).1
  | array items =>
    rw [scanValue, mem_scanItems_under]
    exact (and_iff_right rfl).symm
  | _ =>
    refine iff_of_false (by simp [scanValue]) ?_
    rintro ⟨-, part, hpart, -⟩
    obtain ⟨_, _, _, hd, _⟩ | ⟨_, _, _, hd, _⟩ := exists_of_step hpart <;> cases hd

/-- No descriptor stands above a place of a value, the value itself included. -/
def Exposed (way : List Segment) (v : Value) : Prop :=
  ∀ above, above <+: way → above ≠ way → ∀ u, valueAt above v = some u →
    Descriptor.ofValue? u = none

theorem exposed_nil (v : Value) : Exposed [] v := by
  intro above hpre hne
  exact absurd (List.prefix_nil.mp hpre) hne

/-- What stands above a place in a part, seen from the value that has the part. -/
theorem exposed_part_iff {s : Segment} {rest : List Segment} {v part : Value}
    (hpart : valueAt [s] v = some part) :
    Exposed rest part ↔ ∀ above, above <+: s :: rest → above ≠ [] → above ≠ s :: rest →
      ∀ u, valueAt above v = some u → Descriptor.ofValue? u = none := by
  have hbelow (above : List Segment) : valueAt (s :: above) v = valueAt above part := by
    rw [valueAt_cons, hpart, Option.bind_some]
  constructor
  · intro h above hpre hnil hne u hu
    obtain ⟨t, above, rfl⟩ := List.exists_cons_of_ne_nil hnil
    obtain ⟨rfl, hrest⟩ := List.cons_prefix_cons.mp hpre
    exact h above hrest (fun heq => hne (heq ▸ rfl)) u (hbelow above ▸ hu)
  · intro h above hpre hne u hu
    exact h (s :: above) (List.cons_prefix_cons.mpr ⟨rfl, hpre⟩) (List.cons_ne_nil s above)
      (fun heq => hne (List.cons.inj heq).2) u (by rw [hbelow, hu])

theorem exposed_cons {s : Segment} {rest : List Segment} {v part : Value}
    (hpart : valueAt [s] v = some part) :
    Exposed (s :: rest) v ↔ Descriptor.ofValue? v = none ∧ Exposed rest part := by
  rw [exposed_part_iff hpart]
  constructor
  · intro h
    exact ⟨h [] List.nil_prefix (List.cons_ne_nil s rest).symm v rfl,
      fun above hpre _ hne => h above hpre hne⟩
  · rintro ⟨hv, h⟩ above hpre hne u hu
    by_cases hnil : above = []
    · subst hnil
      rwa [← Option.some.inj hu]
    · exact h above hpre hnil hne u hu

theorem Location.fits_under_iff {l : Location} {s : Segment} {v part : Value}
    (hpart : valueAt [s] v = some part) : (l.under s).Fits v ↔ l.Fits part := by
  have hvalue : valueAt (l.under s).segments v = valueAt l.segments part := by
    rw [Location.under, valueAt_cons, hpart, Option.bind_some]
  exact ⟨fun h => ⟨hvalue ▸ h.value, h.descriptor⟩, fun h => ⟨hvalue ▸ h.value, h.descriptor⟩⟩

/-- The descriptors that are reported in a value are those that lie inside no other one. -/
theorem mem_scanValue_iff {v : Value} (hwf : v.wellFormed = true) {l : Location} :
    l ∈ scanValue v ↔ l.Fits v ∧ Exposed l.segments v := by
  obtain ⟨way, r, u⟩ := l
  induction way generalizing v with
  | nil =>
    refine ⟨fun h => ⟨fits_of_mem_scanValue v hwf _ h, exposed_nil v⟩, fun ⟨hfits, _⟩ => ?_⟩
    obtain rfl : v = u := Option.some.inj hfits.value
    have hr : Descriptor.ofValue? v = some r := hfits.descriptor
    cases v with
    | document d =>
      rw [scanValue_document, show Descriptor.ofDocument? d = some r from hr]
      exact List.mem_singleton.mpr rfl
    | _ => cases hr
  | cons s rest ih =>
    have hunder : (⟨s :: rest, r, u⟩ : Location) = Location.under s ⟨rest, r, u⟩ := rfl
    rw [hunder, mem_scanValue_under hwf]
    constructor
    · rintro ⟨hv, part, hpart, hl⟩
      obtain ⟨hfits, hexposed⟩ := (ih (wellFormed_of_step hpart hwf)).mp hl
      exact ⟨(Location.fits_under_iff hpart).mpr hfits, (exposed_cons hpart).mpr ⟨hv, hexposed⟩⟩
    · rintro ⟨hfits, hexposed⟩
      obtain ⟨part, hpart, -⟩ := Option.bind_eq_some_iff.mp (valueAt_cons s rest v ▸ hfits.value)
      obtain ⟨hv, hexposed⟩ := (exposed_cons hpart).mp hexposed
      have hl := (ih (wellFormed_of_step hpart hwf)).mpr
        ⟨(Location.fits_under_iff hpart).mp hfits, hexposed⟩
      exact ⟨hv, part, hpart, hl⟩

/-- A descriptor below the root of a payload that lies inside no other one.  The payload
itself counts for none. -/
structure Location.Outermost (l : Location) (payload : Document) : Prop where
  below : l.segments ≠ []
  fits : l.Fits (.document payload)
  alone : ∀ above, above <+: l.segments → above ≠ [] → above ≠ l.segments →
    ∀ v, valueAt above (.document payload) = some v → Descriptor.ofValue? v = none

theorem mem_scan_iff {payload : Document} (hwf : Document.wellFormed payload = true)
    {l : Location} : l ∈ scan payload ↔ l.Outermost payload := by
  obtain ⟨way, r, u⟩ := l
  cases way with
  | nil =>
    refine iff_of_false (fun h => ?_) fun h => h.below rfl
    obtain ⟨e, -, inner, -, heq⟩ := mem_scan.mp h
    cases heq
  | cons s rest =>
    have hunder : (⟨s :: rest, r, u⟩ : Location) = Location.under s ⟨rest, r, u⟩ := rfl
    rw [hunder, mem_scan_under (Document.wellFormed_iff.mp hwf).1]
    constructor
    · rintro ⟨part, hpart, hl⟩
      obtain ⟨hfits, hexposed⟩ := (mem_scanValue_iff (wellFormed_of_step hpart hwf)).mp hl
      exact ⟨List.cons_ne_nil s rest, (Location.fits_under_iff hpart).mpr hfits,
        (exposed_part_iff hpart).mp hexposed⟩
    · rintro ⟨-, hfits, halone⟩
      obtain ⟨part, hpart, -⟩ := Option.bind_eq_some_iff.mp (valueAt_cons s rest _ ▸ hfits.value)
      exact ⟨part, hpart, (mem_scanValue_iff (wellFormed_of_step hpart hwf)).mpr
        ⟨(Location.fits_under_iff hpart).mp hfits, (exposed_part_iff hpart).mpr halone⟩⟩

/-! ### Many values in their places -/

/-- What is to be put in which places of a value. -/
abbrev Patch := List Segment → Option Value

namespace Patch

/-- What is to be put in the places behind a step. -/
def below (p : Patch) (s : Segment) : Patch := fun way => p (s :: way)

/-- One more value for a place. -/
def add (p : Patch) (way : List Segment) (new : Value) : Patch :=
  fun w => if w = way then some new else p w

theorem add_self (p : Patch) (way : List Segment) (new : Value) : p.add way new way = some new :=
  if_pos rfl

theorem below_add_self (p : Patch) (s : Segment) (rest : List Segment) (new : Value) :
    (p.add (s :: rest) new).below s = (p.below s).add rest new := by
  funext way
  simp [below, add]

theorem below_add_of_ne (p : Patch) {s t : Segment} (h : t ≠ s) (rest : List Segment)
    (new : Value) : (p.add (s :: rest) new).below t = p.below t := by
  funext way
  simp [below, add, h]

end Patch

mutual

/-- A value with what a patch has for its places. -/
def patched (p : Patch) : Value → Value
  | .document d => (p []).getD (.document (patchedFields p d))
  | .array items => (p []).getD (.array (patchedItems p 0 items))
  | v => (p []).getD v

/-- The items of an array, from an index on, with what a patch has for them. -/
def patchedItems (p : Patch) (i : Nat) : List Value → List Value
  | [] => []
  | v :: rest => patched (p.below (.index i)) v :: patchedItems p (i + 1) rest

/-- The fields of a document with what a patch has for them. -/
def patchedFields (p : Patch) : List (String × Value) → List (String × Value)
  | [] => []
  | (k, v) :: rest => (k, patched (p.below (.key k)) v) :: patchedFields p rest

end

section Patched

variable {p q : Patch} {way : List Segment} {v new : Value}

theorem patched_of_some (h : p [] = some new) (v : Value) : patched p v = new := by
  cases v <;> simp [patched, h]

theorem patched_document (h : p [] = none) (d : Document) :
    patched p (.document d) = .document (patchedFields p d) := by
  rw [patched, h, Option.getD_none]

theorem patched_array (h : p [] = none) (items : List Value) :
    patched p (.array items) = .array (patchedItems p 0 items) := by
  rw [patched, h, Option.getD_none]

theorem patched_of_scalar (h : p [] = none) (hd : v.isDocument = false)
    (ha : v.isArray = false) : patched p v = v := by
  cases v <;> simp_all [patched, Value.isDocument, Value.isArray]

theorem get?_patchedFields (p : Patch) (d : Document) (k : String) :
    Entries.get? (patchedFields p d) k = (Entries.get? d k).map (patched (p.below (.key k))) := by
  induction d with
  | nil => rfl
  | cons e rest ih =>
    obtain ⟨j, v⟩ := e
    rw [patchedFields, Entries.get?, Entries.get?, ih]
    by_cases hj : j = k
    · rw [if_pos hj, if_pos hj, hj, Option.map_some]
    · rw [if_neg hj, if_neg hj]

theorem getElem?_patchedItems (p : Patch) (i : Nat) (items : List Value) (j : Nat) :
    (patchedItems p i items)[j]? = items[j]?.map (patched (p.below (.index (i + j)))) := by
  induction items generalizing i j with
  | nil => rfl
  | cons v rest ih =>
    rw [patchedItems]
    cases j with
    | zero => rfl
    | succ j => rw [List.getElem?_cons_succ, List.getElem?_cons_succ, ih, Nat.add_right_comm i 1 j,
        Nat.add_assoc i j 1]

/-- A step into a patched value leads to the part, patched with what is behind the step. -/
theorem step_patched (h : p [] = none) (s : Segment) (v : Value) :
    valueAt [s] (patched p v) = (valueAt [s] v).map (patched (p.below s)) := by
  cases v with
  | document d =>
    rw [patched_document h]
    cases s with
    | key k => rw [valueAt_key, valueAt_key, get?_patchedFields]
    | index i => rfl
  | array items =>
    rw [patched_array h]
    cases s with
    | key k => rfl
    | index i => rw [valueAt_index, valueAt_index, getElem?_patchedItems, Nat.zero_add]
  | _ =>
    rw [patched_of_scalar h rfl rfl]
    cases s <;> rfl

/-- A patch that has nothing for any place changes nothing. -/
theorem patched_none (v : Value) : patched (fun _ => none) v = v := by
  induction v using Value.induction_parts with
  | document d ih =>
    rw [patched_document rfl]
    refine congrArg Value.document ?_
    induction d with
    | nil => rfl
    | cons e rest ihrest =>
      obtain ⟨he, hrest⟩ := List.forall_mem_cons.mp ih
      rw [patchedFields, ihrest hrest]
      exact congrArg (fun v => (e.1, v) :: rest) he
  | array items ih =>
    rw [patched_array rfl]
    refine congrArg Value.array (List.ext_getElem? fun j => ?_)
    rw [getElem?_patchedItems]
    cases hj : items[j]? with
    | none => rfl
    | some v => exact congrArg some (ih v (List.mem_of_getElem? hj))
  | scalar v hd ha => exact patched_of_scalar rfl hd ha

/-! ### One value more -/

theorem patchedFields_congr {d : Document}
    (h : ∀ k ∈ Entries.keys d, p.below (.key k) = q.below (.key k)) :
    patchedFields p d = patchedFields q d := by
  induction d with
  | nil => rfl
  | cons e rest ih =>
    obtain ⟨hk, hrest⟩ := List.forall_mem_cons.mp h
    rw [patchedFields, patchedFields, hk, ih hrest]

/-- Changing one field by hand is patching it, if the others are patched alike. -/
theorem modify_patchedFields {d : Document} (hkeys : (Entries.keys d).Nodup) {k : String}
    {part : Value} (hpart : Entries.get? d k = some part) {f : Value → Value}
    (hf : f (patched (p.below (.key k)) part) = patched (q.below (.key k)) part)
    (hother : ∀ j, j ≠ k → p.below (.key j) = q.below (.key j)) :
    Entries.modify (patchedFields p d) k f = patchedFields q d := by
  induction d with
  | nil => cases hpart
  | cons e rest ih =>
    obtain ⟨j, v⟩ := e
    obtain ⟨hj, hrest⟩ := List.nodup_cons.mp hkeys
    rw [Entries.get?] at hpart
    rw [patchedFields, patchedFields, Entries.modify]
    split_ifs at hpart ⊢ with hjk
    · subst hjk
      obtain rfl := Option.some.inj hpart
      rw [hf, patchedFields_congr fun i hi => hother i (ne_of_mem_of_not_mem hi hj)]
    · rw [ih hrest hpart, hother j hjk]

theorem modify_patchedItems {items : List Value} {i : Nat} {part : Value}
    (hpart : items[i]? = some part) {f : Value → Value}
    (hf : f (patched (p.below (.index i)) part) = patched (q.below (.index i)) part)
    (hother : ∀ j, j ≠ i → p.below (.index j) = q.below (.index j)) :
    (patchedItems p 0 items).modify i f = patchedItems q 0 items := by
  refine List.ext_getElem? fun j => ?_
  rw [List.getElem?_modify, getElem?_patchedItems, getElem?_patchedItems, Nat.zero_add]
  by_cases hj : i = j
  · subst hj
    rw [hpart, Option.map_some, Option.map_some, Option.map_eq_map, Option.map_some, if_pos rfl, hf]
  · simp only [if_neg hj, hother j (Ne.symm hj), id_map']

/-- Where there is something, setting a field is changing what it holds. -/
theorem setField_eq_modify {d : Document} {k : String} {part : Value}
    (h : Entries.get? d k = some part) (rest : List Segment) (new : Value) :
    setField rest d k new (fun v => setIn rest v new) =
      Entries.modify d k fun v => setIn rest v new := by
  cases rest with
  | cons s rest => rfl
  | nil =>
    rw [setField, Entries.insert]
    induction d with
    | nil => cases h
    | cons e rest ih =>
      obtain ⟨j, v⟩ := e
      rw [Entries.get?] at h
      rw [Entries.upsert, Entries.modify]
      split_ifs at h ⊢ with hj
      · rfl
      · rw [ih h]

/-- One more value, put at a place that is apart from those of a patch. -/
theorem setIn_patched (hapart : ∀ w, p w ≠ none → Diverge w way)
    (hwf : v.wellFormed = true) (hway : (valueAt way v).isSome) (new : Value) :
    setIn way (patched p v) new = patched (p.add way new) v := by
  induction way generalizing p v with
  | nil => rw [setIn, patched_of_some (p.add_self [] new)]
  | cons s rest ih =>
    -- the value itself is no place of the patch, since it lies above this one
    have hroot : p [] = none := by
      by_contra h
      exact (hapart [] h).1 List.nil_prefix
    have hroot' : p.add (s :: rest) new [] = none := hroot
    obtain ⟨old, hold⟩ := Option.isSome_iff_exists.mp hway
    rw [valueAt_cons] at hold
    obtain ⟨part, hpart, hold⟩ := Option.bind_eq_some_iff.mp hold
    have hpatched : setIn rest (patched (p.below s) part) new =
        patched ((p.add (s :: rest) new).below s) part := by
      rw [p.below_add_self]
      refine ih (fun w hw => ?_) (wellFormed_of_step hpart hwf) (hold ▸ rfl)
      exact diverge_cons.mp (hapart (s :: w) hw)
    obtain ⟨k, d, rfl, rfl, hget⟩ | ⟨i, items, rfl, rfl, hget⟩ := exists_of_step hpart
    · have hfield : Entries.get? (patchedFields p d) k = some (patched (p.below (.key k)) part) := by
        rw [get?_patchedFields, hget, Option.map_some]
      rw [patched_document hroot, patched_document hroot', setIn, setField_eq_modify hfield,
        modify_patchedFields (Document.wellFormed_iff.mp hwf).1 hget hpatched fun j hj =>
          (p.below_add_of_ne (by simpa using hj) rest new).symm]
    · rw [patched_array hroot, patched_array hroot', setIn,
        modify_patchedItems hget hpatched fun j hj =>
          (p.below_add_of_ne (by simpa using hj) rest new).symm]

/-! ### What a patch leaves -/

theorem valueAt_patched (hat : p way = some new)
    (habove : ∀ above, above <+: way → above ≠ way → p above = none)
    (hway : (valueAt way v).isSome) : valueAt way (patched p v) = some new := by
  induction way generalizing p v with
  | nil => exact congrArg some (patched_of_some hat v)
  | cons s rest ih =>
    obtain ⟨old, hold⟩ := Option.isSome_iff_exists.mp hway
    rw [valueAt_cons] at hold
    obtain ⟨part, hpart, hold⟩ := Option.bind_eq_some_iff.mp hold
    rw [valueAt_cons, step_patched (habove [] List.nil_prefix (List.cons_ne_nil s rest).symm), hpart,
      Option.map_some, Option.bind_some]
    refine ih hat (fun above hpre hne => ?_) (hold ▸ rfl)
    exact habove (s :: above) (List.cons_prefix_cons.mpr ⟨rfl, hpre⟩)
      fun heq => hne (List.cons.inj heq).2

/-- A value without what is in its parts: the keys of a document, in order, the length of an
array, and any other value as it is. -/
def outline : Value → Value
  | .document d => .document (d.map fun e => (e.1, .null))
  | .array items => .array (items.map fun _ => .null)
  | v => v

theorem outline_patched (h : p [] = none) (v : Value) : outline (patched p v) = outline v := by
  cases v with
  | document d =>
    rw [patched_document h]
    refine congrArg Value.document ?_
    induction d with
    | nil => rfl
    | cons e rest ih => rw [patchedFields, List.map_cons, List.map_cons, ih]
  | array items =>
    rw [patched_array h]
    refine congrArg Value.array (List.ext_getElem? fun j => ?_)
    rw [List.getElem?_map, List.getElem?_map, getElem?_patchedItems, Option.map_map]
    rfl
  | _ => rw [patched_of_scalar h rfl rfl]

/-- What is neither in a place of a patch nor inside of one looks as it did. -/
theorem outline_valueAt_patched (h : ∀ above, above <+: way → p above = none) :
    (valueAt way (patched p v)).map outline = (valueAt way v).map outline := by
  induction way generalizing p v with
  | nil => exact congrArg some (outline_patched (h [] List.nil_prefix) v)
  | cons s rest ih =>
    rw [valueAt_cons, step_patched (h [] List.nil_prefix), valueAt_cons s rest v]
    cases hpart : valueAt [s] v with
    | none => rfl
    | some part =>
      exact ih fun above hpre => h (s :: above) (List.cons_prefix_cons.mpr ⟨rfl, hpre⟩)

end Patched

/-! ### Payloads -/

/-- Put a value in the place of each of some descriptors, one after the other. -/
def putAll (new : List Segment → Value) (payload : Document) (ls : List Location) : Document :=
  ls.foldl (fun d l => setAt d l.segments (new l.segments)) payload

/-- The values for the places of some descriptors. -/
def replacements (new : List Segment → Value) (ls : List Location) : Patch :=
  fun way => if way ∈ ls.map Location.segments then some (new way) else none

section Payloads

variable {new : List Segment → Value} {payload : Document} {ls : List Location}

theorem replacements_eq_none {way : List Segment} :
    replacements new ls way = none ↔ ∀ l ∈ ls, l.segments ≠ way := by
  simp [replacements]

theorem replacements_concat (new : List Segment → Value) (ls : List Location) (l : Location) :
    replacements new (ls ++ [l]) = (replacements new ls).add l.segments (new l.segments) := by
  funext way
  by_cases h : way = l.segments
  · simp [replacements, Patch.add, h]
  · simp [replacements, Patch.add, h]

theorem replacements_perm (new : List Segment → Value) {ls ls' : List Location}
    (h : ls.Perm ls') : replacements new ls = replacements new ls' := by
  funext way
  rw [replacements, replacements, if_congr (h.map _).mem_iff rfl rfl]

/-- Of scattered places only a place itself is above it. -/
theorem Scattered.eq_of_prefix (h : Scattered ls) {l l' : Location} (hl : l ∈ ls) (hl' : l' ∈ ls)
    (hpre : l.segments <+: l'.segments) : l = l' := by
  have hsymm : Std.Symm fun a b : Location => Diverge a.segments b.segments :=
    ⟨fun _ _ => And.symm⟩
  by_contra hne
  exact (List.Pairwise.forall h hl hl' hne).1 hpre

theorem document_setAt {way : List Segment} (h : way ≠ []) (d : Document) (new : Value) :
    .document (setAt d way new) = setIn way (.document d) new := by
  obtain ⟨s, rest, rfl⟩ := List.exists_cons_of_ne_nil h
  cases s <;> rfl

theorem document_putAll (hwf : Document.wellFormed payload = true) (hscattered : Scattered ls)
    (hbelow : ∀ l ∈ ls, l.segments ≠ [])
    (hplaces : ∀ l ∈ ls, (valueAt l.segments (.document payload)).isSome) :
    .document (putAll new payload ls) = patched (replacements new ls) (.document payload) := by
  induction ls using List.reverseRecOn with
  | nil => exact (patched_none _).symm
  | append_singleton ls l ih =>
    obtain ⟨hinit, -, hlast⟩ := List.pairwise_append.mp hscattered
    rw [List.forall_mem_append, List.forall_mem_singleton] at hbelow hplaces
    have hput : putAll new payload (ls ++ [l]) =
        setAt (putAll new payload ls) l.segments (new l.segments) := List.foldl_concat ..
    rw [hput, document_setAt hbelow.2, ih hinit hbelow.1 hplaces.1, replacements_concat]
    refine setIn_patched (fun w hw => ?_) (show (Value.document payload).wellFormed = true from hwf)
      hplaces.2 _
    obtain ⟨a, ha, rfl⟩ : ∃ a ∈ ls, a.segments = w := by
      simpa [replacements_eq_none] using hw
    exact hlast a ha l (List.mem_singleton.mpr rfl)

/-- What is put in one of some scattered places is there. -/
theorem valueAt_replacements (hscattered : Scattered ls) {l : Location} (hl : l ∈ ls) {v : Value}
    (hplace : (valueAt l.segments v).isSome) :
    valueAt l.segments (patched (replacements new ls) v) = some (new l.segments) := by
  refine valueAt_patched (if_pos (List.mem_map_of_mem hl)) (fun above hpre hne => ?_) hplace
  -- a place above this one would hold a descriptor inside of which this one lies
  rw [replacements_eq_none]
  rintro l' hl' rfl
  exact hne (congrArg Location.segments (hscattered.eq_of_prefix hl' hl hpre))

end Payloads

/-- The scan of a payload reports the descriptors that lie inside no other one, at places of
which none is another one or inside of it.  Values put in all of these places, in any order,
are there, and everything else is as it was. -/
theorem scan_putAll {payload : Document} (hwf : Document.wellFormed payload = true) :
    Scattered (scan payload) ∧ (∀ l, l ∈ scan payload ↔ l.Outermost payload) ∧
    ∀ (new : List Segment → Value) (ls : List Location), ls.Perm (scan payload) →
      .document (putAll new payload ls) =
          patched (replacements new (scan payload)) (.document payload) ∧
        (∀ l ∈ scan payload,
          valueAt l.segments (.document (putAll new payload ls)) = some (new l.segments)) ∧
        ∀ way, (∀ l ∈ scan payload, ¬ l.segments <+: way) →
          (valueAt way (.document (putAll new payload ls))).map outline =
            (valueAt way (.document payload)).map outline := by
  have hscattered := scattered_scan hwf
  have houtermost {l : Location} := mem_scan_iff hwf (l := l)
  refine ⟨hscattered, fun _ => houtermost, fun new ls hperm => ?_⟩
  have hplace : ∀ l ∈ scan payload, (valueAt l.segments (.document payload)).isSome := by
    intro l hl
    rw [(houtermost.mp hl).fits.value, Option.isSome_some]
  have hput : .document (putAll new payload ls) =
      patched (replacements new (scan payload)) (.document payload) := by
    rw [document_putAll hwf ((hperm.pairwise_iff And.symm).mpr hscattered)
      (fun l hl => (houtermost.mp (hperm.mem_iff.mp hl)).below)
      fun l hl => hplace l (hperm.mem_iff.mp hl), replacements_perm new hperm]
  rw [hput]
  refine ⟨rfl, fun l hl => valueAt_replacements hscattered hl (hplace l hl), fun way hway => ?_⟩
  refine outline_valueAt_patched fun above hpre => ?_
  rw [replacements_eq_none]
  rintro l hl rfl
  exact hway l hl hpre

/-- A page with a link at its top, links in two sections, one of them in a list of lists, and
a section that names a page but has a title of its own. -/
def nestedLinks : Document :=
  [("next", .document [("reference_to", .string "page"), ("values", .string "b")]),
    ("sections", .array [.document [("title", .string "One"),
        ("more", .document [("reference_to", .string "page"), ("values", .array [.string "c"])])],
      .array [.int32 7, .document [("values", .string "d"), ("reference_to", .string "page")]],
      .document [("reference_to", .string "page"), ("values", .string "e"),
        ("title", .string "No link")]])]

/-- The length of the way to a place. -/
def wayLength (way : List Segment) : Value := .int32 (Int32.ofNat way.length)

theorem scan_putAll_nestedLinks :
    Document.wellFormed nestedLinks = true ∧
    (scan nestedLinks).map Location.path = ["next", "sections.more", "sections"] ∧
    Value.document (putAll wayLength nestedLinks (scan nestedLinks).reverse) =
      .document [("next", .int32 1),
        ("sections", .array [.document [("title", .string "One"), ("more", .int32 3)],
          .array [.int32 7, .int32 3],
          .document [("reference_to", .string "page"), ("values", .string "e"),
            ("title", .string "No link")]])] := by
  have hwf : Document.wellFormed nestedLinks = true := by decide
  obtain ⟨hput, -, -⟩ := (scan_putAll hwf).2.2 wayLength _ (List.reverse_perm _)
  exact ⟨hwf, by decide, hput.trans rfl⟩

end ContentQuery.Reference
