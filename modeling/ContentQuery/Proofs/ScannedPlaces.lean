/-
Where the descriptors of a payload stand.

The scan of a payload gives for each descriptor the steps on the way to it.  In a payload
whose keys are distinct such a way leads to one place only, and to that of the descriptor:

* `Value.induction_parts` — what holds of a value if it holds of its fields and items;
* `mem_scan`, `mem_scanItems` — a location begins with a key or an index;
* `fits_of_mem_scan` — the steps of a location lead to a descriptor, as it is reported;
* `scattered_scan` — and no descriptor stands inside another one.
-/
import ContentQuery.Proofs.FieldInvariants
import ContentQuery.Reference.Scan

namespace ContentQuery

/-! ### The parts of a value -/

/-- Whether a value is an array. -/
def Value.isArray : Value → Bool
  | .array _ => true
  | _ => false

mutual

/-- What holds of a value without parts, and of a document and of an array if it holds of
their parts, holds of every value. -/
theorem Value.induction_parts {P : Value → Prop}
    (document : ∀ d : Document, (∀ e ∈ d, P e.2) → P (.document d))
    (array : ∀ items : List Value, (∀ v ∈ items, P v) → P (.array items))
    (scalar : ∀ v : Value, v.isDocument = false → v.isArray = false → P v) : ∀ v, P v
  | .document d => document d (Value.induction_fields document array scalar d)
  | .array items => array items (Value.induction_items document array scalar items)
  | .null | .undefined | .minKey | .maxKey | .bool _ | .int32 _ | .int64 _ | .double _
  | .decimal128 _ | .string _ | .symbol _ | .dateTime _ | .timestamp _ _ | .objectId _
  | .binary _ _ | .regex _ _ | .code _ | .scopedCode _ _ | .dbPointer _ _ => scalar _ rfl rfl

theorem Value.induction_items {P : Value → Prop}
    (document : ∀ d : Document, (∀ e ∈ d, P e.2) → P (.document d))
    (array : ∀ items : List Value, (∀ v ∈ items, P v) → P (.array items))
    (scalar : ∀ v : Value, v.isDocument = false → v.isArray = false → P v) :
    ∀ items : List Value, ∀ v ∈ items, P v
  | [] => nofun
  | v :: rest => List.forall_mem_cons.mpr
    ⟨Value.induction_parts document array scalar v,
      Value.induction_items document array scalar rest⟩

theorem Value.induction_fields {P : Value → Prop}
    (document : ∀ d : Document, (∀ e ∈ d, P e.2) → P (.document d))
    (array : ∀ items : List Value, (∀ v ∈ items, P v) → P (.array items))
    (scalar : ∀ v : Value, v.isDocument = false → v.isArray = false → P v) :
    ∀ d : List (String × Value), ∀ e ∈ d, P e.2
  | [] => nofun
  | (_, v) :: rest => List.forall_mem_cons.mpr
    ⟨Value.induction_parts document array scalar v,
      Value.induction_fields document array scalar rest⟩

end

theorem Document.wellFormed_iff {d : Document} :
    Document.wellFormed d = true ↔ (Entries.keys d).Nodup ∧ ∀ e ∈ d, e.2.wellFormed = true := by
  induction d with
  | nil => simp [Document.wellFormed, Entries.keys]
  | cons e rest ih =>
    rw [Document.wellFormed, List.forall_mem_cons]
    simp only [Bool.and_eq_true, ih, Entries.keys, List.map_cons, List.nodup_cons]
    simp
    tauto

theorem Value.allWellFormed_iff {items : List Value} :
    Value.allWellFormed items = true ↔ ∀ v ∈ items, v.wellFormed = true := by
  induction items with
  | nil => simp [Value.allWellFormed]
  | cons v rest ih => simp [Value.allWellFormed, ih]

namespace Reference

/-! ### The ways to the descriptors -/

theorem mem_scan {d : List (String × Value)} {l : Location} :
    l ∈ scan d ↔ ∃ e ∈ d, ∃ inner ∈ scanValue e.2, l = inner.under (.key e.1) := by
  induction d with
  | nil => simp [scan]
  | cons e rest ih => simp [scan, ih, eq_comm]

theorem mem_scanItems {i : Nat} {items : List Value} {l : Location} :
    l ∈ scanItems i items ↔
      ∃ j v, items[j]? = some v ∧ ∃ inner ∈ scanValue v, l = inner.under (.index (i + j)) := by
  induction items generalizing i with
  | nil => simp [scanItems]
  | cons v rest ih =>
    rw [scanItems, List.mem_append, ih, List.mem_map]
    constructor
    · rintro (⟨inner, hinner, rfl⟩ | ⟨j, w, hw, inner, hinner, rfl⟩)
      · exact ⟨0, v, rfl, inner, hinner, rfl⟩
      · exact ⟨j + 1, w, hw, inner, hinner, by rw [Nat.add_assoc, Nat.add_comm 1]⟩
    · rintro ⟨j, w, hw, inner, hinner, rfl⟩
      cases j with
      | zero =>
        obtain rfl := Option.some.inj hw
        exact .inl ⟨inner, hinner, rfl⟩
      | succ j =>
        exact .inr ⟨j, w, hw, inner, hinner, by rw [Nat.add_assoc, Nat.add_comm 1]⟩

theorem scanValue_of_scalar {v : Value} (hd : v.isDocument = false) (ha : v.isArray = false) :
    scanValue v = [] := by
  cases v <;> simp_all [scanValue, Value.isDocument, Value.isArray]

/-- A document is reported as a descriptor or looked into. -/
theorem scanValue_document (d : Document) :
    scanValue (.document d) =
      match Descriptor.ofDocument? d with
      | some r => [⟨[], r, .document d⟩]
      | none => scan d := by
  cases hd : Descriptor.ofDocument? d <;> simp only [scanValue, hd]

/-- The part of a value to which some steps lead. -/
def valueAt : List Segment → Value → Option Value
  | [], v => some v
  | .key k :: rest, .document d => (Entries.get? d k).bind (valueAt rest)
  | .index i :: rest, .array items => items[i]?.bind (valueAt rest)
  | _ :: _, _ => none

/-- A location leads to its descriptor in a value. -/
structure Location.Fits (l : Location) (v : Value) : Prop where
  value : valueAt l.segments v = some l.raw
  descriptor : Descriptor.ofValue? l.raw = some l.descriptor

theorem Location.Fits.under_key {l : Location} {d : Document} {e : String × Value}
    (h : l.Fits e.2) (hkeys : (Entries.keys d).Nodup) (he : e ∈ d) :
    (l.under (.key e.1)).Fits (.document d) where
  value := by
    rw [Location.under, valueAt, Entries.get?_eq_some_of_mem hkeys he]
    exact h.value
  descriptor := h.descriptor

theorem Location.Fits.under_index {l : Location} {items : List Value} {i : Nat} {v : Value}
    (h : l.Fits v) (hi : items[i]? = some v) : (l.under (.index i)).Fits (.array items) where
  value := by
    rw [Location.under, valueAt, hi]
    exact h.value
  descriptor := h.descriptor

theorem fits_of_mem_scanValue (v : Value) (hwf : v.wellFormed = true) :
    ∀ l ∈ scanValue v, l.Fits v := by
  induction v using Value.induction_parts with
  | document d ih =>
    obtain ⟨hkeys, hfields⟩ := Document.wellFormed_iff.mp hwf
    intro l hl
    rw [scanValue_document] at hl
    split at hl
    · rename_i r hr
      obtain rfl := List.mem_singleton.mp hl
      exact ⟨rfl, hr⟩
    · obtain ⟨e, he, inner, hinner, rfl⟩ := mem_scan.mp hl
      exact (ih e he (hfields e he) inner hinner).under_key hkeys he
  | array items ih =>
    intro l hl
    obtain ⟨j, v, hv, inner, hinner, rfl⟩ := mem_scanItems.mp hl
    have hmem := List.mem_of_getElem? hv
    rw [Nat.zero_add]
    exact (ih v hmem (Value.allWellFormed_iff.mp hwf v hmem) inner hinner).under_index hv
  | scalar v hd ha =>
    rw [scanValue_of_scalar hd ha]
    exact nofun

/-- The steps of a location lead to a descriptor, as it is reported. -/
theorem fits_of_mem_scan {d : Document} (hwf : Document.wellFormed d = true) :
    ∀ l ∈ scan d, l.Fits (.document d) := by
  obtain ⟨hkeys, hfields⟩ := Document.wellFormed_iff.mp hwf
  intro l hl
  obtain ⟨e, he, inner, hinner, rfl⟩ := mem_scan.mp hl
  exact (fits_of_mem_scanValue e.2 (hfields e he) inner hinner).under_key hkeys he

/-! ### Ways that part -/

/-- None of two ways is the beginning of the other. -/
def Diverge (a b : List Segment) : Prop := ¬ a <+: b ∧ ¬ b <+: a

theorem diverge_cons {s : Segment} {a b : List Segment} :
    Diverge (s :: a) (s :: b) ↔ Diverge a b := by
  simp [Diverge, List.cons_prefix_cons]

theorem diverge_of_ne {s t : Segment} (h : s ≠ t) (a b : List Segment) :
    Diverge (s :: a) (t :: b) := by
  simp [Diverge, List.cons_prefix_cons, h, h.symm]

/-- The ways of a list of locations diverge. -/
def Scattered (ls : List Location) : Prop := ls.Pairwise fun a b => Diverge a.segments b.segments

theorem Scattered.under {ls : List Location} (h : Scattered ls) (s : Segment) :
    Scattered (ls.map (.under s)) :=
  List.pairwise_map.mpr (h.imp diverge_cons.mpr)

/-- Locations below one step and others below other steps. -/
theorem Scattered.under_append {ls others : List Location} {s : Segment} (h : Scattered ls)
    (hothers : Scattered others)
    (hne : ∀ l ∈ others, ∃ t rest, l.segments = t :: rest ∧ s ≠ t) :
    Scattered (ls.map (.under s) ++ others) := by
  refine List.pairwise_append.mpr ⟨h.under s, hothers, fun a ha b hb => ?_⟩
  obtain ⟨inner, -, rfl⟩ := List.mem_map.mp ha
  obtain ⟨t, rest, hsegs, hst⟩ := hne b hb
  rw [hsegs]
  exact diverge_of_ne hst _ _

theorem scattered_scanItems {items : List Value} (h : ∀ v ∈ items, Scattered (scanValue v))
    (i : Nat) : Scattered (scanItems i items) := by
  induction items generalizing i with
  | nil => exact .nil
  | cons v rest ih =>
    obtain ⟨hv, hrest⟩ := List.forall_mem_cons.mp h
    refine hv.under_append (ih hrest (i + 1)) fun l hl => ?_
    obtain ⟨j, w, -, inner, -, rfl⟩ := mem_scanItems.mp hl
    exact ⟨_, _, rfl, fun heq => by injection heq; omega⟩

theorem scattered_fields {d : Document} (hkeys : (Entries.keys d).Nodup)
    (h : ∀ e ∈ d, Scattered (scanValue e.2)) : Scattered (scan d) := by
  induction d with
  | nil => exact .nil
  | cons e rest ih =>
    obtain ⟨hk, hrest⟩ := List.nodup_cons.mp hkeys
    obtain ⟨he, hfields⟩ := List.forall_mem_cons.mp h
    refine he.under_append (ih hrest hfields) fun l hl => ?_
    obtain ⟨e', he', inner, -, rfl⟩ := mem_scan.mp hl
    refine ⟨_, _, rfl, fun heq => hk ?_⟩
    injection heq with heq
    exact heq ▸ Entries.mem_keys_of_mem he'

theorem scattered_scanValue (v : Value) (hwf : v.wellFormed = true) :
    Scattered (scanValue v) := by
  induction v using Value.induction_parts with
  | document d ih =>
    obtain ⟨hkeys, hfields⟩ := Document.wellFormed_iff.mp hwf
    rw [scanValue_document]
    split
    · exact List.pairwise_singleton _ _
    · exact scattered_fields hkeys fun e he => ih e he (hfields e he)
  | array items ih =>
    exact scattered_scanItems (fun v hv => ih v hv (Value.allWellFormed_iff.mp hwf v hv)) 0
  | scalar v hd ha =>
    rw [scanValue_of_scalar hd ha]
    exact .nil

/-- No descriptor of a payload stands inside another one. -/
theorem scattered_scan {d : Document} (hwf : Document.wellFormed d = true) :
    Scattered (scan d) := by
  obtain ⟨hkeys, hfields⟩ := Document.wellFormed_iff.mp hwf
  exact scattered_fields hkeys fun e he => scattered_scanValue e.2 (hfields e he)

end Reference

end ContentQuery
