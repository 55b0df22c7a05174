/-
The paths under which descriptors are reported.

The scan of a payload walks through all of it and gives each descriptor a path, made of the
keys on its way.  A path by itself can be followed through the payload, too, as a filter
does.  Both come to the same descriptors, in the same order, where the keys of the payload
can be told from a path:

* `isAddressable` — which values are meant;
* `rawAt_scan`, `rawAt_scanItems` — what the scan of a document and of an array reports
  under some keys;
* `agrees_of_isAddressable` — it is what those keys lead to;
* `segments_path` — the path of a location is cut into its keys;
* `scan_at_path_eq_resolve` — so the descriptors reported under a path are those that it
  reaches.
-/
import ContentQuery.Filter.Accepts
import ContentQuery.Proofs.DepthFirst
import ContentQuery.Proofs.PathRegions
import ContentQuery.Proofs.PathSegments
import ContentQuery.Proofs.ScannedPlaces

namespace ContentQuery

namespace Reference

open Projection (spread)

/-! ### Payloads whose places have paths -/

/-- Whether a key stands for itself in a dotted path. -/
def isPlainKey (k : String) : Bool := !k.isEmpty && !QueryState.isDotted k

/-- Whether a value is a descriptor. -/
def isDescriptor (v : Value) : Bool := (Descriptor.ofValue? v).isSome

/-- Whether a list of uids, where there is one, holds strings only. -/
def hasTextUids (d : Document) : Bool :=
  match Entries.get? d Field.values with
  | some (.array items) => items.all fun v => v.string?.isSome
  | _ => true

mutual

/-- Whether the places in a value have paths: keys stand for themselves, no array is an
element of another, and the uids of a descriptor, which is not looked into, are
strings. -/
def isAddressable : Value → Bool
  | .document d => if isDescriptor (.document d) then hasTextUids d else fieldsAddressable d
  | .array items => itemsAddressable items
  | _ => true

def itemsAddressable : List Value → Bool
  | [] => true
  | v :: rest => !v.isArray && isAddressable v && itemsAddressable rest

def fieldsAddressable : List (String × Value) → Bool
  | [] => true
  | (k, v) :: rest => isPlainKey k && isAddressable v && fieldsAddressable rest

end

mutual

/-- The largest number of keys on a way into a value that ends at a descriptor or outside
of all. -/
def keyDepth : Value → Nat
  | .document d => if isDescriptor (.document d) then 0 else fieldsKeyDepth d
  | .array items => itemsKeyDepth items
  | _ => 0

def itemsKeyDepth : List Value → Nat
  | [] => 0
  | v :: rest => max (keyDepth v) (itemsKeyDepth rest)

def fieldsKeyDepth : List (String × Value) → Nat
  | [] => 0
  | (_, v) :: rest => max (keyDepth v + 1) (fieldsKeyDepth rest)

end

theorem itemsAddressable_iff {items : List Value} :
    itemsAddressable items = true ↔ ∀ v ∈ items, v.isArray = false ∧ isAddressable v = true := by
  induction items with
  | nil => simp [itemsAddressable]
  | cons v rest ih => simp [itemsAddressable, ih]

theorem fieldsAddressable_iff {d : Document} :
    fieldsAddressable d = true ↔ ∀ e ∈ d, isPlainKey e.1 = true ∧ isAddressable e.2 = true := by
  induction d with
  | nil => simp [fieldsAddressable]
  | cons e rest ih => simp [fieldsAddressable, ih]

/-! ### What is reported under some keys -/

/-- The keys on the way to a location. -/
def Location.keys (l : Location) : List String := l.segments.filterMap Segment.key?

/-- The descriptors that are reported with some keys, as they stand. -/
def rawAt (ks : List String) (ls : List Location) : List Value :=
  (ls.filter fun l => l.keys = ks).map Location.raw

theorem rawAt_append (ks : List String) (a b : List Location) :
    rawAt ks (a ++ b) = rawAt ks a ++ rawAt ks b := by
  simp [rawAt]

theorem rawAt_under_index (ks : List String) (i : Nat) (ls : List Location) :
    rawAt ks (ls.map (.under (.index i))) = rawAt ks ls := by
  rw [rawAt, List.filter_map, List.map_map]
  rfl

theorem rawAt_under_key (ks : List String) (k : String) (ls : List Location) :
    rawAt ks (ls.map (.under (.key k))) =
      if ks.head? = some k then rawAt ks.tail ls else [] := by
  have hkeys : ((fun l : Location => decide (l.keys = ks)) ∘ Location.under (.key k)) =
      fun l => decide (k :: l.keys = ks) := rfl
  rw [rawAt, List.filter_map, List.map_map, hkeys]
  cases ks with
  | nil => simp
  | cons s rest =>
    by_cases hs : s = k
    · subst hs
      simp only [List.cons.injEq, true_and, List.head?_cons, if_true, List.tail_cons]
      rfl
    · simp [hs, Ne.symm hs]

theorem rawAt_scanItems (ks : List String) (i : Nat) (items : List Value) :
    rawAt ks (scanItems i items) = items.flatMap fun v => rawAt ks (scanValue v) := by
  induction items generalizing i with
  | nil => rfl
  | cons v rest ih =>
    rw [scanItems, rawAt_append, rawAt_under_index, ih, List.flatMap_cons]

theorem rawAt_nil_scan (d : List (String × Value)) : rawAt [] (scan d) = [] := by
  induction d with
  | nil => rfl
  | cons e rest ih =>
    rw [scan, rawAt_append, rawAt_under_key, ih]
    rfl

/-- Of the fields of a document only that of the first key counts. -/
theorem rawAt_scan {d : List (String × Value)} (h : (Entries.keys d).Nodup) (s : String)
    (rest : List String) :
    rawAt (s :: rest) (scan d) =
      (Entries.get? d s).toList.flatMap fun v => rawAt rest (scanValue v) := by
  induction d with
  | nil => rfl
  | cons e others ih =>
    obtain ⟨k, v⟩ := e
    obtain ⟨hk, hothers⟩ := List.nodup_cons.mp h
    rw [scan, rawAt_append, rawAt_under_key, ih hothers, List.head?_cons, List.tail_cons]
    by_cases hs : k = s
    · subst hs
      simp [Entries.get?, Entries.get?_eq_none_iff.mpr hk]
    · simp [Entries.get?, hs, Ne.symm hs]

/-! ### What some keys lead to -/

/-- The descriptors among some values and the elements of arrays among them. -/
def descriptorsIn (vs : List Value) : List Value := (leaves vs).filter isDescriptor

theorem descriptorsIn_flatMap {α : Type} (xs : List α) (f : α → List Value) :
    descriptorsIn (xs.flatMap f) = xs.flatMap fun x => descriptorsIn (f x) := by
  simp only [descriptorsIn, leaves, List.flatMap_assoc, List.filter_flatMap]

theorem spread_cons_of_array {items : List Value} (h : ∀ v ∈ items, v.isArray = false) (s : String)
    (rest : List String) :
    spread (s :: rest) (.array items) = items.flatMap (spread (s :: rest)) := by
  have hparts : Projection.parts (.array items) = items.flatMap Projection.parts := by
    rw [Projection.parts, List.filterMap_eq_flatMap_toList]
    refine List.flatMap_congr fun v hv => ?_
    have := h v hv
    cases v <;> first | rfl | simp [Value.isArray] at this
  rw [spread, hparts, List.flatMap_assoc]
  rfl

theorem descriptorsIn_singleton {v : Value} (h : v.isArray = false) :
    descriptorsIn [v] = [v].filter isDescriptor := by
  have helements : v.elements = [v] := by cases v <;> first | rfl | cases h
  rw [descriptorsIn, leaves, List.flatMap_singleton, helements]

/-- What has no parts and is no descriptor leads to none. -/
theorem descriptorsIn_spread_of_scalar {v : Value} (hd : v.isDocument = false)
    (ha : v.isArray = false) (ks : List String) : descriptorsIn (spread ks v) = [] := by
  cases ks with
  | nil =>
    rw [spread, descriptorsIn_singleton ha]
    cases v <;> first | rfl | cases hd
  | cons s rest =>
    have hparts : Projection.parts v = [] := by
      cases v <;> simp_all [Projection.parts, Value.isDocument, Value.isArray]
    rw [spread, hparts]
    rfl

theorem descriptorsIn_spread_cons {d : Document} (s : String) (rest : List String) :
    descriptorsIn (spread (s :: rest) (.document d)) =
      (Entries.get? d s).toList.flatMap fun v => descriptorsIn (spread rest v) := by
  rw [Projection.spread_cons_document, descriptorsIn_flatMap]

theorem descriptorsIn_spread_array {items : List Value} (h : ∀ v ∈ items, v.isArray = false)
    (ks : List String) :
    descriptorsIn (spread ks (.array items)) =
      items.flatMap fun v => descriptorsIn (spread ks v) := by
  cases ks with
  | nil =>
    have heach : ∀ v ∈ items, descriptorsIn (spread [] v) = [v].filter isDescriptor := by
      intro v hv
      rw [spread, descriptorsIn_singleton (h v hv)]
    rw [List.flatMap_congr heach, ← List.filter_flatMap, List.flatMap_singleton', spread,
      descriptorsIn, leaves, List.flatMap_singleton, Value.elements]
  | cons s rest => rw [spread_cons_of_array h, descriptorsIn_flatMap]

/-! ### Inside a descriptor -/

/-- What may stand in a descriptor: a string, or a list of strings. -/
inductive IsText : Value → Prop
  | one (text : String) : IsText (.string text)
  | several (texts : List String) : IsText (.array (texts.map .string))

theorem descriptorsIn_spread_of_isText {v : Value} (h : IsText v) (ks : List String) :
    descriptorsIn (spread ks v) = [] := by
  cases h with
  | one text => exact descriptorsIn_spread_of_scalar rfl rfl ks
  | several texts =>
    have hscalar : ∀ v ∈ texts.map Value.string, v.isDocument = false ∧ v.isArray = false := by
      intro v hv
      obtain ⟨text, -, rfl⟩ := List.mem_map.mp hv
      exact ⟨rfl, rfl⟩
    rw [descriptorsIn_spread_array fun v hv => (hscalar v hv).2, List.flatMap_eq_nil_iff]
    exact fun v hv => descriptorsIn_spread_of_scalar (hscalar v hv).1 (hscalar v hv).2 ks

theorem isText_of_strings {items : List Value}
    (h : (items.all fun v => v.string?.isSome) = true) : IsText (.array items) := by
  have hitems : items = (items.filterMap Value.string?).map .string := by
    induction items with
    | nil => rfl
    | cons v rest ih =>
      obtain ⟨hv, hrest⟩ := Bool.and_eq_true_iff.mp h
      obtain ⟨text, htext⟩ := Option.isSome_iff_exists.mp hv
      have hstring : v = .string text := by
        cases v <;> cases htext
        rfl
      rw [List.filterMap_cons_some htext, List.map_cons, ← ih hrest, hstring]
  rw [hitems]
  exact .several _

/-- The fields of a descriptor with textual uids are text. -/
theorem isText_of_get? {d : Document} (hd : isDescriptor (.document d) = true)
    (htext : hasTextUids d = true) {k : String} {v : Value} (h : Entries.get? d k = some v) :
    IsText v := by
  obtain ⟨r, hr⟩ := Option.isSome_iff_exists.mp hd
  rw [Descriptor.ofValue?, Descriptor.ofDocument?, Option.ite_none_right_eq_some] at hr
  obtain ⟨hfields, hr⟩ := hr
  obtain ⟨referenceTo, hreferenceTo, hr⟩ := Option.bind_eq_some_iff.mp hr
  obtain ⟨locale, hlocale, hr⟩ := Option.bind_eq_some_iff.mp hr
  obtain ⟨values, hvalues, -⟩ := Option.bind_eq_some_iff.mp hr
  have hk := List.all_eq_true.mp hfields _ (Entries.mem_of_get?_eq_some h)
  simp only [Descriptor.isField, Bool.or_eq_true, beq_iff_eq] at hk
  rcases hk with (rfl | rfl) | rfl
  · rw [Document.stringAt?, h] at hreferenceTo
    cases v <;> first | exact .one _ | cases hreferenceTo
  · rw [Descriptor.values?, h] at hvalues
    rw [hasTextUids, h] at htext
    cases v with
    | string text => exact .one text
    | array items => exact isText_of_strings htext
    | _ => cases hvalues
  · rw [Descriptor.locale?, h] at hlocale
    cases v <;> first | exact .one _ | cases hlocale

/-- Nothing inside a descriptor is one. -/
theorem descriptorsIn_spread_of_descriptor {d : Document} (hd : isDescriptor (.document d) = true)
    (htext : hasTextUids d = true) (s : String) (rest : List String) :
    descriptorsIn (spread (s :: rest) (.document d)) = [] := by
  rw [descriptorsIn_spread_cons, List.flatMap_eq_nil_iff]
  intro v hv
  exact descriptorsIn_spread_of_isText (isText_of_get? hd htext (Option.mem_toList.mp hv)) rest

/-! ### Both sides of a path -/

/-- The descriptors of a value under some keys are those to which the keys lead. -/
def Agrees (v : Value) : Prop :=
  ∀ ks, rawAt ks (scanValue v) = descriptorsIn (spread ks v)

/-- What holds of the fields of a document holds below its keys. -/
theorem rawAt_scan_of_agrees {d : Document} (hkeys : (Entries.keys d).Nodup)
    (h : ∀ e ∈ d, Agrees e.2) (s : String) (rest : List String) :
    rawAt (s :: rest) (scan d) = descriptorsIn (spread (s :: rest) (.document d)) := by
  rw [rawAt_scan hkeys, descriptorsIn_spread_cons]
  refine List.flatMap_congr fun v hv => ?_
  exact h _ (Entries.mem_of_get?_eq_some (Option.mem_toList.mp hv)) rest

/-- A descriptor is reported itself, and nothing inside it. -/
theorem agrees_of_isDescriptor {d : Document} (hd : isDescriptor (.document d) = true)
    (htext : hasTextUids d = true) : Agrees (.document d) := by
  intro ks
  obtain ⟨r, hr⟩ := Option.isSome_iff_exists.mp hd
  have hscan : scanValue (.document d) = [⟨[], r, .document d⟩] := by
    rw [scanValue_document, show Descriptor.ofDocument? d = some r from hr]
  rw [hscan]
  cases ks with
  | nil =>
    rw [spread, descriptorsIn_singleton rfl, List.filter_singleton, hd]
    rfl
  | cons s rest =>
    rw [descriptorsIn_spread_of_descriptor hd htext]
    rfl

/-- Any other document is looked into. -/
theorem agrees_of_not_isDescriptor {d : Document} (hd : isDescriptor (.document d) = false)
    (hkeys : (Entries.keys d).Nodup) (h : ∀ e ∈ d, Agrees e.2) : Agrees (.document d) := by
  intro ks
  have hnone : Descriptor.ofDocument? d = none :=
    Option.not_isSome_iff_eq_none.mp (Bool.eq_false_iff.mp hd)
  rw [scanValue_document, hnone]
  cases ks with
  | nil =>
    rw [rawAt_nil_scan, spread, descriptorsIn_singleton rfl, List.filter_singleton, hd]
    rfl
  | cons s rest => exact rawAt_scan_of_agrees hkeys h s rest

theorem agrees_of_isAddressable (v : Value) (hwf : v.wellFormed = true)
    (ha : isAddressable v = true) : Agrees v := by
  induction v using Value.induction_parts with
  | document d ih =>
    obtain ⟨hkeys, hfields⟩ := Document.wellFormed_iff.mp hwf
    rw [isAddressable] at ha
    cases hd : isDescriptor (.document d) with
    | true =>
      rw [if_pos hd] at ha
      exact agrees_of_isDescriptor hd ha
    | false =>
      rw [if_neg (Bool.eq_false_iff.mp hd)] at ha
      exact agrees_of_not_isDescriptor hd hkeys fun e he =>
        ih e he (hfields e he) (fieldsAddressable_iff.mp ha e he).2
  | array items ih =>
    have hitems := itemsAddressable_iff.mp ha
    intro ks
    rw [scanValue, rawAt_scanItems, descriptorsIn_spread_array fun v hv => (hitems v hv).1]
    refine List.flatMap_congr fun v hv => ?_
    exact ih v hv (Value.allWellFormed_iff.mp hwf v hv) (hitems v hv).2 ks
  | scalar v hd harray =>
    intro ks
    rw [scanValue_of_scalar hd harray, descriptorsIn_spread_of_scalar hd harray]
    rfl

/-! ### The path of a location -/

theorem keyDepth_le_items {items : List Value} {v : Value} (h : v ∈ items) :
    keyDepth v ≤ itemsKeyDepth items := by
  induction items with
  | nil => cases h
  | cons w rest ih =>
    rw [itemsKeyDepth]
    rcases List.mem_cons.mp h with rfl | h
    · exact Nat.le_max_left _ _
    · exact Nat.le_trans (ih h) (Nat.le_max_right _ _)

theorem keyDepth_lt_fields {d : Document} {e : String × Value} (h : e ∈ d) :
    keyDepth e.2 < fieldsKeyDepth d := by
  induction d with
  | nil => cases h
  | cons w rest ih =>
    rw [fieldsKeyDepth]
    rcases List.mem_cons.mp h with rfl | h
    · exact Nat.lt_of_succ_le (Nat.le_max_left _ _)
    · exact Nat.lt_of_lt_of_le (ih h) (Nat.le_max_right _ _)

/-- A location whose keys stand for themselves and are no more than `n`. -/
structure Location.Within (l : Location) (n : Nat) : Prop where
  plain : ∀ k ∈ l.keys, isPlainKey k = true
  length_le : l.keys.length ≤ n

/-- A location in a document has a key at least. -/
theorem within_of_mem_scan {d : Document} (ha : fieldsAddressable d = true)
    (h : ∀ e ∈ d, isAddressable e.2 = true → ∀ l ∈ scanValue e.2, l.Within (keyDepth e.2)) :
    ∀ l ∈ scan d, l.keys ≠ [] ∧ l.Within (fieldsKeyDepth d) := by
  intro l hl
  obtain ⟨e, he, inner, hinner, rfl⟩ := mem_scan.mp hl
  obtain ⟨hk, hv⟩ := fieldsAddressable_iff.mp ha e he
  have hwithin := h e he hv inner hinner
  have hkeys : (inner.under (.key e.1)).keys = e.1 :: inner.keys := rfl
  refine ⟨by simp [hkeys], ⟨?_, ?_⟩⟩
  · rw [hkeys]
    exact List.forall_mem_cons.mpr ⟨hk, hwithin.plain⟩
  · rw [hkeys, List.length_cons]
    have := keyDepth_lt_fields he
    have := hwithin.length_le
    omega

theorem within_of_mem_scanValue (v : Value) (ha : isAddressable v = true) :
    ∀ l ∈ scanValue v, l.Within (keyDepth v) := by
  induction v using Value.induction_parts with
  | document d ih =>
    intro l hl
    rw [isAddressable] at ha
    rw [scanValue_document] at hl
    rw [keyDepth]
    split at hl
    · obtain rfl := List.mem_singleton.mp hl
      exact ⟨nofun, Nat.zero_le _⟩
    · rename_i hnone
      have hd : ¬ isDescriptor (.document d) = true := Option.not_isSome_iff_eq_none.mpr hnone
      rw [if_neg hd] at ha ⊢
      exact (within_of_mem_scan ha ih l hl).2
  | array items ih =>
    intro l hl
    obtain ⟨j, v, hv, inner, hinner, rfl⟩ := mem_scanItems.mp hl
    have hmem := List.mem_of_getElem? hv
    have hwithin := ih v hmem (itemsAddressable_iff.mp ha v hmem).2 inner hinner
    exact ⟨hwithin.plain, Nat.le_trans hwithin.length_le (keyDepth_le_items hmem)⟩
  | scalar v hd harray =>
    rw [scanValue_of_scalar hd harray]
    exact nofun

/-- Keys that stand for themselves are segments. -/
theorem flatMap_segments_of_plain {ks : List String} (h : ∀ k ∈ ks, isPlainKey k = true) :
    ks.flatMap Path.segments = ks := by
  have hsegments : ∀ k ∈ ks, Path.segments k = [k] := by
    intro k hk
    have hplain := h k hk
    simp only [isPlainKey, Bool.and_eq_true, Bool.not_eq_true'] at hplain
    exact Path.segments_of_undotted hplain.2
  rw [List.flatMap_congr hsegments, List.flatMap_singleton']

/-- The path of a location with plain keys is cut into its keys. -/
theorem segments_path {l : Location} (hne : l.keys ≠ []) (h : ∀ k ∈ l.keys, isPlainKey k = true) :
    Path.segments l.path = l.keys := by
  obtain ⟨k, rest, hkeys⟩ := List.exists_cons_of_ne_nil hne
  have hpath : l.path = rest.foldl Path.join k := by
    rw [Location.path, pathFrom, show l.segments.filterMap Segment.key? = k :: rest from hkeys,
      List.foldl_cons, Path.join, if_pos (by decide)]
  have hk := h k (hkeys ▸ List.mem_cons_self)
  simp only [isPlainKey, Bool.and_eq_true, Bool.not_eq_true'] at hk
  rw [hpath, Path.segments_foldl_join hk.1, ← List.flatMap_cons, ← hkeys, flatMap_segments_of_plain h]

/-! ### All paths -/

/-- Where the keys of a payload can be told from a path, the descriptors that the scan
reports under a path are those that the path reaches, in order. -/
theorem scan_at_path_eq_resolve (payload : Document) (path : String)
    (hwf : Document.wellFormed payload = true) (haddr : fieldsAddressable payload = true)
    (hdepth : fieldsKeyDepth payload ≤ Path.maxDepth)
    (hpath : ∀ s ∈ Path.segments path, Text.unsigned? s = none) :
    ((scan payload).filter fun l => l.path = path).map Location.raw =
      (leaves (Path.resolve payload path)).filter isDescriptor := by
  have hwithin := within_of_mem_scan haddr fun e _ => within_of_mem_scanValue e.2
  have hkeyed : ((scan payload).filter fun l => l.path = path).map Location.raw =
      rawAt (Path.segments path) (scan payload) := by
    refine congrArg _ (List.filter_congr fun l hl => ?_)
    obtain ⟨hne, hl⟩ := hwithin l hl
    rw [← segments_path hne hl.plain, decide_eq_decide]
    exact Path.segments_injective.eq_iff.symm
  obtain ⟨s, rest, hsegs⟩ := List.exists_cons_of_ne_nil (Projection.segments_ne_nil path)
  rw [hkeyed, Path.resolve]
  split
  · rename_i hcut
    -- the empty path has an empty segment, and the others are too long
    have hnone : ∀ l ∈ scan payload, ¬ l.keys = Path.segments path := by
      intro l hl heq
      obtain ⟨-, hl⟩ := hwithin l hl
      rcases Bool.or_eq_true_iff.mp hcut with hempty | hlong
      · obtain rfl := String.isEmpty_iff.mp hempty
        have := hl.plain "" (heq ▸ by decide)
        cases this
      · have := hl.length_le
        have := of_decide_eq_true hlong
        rw [heq] at *
        omega
    rw [rawAt, List.filter_eq_nil_iff.mpr (by simpa using hnone)]
    rfl
  · obtain ⟨hkeys, hfields⟩ := Document.wellFormed_iff.mp hwf
    rw [Projection.reach_eq_spread hpath, hsegs]
    exact rawAt_scan_of_agrees hkeys (fun e he => agrees_of_isAddressable e.2 (hfields e he)
      (fieldsAddressable_iff.mp haddr e he).2) s rest

/-- A page with sections that lead on, one to a single page and one to two, and with a link
outside of them. -/
def linkedSections : Document :=
  [("title", .string "News"), ("next", pageLink "z"),
    ("sections", .array [.document [("more", pageLink "a")], .int32 7,
      .document [("more", .array [pageLink "b", .null, pageLink "c"])]])]

theorem scan_at_path_linkedSections :
    (((scan linkedSections).filter fun l => l.path = "sections.more").map Location.raw =
      (leaves (Path.resolve linkedSections "sections.more")).filter isDescriptor) ∧
    (scan linkedSections).map Location.path =
      ["next", "sections.more", "sections.more", "sections.more"] :=
  ⟨scan_at_path_eq_resolve linkedSections "sections.more" (by decide) (by decide) (by decide)
    (by decide), by decide⟩

end Reference

end ContentQuery
