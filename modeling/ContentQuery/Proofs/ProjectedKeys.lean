/-
What any projection does to the keys of documents.

A key is made of three strings of the wrapper.  Whether a projection keeps a string
depends on its field alone, and on nothing else that the document holds:

* `stringAt?_apply` — a field that holds a string is kept as it is or not at all;
* `keyOf?_apply` — so a projection keeps the keys of all documents, or of none;
* `get?_apply_congr` — what becomes of a field, whatever it holds, is no matter of the
  other fields;
* `projectAll_eq` — a projection can be applied to all documents, or to none.
-/
import ContentQuery.Proofs.Lookup
import ContentQuery.Proofs.Slots

namespace ContentQuery.Projection

/-- Whether one of some paths is a field of the document itself. -/
def namesField (paths : List String) (field : String) : Bool :=
  paths.any fun path => Path.segments path == [field]

/-- Whether a projection keeps the strings of a field. -/
def keepsField (p : Document) (field : String) : Bool :=
  if (included p).isEmpty then !namesField (excluded p) field else namesField (included p) field

/-- Whether a projection keeps the keys of documents. -/
def keepsKeys (p : Document) : Bool :=
  keepsField p Wrapper.contentType && keepsField p Wrapper.locale && keepsField p Wrapper.uid

variable {d dst : Document} {field text : String}

/-! ### Exclusion -/

theorem stringAt?_drop (segs : List String) (d : Document) (field : String) :
    Document.stringAt? (drop segs d) field =
      if segs = [field] then none else Document.stringAt? d field := by
  unfold Document.stringAt?
  by_cases hhead : segs.head? = some field
  · obtain ⟨rest, rfl⟩ := List.head?_eq_some_iff.mp hhead
    rw [get?_drop_cons]
    match rest with
    | [] =>
      rw [if_pos rfl]
      cases Entries.get? d field <;> rfl
    | s :: rest =>
      -- what stands inside of a value makes no string of it
      rw [if_neg (by simp)]
      cases Entries.get? d field with
      | none => rfl
      | some v => cases v <;> rfl
  · rw [get?_drop hhead, if_neg]
    rintro rfl
    exact hhead rfl

theorem stringAt?_dropAll (paths : List String) (d : Document) (field : String) :
    Document.stringAt? (dropAll d paths) field =
      if namesField paths field then none else Document.stringAt? d field := by
  induction paths generalizing d with
  | nil => rfl
  | cons path rest ih =>
    have hstep : dropAll d (path :: rest) = dropAll (drop (Path.segments path) d) rest := rfl
    rw [hstep, ih, stringAt?_drop, namesField, namesField, List.any_cons]
    by_cases hpath : Path.segments path = [field]
    · simp [hpath]
    · simp [hpath]

/-! ### Inclusion -/

/-- A string is copied by the path of its field alone. -/
theorem stringAt?_copy (h : Document.stringAt? d field = some text) (segs : List String)
    (dst : Document) :
    Document.stringAt? (copy segs d dst) field =
      if segs = [field] then some text else Document.stringAt? dst field := by
  have hget : Entries.get? d field = some (.string text) := stringAt?_eq_some_iff.mp h
  unfold Document.stringAt?
  by_cases hhead : segs.head? = some field
  · obtain ⟨rest, rfl⟩ := List.head?_eq_some_iff.mp hhead
    rw [get?_copy_cons, hget]
    match rest with
    | [] =>
      rw [if_pos rfl]
      rfl
    | s :: rest =>
      -- there is nothing inside of a string
      rw [if_neg (by simp)]
      rfl
  · rw [get?_copy_of_ne hhead, if_neg]
    rintro rfl
    exact hhead rfl

/-- What is no string does not become one. -/
theorem stringAt?_copy_eq_none (h : Document.stringAt? d field = none) (segs : List String)
    (hdst : Document.stringAt? dst field = none) :
    Document.stringAt? (copy segs d dst) field = none := by
  by_cases hhead : segs.head? = some field
  · obtain ⟨rest, rfl⟩ := List.head?_eq_some_iff.mp hhead
    rw [Document.stringAt?, get?_copy_cons]
    cases hv : Entries.get? d field with
    | none => exact hdst
    | some v =>
      cases rest with
      | nil =>
        rw [Document.stringAt?, hv] at h
        exact h
      | cons s rest =>
        cases v with
        | document sub => rfl
        | array items => rfl
        | _ => exact hdst
  · rw [Document.stringAt?, get?_copy_of_ne hhead]
    exact hdst

theorem stringAt?_copyAll (paths : List String) (d : Document) (field : String) :
    Document.stringAt? (copyAll d paths) field =
      if namesField paths field then Document.stringAt? d field else none := by
  have hempty : Document.stringAt? [] field = none := rfl
  unfold copyAll
  cases h : Document.stringAt? d field with
  | none =>
    rw [ite_self]
    -- on the way there is never a string
    suffices hacc : ∀ acc, Document.stringAt? acc field = none → Document.stringAt?
        (paths.foldl (fun dst path => copy (Path.segments path) d dst) acc) field = none from
      hacc [] hempty
    induction paths with
    | nil => exact fun _ hacc => hacc
    | cons path rest ih =>
      intro acc hacc
      exact ih _ (stringAt?_copy_eq_none h _ hacc)
  | some text =>
    suffices hacc : ∀ acc, Document.stringAt?
        (paths.foldl (fun dst path => copy (Path.segments path) d dst) acc) field =
          if namesField paths field then some text else Document.stringAt? acc field by
      rw [hacc, hempty]
    induction paths with
    | nil => exact fun _ => rfl
    | cons path rest ih =>
      intro acc
      rw [List.foldl_cons, ih, stringAt?_copy h, namesField, namesField, List.any_cons]
      by_cases hpath : Path.segments path = [field]
      · simp [hpath]
      · simp [hpath]

/-! ### Any projection -/

/-- Keeping the id or not changes no other field. -/
theorem get?_apply {p out : Document} (h : apply p d = .ok out) {k : String} (hk : k ≠ idKey) :
    Entries.get? out k = if (included p).isEmpty then Entries.get? (dropAll d (excluded p)) k
      else Entries.get? (copyAll d (included p)) k := by
  have herase (e : Document) : Entries.get? (Entries.erase e idKey) k = Entries.get? e k :=
    Entries.get?_erase_of_ne e hk.symm
  have hcopyId (e : Document) : Entries.get? (copyId d e) k = Entries.get? e k := by
    rw [copyId]
    split
    · exact Entries.get?_insert_of_ne e hk.symm _
    · rfl
  unfold apply at h
  dsimp only at h
  split at h
  · cases h
  · split at h
    · rename_i hplus
      obtain rfl := Except.ok.inj h
      rw [if_pos hplus, apply_ite (fun e => Entries.get? e k), herase, ite_self]
    · rename_i hplus
      obtain rfl := Except.ok.inj h
      rw [if_neg hplus, apply_ite (fun e => Entries.get? e k), herase, hcopyId, ite_self]

theorem stringAt?_apply {p out : Document} (h : apply p d = .ok out) {field : String}
    (hid : field ≠ idKey) : Document.stringAt? out field =
      if keepsField p field then Document.stringAt? d field else none := by
  have hget := get?_apply h hid
  rw [keepsField]
  by_cases hplus : (included p).isEmpty = true
  · -- the excluded paths alone
    rw [if_pos hplus] at hget
    rw [if_pos hplus, Document.stringAt?, hget]
    refine (stringAt?_dropAll (excluded p) d field).trans ?_
    cases namesField (excluded p) field <;> rfl
  · rw [if_neg hplus] at hget
    rw [if_neg hplus, Document.stringAt?, hget]
    exact stringAt?_copyAll (included p) d field

/-- A projection keeps the keys of all documents, or of none. -/
theorem keyOf?_apply {p out : Document} (h : apply p d = .ok out) :
    keyOf? out = if keepsKeys p then keyOf? d else none := by
  have hct : Document.stringAt? out Wrapper.contentType = _ := stringAt?_apply h (by decide)
  have hloc : Document.stringAt? out Wrapper.locale = _ := stringAt?_apply h (by decide)
  have huid : Document.stringAt? out Wrapper.uid = _ := stringAt?_apply h (by decide)
  simp only [keyOf?, hct, hloc, huid, keepsKeys]
  by_cases h₁ : keepsField p Wrapper.contentType = true
  · by_cases h₂ : keepsField p Wrapper.locale = true
    · by_cases h₃ : keepsField p Wrapper.uid = true
      · simp [h₁, h₂, h₃]
      · simp [h₃]
    · simp [h₂]
  · simp [h₁]

/-! ### One field at a time -/

section Congruence

variable {d d' dst dst' : Document} {k : String}

theorem get?_drop_congr (h : Entries.get? d k = Entries.get? d' k) (segs : List String) :
    Entries.get? (drop segs d) k = Entries.get? (drop segs d') k := by
  by_cases hhead : segs.head? = some k
  · obtain ⟨rest, rfl⟩ := List.head?_eq_some_iff.mp hhead
    rw [get?_drop_cons, get?_drop_cons, h]
  · rw [get?_drop hhead, get?_drop hhead, h]

theorem get?_copy_congr (h : Entries.get? d k = Entries.get? d' k)
    (hdst : Entries.get? dst k = Entries.get? dst' k) (segs : List String) :
    Entries.get? (copy segs d dst) k = Entries.get? (copy segs d' dst') k := by
  by_cases hhead : segs.head? = some k
  · obtain ⟨rest, rfl⟩ := List.head?_eq_some_iff.mp hhead
    rw [get?_copy_cons, get?_copy_cons, h, hdst]
  · rw [get?_copy_of_ne hhead, get?_copy_of_ne hhead, hdst]

/-- What a projection makes of a field depends on that field alone. -/
theorem get?_apply_congr {p out out' : Document} (hk : k ≠ idKey)
    (h : Entries.get? d k = Entries.get? d' k) (hout : apply p d = .ok out)
    (hout' : apply p d' = .ok out') : Entries.get? out k = Entries.get? out' k := by
  have hdropAll : ∀ (paths : List String) (d d' : Document), Entries.get? d k = Entries.get? d' k →
      Entries.get? (dropAll d paths) k = Entries.get? (dropAll d' paths) k := by
    intro paths
    induction paths with
    | nil => exact fun _ _ h => h
    | cons path rest ih => exact fun d d' h => ih _ _ (get?_drop_congr h _)
  have hcopyAll : ∀ (paths : List String) (dst dst' : Document),
      Entries.get? dst k = Entries.get? dst' k →
      Entries.get? (paths.foldl (fun dst path => copy (Path.segments path) d dst) dst) k =
        Entries.get? (paths.foldl (fun dst path => copy (Path.segments path) d' dst) dst') k := by
    intro paths
    induction paths with
    | nil => exact fun _ _ hdst => hdst
    | cons path rest ih => exact fun dst dst' hdst => ih _ _ (get?_copy_congr h hdst _)
  rw [get?_apply hout hk, get?_apply hout' hk, hdropAll (excluded p) d d' h, copyAll, copyAll,
    hcopyAll (included p) [] [] rfl]

end Congruence

/-! ### Projections that fail -/

/-- A projection includes some fields and excludes others. -/
def isMixed (p : Document) : Bool := !(included p).isEmpty && !(excluded p).isEmpty

theorem apply_of_mixed {p : Document} (h : isMixed p = true) (d : Document) :
    apply p d = .error .mixedProjection := by
  unfold apply
  rw [isMixed] at h
  rw [if_pos h]

theorem exists_apply {p : Document} (h : isMixed p = false) (d : Document) :
    ∃ out, apply p d = .ok out := by
  unfold apply
  dsimp only
  rw [if_neg (by rw [← isMixed, h]; exact Bool.false_ne_true)]
  split
  · exact ⟨_, rfl⟩
  · exact ⟨_, rfl⟩

end ContentQuery.Projection

namespace ContentQuery

/-- What a projection makes of a document; a document to which it cannot be
applied is left as it is. -/
def projectedOrSelf (projection d : Document) : Document :=
  (Projection.apply projection d).toOption.getD d

/-- All documents can be projected, or none. -/
theorem MemoryStore.projectAll_eq (p : Document) (docs : List Document) :
    projectAll (some p) docs =
      if Projection.isMixed p = true ∧ docs ≠ [] then .error .mixedProjection
      else .ok (docs.map (projectedOrSelf p)) := by
  show docs.mapM (Projection.apply p) = _
  cases hmixed : Projection.isMixed p with
  | true =>
    cases docs with
    | nil => rfl
    | cons d rest =>
      rw [if_pos ⟨rfl, List.cons_ne_nil d rest⟩, List.mapM_cons, Projection.apply_of_mixed hmixed]
      rfl
  | false =>
    have happly : Projection.apply p = fun d => .ok (projectedOrSelf p d) := by
      funext d
      obtain ⟨out, hout⟩ := Projection.exists_apply hmixed d
      rw [projectedOrSelf, hout]
      rfl
    rw [if_neg (by simp), happly]
    exact List.mapM_pure

theorem MemoryStore.eq_map_of_projectAll {projection : Document} {docs out : List Document}
    (h : projectAll (some projection) docs = .ok out) :
    out = docs.map (projectedOrSelf projection) := by
  rw [projectAll_eq] at h
  split at h
  · cases h
  · exact (Except.ok.inj h).symm

/-- A projection that cannot be applied leaves only a list without documents. -/
theorem MemoryStore.eq_nil_of_projectAll {projection : Document} {docs out : List Document}
    (hmixed : Projection.isMixed projection = true)
    (h : projectAll (some projection) docs = .ok out) : out = [] := by
  have hout := eq_map_of_projectAll h
  rw [projectAll_eq] at h
  split at h
  · cases h
  · rename_i hempty
    obtain rfl : docs = [] := by simpa [hmixed] using hempty
    exact hout

/-- A document with a certain key is looked for before a projection or behind it. -/
theorem find?_projectedOrSelf {projection : Document}
    (hmixed : Projection.isMixed projection = false) (docs : List Document) (k : Key) :
    (docs.map (projectedOrSelf projection)).find? (fun d => keyOf? d == some k) =
      if Projection.keepsKeys projection then
        (docs.find? fun d => keyOf? d == some k).map (projectedOrSelf projection)
      else none := by
  have hkey (d : Document) : keyOf? (projectedOrSelf projection d) =
      if Projection.keepsKeys projection then keyOf? d else none := by
    obtain ⟨out, hout⟩ := Projection.exists_apply hmixed d
    rw [projectedOrSelf, hout]
    exact Projection.keyOf?_apply hout
  rw [List.find?_map]
  cases hkeeps : Projection.keepsKeys projection <;> simp [Function.comp_def, hkey, hkeeps]

/-- What a projection makes of the payload depends on the payload alone. -/
theorem payloadOf_projectedOrSelf_congr {d d' : Document}
    (h : Entries.get? d Wrapper.payload = Entries.get? d' Wrapper.payload) (p : Document) :
    payloadOf (projectedOrSelf p d) = payloadOf (projectedOrSelf p d') := by
  have hget : Entries.get? (projectedOrSelf p d) Wrapper.payload =
      Entries.get? (projectedOrSelf p d') Wrapper.payload := by
    cases hmixed : Projection.isMixed p with
    | true =>
      rw [projectedOrSelf, projectedOrSelf, Projection.apply_of_mixed hmixed,
        Projection.apply_of_mixed hmixed]
      exact h
    | false =>
      obtain ⟨out, hout⟩ := Projection.exists_apply hmixed d
      obtain ⟨out', hout'⟩ := Projection.exists_apply hmixed d'
      rw [projectedOrSelf, projectedOrSelf, hout, hout']
      exact Projection.get?_apply_congr (by decide) h hout hout'
  rw [payloadOf, payloadOf, Document.documentAt?, Document.documentAt?, hget]

end ContentQuery
