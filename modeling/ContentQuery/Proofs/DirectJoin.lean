/-
A reference predicate, owner by owner.

The semi-join puts the conditions of a predicate together by reference path and looks
all targets up at once.  It can be read without any of this: each key goes to the
longest path of the batch that it continues; and an owner is kept when at each of these
paths some descriptor of its own names a stored document that meets all conditions of the
path.

* `mem_of_splitByPath?`, `accepts_groupAt` — what the groups of a predicate are, and what
  each of them asks;
* `get?_targetsByPath` — what an owner refers to at a path;
* `keepsOwner_iff` — the test of an owner, in terms of both;
* `outcome_semiJoin_direct` — the semi-join is the direct reading.
-/
import ContentQuery.Proofs.Avoidance
import ContentQuery.Proofs.SemiJoin

namespace ContentQuery.Reference

/-! ### The targets at a path -/

/-- The locale of an owner, or else that of the query. -/
def localeOf (locale : String) (raw : Document) : String :=
  ((keyOf? raw).map Key.locale).getD locale

theorem get?_targetsByPath (locale : String) (raw : Document) (p : String) :
    Entries.get? (targetsByPath locale raw) p =
      if p ∈ (scan (payloadOf raw)).map Location.path then
        some (((scan (payloadOf raw)).filter fun l => l.path = p).flatMap fun l =>
          l.descriptor.keys (localeOf locale raw))
      else none := by
  rw [List.flatMap_eq_foldl, ← Entries.get?_gather]
  exact congrArg (Entries.get? · p) (targetsByPath_eq locale raw)

theorem mem_keys_targetsByPath {locale : String} {raw : Document} {p : String} :
    p ∈ Entries.keys (targetsByPath locale raw) ↔ ∃ l ∈ scan (payloadOf raw), l.path = p := by
  rw [← not_iff_not, ← Entries.get?_eq_none_iff, get?_targetsByPath]
  simp

/-! ### The conditions at a path -/

section Groups

variable {paths : List String} {fields : List (String × Predicate)}

/-- The field predicates whose keys go to some path, with what is left of the keys. -/
def assigned (paths : List String) (fields : List (String × Predicate)) :
    List ((String × String) × Predicate) :=
  fields.filterMap fun f => (splitKey? paths f.1).map fun best => (best, f.2)

theorem mem_assigned {e : (String × String) × Predicate} :
    e ∈ assigned paths fields ↔ ∃ f ∈ fields, splitKey? paths f.1 = some e.1 ∧ f.2 = e.2 := by
  simp only [assigned, List.mem_filterMap, Option.map_eq_some_iff]
  constructor
  · rintro ⟨f, hf, best, hbest, rfl⟩
    exact ⟨f, hf, hbest, rfl⟩
  · rintro ⟨f, hf, hbest, hp⟩
    exact ⟨f, hf, e.1, hbest, by rw [hp]⟩

/-- A filter with one more field. -/
def addField (group : Filter) (e : (String × String) × Predicate) : Filter :=
  { group with fields := group.fields ++ [(e.1.2, e.2)] }

/-- The groups of a predicate are its fields, put together under the paths that their
keys go to. -/
theorem eq_gather_of_splitByPath? {groups : List (String × Filter)}
    (h : splitByPath? paths fields = some groups) :
    groups = Entries.gather (fun e => e.1.1) {} addField (assigned paths fields) := by
  rw [splitByPath?_eq] at h
  unfold Entries.gather
  -- both go through the fields with the groups made so far
  generalize ([] : List (String × Filter)) = start at h ⊢
  induction fields generalizing start with
  | nil => exact (Option.some.inj h).symm
  | cons f rest ih =>
    obtain ⟨best, hbest, h⟩ := Option.bind_eq_some_iff.mp h
    have hcons : assigned paths (f :: rest) = (best, f.2) :: assigned paths rest := by
      simp [assigned, hbest]
    rw [ih _ h, hcons]
    rfl

/-- What a predicate asks of the targets at a path. -/
def groupAt (paths : List String) (fields : List (String × Predicate)) (p : String) : Filter :=
  ((assigned paths fields).filter fun e => e.1.1 = p).foldl addField {}

theorem mem_of_splitByPath? {groups : List (String × Filter)}
    (h : splitByPath? paths fields = some groups) {g : String × Filter} :
    g ∈ groups ↔
      (∃ e ∈ assigned paths fields, e.1.1 = g.1) ∧ g.2 = groupAt paths fields g.1 := by
  rw [eq_gather_of_splitByPath? h, Entries.mem_gather, List.mem_map]
  rfl

theorem accepts_fields [PatternLanguage] (d : Document) (fields : List (String × Predicate)) :
    Filter.accepts d { fields } = Filter.acceptsFields d fields := by
  simp [Filter.accepts, Filter.acceptsEach]

theorem foldl_addField (es : List ((String × String) × Predicate))
    (own : List (String × Predicate)) :
    es.foldl addField { fields := own } = { fields := own ++ es.map fun e => (e.1.2, e.2) } := by
  induction es generalizing own with
  | nil => simp
  | cons e rest ih => simp [ih, addField]

/-- A group accepts what meets all conditions that are assigned to its path. -/
theorem accepts_groupAt [PatternLanguage] {p : String} {d : Document} :
    (groupAt paths fields p).accepts d = true ↔
      ∀ e ∈ assigned paths fields, e.1.1 = p → (Filter.field e.1.2 e.2).accepts d = true := by
  have hgroup := foldl_addField ((assigned paths fields).filter fun e => e.1.1 = p) []
  rw [groupAt, hgroup, accepts_fields, Filter.acceptsFields, List.all_eq_true]
  simp only [Filter.field, accepts_fields, Filter.acceptsFields, List.nil_append,
    List.forall_mem_map, List.mem_filter, decide_eq_true_iff, and_imp, List.all_cons, List.all_nil,
    Bool.and_true]

end Groups

/-- An owner has a target that a group of conditions accepts when one of its descriptors
at the path of the group names one. -/
theorem any_targets_iff [PatternLanguage] {m : MemoryStore} {collection locale : String}
    {raw : Document} {p : String} {group : Filter} :
    ((Entries.get? (targetsByPath locale raw) p).any fun keys =>
        (keys.filterMap (m.payload? collection none)).any fun payload => group.accepts payload) =
        true ↔
      ∃ l ∈ scan (payloadOf raw), l.path = p ∧ ∃ k ∈ l.descriptor.keys (localeOf locale raw),
        ∃ payload, m.payload? collection none k = some payload ∧ group.accepts payload = true := by
  rw [get?_targetsByPath]
  split
  · rw [Option.any_some, List.any_eq_true]
    simp only [List.mem_filterMap, List.mem_flatMap, List.mem_filter, decide_eq_true_iff]
    constructor
    · rintro ⟨payload, ⟨k, ⟨l, ⟨hl, hp⟩, hk⟩, hpayload⟩, haccepts⟩
      exact ⟨l, hl, hp, k, hk, payload, hpayload, haccepts⟩
    · rintro ⟨l, hl, hp, k, hk, payload, hpayload, haccepts⟩
      exact ⟨payload, ⟨k, ⟨l, ⟨hl, hp⟩, hk⟩, hpayload⟩, haccepts⟩
  · rename_i hnone
    constructor
    · intro h
      cases h
    · rintro ⟨l, hl, hp, -⟩
      exact absurd (List.mem_map.mpr ⟨l, hl, hp⟩) hnone

/-- An owner is kept when at each path that a key goes to it has a target that meets all
conditions of that path. -/
theorem keepsOwner_iff [PatternLanguage] {m : MemoryStore} {collection locale : String}
    {predicate : Filter} {paths : List String} {raw : Document} :
    keepsOwner m collection locale predicate paths raw = true ↔
      (∀ f ∈ predicate.fields, (splitKey? paths f.1).isSome) ∧
      ∀ e ∈ assigned paths predicate.fields, ∃ l ∈ scan (payloadOf raw), l.path = e.1.1 ∧
        ∃ k ∈ l.descriptor.keys (localeOf locale raw), ∃ payload,
          m.payload? collection none k = some payload ∧
          ∀ e' ∈ assigned paths predicate.fields, e'.1.1 = e.1.1 →
            (Filter.field e'.1.2 e'.2).accepts payload = true := by
  rw [keepsOwner]
  cases hsplit : splitByPath? paths predicate.fields with
  | none =>
    -- some key goes nowhere, so nothing is kept
    obtain ⟨f, hf, hnone⟩ := exists_of_splitByPath?_eq_none hsplit
    constructor
    · intro h
      cases h
    · rintro ⟨hall, -⟩
      have hsome := hall f hf
      rw [hnone] at hsome
      cases hsome
  | some groups =>
    have hall : ∀ f ∈ predicate.fields, (splitKey? paths f.1).isSome := by
      intro f hf
      obtain ⟨best, hbest, -⟩ := exists_of_splitByPath?_eq_some hsplit f hf
      rw [hbest]
      rfl
    rw [Option.any_some, refersTo, List.all_eq_true, and_iff_right hall]
    constructor
    · intro h e he
      have htarget := h (e.1.1, groupAt paths predicate.fields e.1.1)
        ((mem_of_splitByPath? hsplit).mpr ⟨⟨e, he, rfl⟩, rfl⟩)
      rw [any_targets_iff] at htarget
      simpa only [accepts_groupAt] using htarget
    · intro h g hg
      obtain ⟨⟨e, he, hpath⟩, hgroup⟩ := (mem_of_splitByPath? hsplit).mp hg
      rw [any_targets_iff, hgroup]
      simp only [accepts_groupAt, ← hpath]
      exact h e he

/-! ### Owners one by one -/

/-- The scan reports a path for some document of a batch. -/
def Reports (docs : List Document) (path : String) : Prop :=
  ∃ raw ∈ docs, ∃ l ∈ scan (payloadOf raw), l.path = path

/-- A predicate key goes to a path of a batch, a dot and a field: it goes to no longer path. -/
structure GoesTo (docs : List Document) (key path field : String) : Prop where
  reported : Reports docs path
  continues : key = path ++ "." ++ field
  longest : ∀ other rest, Reports docs other → key = other ++ "." ++ rest →
    other.length ≤ path.length

/-- An owner has at a path a descriptor with a uid that names, in the locale of the
descriptor or else of the owner, a stored document: the earliest of its key.  Its payload
is a good one. -/
def Names (m : MemoryStore) (collection locale : String) (raw : Document) (path : String)
    (good : Document → Prop) : Prop :=
  ∃ l ∈ scan (payloadOf raw), l.path = path ∧ ∃ uid ∈ l.descriptor.values, ∃ target,
    (m.documents collection).find? (fun d => keyOf? d ==
      some ⟨l.descriptor.referenceTo, l.descriptor.locale.getD (localeOf locale raw), uid⟩) =
        some target ∧ good (payloadOf target)

/-- An owner meets a predicate: at every path that a key goes to it names a document that
meets all conditions whose keys go there, each on the field that is left. -/
def Meets [PatternLanguage] (m : MemoryStore) (collection locale : String) (predicate : Filter)
    (docs : List Document) (raw : Document) : Prop :=
  ∀ path, (∃ f ∈ predicate.fields, ∃ field, GoesTo docs f.1 path field) →
    Names m collection locale raw path fun payload =>
      ∀ f ∈ predicate.fields, ∀ field, GoesTo docs f.1 path field →
        (Filter.field field f.2).accepts payload = true

theorem goesTo_iff {locale : String} {docs : List Document} {key path field : String} :
    GoesTo docs key path field ↔
      splitKey? (referencePaths locale docs) key = some (path, field) := by
  have hpaths (p : String) : p ∈ referencePaths locale docs ↔ Reports docs p := by
    simp only [mem_referencePaths, mem_keys_targetsByPath, Reports]
  have hbelow (p rest : String) : fieldBelow? p key = some rest ↔ key = p ++ "." ++ rest := by
    rw [fieldBelow?_eq_some_iff, ← String.toList_inj]
    simp
  rw [splitKey?_eq_some_iff]
  simp only [hpaths, hbelow, Option.isSome_iff_exists]
  constructor
  · rintro ⟨hreported, hkey, hlongest⟩
    exact ⟨hreported, hkey, fun other hother ⟨rest, hrest⟩ => hlongest other rest hother hrest⟩
  · rintro ⟨hreported, hkey, hlongest⟩
    exact ⟨hreported, hkey, fun other rest hother hrest => hlongest other hother ⟨rest, hrest⟩⟩

/-- The keys of a descriptor are looked up one by one. -/
theorem names_iff {m : MemoryStore} {collection locale : String} {raw : Document} {path : String}
    {good : Document → Prop} :
    Names m collection locale raw path good ↔
      ∃ l ∈ scan (payloadOf raw), l.path = path ∧ ∃ k ∈ l.descriptor.keys (localeOf locale raw),
        ∃ payload, m.payload? collection none k = some payload ∧ good payload := by
  have hp : ∀ p ∈ (none : Option Document), Projection.OnlyPayload p := by simp
  simp only [Names, Descriptor.keys, List.mem_map, exists_exists_and_eq_and,
    MemoryStore.payload?_eq hp, Option.map_eq_some_iff, kept]

theorem keepsOwner_iff_meets [PatternLanguage] {m : MemoryStore} {collection locale : String}
    {predicate : Filter} {docs : List Document} {raw : Document}
    (hall : ∀ f ∈ predicate.fields, ∃ path field, GoesTo docs f.1 path field) :
    keepsOwner m collection locale predicate (referencePaths locale docs) raw = true ↔
      Meets m collection locale predicate docs raw := by
  have hgoes {key path field : String} : GoesTo docs key path field ↔
      splitKey? (referencePaths locale docs) key = some (path, field) := goesTo_iff
  have hsome : ∀ f ∈ predicate.fields, (splitKey? (referencePaths locale docs) f.1).isSome := by
    intro f hf
    obtain ⟨path, field, hf⟩ := hall f hf
    exact Option.isSome_iff_exists.mpr ⟨_, hgoes.mp hf⟩
  rw [keepsOwner_iff, and_iff_right hsome]
  simp only [Meets, names_iff]
  constructor
  · rintro h path ⟨f, hf, field, hkey⟩
    obtain ⟨l, hl, hpath, k, hk, payload, hpayload, hgood⟩ :=
      h ((path, field), f.2) (mem_assigned.mpr ⟨f, hf, hgoes.mp hkey, rfl⟩)
    refine ⟨l, hl, hpath, k, hk, payload, hpayload, fun f' hf' field' hkey' => ?_⟩
    exact hgood ((path, field'), f'.2) (mem_assigned.mpr ⟨f', hf', hgoes.mp hkey', rfl⟩) rfl
  · rintro h ⟨⟨path, field⟩, p⟩ he
    obtain ⟨f, hf, hkey, -⟩ := mem_assigned.mp he
    obtain ⟨l, hl, hpath, k, hk, payload, hpayload, hgood⟩ :=
      h path ⟨f, hf, field, hgoes.mpr hkey⟩
    refine ⟨l, hl, hpath, k, hk, payload, hpayload, ?_⟩
    rintro ⟨⟨_, field'⟩, p'⟩ he' rfl
    obtain ⟨f', hf', hkey', rfl⟩ := mem_assigned.mp he'
    exact hgood f' hf' field' (hgoes.mpr hkey')

open Classical in
/-- The semi-join keeps the owners that meet the predicate one by one, as they are and in
their order, or none if some key goes nowhere. -/
theorem outcome_semiJoin_direct [PatternLanguage] (m : MemoryStore) (collection locale : String)
    (predicate : Filter) (docs : List Document) :
    (m.run (semiJoin collection locale predicate docs)).outcome =
      .ok (if ∀ f ∈ predicate.fields, ∃ path field, GoesTo docs f.1 path field then
        docs.filter fun raw => Meets m collection locale predicate docs raw else []) := by
  rw [outcome_semiJoin]
  split
  · rename_i hall
    refine congrArg Except.ok (List.filter_congr fun raw _ => ?_)
    rw [Bool.eq_iff_iff, decide_eq_true_iff]
    exact keepsOwner_iff_meets hall
  · rename_i hnone
    refine congrArg Except.ok (List.filter_eq_nil_iff.mpr fun raw _ hkeeps => hnone fun f hf => ?_)
    obtain ⟨⟨path, field⟩, hkey⟩ := Option.isSome_iff_exists.mp ((keepsOwner_iff.mp hkeeps).1 f hf)
    exact ⟨path, field, goesTo_iff.mpr hkey⟩

end ContentQuery.Reference
