/-
Which reference path a predicate key goes to.

A key continues a path when it has a dot and a field behind it.  Of the paths of
a batch that it continues it goes to the longest, and there is only one of that
length:

* `splitKey?_eq_some_iff`, `splitKey?_eq_none_iff` — where a key goes;
* `splitKey?_congr` — so the order of the paths, and how often one of them occurs,
  make no difference;
* `splitByPath?_congr` — the groups of a predicate are made by where its keys go.
-/
import ContentQuery.Proofs.Entries
import ContentQuery.Reference.SemiJoin

namespace ContentQuery.Reference

/-! ### One key -/

theorem fieldBelow?_eq_some_iff {path key field : String} :
    fieldBelow? path key = some field ↔ key.toList = path.toList ++ '.' :: field.toList := by
  unfold fieldBelow?
  dsimp only
  split
  · rename_i h
    obtain ⟨rest, hrest⟩ := List.isPrefixOf_iff_prefix.mp h
    rw [← hrest, List.drop_left, List.append_assoc]
    constructor
    · intro heq
      obtain rfl := Option.some.inj heq
      simp
    · intro heq
      have hfield : rest = field.toList := by simpa using heq
      rw [hfield, String.ofList_toList]
  · rename_i h
    constructor
    · intro heq
      cases heq
    · intro heq
      refine absurd ?_ h
      rw [List.isPrefixOf_iff_prefix, heq]
      exact ⟨field.toList, by simp⟩

/-- Of one length there is only one path that a key continues. -/
theorem eq_of_fieldBelow? {p q key a b : String} (hp : fieldBelow? p key = some a)
    (hq : fieldBelow? q key = some b) (hlen : p.length = q.length) : p = q := by
  rw [fieldBelow?_eq_some_iff] at hp hq
  have hlists : p.toList ++ '.' :: a.toList = q.toList ++ '.' :: b.toList := hp.symm.trans hq
  have hsame : p.toList = q.toList :=
    (List.append_inj hlists (by rwa [String.length_toList, String.length_toList])).1
  exact String.toList_injective hsame

/-- Going through some paths leaves the longest of them, the first one included. -/
theorem exists_foldl_longer (a : String × String) (cs : List (String × String)) :
    ∃ b ∈ a :: cs, cs.foldl longer (some a) = some b ∧ ∀ c ∈ a :: cs, c.1.length ≤ b.1.length := by
  induction cs generalizing a with
  | nil => exact ⟨a, List.mem_cons_self, rfl, by simp⟩
  | cons c rest ih =>
    rw [List.foldl_cons, longer]
    split
    · rename_i hlt
      obtain ⟨b, hb, hfold, hmax⟩ := ih c
      refine ⟨b, List.mem_cons_of_mem a hb, hfold, List.forall_mem_cons.mpr ⟨?_, hmax⟩⟩
      have := hmax c List.mem_cons_self
      omega
    · rename_i hle
      obtain ⟨b, hb, hfold, hmax⟩ := ih a
      obtain ⟨ha, hrest⟩ := List.forall_mem_cons.mp hmax
      refine ⟨b, ?_, hfold, ?_⟩
      · rcases List.mem_cons.mp hb with rfl | hb
        · exact List.mem_cons_self
        · exact List.mem_cons_of_mem a (List.mem_cons_of_mem c hb)
      · exact List.forall_mem_cons.mpr ⟨ha, List.forall_mem_cons.mpr ⟨by omega, hrest⟩⟩

/-- The paths that a key continues, each with the field behind it. -/
def continued (paths : List String) (key : String) : List (String × String) :=
  paths.filterMap fun p => (fieldBelow? p key).map fun field => (p, field)

theorem mem_continued {paths : List String} {key p field : String} :
    (p, field) ∈ continued paths key ↔ p ∈ paths ∧ fieldBelow? p key = some field := by
  simp only [continued, List.mem_filterMap, Option.map_eq_some_iff, Prod.mk.injEq]
  constructor
  · rintro ⟨q, hq, f, hf, rfl, rfl⟩
    exact ⟨hq, hf⟩
  · rintro ⟨hp, hf⟩
    exact ⟨p, hp, field, hf, rfl, rfl⟩

theorem splitKey?_eq_none_iff {paths : List String} {key : String} :
    splitKey? paths key = none ↔ ∀ p ∈ paths, fieldBelow? p key = none := by
  have hsplit : splitKey? paths key = (continued paths key).foldl longer none := rfl
  have hnone : continued paths key = [] ↔ ∀ p ∈ paths, fieldBelow? p key = none := by
    simp [continued, List.filterMap_eq_nil_iff]
  rw [hsplit, ← hnone]
  cases continued paths key with
  | nil => simp
  | cons a cs =>
    obtain ⟨b, -, hfold, -⟩ := exists_foldl_longer a cs
    rw [List.foldl_cons, longer, hfold]
    simp

/-- The path that a key goes to is one that it continues, and none of them is
longer. -/
theorem longest_of_splitKey? {paths : List String} {key : String} {best : String × String}
    (h : splitKey? paths key = some best) :
    best.1 ∈ paths ∧ fieldBelow? best.1 key = some best.2 ∧
      ∀ q ∈ paths, (fieldBelow? q key).isSome → q.length ≤ best.1.length := by
  have hsplit : splitKey? paths key = (continued paths key).foldl longer none := rfl
  rw [hsplit] at h
  cases hc : continued paths key with
  | nil =>
    rw [hc] at h
    cases h
  | cons a cs =>
    obtain ⟨b, hb, hfold, hmax⟩ := exists_foldl_longer a cs
    rw [hc, List.foldl_cons, longer, hfold] at h
    obtain rfl := Option.some.inj h
    rw [← hc] at hb hmax
    obtain ⟨hp, hf⟩ := mem_continued.mp hb
    refine ⟨hp, hf, fun q hq hsome => ?_⟩
    obtain ⟨g, hg⟩ := Option.isSome_iff_exists.mp hsome
    exact hmax (q, g) (mem_continued.mpr ⟨hq, hg⟩)

theorem splitKey?_eq_some_iff {paths : List String} {key p field : String} :
    splitKey? paths key = some (p, field) ↔
      p ∈ paths ∧ fieldBelow? p key = some field ∧
      ∀ q ∈ paths, (fieldBelow? q key).isSome → q.length ≤ p.length := by
  constructor
  · exact longest_of_splitKey?
  · rintro ⟨hp, hf, hmax⟩
    cases hkey : splitKey? paths key with
    | none =>
      rw [splitKey?_eq_none_iff.mp hkey p hp] at hf
      cases hf
    | some best =>
      -- each of the two is as long as the other, so they are one path
      obtain ⟨hb, hbf, hbmax⟩ := longest_of_splitKey? hkey
      have hle := hmax best.1 hb (by rw [hbf]; rfl)
      have hge := hbmax p hp (by rw [hf]; rfl)
      obtain rfl := eq_of_fieldBelow? hf hbf (by omega)
      rw [hbf] at hf
      obtain rfl := Option.some.inj hf
      rfl

/-- Where a key goes depends on which paths there are, not on their order. -/
theorem splitKey?_congr {a b : List String} (h : ∀ p, p ∈ a ↔ p ∈ b) (key : String) :
    splitKey? a key = splitKey? b key := by
  refine Option.ext fun best => ?_
  obtain ⟨p, field⟩ := best
  simp only [splitKey?_eq_some_iff, h]

/-! ### All keys of a predicate -/

/-- Put a field predicate into the group of the path that its key goes to. -/
def joinGroup (groups : List (String × Filter)) (best : String × String) (p : Predicate) :
    List (String × Filter) :=
  Entries.upsert groups best.1 fun present =>
    let group := present.getD {}
    { group with fields := group.fields ++ [(best.2, p)] }

/-- Add the field predicates of a predicate to some groups. -/
def splitInto? (paths : List String) : List (String × Filter) → List (String × Predicate) →
    Option (List (String × Filter))
  | groups, [] => some groups
  | groups, f :: rest =>
    (splitKey? paths f.1).bind fun best => splitInto? paths (joinGroup groups best f.2) rest

theorem splitByPath?_eq (paths : List String) (fields : List (String × Predicate)) :
    splitByPath? paths fields = splitInto? paths [] fields := by
  unfold splitByPath?
  generalize ([] : List (String × Filter)) = groups
  induction fields generalizing groups with
  | nil => rfl
  | cons f rest ih =>
    rw [List.foldlM_cons, splitInto?]
    cases splitKey? paths f.1 with
    | none => rfl
    | some best => exact ih _

section Split

variable {paths : List String} {fields : List (String × Predicate)}

/-- The groups are made by where the keys go. -/
theorem splitByPath?_congr {more : List String}
    (h : ∀ f ∈ fields, splitKey? more f.1 = splitKey? paths f.1) :
    splitByPath? more fields = splitByPath? paths fields := by
  rw [splitByPath?_eq, splitByPath?_eq]
  generalize ([] : List (String × Filter)) = groups
  induction fields generalizing groups with
  | nil => rfl
  | cons f rest ih =>
    rw [splitInto?, splitInto?, h f List.mem_cons_self]
    congr 1
    funext best
    exact ih (fun f' hf' => h f' (List.mem_cons_of_mem f hf')) _

/-- A predicate falls apart unless each of its keys continues some path. -/
theorem exists_of_splitByPath?_eq_none (h : splitByPath? paths fields = none) :
    ∃ f ∈ fields, splitKey? paths f.1 = none := by
  rw [splitByPath?_eq] at h
  generalize ([] : List (String × Filter)) = groups at h
  induction fields generalizing groups with
  | nil => cases h
  | cons f rest ih =>
    rw [splitInto?] at h
    cases hkey : splitKey? paths f.1 with
    | none => exact ⟨f, List.mem_cons_self, hkey⟩
    | some best =>
      rw [hkey] at h
      obtain ⟨f', hf', hnone⟩ := ih _ h
      exact ⟨f', List.mem_cons_of_mem f hf', hnone⟩

theorem keys_joinGroup (groups : List (String × Filter)) (best : String × String)
    (p : Predicate) (q : String) :
    q ∈ Entries.keys (joinGroup groups best p) ↔ q = best.1 ∨ q ∈ Entries.keys groups := by
  rw [joinGroup, Entries.keys_upsert]
  split
  · rename_i h
    constructor
    · exact .inr
    · rintro (rfl | hq)
      · exact h
      · exact hq
  · rw [List.mem_append, List.mem_singleton, or_comm]

/-- Every key has a group at the path that it goes to. -/
theorem exists_of_splitByPath?_eq_some {groups : List (String × Filter)}
    (h : splitByPath? paths fields = some groups) :
    ∀ f ∈ fields, ∃ best, splitKey? paths f.1 = some best ∧ best.1 ∈ Entries.keys groups := by
  rw [splitByPath?_eq] at h
  generalize hstart : ([] : List (String × Filter)) = start at h
  -- groups are never taken away
  suffices hall : (∀ q ∈ Entries.keys start, q ∈ Entries.keys groups) ∧
      ∀ f ∈ fields, ∃ best, splitKey? paths f.1 = some best ∧ best.1 ∈ Entries.keys groups from
    hall.2
  clear hstart
  induction fields generalizing start with
  | nil =>
    obtain rfl := Option.some.inj h
    exact ⟨fun _ hq => hq, by simp⟩
  | cons f rest ih =>
    rw [splitInto?] at h
    obtain ⟨best, hkey, h⟩ := Option.bind_eq_some_iff.mp h
    obtain ⟨hkeep, hrest⟩ := ih _ h
    simp only [keys_joinGroup] at hkeep
    refine ⟨fun q hq => hkeep q (.inr hq), List.forall_mem_cons.mpr ⟨?_, hrest⟩⟩
    exact ⟨best, hkey, hkeep best.1 (.inl rfl)⟩

end Split

end ContentQuery.Reference
