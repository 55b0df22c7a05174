/-
What merged filters accept.

A merged filter has at each path what merging makes of the predicates there:

* `get?_mergeFields` — a predicate of one side alone stays as it is, of two at one path
  `mergePredicate` makes one;
* `accepts_merge_of_conjunctive` — where these hold exactly when both do, the merged
  filter accepts what both filters accept;
* `accepts_merge` — this is so when operators do not collide;
* `accepts_merge_of_kinds` — between a value to equal and operators, only what comes
  later is left;
* `QueryState.accepts_of_addFilter` — so of two calls on one field that ask for predicates
  of different kinds, the second one drops what the first one has asked for.
-/
import ContentQuery.Filter.Accepts
import ContentQuery.Pattern.Reading
import ContentQuery.Proofs.Calls
import ContentQuery.Proofs.Entries
import ContentQuery.Proofs.KeyedUnion

namespace ContentQuery

/-- Whether a predicate gives a value to equal. -/
def Predicate.isLiteral : Predicate → Bool
  | .equals _ => true
  | .conditions _ => false

/-- The operators of a predicate. -/
def Predicate.operators : Predicate → List String
  | .equals _ => []
  | .conditions conds => conds.map Condition.operator

/-- Both predicates are operators, and no operator is in both. -/
def Predicate.NoneInCommon : Predicate → Predicate → Prop
  | .conditions conds, .conditions new =>
    ∀ op ∈ conds.map Condition.operator, op ∉ new.map Condition.operator
  | _, _ => False

instance : (a b : Predicate) → Decidable (a.NoneInCommon b)
  | .conditions _, .conditions _ => inferInstanceAs (Decidable (∀ op ∈ _, op ∉ _))
  | .equals _, _ => isFalse id
  | .conditions _, .equals _ => isFalse id

namespace Filter

variable {f g : Filter} {d : Document} {p : String} {a b : Predicate}

/-! ### Fields -/

/-- What stands at a path of a merged filter. -/
def mergeSlot : Option Predicate → Option Predicate → Option Predicate
  | some a, some b => some (mergePredicate a b)
  | a, b => a.or b

theorem get?_mergeFields (fields : List (String × Predicate)) {new : List (String × Predicate)}
    (h : (Entries.keys new).Nodup) (k : String) :
    Entries.get? (new.foldl mergeField fields) k =
      mergeSlot (Entries.get? fields k) (Entries.get? new k) := by
  induction new generalizing fields with
  | nil => cases hk : Entries.get? fields k <;> simp [mergeSlot, hk]
  | cons e rest ih =>
    obtain ⟨j, b⟩ := e
    obtain ⟨hj, hrest⟩ := List.nodup_cons.mp h
    rw [List.foldl_cons, ih _ hrest, mergeField, Entries.get?]
    by_cases hk : j = k
    · subst hk
      rw [Entries.get?_eq_none_iff.mpr hj, Entries.get?_upsert_self, if_pos rfl]
      cases Entries.get? fields j <;> rfl
    · rw [Entries.get?_upsert_of_ne _ hk, if_neg hk]

theorem get?_merge (f : Filter) (hg : (Entries.keys g.fields).Nodup) (k : String) :
    Entries.get? (f.merge g).fields k =
      mergeSlot (Entries.get? f.fields k) (Entries.get? g.fields k) :=
  get?_mergeFields f.fields hg k

theorem nodup_keys_mergeFields {fields : List (String × Predicate)}
    (h : (Entries.keys fields).Nodup) (new : List (String × Predicate)) :
    (Entries.keys (new.foldl mergeField fields)).Nodup := by
  induction new generalizing fields with
  | nil => exact h
  | cons e rest ih => exact ih (Entries.nodup_keys_upsert h _ _)

theorem nodup_keys_merge (hf : (Entries.keys f.fields).Nodup) (g : Filter) :
    (Entries.keys (f.merge g).fields).Nodup :=
  nodup_keys_mergeFields hf g.fields

theorem nodup_keys_field (p : String) (b : Predicate) : (Entries.keys (field p b).fields).Nodup :=
  List.nodup_singleton p

theorem get?_field (p : String) (b : Predicate) (k : String) :
    Entries.get? (field p b).fields k = if p = k then some b else none := rfl

section Accepts

variable [PatternLanguage]

/-- A document satisfies field predicates with distinct paths, if it satisfies the one at
each path. -/
theorem acceptsFields_iff {fields : List (String × Predicate)} (h : (Entries.keys fields).Nodup) :
    acceptsFields d fields = true ↔
      ∀ k a, Entries.get? fields k = some a → a.accepts (Path.resolve d k) = true := by
  rw [acceptsFields, List.all_eq_true]
  constructor
  · intro hall k a hk
    exact hall (k, a) (Entries.mem_of_get?_eq_some hk)
  · intro hall e he
    exact hall e.1 e.2 (Entries.get?_eq_some_of_mem h he)

theorem accepts_iff : accepts d f = true ↔
    f.script = none ∧ acceptsFields d f.fields = true ∧ (∀ g ∈ f.allOf, accepts d g = true) ∧
      (f.anyOf = [] ∨ ∃ g ∈ f.anyOf, accepts d g = true) := by
  cases f with
  | mk fields allOf anyOf script =>
    rw [accepts, acceptsEach_eq_all, acceptsSome_eq_any]
    simp [and_assoc]

/-- Filters that ask for the same at each path, and for the same operands, accept the
same. -/
theorem accepts_eq_of_get? (hf : (Entries.keys f.fields).Nodup) (hg : (Entries.keys g.fields).Nodup)
    (hget : ∀ k, Entries.get? f.fields k = Entries.get? g.fields k) (hall : f.allOf = g.allOf)
    (hany : f.anyOf = g.anyOf) (hscript : f.script = g.script) (d : Document) :
    accepts d f = accepts d g := by
  have hfields : acceptsFields d f.fields = acceptsFields d g.fields := by
    rw [Bool.eq_iff_iff, acceptsFields_iff hf, acceptsFields_iff hg]
    exact forall_congr' fun k => by rw [hget k]
  rw [Bool.eq_iff_iff, accepts_iff, accepts_iff, hfields, hall, hany, hscript]

/-! ### Predicates that are merged to both -/

/-- Merging two predicates makes one that holds exactly when both do. -/
def Conjunctive (a b : Predicate) : Prop :=
  ∀ vals, (mergePredicate a b).accepts vals = (a.accepts vals && b.accepts vals)

theorem acceptsFields_merge_of_conjunctive (hf : (Entries.keys f.fields).Nodup)
    (hg : (Entries.keys g.fields).Nodup)
    (hshared : ∀ p a b, Entries.get? f.fields p = some a → Entries.get? g.fields p = some b →
      Conjunctive a b) :
    acceptsFields d (f.merge g).fields = true ↔
      acceptsFields d f.fields = true ∧ acceptsFields d g.fields = true := by
  rw [acceptsFields_iff (nodup_keys_merge hf g), acceptsFields_iff hf, acceptsFields_iff hg,
    ← forall_and]
  refine forall_congr' fun k => ?_
  rw [get?_merge f hg]
  cases ha : Entries.get? f.fields k with
  | none => simp [mergeSlot]
  | some a =>
    cases hb : Entries.get? g.fields k with
    | none => simp [mergeSlot]
    | some b =>
      have hboth := hshared k a b ha hb (Path.resolve d k)
      simp [mergeSlot, hboth]

/-- Where all predicates at shared paths are merged to both, and at most one of the filters
offers alternatives, the merged filter accepts what both accept. -/
theorem accepts_merge_of_conjunctive (hf : (Entries.keys f.fields).Nodup)
    (hg : (Entries.keys g.fields).Nodup)
    (hshared : ∀ p a b, Entries.get? f.fields p = some a → Entries.get? g.fields p = some b →
      Conjunctive a b)
    (hany : f.anyOf = [] ∨ g.anyOf = []) (d : Document) :
    accepts d (f.merge g) = true ↔ accepts d f = true ∧ accepts d g = true := by
  have hfields := acceptsFields_merge_of_conjunctive (d := d) hf hg hshared
  have hscript : (f.merge g).script = none ↔ f.script = none ∧ g.script = none := by
    rw [merge, Option.or_eq_none_iff, and_comm]
  have hall : (∀ h ∈ (f.merge g).allOf, accepts d h = true) ↔
      (∀ h ∈ f.allOf, accepts d h = true) ∧ ∀ h ∈ g.allOf, accepts d h = true :=
    List.forall_mem_append
  have hor : ((f.merge g).anyOf = [] ∨ ∃ h ∈ (f.merge g).anyOf, accepts d h = true) ↔
      (f.anyOf = [] ∨ ∃ h ∈ f.anyOf, accepts d h = true) ∧
        (g.anyOf = [] ∨ ∃ h ∈ g.anyOf, accepts d h = true) := by
    rw [merge]
    rcases hany with hnil | hnil
    · rw [hnil, List.nil_append]
      exact ⟨fun h => ⟨.inl rfl, h⟩, And.right⟩
    · rw [hnil, List.append_nil]
      exact ⟨fun h => ⟨h, .inl rfl⟩, And.left⟩
  rw [accepts_iff, accepts_iff, accepts_iff, hscript, hfields, hall, hor]
  constructor
  · rintro ⟨⟨hs, hs'⟩, ⟨hp, hp'⟩, ⟨ha, ha'⟩, ho, ho'⟩
    exact ⟨⟨hs, hp, ha, ho⟩, hs', hp', ha', ho'⟩
  · rintro ⟨⟨hs, hp, ha, ho⟩, hs', hp', ha', ho'⟩
    exact ⟨⟨hs, hs'⟩, ⟨hp, hp'⟩, ⟨ha, ha'⟩, ho, ho'⟩

/-! ### Operators that do not collide -/

theorem conjunctive_of_disjoint {conds new : List Condition}
    (hnew : (new.map Condition.operator).Nodup)
    (h : (conds.map Condition.operator).Disjoint (new.map Condition.operator)) :
    Conjunctive (.conditions conds) (.conditions new) := by
  intro vals
  rw [mergePredicate_conditions, Keyed.union_of_disjoint hnew h]
  exact List.all_append

/-- When operators do not collide and at most one of the filters offers alternatives, the
merged filter accepts what both accept. -/
theorem accepts_merge (hf : (Entries.keys f.fields).Nodup) (hg : (Entries.keys g.fields).Nodup)
    (hops : ∀ e ∈ g.fields, (e.2.operators).Nodup)
    (hshared : ∀ e ∈ f.fields, ∀ e' ∈ g.fields, e.1 = e'.1 → e.2.NoneInCommon e'.2)
    (hany : f.anyOf = [] ∨ g.anyOf = []) (d : Document) :
    accepts d (f.merge g) = true ↔ accepts d f = true ∧ accepts d g = true := by
  refine accepts_merge_of_conjunctive hf hg (fun p a b ha hb => ?_) hany d
  have hb' := Entries.mem_of_get?_eq_some hb
  have hnone := hshared (p, a) (Entries.mem_of_get?_eq_some ha) (p, b) hb' rfl
  have hnodup := hops (p, b) hb'
  match a, b with
  | .conditions conds, .conditions new =>
    exact conjunctive_of_disjoint hnodup fun op hop hop' => hnone op hop hop'

end Accepts

/-- Notes from the first rank on. -/
def notesFromFirst : Filter where
  fields := [("rank", .conditions [.compare .gte (.int32 1)])]
  anyOf := [field "kind" (.equals (.string "note"))]

/-- What is no draft and has a rank below the ninth. -/
def publishedBelowNinth : Filter where
  fields := [("rank", .conditions [.compare .lt (.int32 9)]),
    ("draft", .conditions [.present false])]

/-- A note of a rank. -/
def rankedNote (rank : Int32) : Document := [("kind", .string "note"), ("rank", .int32 rank)]

open scoped Pattern in
theorem accepts_merge_notesFromFirst :
    accepts (rankedNote 5) (notesFromFirst.merge publishedBelowNinth) = true ∧
      ¬ accepts (rankedNote 9) (notesFromFirst.merge publishedBelowNinth) = true := by
  have h := accepts_merge (f := notesFromFirst) (g := publishedBelowNinth) (by decide) (by decide)
    (by decide) (by decide) (.inr rfl)
  refine ⟨(h (rankedNote 5)).mpr ⟨by decide, by decide⟩, fun hboth => ?_⟩
  exact absurd ((h (rankedNote 9)).mp hboth).2 (by decide)

/-! ### A value to equal and operators -/

/-- A filter without what it asks for at a path. -/
def without (f : Filter) (p : String) : Filter := { f with fields := Entries.erase f.fields p }

/-- Of predicates of different kinds only the later one is left. -/
theorem mergePredicate_of_kinds (h : a.isLiteral ≠ b.isLiteral) : mergePredicate a b = b := by
  match a, b with
  | .equals v, .conditions conds => cases v <;> rfl
  | .conditions conds, .equals v => rfl
  | .equals v, .equals w => exact absurd rfl h
  | .conditions conds, .conditions new => exact absurd rfl h

theorem nodup_keys_without (hf : (Entries.keys f.fields).Nodup) (p : String) :
    (Entries.keys (f.without p).fields).Nodup := by
  rw [without, Entries.keys_erase]
  exact hf.filter _

theorem get?_without_self (f : Filter) (p : String) : Entries.get? (f.without p).fields p = none :=
  Entries.get?_erase_self f.fields p

theorem get?_without_of_ne (f : Filter) {k : String} (hk : p ≠ k) :
    Entries.get? (f.without p).fields k = Entries.get? f.fields k :=
  Entries.get?_erase_of_ne f.fields hk

section Kinds

variable [PatternLanguage]

/-- Where two filters have predicates of different kinds at a path, the merged filter
accepts what it would accept without the earlier one. -/
theorem accepts_merge_of_kinds (hf : (Entries.keys f.fields).Nodup)
    (hg : (Entries.keys g.fields).Nodup) (ha : Entries.get? f.fields p = some a)
    (hb : Entries.get? g.fields p = some b) (hkinds : a.isLiteral ≠ b.isLiteral) (d : Document) :
    accepts d (f.merge g) = accepts d ((f.without p).merge g) := by
  refine accepts_eq_of_get? (nodup_keys_merge hf g) (nodup_keys_merge (nodup_keys_without hf p) g)
    (fun k => ?_) rfl rfl rfl d
  rw [get?_merge f hg, get?_merge (f.without p) hg]
  by_cases hk : p = k
  · subst hk
    rw [ha, hb, get?_without_self]
    exact congrArg some (mergePredicate_of_kinds hkinds)
  · rw [get?_without_of_ne f hk]

/-! ### One more predicate -/

theorem accepts_field (d : Document) (p : String) (b : Predicate) :
    accepts d (field p b) = b.accepts (Path.resolve d p) := by
  simp [field, accepts, acceptsFields, acceptsEach]

/-- A predicate at a path for which the filter asks nothing. -/
theorem accepts_merge_field (hf : (Entries.keys f.fields).Nodup)
    (hp : Entries.get? f.fields p = none) (b : Predicate) (d : Document) :
    accepts d (f.merge (field p b)) = (accepts d f && b.accepts (Path.resolve d p)) := by
  rw [Bool.eq_iff_iff, Bool.and_eq_true, ← accepts_field]
  have hg := nodup_keys_field p b
  refine accepts_merge_of_conjunctive hf hg (fun k a b' ha hb => ?_) (.inr rfl) d
  rw [get?_field] at hb
  split at hb
  · rename_i hk
    rw [← hk, hp] at ha
    cases ha
  · cases hb

/-- A filter asks for the predicate at a path and for what it asks for without it. -/
theorem accepts_eq_without_and (hf : (Entries.keys f.fields).Nodup)
    (ha : Entries.get? f.fields p = some a) (d : Document) :
    accepts d f = (accepts d (f.without p) && a.accepts (Path.resolve d p)) := by
  have hwithout := nodup_keys_without hf p
  rw [← accepts_merge_field hwithout (get?_without_self f p)]
  refine accepts_eq_of_get? hf (nodup_keys_merge hwithout _) (fun k => ?_)
    (List.append_nil _).symm (List.append_nil _).symm rfl d
  rw [get?_merge _ (nodup_keys_field p a), get?_field]
  by_cases hk : p = k
  · subst hk
    rw [ha, get?_without_self, if_pos rfl]
    rfl
  · rw [get?_without_of_ne f hk, if_neg hk]
    cases Entries.get? f.fields k <;> rfl

/-- A predicate after one of the other kind takes its place. -/
theorem accepts_merge_field_of_kinds (hf : (Entries.keys f.fields).Nodup)
    (ha : Entries.get? f.fields p = some a) (hkinds : a.isLiteral ≠ b.isLiteral) (d : Document) :
    accepts d (f.merge (field p b)) =
      (accepts d (f.without p) && b.accepts (Path.resolve d p)) := by
  have hb : Entries.get? (field p b).fields p = some b := if_pos rfl
  rw [accepts_merge_of_kinds hf (nodup_keys_field p b) ha hb hkinds d,
    accepts_merge_field (nodup_keys_without hf p) (get?_without_self f p)]

/-- A predicate before one of the other kind is lost. -/
theorem accepts_field_merge_of_kinds (hf : (Entries.keys f.fields).Nodup)
    (ha : Entries.get? f.fields p = some a) (hkinds : a.isLiteral ≠ b.isLiteral) (d : Document) :
    accepts d ((field p b).merge f) = accepts d f := by
  refine accepts_eq_of_get? (nodup_keys_merge (nodup_keys_field p b) f) hf (fun k => ?_)
    rfl rfl Option.or_none d
  rw [get?_merge _ hf, get?_field]
  by_cases hk : p = k
  · subst hk
    rw [ha, if_pos rfl]
    exact congrArg some (mergePredicate_of_kinds hkinds.symm)
  · rw [if_neg hk]
    cases Entries.get? f.fields k <;> rfl

/-- Merging a predicate with one of the other kind at its path leaves the later of the two,
beside what the filter asks for at the other paths. -/
theorem accepts_merge_other_kind (hf : (Entries.keys f.fields).Nodup)
    (ha : Entries.get? f.fields p = some a) (hkinds : a.isLiteral ≠ b.isLiteral) (d : Document) :
    accepts d f = (accepts d (f.without p) && a.accepts (Path.resolve d p)) ∧
      accepts d (f.merge (field p b)) =
        (accepts d (f.without p) && b.accepts (Path.resolve d p)) ∧
      accepts d ((field p b).merge f) =
        (accepts d (f.without p) && a.accepts (Path.resolve d p)) := by
  have hparts := accepts_eq_without_and hf ha d
  refine ⟨hparts, accepts_merge_field_of_kinds hf ha hkinds d, ?_⟩
  exact (accepts_field_merge_of_kinds hf ha hkinds d).trans hparts

end Kinds

/-- Drafts of one kind. -/
def noteDrafts : Filter where
  fields := [("kind", .equals (.string "note")), ("draft", .conditions [.present true])]

open scoped Pattern in
theorem accepts_merge_noteDrafts :
    let kinds := Predicate.conditions [.oneOf [.string "note", .string "page"]]
    let d : Document := [("kind", .string "page"), ("draft", .bool true)]
    accepts d noteDrafts = false ∧ accepts d (noteDrafts.merge (field "kind" kinds)) = true ∧
      accepts d ((field "kind" kinds).merge noteDrafts) = false := by
  intro kinds d
  obtain ⟨hown, hafter, hbefore⟩ := accepts_merge_other_kind (f := noteDrafts) (p := "kind")
    (b := kinds) (by decide) rfl (by decide) d
  rw [hown, hafter, hbefore]
  decide

open scoped Pattern in
/-- A value to equal is dropped by a later comparison, and a comparison by a later value to
equal. -/
theorem accepts_merge_drops :
    (accepts [("n", .int32 2)]
        ((field "n" (.equals (.int32 1))).merge (condition "n" (.compare .gt (.int32 0)))) = true ∧
      accepts [("n", .int32 2)] (field "n" (.equals (.int32 1))) = false) ∧
    (accepts [("n", .int32 1)]
        ((condition "n" (.compare .gt (.int32 1))).merge (field "n" (.equals (.int32 1)))) = true ∧
      accepts [("n", .int32 1)] (condition "n" (.compare .gt (.int32 1))) = false) := by
  decide

end Filter

/-! ### Calls -/

namespace QueryState

/-- The filter of a query has one predicate at each path. -/
theorem Reachable.nodup_keys {s : QueryState} (h : s.Reachable) :
    (Entries.keys s.filter.fields).Nodup := by
  obtain ⟨calls, h⟩ := h
  have hempty : (Entries.keys ({} : QueryState).filter.fields).Nodup := List.nodup_nil
  refine invariant_of_step (fun s => (Entries.keys s.filter.fields).Nodup) (fun _ => True) ?_
    (fun _ _ => trivial) hempty h
  rintro s call s' - hs hstep
  cases hstep with
  | adds _ _ => exact Filter.nodup_keys_merge hs _
  | _ => exact hs

/-- A call that asks for a predicate of the other kind drops the one that the query has at
the path. -/
theorem accepts_of_addFilter [PatternLanguage] {s s' : QueryState} (hs : s.Reachable)
    {call p : String} {a b : Predicate} (ha : Entries.get? s.filter.fields p = some a)
    (hkinds : a.isLiteral ≠ b.isLiteral) (h : s.addFilter call (.field p b) = .ok s')
    (d : Document) :
    s'.filter.accepts d = ((s.filter.without p).accepts d && b.accepts (Path.resolve d p)) := by
  obtain ⟨-, rfl⟩ := addFilter_eq_ok h
  exact Filter.accepts_merge_field_of_kinds hs.nodup_keys ha hkinds d

end QueryState

end ContentQuery
