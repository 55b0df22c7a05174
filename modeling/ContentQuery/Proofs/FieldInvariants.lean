/-
What holds of the fields of every filter that a query accumulates.

A filter is read, built by a call, or merged from two others, and its operands are
filters again.  So it is enough to look at the fields of a single filter:

* `Filter.Every` — a property of the fields of a filter and of all its operands;
* `ReadInvariant`, `FieldInvariant` — what a property of fields must keep: reading a
  field and merging, and for a query also a call that adds a condition;
* `ReadInvariant.every_of_parse` — then it holds of every filter that has been read
  from a document with distinct keys;
* `FieldInvariant.every_of_calls` — and of every filter that calls have built.
-/
import ContentQuery.Filter.Merge
import ContentQuery.Filter.Parse
import ContentQuery.Proofs.Calls
import ContentQuery.Proofs.Entries

namespace ContentQuery

/-! ### Documents with distinct keys -/

mutual

/-- Whether the keys of every document in a value are distinct. -/
def Value.wellFormed : Value → Bool
  | .document d => Document.wellFormed d
  | .array items => Value.allWellFormed items
  | .scopedCode _ scope => Document.wellFormed scope
  | _ => true

def Value.allWellFormed : List Value → Bool
  | [] => true
  | v :: rest => v.wellFormed && Value.allWellFormed rest

/-- Whether the keys of a document are distinct, and so are those inside it. -/
def Document.wellFormed : List (String × Value) → Bool
  | [] => true
  | (k, v) :: rest => !(Entries.keys rest).contains k && v.wellFormed && Document.wellFormed rest

end

theorem Document.wellFormed_cons {k : String} {v : Value} {rest : Document}
    (h : Document.wellFormed ((k, v) :: rest) = true) :
    k ∉ Entries.keys rest ∧ v.wellFormed = true ∧ Document.wellFormed rest = true := by
  simpa [Document.wellFormed, and_assoc] using h

theorem Document.nodup_keys {d : Document} (h : Document.wellFormed d = true) :
    (Entries.keys d).Nodup := by
  induction d with
  | nil => exact .nil
  | cons e rest ih =>
    obtain ⟨hk, -, hrest⟩ := Document.wellFormed_cons h
    exact List.nodup_cons.mpr ⟨hk, ih hrest⟩

namespace Filter

/-! ### Properties of all fields of a filter -/

mutual

/-- A property of the fields of a filter, of its operands and of theirs. -/
def Every (P : List (String × Predicate) → Prop) : Filter → Prop
  | ⟨fields, allOf, anyOf, _⟩ => P fields ∧ EveryOf P allOf ∧ EveryOf P anyOf

def EveryOf (P : List (String × Predicate) → Prop) : List Filter → Prop
  | [] => True
  | f :: rest => Every P f ∧ EveryOf P rest

end

section Every

variable {P Q : List (String × Predicate) → Prop}

theorem every_iff {f : Filter} :
    f.Every P ↔ P f.fields ∧ EveryOf P f.allOf ∧ EveryOf P f.anyOf := by
  cases f
  rw [Every]

theorem every_empty (h : P []) : ({} : Filter).Every P := ⟨h, trivial, trivial⟩

theorem everyOf_iff {fs : List Filter} : EveryOf P fs ↔ ∀ f ∈ fs, f.Every P := by
  induction fs with
  | nil => simp [EveryOf]
  | cons f rest ih => rw [EveryOf, ih, List.forall_mem_cons]

mutual

theorem Every.imp (h : ∀ fields, P fields → Q fields) : ∀ f : Filter, f.Every P → f.Every Q
  | ⟨_, allOf, anyOf, _⟩, ⟨hfields, hall, hany⟩ =>
    ⟨h _ hfields, EveryOf.imp h allOf hall, EveryOf.imp h anyOf hany⟩

theorem EveryOf.imp (h : ∀ fields, P fields → Q fields) :
    ∀ fs : List Filter, EveryOf P fs → EveryOf Q fs
  | [], _ => trivial
  | f :: rest, ⟨hf, hrest⟩ => ⟨Every.imp h f hf, EveryOf.imp h rest hrest⟩

end

mutual

theorem Every.and : ∀ f : Filter, f.Every P → f.Every Q → f.Every fun fields => P fields ∧ Q fields
  | ⟨_, allOf, anyOf, _⟩, ⟨hp, hpall, hpany⟩, ⟨hq, hqall, hqany⟩ =>
    ⟨⟨hp, hq⟩, EveryOf.and allOf hpall hqall, EveryOf.and anyOf hpany hqany⟩

theorem EveryOf.and : ∀ fs : List Filter, EveryOf P fs → EveryOf Q fs →
    EveryOf (fun fields => P fields ∧ Q fields) fs
  | [], _, _ => trivial
  | f :: rest, ⟨hp, hprest⟩, ⟨hq, hqrest⟩ => ⟨Every.and f hp hq, EveryOf.and rest hprest hqrest⟩

end

theorem EveryOf.append {fs gs : List Filter} (hf : EveryOf P fs) (hg : EveryOf P gs) :
    EveryOf P (fs ++ gs) := by
  rw [everyOf_iff] at hf hg ⊢
  intro f hmem
  exact (List.mem_append.mp hmem).elim (hf f) (hg f)

end Every

/-- A property of fields that reading and merging keep.  A field is read behind
fields of other paths. -/
structure ReadInvariant (P : List (String × Predicate) → Prop) : Prop where
  nil : P []
  read : ∀ (fields : List (String × Predicate)) (key : String) (v : Value) (p : Predicate),
    P fields → key.isEmpty = false → isOperator key = false → key ∉ Entries.keys fields →
    v.wellFormed = true → parsePredicate key v = .ok p → P (fields ++ [(key, p)])
  merge : ∀ a b, P a → P b → P (b.foldl mergeField a)

/-- A property of fields that reading, building and merging keep. -/
structure FieldInvariant (P : List (String × Predicate) → Prop) : Prop extends ReadInvariant P where
  condition : ∀ (key : String) (cond : Condition), key.isEmpty = false →
    P [(key, .conditions [cond])]

namespace ReadInvariant

variable {P : List (String × Predicate) → Prop}

theorem every_empty (hP : ReadInvariant P) : ({} : Filter).Every P := ⟨hP.nil, trivial, trivial⟩

/-- Operands are put side by side, so only the fields have to be looked at. -/
theorem every_merge (hP : ReadInvariant P) {f g : Filter} (hf : f.Every P) (hg : g.Every P) :
    (f.merge g).Every P := by
  obtain ⟨hfields, hall, hany⟩ := every_iff.mp hf
  obtain ⟨hfields', hall', hany'⟩ := every_iff.mp hg
  exact every_iff.mpr ⟨hP.merge _ _ hfields hfields', hall.append hall', hany.append hany'⟩

/-! ### Filters that have been read -/

mutual

theorem every_of_parseOperand (hP : ReadInvariant P) {operator : String} (v : Value) {f : Filter}
    (h : parseOperand operator v = .ok f) (hv : v.wellFormed = true) : f.Every P := by
  cases v with
  | document d => exact every_of_parseFields hP d {} hP.every_empty h hv (by simp [Entries.keys])
  | _ => cases h

theorem everyOf_of_parseOperands (hP : ReadInvariant P) {operator : String} (v : Value)
    {fs : List Filter} (h : parseOperands operator v = .ok fs) (hv : v.wellFormed = true) :
    EveryOf P fs := by
  cases v with
  | array items =>
    cases items with
    | nil => cases h
    | cons first rest => exact everyOf_of_parseEach hP (first :: rest) h hv
  | _ => cases h

theorem everyOf_of_parseEach (hP : ReadInvariant P) {operator : String} (items : List Value)
    {fs : List Filter} (h : parseEach operator items = .ok fs)
    (hv : Value.allWellFormed items = true) : EveryOf P fs := by
  cases items with
  | nil =>
    obtain rfl := Except.ok.inj h
    trivial
  | cons v rest =>
    obtain ⟨hv, hrest⟩ := Bool.and_eq_true_iff.mp hv
    obtain ⟨f, hf, h⟩ := exists_of_bind_ok h
    obtain ⟨fs, hfs, h⟩ := exists_of_bind_ok h
    obtain rfl := Except.ok.inj h
    exact ⟨every_of_parseOperand hP v hf hv, everyOf_of_parseEach hP rest hfs hrest⟩

/-- Reading the fields of a document into a filter that has none of its keys. -/
theorem every_of_parseFields (hP : ReadInvariant P) (d : List (String × Value)) (acc : Filter)
    {f : Filter} (hacc : acc.Every P) (h : parseFields acc d = .ok f)
    (hd : Document.wellFormed d = true)
    (hdisj : ∀ k ∈ Entries.keys d, k ∉ Entries.keys acc.fields) : f.Every P := by
  cases d with
  | nil =>
    obtain rfl := Except.ok.inj h
    exact hacc
  | cons e rest =>
    obtain ⟨key, v⟩ := e
    obtain ⟨hkey, hv, hrest⟩ := Document.wellFormed_cons hd
    obtain ⟨hfields, hall, hany⟩ := every_iff.mp hacc
    have hdisj' : ∀ k ∈ Entries.keys rest, k ∉ Entries.keys acc.fields :=
      fun k hk => hdisj k (List.mem_cons_of_mem _ hk)
    rw [parseFields] at h
    split_ifs at h with hand hor hwhere hop hempty
    · -- operands join the operands, and the fields stay as they are
      obtain ⟨operands, hoperands, h⟩ := exists_of_bind_ok h
      have hread := everyOf_of_parseOperands hP v hoperands hv
      have hacc' : Every P { acc with allOf := acc.allOf ++ operands } :=
        every_iff.mpr ⟨hfields, hall.append hread, hany⟩
      exact every_of_parseFields hP rest _ hacc' h hrest hdisj'
    · obtain ⟨operands, hoperands, h⟩ := exists_of_bind_ok h
      have hread := everyOf_of_parseOperands hP v hoperands hv
      have hacc' : Every P { acc with anyOf := acc.anyOf ++ operands } :=
        every_iff.mpr ⟨hfields, hall, hany.append hread⟩
      exact every_of_parseFields hP rest _ hacc' h hrest hdisj'
    · obtain ⟨script, -, h⟩ := exists_of_bind_ok h
      have hacc' : Every P { acc with script := some script } :=
        every_iff.mpr ⟨hfields, hall, hany⟩
      exact every_of_parseFields hP rest _ hacc' h hrest hdisj'
    · obtain ⟨p, hp, h⟩ := exists_of_bind_ok h
      have hnew := hP.read acc.fields key v p hfields (by simpa using hempty) (by simpa using hop)
        (hdisj key List.mem_cons_self) hv hp
      have hacc' : Every P { acc with fields := acc.fields ++ [(key, p)] } :=
        every_iff.mpr ⟨hnew, hall, hany⟩
      -- the path that is added is none of those that are still to be read
      refine every_of_parseFields hP rest _ hacc' h hrest fun k hk hmem => ?_
      rw [Entries.keys_append] at hmem
      rcases List.mem_append.mp hmem with hmem | hmem
      · exact hdisj' k hk hmem
      · obtain rfl := List.mem_singleton.mp hmem
        exact hkey hk

end

theorem every_of_parse (hP : ReadInvariant P) {d : Document} {f : Filter} (h : parse d = .ok f)
    (hd : Document.wellFormed d = true) : f.Every P :=
  every_of_parseFields hP d {} hP.every_empty h hd (by simp [Entries.keys])

theorem every_of_readPredicate (hP : ReadInvariant P) {d : Document} {f : Filter}
    (h : readPredicate d = .ok f) (hd : Document.wellFormed d = true) : f.Every P := by
  unfold readPredicate at h
  split at h
  · rename_i g hparse
    obtain rfl := Except.ok.inj h
    exact hP.every_of_parse hparse hd
  · cases h

theorem everyOf_of_readPredicates (hP : ReadInvariant P) {ds : List Document} {fs : List Filter}
    (h : readPredicates ds = .ok fs) (hd : ∀ d ∈ ds, Document.wellFormed d = true) :
    EveryOf P fs := by
  induction ds generalizing fs with
  | nil =>
    obtain rfl := Except.ok.inj h
    trivial
  | cons d rest ih =>
    obtain ⟨f, hf, h⟩ := exists_of_bind_ok h
    obtain ⟨fs, hfs, h⟩ := exists_of_bind_ok h
    obtain rfl := Except.ok.inj h
    exact ⟨hP.every_of_readPredicate hf (hd d List.mem_cons_self),
      ih hfs fun d' hd' => hd d' (List.mem_cons_of_mem d hd')⟩

end ReadInvariant

end Filter

/-! ### Filters that calls have built -/

/-- The predicate documents of a call. -/
def Call.predicates : Call → List Document
  | .and operands | .or operands => operands
  | .query d | .queryReferences d => [d]
  | _ => []

theorem QueryState.readPredicate_of_reference {d : Document} {f : Filter}
    (h : readReferencePredicate d = .ok f) : readPredicate d = .ok f := by
  obtain ⟨g, hg, h⟩ := exists_of_bind_ok h
  split_ifs at h
  · cases h
  · split at h
    · cases h
    · rw [hg, ← Except.ok.inj h]

namespace Filter.FieldInvariant

variable {P : List (String × Predicate) → Prop} (hP : FieldInvariant P)
include hP

theorem every_of_contributes {call : Call} {f : Filter} (h : call.Contributes f)
    (hwf : ∀ d ∈ call.predicates, Document.wellFormed d = true)
    (hequals : ∀ key v, call = .equalTo key v → key.isEmpty = false → P [(key, .equals v)]) :
    f.Every P := by
  cases h with
  | condition key cond hkey => exact ⟨hP.condition key cond hkey, trivial, trivial⟩
  | equals hkey => exact ⟨hequals _ _ rfl hkey, trivial, trivial⟩
  | allOf hread => exact ⟨hP.nil, hP.everyOf_of_readPredicates hread hwf, trivial⟩
  | anyOf hread => exact ⟨hP.nil, trivial, hP.everyOf_of_readPredicates hread hwf⟩
  | script => exact ⟨hP.nil, trivial, trivial⟩
  | predicate hread => exact hP.every_of_readPredicate hread (hwf _ (List.mem_singleton.mpr rfl))

/-- What the invariant says of single fields, it says of all that calls accumulate. -/
theorem every_of_calls {calls : List Call} {s : QueryState}
    (hwf : ∀ call ∈ calls, ∀ d ∈ call.predicates, Document.wellFormed d = true)
    (hequals : ∀ key v, .equalTo key v ∈ calls → key.isEmpty = false → P [(key, .equals v)])
    (h : QueryState.applyAll {} calls = .ok s) :
    s.filter.Every P ∧ s.referenceQuery.Every P := by
  refine QueryState.invariant_of_step
    (fun s => s.filter.Every P ∧ s.referenceQuery.Every P) (· ∈ calls) ?_ (fun _ hc => hc)
    ⟨hP.every_empty, hP.every_empty⟩ h
  rintro s call s' hcall ⟨hfilter, href⟩ hstep
  cases hstep with
  | adds _ hf =>
    have hadded := hP.every_of_contributes hf (hwf call hcall)
      fun key v heq hkey => hequals key v (heq ▸ hcall) hkey
    exact ⟨hP.every_merge hfilter hadded, href⟩
  | refers _ hread =>
    have hadded := hP.every_of_readPredicate (QueryState.readPredicate_of_reference hread)
      (hwf _ hcall _ (List.mem_singleton.mpr rfl))
    exact ⟨hfilter, hP.every_merge href hadded⟩
  | _ => exact ⟨hfilter, href⟩

end Filter.FieldInvariant

end ContentQuery
