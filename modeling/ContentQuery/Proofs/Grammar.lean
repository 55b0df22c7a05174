/-
The grammar of predicate documents.

An entry of a predicate document is a combinator with operands, a script, or a plain key
with what it asks of its field.  `Entry` says which entries there are, at every depth, and
`Written` what a filter has of each of them:

* `parseCondition_eq_ok_iff`, `exists_parsePredicate_iff` — which operators can be read, one
  by one and together;
* `parse_cons` — a document is read entry by entry;
* `exists_parse_iff` — so the documents that can be read are just those of the grammar;
* `readPredicate_iff_grammatical` — any other document is refused as an argument, and a
  filter that is read has everything that its document asks for, in order.
-/
import ContentQuery.Proofs.RoundTrip
import ContentQuery.StoredDocument

namespace ContentQuery.Filter

/-- Every item of a list can be related to something if the list can be to some list. -/
theorem exists_forall₂_iff {α β : Type} {R : α → β → Prop} {xs : List α} :
    (∃ ys, List.Forall₂ R xs ys) ↔ ∀ x ∈ xs, ∃ y, R x y := by
  induction xs with
  | nil => simp
  | cons x rest ih =>
    simp only [List.forall₂_cons_left_iff, List.forall_mem_cons, ← ih]
    constructor
    · rintro ⟨_, y, ys, hy, hys, rfl⟩
      exact ⟨⟨y, hy⟩, ys, hys⟩
    · rintro ⟨⟨y, hy⟩, ys, hys⟩
      exact ⟨_, y, ys, hy, hys, rfl⟩

/-! ### What a field can be asked -/

/-- The condition that an operator makes of the values that it takes, beside the options
of a pattern. -/
inductive Makes (options : String) : String → Value → Condition → Prop
  | compare (op : Comparison) (v : Value) : Makes options op.operator v (.compare op v)
  | oneOf (items : List Value) : Makes options "$in" (.array items) (.oneOf items)
  | noneOf (items : List Value) : Makes options "$nin" (.array items) (.noneOf items)
  | presentBool (b : Bool) : Makes options "$exists" (.bool b) (.present b)
  | presentInt32 (n : Int32) : Makes options "$exists" (.int32 n) (.present (n != 0))
  | presentInt64 (n : Int64) : Makes options "$exists" (.int64 n) (.present (n != 0))
  | pattern (text : String) : Makes options "$regex" (.string text) (.pattern text options)

/-- Whether an operator takes a value does not hang on the options of a pattern. -/
theorem Makes.withOptions {options operator : String} {v : Value} {c : Condition}
    (h : Makes options operator v c) (options' : String) : ∃ c', Makes options' operator v c' := by
  cases h with
  | compare op => exact ⟨_, .compare op v⟩
  | oneOf items => exact ⟨_, .oneOf items⟩
  | noneOf items => exact ⟨_, .noneOf items⟩
  | presentBool b => exact ⟨_, .presentBool b⟩
  | presentInt32 n => exact ⟨_, .presentInt32 n⟩
  | presentInt64 n => exact ⟨_, .presentInt64 n⟩
  | pattern text => exact ⟨_, .pattern text⟩

/-- A document is not empty and all its keys begin with a dollar sign. -/
def OnlyOperators (d : Document) : Prop := d ≠ [] ∧ ∀ k ∈ Entries.keys d, isOperator k = true

/-- The operators that a field can be asked for together: all are known and take their
values, the options are a string, and there is more than options. -/
structure Askable (ops : Document) : Prop where
  takes : ∀ e ∈ ops, e.1 ≠ "$options" → ∃ options c, Makes options e.1 e.2 c
  options : ∀ v, Entries.get? ops "$options" = some v → ∃ text, v = .string text
  condition : ∃ e ∈ ops, e.1 ≠ "$options"

/-- The options that a document of operators gives to a pattern. -/
def optionsOf (ops : Document) : String := (Document.stringAt? ops "$options").getD ""

/-- A predicate is what a plain key with a value asks of its field. -/
inductive Asks : Value → Predicate → Prop
  | equals {v : Value} : (∀ d, v = .document d → ¬ OnlyOperators d) → Asks v (.equals v)
  | conditions {ops : Document} {conds : List Condition} : OnlyOperators ops →
      List.Forall₂ (fun e c => Makes (optionsOf ops) e.1 e.2 c)
        (ops.filter fun e => e.1 ≠ "$options") conds →
      Asks (.document ops) (.conditions conds)

theorem parseCondition_eq_ok_iff {field options operator : String} {v : Value} {c : Condition} :
    parseCondition field options operator v = .ok c ↔ Makes options operator v c := by
  constructor
  · intro h
    unfold parseCondition at h
    split at h
    -- the six comparisons take any value
    · exact Except.ok.inj h ▸ .compare .eq v
    · exact Except.ok.inj h ▸ .compare .ne v
    · exact Except.ok.inj h ▸ .compare .gt v
    · exact Except.ok.inj h ▸ .compare .gte v
    · exact Except.ok.inj h ▸ .compare .lt v
    · exact Except.ok.inj h ▸ .compare .lte v
    · split at h
      · exact Except.ok.inj h ▸ .oneOf _
      · cases h
    · split at h
      · exact Except.ok.inj h ▸ .noneOf _
      · cases h
    · split at h
      · exact Except.ok.inj h ▸ .presentBool _
      · exact Except.ok.inj h ▸ .presentInt32 _
      · exact Except.ok.inj h ▸ .presentInt64 _
      · cases h
    · split at h
      · exact Except.ok.inj h ▸ .pattern _
      · cases h
    · cases h
  · intro h
    cases h with
    | compare op => cases op <;> rfl
    | _ => rfl

theorem parseConditions_eq_ok_iff {field options : String} {ops : Document}
    {conds : List Condition} :
    parseConditions field options ops = .ok conds ↔
      List.Forall₂ (fun e c => Makes options e.1 e.2 c)
        (ops.filter fun e => e.1 ≠ "$options") conds := by
  induction ops generalizing conds with
  | nil =>
    rw [parseConditions, List.filter_nil, List.forall₂_nil_left_iff, Except.ok.injEq, eq_comm]
  | cons e rest ih =>
    obtain ⟨op, v⟩ := e
    rw [parseConditions]
    by_cases hop : op = "$options"
    · rw [if_pos hop, List.filter_cons_of_neg (by simpa using hop), ih]
    · rw [if_neg hop, List.filter_cons_of_pos (by simpa using hop), List.forall₂_cons_left_iff]
      constructor
      · intro h
        obtain ⟨c, hc, h⟩ := exists_of_bind_ok h
        obtain ⟨cs, hcs, h⟩ := exists_of_bind_ok h
        obtain rfl := Except.ok.inj h
        exact ⟨c, cs, parseCondition_eq_ok_iff.mp hc, ih.mp hcs, rfl⟩
      · rintro ⟨c, cs, hc, hcs, rfl⟩
        rw [parseCondition_eq_ok_iff.mpr hc, ih.mpr hcs]
        rfl

theorem parseOptions_eq_ok_iff {field options : String} {ops : Document} :
    parseOptions field ops = .ok options ↔
      (∀ v, Entries.get? ops "$options" = some v → ∃ text, v = .string text) ∧
        options = optionsOf ops := by
  unfold parseOptions optionsOf Document.stringAt?
  cases Entries.get? ops "$options" with
  | none => simp [eq_comm]
  | some v => cases v <;> simp [Value.string?, eq_comm]

theorem parsePredicate_of_notOperators (key : String) {v : Value}
    (h : ∀ d, v = .document d → ¬ OnlyOperators d) : parsePredicate key v = .ok (.equals v) := by
  have hnone : operators? v = none := by
    rw [Option.eq_none_iff_forall_ne_some]
    intro ops hops
    obtain ⟨rfl, hne, hall⟩ := operators?_eq_some_iff.mp hops
    exact h ops rfl ⟨hne, hall⟩
  rw [parsePredicate, hnone]

theorem parsePredicate_of_onlyOperators {key : String} {ops : Document} (h : OnlyOperators ops)
    {p : Predicate} :
    parsePredicate key (.document ops) = .ok p ↔
      (∀ v, Entries.get? ops "$options" = some v → ∃ text, v = .string text) ∧
      ∃ conds, conds ≠ [] ∧ p = .conditions conds ∧
        List.Forall₂ (fun e c => Makes (optionsOf ops) e.1 e.2 c)
          (ops.filter fun e => e.1 ≠ "$options") conds := by
  have hops : operators? (.document ops) = some ops := operators?_eq_some_iff.mpr ⟨rfl, h⟩
  rw [parsePredicate, hops]
  constructor
  · intro h
    obtain ⟨options, hoptions, h⟩ := exists_of_bind_ok h
    obtain ⟨htext, rfl⟩ := parseOptions_eq_ok_iff.mp hoptions
    obtain ⟨conds, hconds, h⟩ := exists_of_bind_ok h
    split_ifs at h with hempty
    exact ⟨htext, conds, by simpa using hempty, (Except.ok.inj h).symm,
      parseConditions_eq_ok_iff.mp hconds⟩
  · rintro ⟨htext, conds, hne, rfl, hconds⟩
    show (parseOptions key ops >>= fun options => _) = _
    rw [parseOptions_eq_ok_iff.mpr ⟨htext, rfl⟩]
    show (parseConditions key _ ops >>= fun conds => _) = _
    rw [parseConditions_eq_ok_iff.mpr hconds]
    exact if_neg (by simpa using hne)

/-- What is read of a plain key is what it asks of its field. -/
theorem asks_of_parsePredicate {key : String} {v : Value} {p : Predicate}
    (h : parsePredicate key v = .ok p) : Asks v p := by
  by_cases hv : ∃ d, v = .document d ∧ OnlyOperators d
  · obtain ⟨ops, rfl, hops⟩ := hv
    obtain ⟨-, conds, -, rfl, hconds⟩ := (parsePredicate_of_onlyOperators hops).mp h
    exact .conditions hops hconds
  · have hv' : ∀ d, v = .document d → ¬ OnlyOperators d := fun d heq hd => hv ⟨d, heq, hd⟩
    rw [parsePredicate_of_notOperators key hv'] at h
    obtain rfl := Except.ok.inj h
    exact .equals hv'

/-- Some operators are read just when a field can be asked for them. -/
theorem exists_parsePredicate_iff {key : String} {ops : Document} (h : OnlyOperators ops) :
    (∃ p, parsePredicate key (.document ops) = .ok p) ↔ Askable ops := by
  have htakes : (∃ conds, List.Forall₂ (fun e c => Makes (optionsOf ops) e.1 e.2 c)
      (ops.filter fun e => e.1 ≠ "$options") conds) ↔
      ∀ e ∈ ops, e.1 ≠ "$options" → ∃ c, Makes (optionsOf ops) e.1 e.2 c := by
    rw [exists_forall₂_iff]
    simp [and_imp]
  constructor
  · rintro ⟨p, hp⟩
    obtain ⟨htext, conds, hne, -, hconds⟩ := (parsePredicate_of_onlyOperators h).mp hp
    refine ⟨fun e he hop => ⟨_, htakes.mp ⟨conds, hconds⟩ e he hop⟩, htext, ?_⟩
    obtain ⟨c, cs, rfl⟩ := List.exists_cons_of_ne_nil hne
    obtain ⟨e, es, -, -, hes⟩ := List.forall₂_cons_right_iff.mp hconds
    have hmem : e ∈ ops.filter fun e => e.1 ≠ "$options" := hes ▸ List.mem_cons_self
    obtain ⟨he, hop⟩ := List.mem_filter.mp hmem
    exact ⟨e, he, by simpa using hop⟩
  · intro hask
    obtain ⟨conds, hconds⟩ := htakes.mpr fun e he hop => by
      obtain ⟨options, c, hc⟩ := hask.takes e he hop
      exact hc.withOptions (optionsOf ops)
    refine ⟨_, (parsePredicate_of_onlyOperators h).mpr
      ⟨hask.options, conds, ?_, rfl, hconds⟩⟩
    rintro rfl
    obtain ⟨e, he, hop⟩ := hask.condition
    have hmem : e ∈ ops.filter fun e => e.1 ≠ "$options" :=
      List.mem_filter.mpr ⟨he, by simpa using hop⟩
    rw [List.forall₂_nil_right_iff.mp hconds] at hmem
    cases hmem

/-! ### Entries -/

/-- The entries of predicate documents. -/
inductive Entry : String → Value → Prop
  | operands {key : String} {docs : List Document} : key = "$and" ∨ key = "$or" → docs ≠ [] →
      (∀ d ∈ docs, ∀ e ∈ d, Entry e.1 e.2) → Entry key (.array (docs.map .document))
  | script (text : String) : Entry "$where" (.string text)
  | code (text : String) : Entry "$where" (.code text)
  | equals {key : String} {v : Value} : key ≠ "" → isOperator key = false →
      (∀ d, v = .document d → ¬ OnlyOperators d) → Entry key v
  | conditions {key : String} {ops : Document} : key ≠ "" → isOperator key = false →
      OnlyOperators ops → Askable ops → Entry key (.document ops)

/-- A document of such entries. -/
def Grammatical (d : Document) : Prop := ∀ e ∈ d, Entry e.1 e.2

/-- Reading a document is reading its first entry and then the others. -/
theorem parse_cons (e : String × Value) (rest : Document) :
    parse (e :: rest) = (parse [e]).bind fun h => (parse rest).map fun g => g.behind h := by
  have hsplit := parseFields_append {} [e] rest
  have hrest : (fun h => parseFields h rest) = fun h => (parse rest).map fun g => g.behind h := by
    funext h
    have hbehind := parseFields_behind rest {} h
    rwa [empty_behind] at hbehind
  rw [List.singleton_append, hrest] at hsplit
  exact hsplit

theorem parse_cons_eq_ok_iff {e : String × Value} {rest : Document} {f : Filter} :
    parse (e :: rest) = .ok f ↔
      ∃ h g, parse [e] = .ok h ∧ parse rest = .ok g ∧ f = g.behind h := by
  rw [parse_cons]
  cases parse [e] with
  | error cause => simp [Except.bind]
  | ok h =>
    cases parse rest with
    | error cause => simp [Except.bind, Except.map]
    | ok g => simp [Except.bind, Except.map, eq_comm]

/-- A document can be read when each of its entries can. -/
theorem exists_parse_iff_entries {d : Document} :
    (∃ f, parse d = .ok f) ↔ ∀ e ∈ d, ∃ f, parse [e] = .ok f := by
  induction d with
  | nil => simp [parse, parseFields]
  | cons e rest ih =>
    rw [List.forall_mem_cons, ← ih]
    constructor
    · rintro ⟨f, hf⟩
      obtain ⟨h, g, hh, hg, -⟩ := parse_cons_eq_ok_iff.mp hf
      exact ⟨⟨h, hh⟩, g, hg⟩
    · rintro ⟨⟨h, hh⟩, g, hg⟩
      exact ⟨_, parse_cons_eq_ok_iff.mpr ⟨h, g, hh, hg, rfl⟩⟩

/-! ### Operands -/

theorem parseEach_eq_ok_iff {operator : String} {items : List Value} {fs : List Filter} :
    parseEach operator items = .ok fs ↔
      ∃ docs : List Document, items = docs.map .document ∧
        List.Forall₂ (fun d f => parse d = .ok f) docs fs := by
  induction items generalizing fs with
  | nil =>
    rw [parseEach]
    constructor
    · intro h
      obtain rfl := Except.ok.inj h
      exact ⟨[], rfl, .nil⟩
    · rintro ⟨docs, hdocs, hall⟩
      obtain rfl := List.map_eq_nil_iff.mp hdocs.symm
      rw [List.forall₂_nil_left_iff.mp hall]
  | cons v rest ih =>
    rw [parseEach]
    constructor
    · intro h
      obtain ⟨f, hf, h⟩ := exists_of_bind_ok h
      obtain ⟨gs, hgs, h⟩ := exists_of_bind_ok h
      obtain rfl := Except.ok.inj h
      obtain ⟨docs, rfl, hall⟩ := ih.mp hgs
      cases v with
      | document d => exact ⟨d :: docs, rfl, .cons hf hall⟩
      | _ => cases hf
    · rintro ⟨docs, hdocs, hall⟩
      obtain ⟨d, docs, rfl, rfl, rfl⟩ := List.map_eq_cons_iff.mp hdocs.symm
      obtain ⟨f, gs, hf, hgs, rfl⟩ := List.forall₂_cons_left_iff.mp hall
      have hread : parseOperand operator (.document d) = .ok f := hf
      rw [hread, ih.mpr ⟨docs, rfl, hgs⟩]
      rfl

/-- The operands of a combinator are documents that can be read, at least one. -/
theorem parseOperands_eq_ok_iff {operator : String} {v : Value} {fs : List Filter} :
    parseOperands operator v = .ok fs ↔
      ∃ docs : List Document, v = .array (docs.map .document) ∧ docs ≠ [] ∧
        List.Forall₂ (fun d f => parse d = .ok f) docs fs := by
  cases v with
  | array items =>
    cases items with
    | nil =>
      constructor
      · intro h
        cases h
      · rintro ⟨docs, hdocs, hne, -⟩
        exact absurd (List.map_eq_nil_iff.mp (Value.array.inj hdocs).symm) hne
    | cons first rest =>
      rw [parseOperands_cons, parseEach_eq_ok_iff]
      constructor
      · rintro ⟨docs, hdocs, hall⟩
        refine ⟨docs, congrArg _ hdocs, ?_, hall⟩
        rintro rfl
        cases hdocs
      · rintro ⟨docs, hdocs, -, hall⟩
        exact ⟨docs, Value.array.inj hdocs, hall⟩
  | _ =>
    constructor
    · intro h
      cases h
    · rintro ⟨docs, hdocs, -⟩
      cases hdocs

/-! ### One entry -/

section Single

variable {key : String} {v : Value} {f : Filter}

theorem parse_and : parse [("$and", v)] = .ok f ↔
    ∃ fs, parseOperands "$and" v = .ok fs ∧ f = { allOf := fs } := by
  rw [parse, parseFields, if_pos rfl]
  cases parseOperands "$and" v with
  | error cause => simp [bind, Except.bind]
  | ok fs => simp [bind, Except.bind, parseFields, eq_comm]

theorem parse_or : parse [("$or", v)] = .ok f ↔
    ∃ fs, parseOperands "$or" v = .ok fs ∧ f = { anyOf := fs } := by
  rw [parse, parseFields, if_neg (by decide), if_pos rfl]
  cases parseOperands "$or" v with
  | error cause => simp [bind, Except.bind]
  | ok fs => simp [bind, Except.bind, parseFields, eq_comm]

theorem parse_where : parse [("$where", v)] = .ok f ↔
    ∃ text, (v = .string text ∨ v = .code text) ∧ f = { script := some text } := by
  rw [parse, parseFields, if_neg (by decide), if_neg (by decide), if_pos rfl]
  cases v <;> simp [parseScript, bind, Except.bind, parseFields, eq_comm]

theorem parse_plain (hne : key ≠ "") (hop : isOperator key = false) :
    parse [(key, v)] = .ok f ↔
      ∃ p, parsePredicate key v = .ok p ∧ f = { fields := [(key, p)] } := by
  have hempty : key.isEmpty = false := by simpa using hne
  rw [parse, parseFields, if_neg (ne_of_isOperator hop (by decide)),
    if_neg (ne_of_isOperator hop (by decide)), if_neg (ne_of_isOperator hop (by decide)),
    if_neg (by simp [hop]), if_neg (by simp [hempty])]
  cases parsePredicate key v with
  | error cause => simp [bind, Except.bind]
  | ok p => simp [bind, Except.bind, parseFields, eq_comm]

/-- An entry that can be read has one of the three operators as its key, or a plain key. -/
theorem key_of_parse (h : parse [(key, v)] = .ok f) :
    key = "$and" ∨ key = "$or" ∨ key = "$where" ∨ (key ≠ "" ∧ isOperator key = false) := by
  rw [parse, parseFields] at h
  split_ifs at h with hand hor hwhere hop hempty
  · exact .inl hand
  · exact .inr (.inl hor)
  · exact .inr (.inr (.inl hwhere))
  · exact .inr (.inr (.inr ⟨by simpa using hempty, by simpa using hop⟩))

end Single

/-- What is read of an entry of the grammar. -/
theorem Entry.exists_parse {key : String} {v : Value} (h : Entry key v) :
    ∃ f, parse [(key, v)] = .ok f := by
  induction h with
  | @operands key docs hkey hne _ ih =>
    obtain ⟨fs, hfs⟩ := exists_forall₂_iff.mpr fun d hd => exists_parse_iff_entries.mpr (ih d hd)
    have hoperands (operator : String) :
        parseOperands operator (.array (docs.map .document)) = .ok fs :=
      parseOperands_eq_ok_iff.mpr ⟨docs, rfl, hne, hfs⟩
    rcases hkey with rfl | rfl
    · exact ⟨_, parse_and.mpr ⟨fs, hoperands _, rfl⟩⟩
    · exact ⟨_, parse_or.mpr ⟨fs, hoperands _, rfl⟩⟩
  | script text => exact ⟨_, parse_where.mpr ⟨text, .inl rfl, rfl⟩⟩
  | code text => exact ⟨_, parse_where.mpr ⟨text, .inr rfl, rfl⟩⟩
  | equals hne hop hv =>
    exact ⟨_, (parse_plain hne hop).mpr ⟨_, parsePredicate_of_notOperators _ hv, rfl⟩⟩
  | conditions hne hop hops hask =>
    obtain ⟨p, hp⟩ := (exists_parsePredicate_iff hops).mpr hask
    exact ⟨_, (parse_plain hne hop).mpr ⟨p, hp, rfl⟩⟩

/-- Operands are smaller than the array that holds them. -/
theorem sizeOf_operand {docs : List Document} {d : Document} (hd : d ∈ docs) {e : String × Value}
    (he : e ∈ d) : sizeOf e.2 < sizeOf (Value.array (docs.map .document)) := by
  have hdoc := List.sizeOf_lt_of_mem (List.mem_map_of_mem (f := Value.document) hd)
  have hentry := List.sizeOf_lt_of_mem he
  obtain ⟨k, v⟩ := e
  simp only [Value.array.sizeOf_spec, Value.document.sizeOf_spec, Prod.mk.sizeOf_spec] at *
  omega

/-- An entry that can be read is one of the grammar. -/
theorem entry_of_parse {key : String} {v : Value} {f : Filter} (h : parse [(key, v)] = .ok f) :
    Entry key v := by
  -- what is read of the operands of a combinator is smaller than they are
  have hoperands (operator : String) (fs : List Filter)
      (hread : parseOperands operator v = .ok fs) : ∃ docs : List Document,
      v = .array (docs.map .document) ∧ docs ≠ [] ∧ ∀ d ∈ docs, ∀ e ∈ d, Entry e.1 e.2 := by
    obtain ⟨docs, rfl, hne, hall⟩ := parseOperands_eq_ok_iff.mp hread
    refine ⟨docs, rfl, hne, fun d hd e he => ?_⟩
    have hsize := sizeOf_operand hd he
    obtain ⟨g, hg⟩ := exists_parse_iff_entries.mp (exists_forall₂_iff.mp ⟨fs, hall⟩ d hd) e he
    exact entry_of_parse hg
  rcases key_of_parse h with rfl | rfl | rfl | ⟨hne, hop⟩
  · obtain ⟨fs, hfs, -⟩ := parse_and.mp h
    obtain ⟨docs, rfl, hne, hdocs⟩ := hoperands _ fs hfs
    exact .operands (.inl rfl) hne hdocs
  · obtain ⟨fs, hfs, -⟩ := parse_or.mp h
    obtain ⟨docs, rfl, hne, hdocs⟩ := hoperands _ fs hfs
    exact .operands (.inr rfl) hne hdocs
  · obtain ⟨text, rfl | rfl, -⟩ := parse_where.mp h
    · exact .script text
    · exact .code text
  · obtain ⟨p, hp, -⟩ := (parse_plain hne hop).mp h
    by_cases hv : ∃ d, v = .document d ∧ OnlyOperators d
    · obtain ⟨ops, rfl, hops⟩ := hv
      exact .conditions hne hop hops ((exists_parsePredicate_iff hops).mp ⟨p, hp⟩)
    · exact .equals hne hop fun d heq hd => hv ⟨d, heq, hd⟩
termination_by sizeOf v

/-- The documents that can be read are those of the grammar. -/
theorem exists_parse_iff {d : Document} : (∃ f, parse d = .ok f) ↔ Grammatical d := by
  rw [exists_parse_iff_entries]
  constructor
  · intro h e he
    obtain ⟨f, hf⟩ := h e he
    exact entry_of_parse hf
  · intro h e he
    exact (h e he).exists_parse

/-! ### What is read -/

/-- The documents in an array. -/
def documentsIn : Value → List Document
  | .array items => items.filterMap Value.document?
  | _ => []

/-- The operands that a document has for a combinator, in order. -/
def operandsOf (operator : String) (d : Document) : List Document :=
  (d.filter fun e => e.1 = operator).flatMap fun e => documentsIn e.2

/-- The text of a script. -/
def scriptText? : Value → Option String
  | .string text => some text
  | .code text => some text
  | _ => none

/-- The scripts that a document has, in order. -/
def scriptsOf (d : Document) : List String :=
  (d.filter fun e => e.1 = "$where").filterMap fun e => scriptText? e.2

/-- The entries of a document under plain keys, in order. -/
def plainEntries (d : Document) : Document := d.filter fun e => !isOperator e.1

/-- A field is what an entry under a plain key asks for. -/
def AsksField (e : String × Value) (field : String × Predicate) : Prop :=
  field.1 = e.1 ∧ Asks e.2 field.2

/-- A filter has everything that a document asks for: for each plain key what it asks of
its field, for each operand the filter that is read of it, and the last script. -/
structure Written (d : Document) (f : Filter) : Prop where
  fields : List.Forall₂ AsksField (plainEntries d) f.fields
  allOf : List.Forall₂ (fun operand g => readPredicate operand = .ok g)
    (operandsOf "$and" d) f.allOf
  anyOf : List.Forall₂ (fun operand g => readPredicate operand = .ok g)
    (operandsOf "$or" d) f.anyOf
  script : f.script = (scriptsOf d).getLast?

theorem readPredicate_eq_ok_iff {d : Document} {f : Filter} :
    readPredicate d = .ok f ↔ parse d = .ok f := by
  unfold readPredicate
  cases parse d <;> simp [refuse]

theorem documentsIn_array (docs : List Document) :
    documentsIn (.array (docs.map .document)) = docs := by
  simp [documentsIn, List.filterMap_map, Function.comp_def, Value.document?]

namespace Written

/-- The parts of a document are read one behind the other. -/
theorem append {a b : Document} {f g : Filter} (ha : Written a f) (hb : Written b g) :
    Written (a ++ b) (g.behind f) where
  fields := by
    rw [plainEntries, List.filter_append]
    exact List.rel_append ha.fields hb.fields
  allOf := by
    rw [operandsOf, List.filter_append, List.flatMap_append]
    exact List.rel_append ha.allOf hb.allOf
  anyOf := by
    rw [operandsOf, List.filter_append, List.flatMap_append]
    exact List.rel_append ha.anyOf hb.anyOf
  script := by
    rw [scriptsOf, List.filter_append, List.filterMap_append, List.getLast?_append]
    exact congrArg₂ Option.or hb.script ha.script

/-- What is read of the operands of a combinator. -/
theorem operands {operator : String} {v : Value} {fs : List Filter}
    (h : parseOperands operator v = .ok fs) :
    List.Forall₂ (fun operand g => readPredicate operand = .ok g) (documentsIn v) fs := by
  obtain ⟨docs, rfl, -, hall⟩ := parseOperands_eq_ok_iff.mp h
  rw [documentsIn_array]
  exact hall.imp fun _ _ hread => readPredicate_eq_ok_iff.mpr hread

theorem single {key : String} {v : Value} {f : Filter} (h : parse [(key, v)] = .ok f) :
    Written [(key, v)] f := by
  have hfields {operator : String} (hop : isOperator operator = true) (v : Value) :
      List.Forall₂ AsksField (plainEntries [(operator, v)]) [] := by
    rw [plainEntries, List.filter_cons_of_neg (by simpa using hop), List.filter_nil]
    exact .nil
  rcases key_of_parse h with rfl | rfl | rfl | ⟨hne, hop⟩
  · obtain ⟨fs, hfs, rfl⟩ := parse_and.mp h
    exact ⟨hfields (by decide) _, by simpa [operandsOf] using operands hfs, .nil, rfl⟩
  · obtain ⟨fs, hfs, rfl⟩ := parse_or.mp h
    exact ⟨hfields (by decide) _, .nil, by simpa [operandsOf] using operands hfs, rfl⟩
  · obtain ⟨text, rfl | rfl, rfl⟩ := parse_where.mp h
    · exact ⟨hfields (by decide) _, .nil, .nil, rfl⟩
    · exact ⟨hfields (by decide) _, .nil, .nil, rfl⟩
  · obtain ⟨p, hp, rfl⟩ := (parse_plain hne hop).mp h
    have hne' (operator : String) (h : isOperator operator = true) : key ≠ operator :=
      ne_of_isOperator hop h
    refine ⟨?_, ?_, ?_, ?_⟩
    · rw [plainEntries, List.filter_cons_of_pos (by simpa using hop)]
      exact .cons ⟨rfl, asks_of_parsePredicate hp⟩ .nil
    · simp [operandsOf, hne' "$and" (by decide)]
    · simp [operandsOf, hne' "$or" (by decide)]
    · simp [scriptsOf, hne' "$where" (by decide)]

end Written

theorem written_of_parse {d : Document} {f : Filter} (h : parse d = .ok f) : Written d f := by
  induction d generalizing f with
  | nil =>
    rw [parse, parseFields] at h
    obtain rfl := Except.ok.inj h
    exact ⟨.nil, .nil, .nil, rfl⟩
  | cons e rest ih =>
    obtain ⟨h, g, hh, hg, rfl⟩ := parse_cons_eq_ok_iff.mp h
    exact (Written.single hh).append (ih hg)

/-- The documents of the grammar, and no others, are read, and what is read of one has
everything that it asks for.  Any other document is refused as an argument. -/
theorem readPredicate_iff_grammatical (d : Document) :
    ((∃ f, readPredicate d = .ok f ∧ Written d f) ↔ Grammatical d) ∧
      ((∃ cause, readPredicate d = .error (.invalidArgument cause)) ↔ ¬ Grammatical d) := by
  rw [← exists_parse_iff]
  cases hparse : parse d with
  | ok f =>
    have hread : readPredicate d = .ok f := readPredicate_eq_ok_iff.mpr hparse
    have hwritten := written_of_parse hparse
    simp [hread, hwritten]
  | error cause =>
    have hread : readPredicate d = .error (.invalidArgument cause) := by
      rw [readPredicate, hparse]
      rfl
    simp [hread]

end ContentQuery.Filter
