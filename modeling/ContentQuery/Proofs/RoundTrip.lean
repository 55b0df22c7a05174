/-
Writing filters and reading them back.

A filter without collisions can be read back from the document that it is written
as, also when its paths are renamed on the way:

* `parsePredicate_renderPredicate` — one predicate, of a value or of conditions;
* `renderWith_eq` — the parts of a written filter stand one behind the other;
* `parseFields_renderWith` — reading them gives the filter with its paths renamed,
  behind whatever has been read before.
-/
import ContentQuery.Filter.Render
import ContentQuery.Proofs.Regular
import Mathlib.Data.List.Nodup

namespace ContentQuery

/-! ### One predicate -/

/-- What a condition writes into a document of operators. -/
def Condition.entries : Condition → Document
  | .compare op v => [(op.operator, v)]
  | .oneOf items => [("$in", .array items)]
  | .noneOf items => [("$nin", .array items)]
  | .present wanted => [("$exists", .bool wanted)]
  | .pattern text options => [("$regex", .string text), ("$options", .string options)]

theorem Condition.key_of_mem_entries {c : Condition} {k : String} (h : k ∈ Entries.keys c.entries) :
    k = c.operator ∨ (k = "$options" ∧ c.operator = "$regex") := by
  cases c with
  | pattern text options =>
    rcases List.mem_cons.mp h with rfl | h
    · exact .inl rfl
    · exact .inr ⟨List.mem_singleton.mp h, rfl⟩
  | _ => exact .inl (List.mem_singleton.mp h)

theorem Condition.operator_mem (c : Condition) :
    c.operator ∈ ["$eq", "$ne", "$gt", "$gte", "$lt", "$lte", "$in", "$nin", "$exists",
      "$regex"] := by
  cases c with
  | compare op v => cases op <;> simp [operator, Comparison.operator]
  | _ => simp [operator]

theorem Condition.operator_ne_options (c : Condition) : c.operator ≠ "$options" :=
  (by decide : ∀ op ∈ ["$eq", "$ne", "$gt", "$gte", "$lt", "$lte", "$in", "$nin", "$exists",
    "$regex"], op ≠ "$options") _ c.operator_mem

theorem Condition.isOperator_operator (c : Condition) : Filter.isOperator c.operator = true :=
  (by decide : ∀ op ∈ ["$eq", "$ne", "$gt", "$gte", "$lt", "$lte", "$in", "$nin", "$exists",
    "$regex"], Filter.isOperator op = true) _ c.operator_mem

theorem Condition.isOperator_of_mem_entries {c : Condition} {k : String}
    (h : k ∈ Entries.keys c.entries) : Filter.isOperator k = true := by
  rcases key_of_mem_entries h with rfl | ⟨rfl, -⟩
  · exact c.isOperator_operator
  · decide

/-- Conditions of different operators write different keys. -/
theorem Condition.disjoint_entries {c c' : Condition} (h : c.operator ≠ c'.operator) {k : String}
    (hk : k ∈ Entries.keys c.entries) : k ∉ Entries.keys c'.entries := by
  intro hk'
  rcases key_of_mem_entries hk with rfl | ⟨rfl, hregex⟩
  · rcases key_of_mem_entries hk' with heq | ⟨heq, -⟩
    · exact h heq
    · exact c.operator_ne_options heq
  · rcases key_of_mem_entries hk' with heq | ⟨-, hregex'⟩
    · exact c'.operator_ne_options heq.symm
    · exact h (hregex.trans hregex'.symm)

namespace Filter

theorem renderCondition_eq {out : Document} {c : Condition}
    (h : ∀ k ∈ Entries.keys c.entries, k ∉ Entries.keys out) :
    renderCondition out c = out ++ c.entries := by
  cases c with
  | pattern text options =>
    have hregex := h "$regex" List.mem_cons_self
    have hoptions : "$options" ∉ Entries.keys (out ++ [("$regex", Value.string text)]) := by
      rw [Entries.keys_append]
      intro hmem
      rcases List.mem_append.mp hmem with hmem | hmem
      · exact h "$options" (List.mem_cons_of_mem _ List.mem_cons_self) hmem
      · exact (by decide : "$options" ≠ "$regex") (List.mem_singleton.mp hmem)
    rw [renderCondition, Entries.insert_of_notMem hregex, Entries.insert_of_notMem hoptions,
      List.append_assoc]
    rfl
  | _ => exact Entries.insert_of_notMem (h _ List.mem_cons_self) _

/-- Conditions of distinct operators are written one behind the other. -/
theorem foldl_renderCondition {conds : List Condition}
    (h : (conds.map Condition.operator).Nodup) :
    conds.foldl renderCondition [] = conds.flatMap Condition.entries := by
  suffices hacc : ∀ out : Document,
      (∀ c ∈ conds, ∀ k ∈ Entries.keys c.entries, k ∉ Entries.keys out) →
      conds.foldl renderCondition out = out ++ conds.flatMap Condition.entries from
    hacc [] (by simp [Entries.keys])
  induction conds with
  | nil => simp
  | cons c rest ih =>
    obtain ⟨hc, hrest⟩ := List.nodup_cons.mp h
    intro out hout
    rw [List.foldl_cons, renderCondition_eq (hout c List.mem_cons_self), ih hrest,
      List.append_assoc]
    · rfl
    · intro c' hc' k hk hmem
      rw [Entries.keys_append] at hmem
      rcases List.mem_append.mp hmem with hmem | hmem
      · exact hout c' (List.mem_cons_of_mem c hc') k hk hmem
      · have hne : c.operator ≠ c'.operator :=
          fun heq => hc (List.mem_map.mpr ⟨c', hc', heq.symm⟩)
        exact Condition.disjoint_entries hne hmem hk

/-- A written condition reads back, with the options of its pattern if it is one. -/
theorem parseConditions_entries {field options : String} {c : Condition} {tail : Document}
    {cs : List Condition} (h : ∀ text own, c = .pattern text own → options = own)
    (htail : parseConditions field options tail = .ok cs) :
    parseConditions field options (c.entries ++ tail) = .ok (c :: cs) := by
  cases c with
  | compare op v =>
    have hskip : op.operator ≠ "$options" := (Condition.compare op v).operator_ne_options
    have hread : parseCondition field options op.operator v = .ok (.compare op v) := by
      cases op <;> rfl
    show parseConditions field options ((op.operator, v) :: tail) = _
    rw [parseConditions, if_neg hskip, hread, htail]
    rfl
  | pattern text own =>
    obtain rfl := h text own rfl
    show parseConditions field options (("$regex", _) :: ("$options", _) :: tail) = _
    rw [parseConditions, if_neg (by decide), parseConditions, if_pos rfl, htail]
    rfl
  | oneOf items =>
    show parseConditions field options (("$in", _) :: tail) = _
    rw [parseConditions, if_neg (by decide), htail]
    rfl
  | noneOf items =>
    show parseConditions field options (("$nin", _) :: tail) = _
    rw [parseConditions, if_neg (by decide), htail]
    rfl
  | present wanted =>
    show parseConditions field options (("$exists", _) :: tail) = _
    rw [parseConditions, if_neg (by decide), htail]
    rfl

theorem parseConditions_flatMap {field options : String} {conds : List Condition}
    (h : ∀ text own, .pattern text own ∈ conds → options = own) :
    parseConditions field options (conds.flatMap Condition.entries) = .ok conds := by
  induction conds with
  | nil => rfl
  | cons c rest ih =>
    rw [List.flatMap_cons]
    refine parseConditions_entries (fun text own hc => h text own (hc ▸ List.mem_cons_self)) ?_
    exact ih fun text own hmem => h text own (List.mem_cons_of_mem c hmem)

theorem parseOptions_append {field : String} {ops tail : Document}
    (h : "$options" ∉ Entries.keys ops) :
    parseOptions field (ops ++ tail) = parseOptions field tail := by
  rw [parseOptions, parseOptions, Entries.get?_append, Entries.get?_eq_none_iff.mpr h, Option.none_or]

/-- The options that are read are those of the pattern, for there is only one. -/
theorem parseOptions_flatMap (field : String) {conds : List Condition}
    (h : (conds.map Condition.operator).Nodup) :
    ∃ options, parseOptions field (conds.flatMap Condition.entries) = .ok options ∧
      ∀ text own, .pattern text own ∈ conds → options = own := by
  induction conds with
  | nil => exact ⟨"", rfl, by simp⟩
  | cons c rest ih =>
    obtain ⟨hc, hrest⟩ := List.nodup_cons.mp h
    obtain ⟨options, hoptions, hown⟩ := ih hrest
    rw [List.flatMap_cons]
    -- no two conditions are patterns, and nothing else writes options
    by_cases hpattern : c.operator = "$regex"
    · cases c with
      | pattern text own =>
        refine ⟨own, rfl, fun text' own' hmem => ?_⟩
        rcases List.mem_cons.mp hmem with heq | hmem
        · exact (Condition.pattern.inj heq).2.symm
        · exact absurd (List.mem_map.mpr ⟨_, hmem, rfl⟩) hc
      | compare op v => cases op <;> exact absurd hpattern (by simp [Condition.operator, Comparison.operator])
      | _ => exact absurd hpattern (by simp [Condition.operator])
    · refine ⟨options, ?_, fun text own hmem => ?_⟩
      · rw [parseOptions_append, hoptions]
        intro hmem
        rcases Condition.key_of_mem_entries hmem with heq | ⟨-, hregex⟩
        · exact c.operator_ne_options heq.symm
        · exact hpattern hregex
      · rcases List.mem_cons.mp hmem with rfl | hmem
        · exact absurd rfl hpattern
        · exact hown text own hmem

/-- A predicate reads back as it was. -/
theorem parsePredicate_renderPredicate (field : String) {p : Predicate} (hd : p.Distinct)
    (hl : p.Literal) : parsePredicate field (renderPredicate p) = .ok p := by
  cases p with
  | equals v =>
    have hv : operators? v = none := hl
    rw [renderPredicate, parsePredicate, hv]
  | conditions conds =>
    obtain ⟨hne, hnodup⟩ := hd
    obtain ⟨options, hoptions, hown⟩ := parseOptions_flatMap field hnodup
    -- all that is written are operators, so it is not read as a value
    have hops : operators? (.document (conds.flatMap Condition.entries)) =
        some (conds.flatMap Condition.entries) := by
      refine operators?_eq_some_iff.mpr ⟨rfl, ?_, fun k hk => ?_⟩
      · obtain ⟨c, rest, rfl⟩ := List.exists_cons_of_ne_nil hne
        cases c <;> exact List.cons_ne_nil _ _
      · obtain ⟨e, he, rfl⟩ := List.mem_map.mp hk
        obtain ⟨c, -, he⟩ := List.mem_flatMap.mp he
        exact Condition.isOperator_of_mem_entries (Entries.mem_keys_of_mem he)
    rw [renderPredicate, foldl_renderCondition hnodup, parsePredicate, hops]
    show (parseOptions _ _ >>= fun options => _) = _
    rw [hoptions]
    show (parseConditions _ _ _ >>= fun conds => _) = _
    rw [parseConditions_flatMap hown]
    show (if conds.isEmpty = true then _ else _) = _
    rw [if_neg (by simpa using hne)]
    rfl

/-! ### Whole filters -/

mutual

/-- A filter with other paths. -/
def renamed (rename : String → String) : Filter → Filter
  | ⟨fields, allOf, anyOf, script⟩ =>
    { fields := fields.map fun e => (rename e.1, e.2)
      allOf := renamedEach rename allOf
      anyOf := renamedEach rename anyOf
      script }

def renamedEach (rename : String → String) : List Filter → List Filter
  | [] => []
  | f :: rest => f.renamed rename :: renamedEach rename rest

end

/-- A filter behind what has been read before. -/
def behind (f acc : Filter) : Filter where
  fields := acc.fields ++ f.fields
  allOf := acc.allOf ++ f.allOf
  anyOf := acc.anyOf ++ f.anyOf
  script := f.script.or acc.script

theorem behind_empty (f : Filter) : f.behind {} = f := by
  cases f with
  | mk fields allOf anyOf script => simp [behind]

theorem empty_behind (acc : Filter) : Filter.behind {} acc = acc := by
  cases acc with
  | mk fields allOf anyOf script => simp [behind]

/-- What fields must be to be read back under other paths. -/
structure Readable (rename : String → String) (fields : List (String × Predicate)) : Prop where
  distinct : DistinctFields fields
  literal : LiteralFields fields
  named : ∀ e ∈ fields, (rename e.1).isEmpty = false ∧ isOperator (rename e.1) = false

/-- The entry of a combinator, if it has operands. -/
def operandsPart (operator : String) (operands : List Value) : Document :=
  if operands.isEmpty then [] else [(operator, .array operands)]

/-- The entry of a script, if there is one. -/
def scriptPart : Option String → Document
  | some s => [("$where", .string s)]
  | none => []

section Parts

variable {rename : String → String}

theorem keys_operandsPart {operator k : String} {operands : List Value}
    (h : k ∈ Entries.keys (operandsPart operator operands)) : k = operator := by
  unfold operandsPart at h
  split at h
  · cases h
  · exact List.mem_singleton.mp h

theorem renderOperands_eq {out : Document} {operator : String}
    (h : operator ∉ Entries.keys out) (operands : List Value) :
    renderOperands out operator operands = out ++ operandsPart operator operands := by
  unfold renderOperands operandsPart
  split
  · rw [List.append_nil]
  · exact Entries.insert_of_notMem h _

/-- Fields of distinct paths are written one behind the other. -/
theorem renderFields_eq (hinj : Function.Injective rename) {fields : List (String × Predicate)}
    (h : (Entries.keys fields).Nodup) :
    renderFields rename fields = fields.map fun e => (rename e.1, renderPredicate e.2) := by
  have hkeys : Entries.keys (fields.map fun e => (rename e.1, renderPredicate e.2)) =
      (Entries.keys fields).map rename := by
    simp [Entries.keys, Function.comp_def]
  have hall : renderFields rename fields =
      Entries.insertAll [] (fields.map fun e => (rename e.1, renderPredicate e.2)) := by
    rw [renderFields, Entries.insertAll, List.foldl_map]
  have hnodup := List.Nodup.map hinj h
  rw [← hkeys] at hnodup
  rw [hall, Entries.insertAll_of_disjoint hnodup (by simp [Entries.keys]), List.nil_append]

theorem notMem_keys_renderFields (hinj : Function.Injective rename)
    {fields : List (String × Predicate)} (h : Readable rename fields) {k : String}
    (hk : isOperator k = true) : k ∉ Entries.keys (renderFields rename fields) := by
  rw [renderFields_eq hinj h.distinct.1]
  intro hmem
  obtain ⟨e, he, rfl⟩ := List.mem_map.mp hmem
  obtain ⟨f, hf, rfl⟩ := List.mem_map.mp he
  exact absurd hk (by simp [(h.named f hf).2])

/-- The parts of a written filter. -/
theorem renderWith_eq (hinj : Function.Injective rename) {f : Filter}
    (h : Readable rename f.fields) :
    renderWith rename f = renderFields rename f.fields ++
      operandsPart "$and" (renderEach rename f.allOf) ++
      operandsPart "$or" (renderEach rename f.anyOf) ++ scriptPart f.script := by
  cases f with
  | mk fields allOf anyOf script =>
    -- each part has keys that none of the parts in front of it has
    have hand := notMem_keys_renderFields hinj h (k := "$and") (by decide)
    have hor : "$or" ∉ Entries.keys (renderFields rename fields ++
        operandsPart "$and" (renderEach rename allOf)) := by
      rw [Entries.keys_append]
      intro hmem
      rcases List.mem_append.mp hmem with hmem | hmem
      · exact notMem_keys_renderFields hinj h (by decide) hmem
      · exact absurd (keys_operandsPart hmem) (by decide)
    have hwhere : "$where" ∉ Entries.keys (renderFields rename fields ++
        operandsPart "$and" (renderEach rename allOf) ++
        operandsPart "$or" (renderEach rename anyOf)) := by
      rw [Entries.keys_append, Entries.keys_append]
      intro hmem
      rcases List.mem_append.mp hmem with hmem | hmem
      · rcases List.mem_append.mp hmem with hmem | hmem
        · exact notMem_keys_renderFields hinj h (by decide) hmem
        · exact absurd (keys_operandsPart hmem) (by decide)
      · exact absurd (keys_operandsPart hmem) (by decide)
    simp only [renderWith, renderOperands_eq hand, renderOperands_eq hor]
    cases script with
    | none => rw [scriptPart, List.append_nil]
    | some s => exact Entries.insert_of_notMem hwhere _

theorem nodup_keys_renderWith (rename : String → String) (f : Filter) :
    (Entries.keys (renderWith rename f)).Nodup := by
  have hfields (fields : List (String × Predicate)) :
      (Entries.keys (renderFields rename fields)).Nodup := by
    unfold renderFields
    suffices hacc : ∀ out : Document, (Entries.keys out).Nodup →
        (Entries.keys (fields.foldl (fun out f =>
          Entries.insert out (rename f.1) (renderPredicate f.2)) out)).Nodup from hacc [] .nil
    induction fields with
    | nil => exact fun _ hout => hout
    | cons e rest ih => exact fun out hout => ih _ (Entries.nodup_keys_upsert hout _ _)
  have hoperands (out : Document) (operator : String) (operands : List Value)
      (h : (Entries.keys out).Nodup) :
      (Entries.keys (renderOperands out operator operands)).Nodup := by
    unfold renderOperands
    split
    · exact h
    · exact Entries.nodup_keys_upsert h _ _
  cases f with
  | mk fields allOf anyOf script =>
    have hall := hoperands _ "$and" (renderEach rename allOf) (hfields fields)
    have hany := hoperands _ "$or" (renderEach rename anyOf) hall
    cases script with
    | none => simpa only [renderWith] using hany
    | some s =>
      simp only [renderWith]
      exact Entries.nodup_keys_upsert hany "$where" _

theorem entry_of_mem_renderFields {fields : List (String × Predicate)} {e : String × Value}
    (he : e ∈ renderFields rename fields) : ∃ path, e.1 = rename path := by
  unfold renderFields at he
  suffices hacc : ∀ out : Document, (∀ e ∈ out, ∃ path, e.1 = rename path) →
      ∀ e ∈ fields.foldl (fun out f => Entries.insert out (rename f.1) (renderPredicate f.2)) out,
        ∃ path, e.1 = rename path from hacc [] (by simp) e he
  clear he
  induction fields with
  | nil => exact fun _ hout => hout
  | cons field rest ih =>
    refine fun out hout => ih _ fun e he => ?_
    rcases Entries.mem_insert he with he | rfl
    · exact hout e he
    · exact ⟨field.1, rfl⟩

theorem entry_of_mem_renderOperands {out : Document} {operator : String} {operands : List Value}
    {e : String × Value} (he : e ∈ renderOperands out operator operands) :
    e ∈ out ∨ e = (operator, .array operands) := by
  unfold renderOperands at he
  split at he
  · exact .inl he
  · exact Entries.mem_insert he

/-- A written filter has renamed paths, the operands and a script as its entries. -/
theorem entry_of_mem_renderWith {f : Filter} {e : String × Value}
    (he : e ∈ renderWith rename f) :
    (∃ path, e.1 = rename path) ∨ e = ("$and", .array (renderEach rename f.allOf)) ∨
      e = ("$or", .array (renderEach rename f.anyOf)) ∨ e.1 = "$where" := by
  cases f with
  | mk fields allOf anyOf script =>
    have hoperands {e : String × Value}
        (he : e ∈ renderOperands (renderOperands (renderFields rename fields) "$and"
          (renderEach rename allOf)) "$or" (renderEach rename anyOf)) :
        (∃ path, e.1 = rename path) ∨ e = ("$and", .array (renderEach rename allOf)) ∨
          e = ("$or", .array (renderEach rename anyOf)) ∨ e.1 = "$where" := by
      rcases entry_of_mem_renderOperands he with he | rfl
      · rcases entry_of_mem_renderOperands he with he | rfl
        · exact .inl (entry_of_mem_renderFields he)
        · exact .inr (.inl rfl)
      · exact .inr (.inr (.inl rfl))
    cases script with
    | none =>
      simp only [renderWith] at he
      exact hoperands he
    | some s =>
      simp only [renderWith] at he
      rcases Entries.mem_insert he with he | rfl
      · exact hoperands he
      · exact .inr (.inr (.inr rfl))

end Parts

/-! ### Reading what was written -/

/-- Reading a document is reading its first part and then its second. -/
theorem parseFields_append (acc : Filter) (a b : List (String × Value)) :
    parseFields acc (a ++ b) = (parseFields acc a).bind fun f => parseFields f b := by
  induction a generalizing acc with
  | nil => rw [List.nil_append, parseFields]; rfl
  | cons e rest ih =>
    obtain ⟨key, v⟩ := e
    rw [List.cons_append, parseFields, parseFields]
    split_ifs
    · cases parseOperands key v with
      | error cause => rfl
      | ok operands => exact ih _
    · cases parseOperands key v with
      | error cause => rfl
      | ok operands => exact ih _
    · cases parseScript v with
      | error cause => rfl
      | ok script => exact ih _
    · rfl
    · rfl
    · cases parsePredicate key v with
      | error cause => rfl
      | ok p => exact ih _

/-- What is read behind other fields is what is read by itself, behind them. -/
theorem parseFields_behind (d : List (String × Value)) (f acc : Filter) :
    parseFields (f.behind acc) d = (parseFields f d).map fun g => g.behind acc := by
  induction d generalizing f with
  | nil =>
    rw [parseFields, parseFields]
    rfl
  | cons e rest ih =>
    obtain ⟨key, v⟩ := e
    rw [parseFields, parseFields]
    split_ifs
    · cases parseOperands key v with
      | error cause => rfl
      | ok operands =>
        have hstep := ih { f with allOf := f.allOf ++ operands }
        rw [behind, ← List.append_assoc] at hstep
        exact hstep
    · cases parseOperands key v with
      | error cause => rfl
      | ok operands =>
        have hstep := ih { f with anyOf := f.anyOf ++ operands }
        rw [behind, ← List.append_assoc] at hstep
        exact hstep
    · cases parseScript v with
      | error cause => rfl
      | ok script => exact ih { f with script := some script }
    · rfl
    · rfl
    · cases parsePredicate key v with
      | error cause => rfl
      | ok p =>
        have hstep := ih { f with fields := f.fields ++ [(key, p)] }
        rw [behind, ← List.append_assoc] at hstep
        exact hstep

section Reading

variable {rename : String → String}

theorem ne_of_isOperator {a b : String} (ha : isOperator a = false) (hb : isOperator b = true) :
    a ≠ b := by
  rintro rfl
  exact absurd hb (by simp [ha])

theorem parseFields_fields (hinj : Function.Injective rename) (acc : Filter)
    {fields : List (String × Predicate)} (h : Readable rename fields) :
    parseFields acc (renderFields rename fields) =
      .ok { acc with fields := acc.fields ++ fields.map fun e => (rename e.1, e.2) } := by
  rw [renderFields_eq hinj h.distinct.1]
  -- distinct paths are what writing needs, not what reading needs
  have hdistinct := h.distinct.2
  have hliteral := h.literal
  have hnamed := h.named
  clear h
  induction fields generalizing acc with
  | nil =>
    cases acc
    simp only [List.map_nil, List.append_nil, parseFields]
  | cons e rest ih =>
    obtain ⟨hempty, hop⟩ := hnamed e List.mem_cons_self
    have hread := parsePredicate_renderPredicate (rename e.1) (hdistinct e List.mem_cons_self).2
      (hliteral e List.mem_cons_self)
    rw [List.map_cons, parseFields, if_neg (ne_of_isOperator hop (by decide)),
      if_neg (ne_of_isOperator hop (by decide)), if_neg (ne_of_isOperator hop (by decide)),
      if_neg (by simpa using hop), if_neg (by simpa using hempty), hread]
    show parseFields _ _ = _
    rw [ih _ (fun f hf => hdistinct f (List.mem_cons_of_mem e hf))
      (fun f hf => hliteral f (List.mem_cons_of_mem e hf))
      (fun f hf => hnamed f (List.mem_cons_of_mem e hf)), List.append_assoc]
    rfl

theorem parseFields_scriptPart (acc : Filter) (script : Option String) :
    parseFields acc (scriptPart script) = .ok { acc with script := script.or acc.script } := by
  cases script with
  | none =>
    cases acc
    rw [scriptPart, parseFields]
    rfl
  | some s => rfl

theorem parseOperands_cons (operator : String) (v : Value) (rest : List Value) :
    parseOperands operator (.array (v :: rest)) = parseEach operator (v :: rest) := by
  rw [parseOperands]
  exact List.cons_ne_nil v rest

theorem parseFields_andPart {operands : List Value} {fs : List Filter} (acc : Filter)
    (h : parseEach "$and" operands = .ok fs) :
    parseFields acc (operandsPart "$and" operands) = .ok { acc with allOf := acc.allOf ++ fs } := by
  cases operands with
  | nil =>
    obtain rfl := Except.ok.inj h
    cases acc
    rw [List.append_nil]
    exact parseFields.eq_1 _
  | cons v rest =>
    show parseFields acc [("$and", .array (v :: rest))] = _
    rw [parseFields, if_pos rfl, parseOperands_cons, h]
    exact parseFields.eq_1 _

theorem parseFields_orPart {operands : List Value} {fs : List Filter} (acc : Filter)
    (h : parseEach "$or" operands = .ok fs) :
    parseFields acc (operandsPart "$or" operands) = .ok { acc with anyOf := acc.anyOf ++ fs } := by
  cases operands with
  | nil =>
    obtain rfl := Except.ok.inj h
    cases acc
    rw [List.append_nil]
    exact parseFields.eq_1 _
  | cons v rest =>
    show parseFields acc [("$or", .array (v :: rest))] = _
    rw [parseFields, if_neg (by decide), if_pos rfl, parseOperands_cons, h]
    exact parseFields.eq_1 _

mutual

/-- A filter without collisions is read back with its paths renamed. -/
theorem parseFields_renderWith (hinj : Function.Injective rename) (f : Filter) (acc : Filter)
    (h : f.Every (Readable rename)) :
    parseFields acc (renderWith rename f) = .ok ((f.renamed rename).behind acc) := by
  cases f with
  | mk fields allOf anyOf script =>
    obtain ⟨hfields, hall, hany⟩ := h
    have hand := parseEach_renderEach hinj allOf "$and" hall
    have hor := parseEach_renderEach hinj anyOf "$or" hany
    rw [renderWith_eq hinj hfields, parseFields_append, parseFields_append, parseFields_append,
      parseFields_fields hinj acc hfields]
    simp only [Except.bind, parseFields_andPart _ hand, parseFields_orPart _ hor,
      parseFields_scriptPart]
    rfl

theorem parseEach_renderEach (hinj : Function.Injective rename) (fs : List Filter)
    (operator : String) (h : EveryOf (Readable rename) fs) :
    parseEach operator (renderEach rename fs) = .ok (renamedEach rename fs) := by
  cases fs with
  | nil => rfl
  | cons f rest =>
    obtain ⟨hf, hrest⟩ := h
    have hread : parseOperand operator (.document (renderWith rename f)) =
        .ok (f.renamed rename) := by
      rw [parseOperand, parseFields_renderWith hinj f {} hf, behind_empty]
    rw [renderEach, parseEach, hread, parseEach_renderEach hinj rest operator hrest]
    rfl

end

end Reading

end Filter

end ContentQuery
