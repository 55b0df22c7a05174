/-
Which documents a filter accepts.

A field predicate sees the values that its path reaches and, where one of them
is an array, its elements.  Comparisons hold between values of one bracket
only; the negated operators hold where their positive ones do not.  Patterns are
those of some language.  A filter with a script accepts nothing here, since
scripts need a store that runs them.
-/
import ContentQuery.Filter
import ContentQuery.Path
import ContentQuery.Pattern.Language
import ContentQuery.Value.Order

namespace ContentQuery

/-- The values with the arrays among them replaced by their elements. -/
def leaves (vals : List Value) : List Value := vals.flatMap Value.elements

/-- Whether one of the values, or an element of one, is the same as `target`. -/
def holds (vals : List Value) (target : Value) : Bool :=
  vals.any (·.same target) || (leaves vals).any (·.same target)

/-- Whether a comparison accepts an order of its operands. -/
def Comparison.accepts : Comparison → Ordering → Bool
  | gt, o => o == .gt
  | gte, o => o != .lt
  | lt, o => o == .lt
  | lte, o => o != .gt
  | eq, _ | ne, _ => false

/-- Whether a value of the list, or an element, stands in an order to `target`
that a comparison accepts. -/
def holdsInOrder (op : Comparison) (vals : List Value) (target : Value) : Bool :=
  (leaves vals).any fun v => (v.compareWithin? target).any op.accepts

variable [PatternLanguage]

/-- Whether the values that a path reaches satisfy a condition. -/
def Condition.accepts (vals : List Value) : Condition → Bool
  | compare .eq v => holds vals v
  | compare .ne v => !holds vals v
  | compare op v => holdsInOrder op vals v
  | oneOf items => items.any (holds vals)
  | noneOf items => !items.any (holds vals)
  | present wanted => vals.isEmpty != wanted
  | pattern text options =>
    match PatternLanguage.read? (.ofLetters options) text with
    | some found => (leaves vals).any fun v => v.string?.any found
    | none => false

/-- Whether the values that a path reaches satisfy a predicate. -/
def Predicate.accepts (vals : List Value) : Predicate → Bool
  | equals v => holds vals v
  | conditions conds => conds.all (·.accepts vals)

namespace Filter

/-- Whether a document satisfies every field predicate of a list. -/
def acceptsFields (d : Document) (fields : List (String × Predicate)) : Bool :=
  fields.all fun f => f.2.accepts (Path.resolve d f.1)

mutual

/-- Whether a filter accepts a document. -/
def accepts (d : Document) : Filter → Bool
  | ⟨fields, allOf, anyOf, script⟩ =>
    script.isNone && acceptsFields d fields && acceptsEach d allOf &&
      (anyOf.isEmpty || acceptsSome d anyOf)

/-- Whether every filter of a list accepts a document. -/
def acceptsEach (d : Document) : List Filter → Bool
  | [] => true
  | f :: rest => accepts d f && acceptsEach d rest

/-- Whether a filter of a list accepts a document. -/
def acceptsSome (d : Document) : List Filter → Bool
  | [] => false
  | f :: rest => accepts d f || acceptsSome d rest

end

theorem acceptsEach_eq_all (d : Document) (fs : List Filter) :
    acceptsEach d fs = fs.all (accepts d) := by
  induction fs with
  | nil => rfl
  | cons f rest ih => simp [acceptsEach, ih]

theorem acceptsSome_eq_any (d : Document) (fs : List Filter) :
    acceptsSome d fs = fs.any (accepts d) := by
  induction fs with
  | nil => rfl
  | cons f rest ih => simp [acceptsSome, ih]

end Filter

end ContentQuery
