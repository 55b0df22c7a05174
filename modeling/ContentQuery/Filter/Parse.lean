/-
Reading filters from predicate documents.

A predicate document holds plain keys, each with a value to equal or a document
of operators, and the combinators `$and`, `$or` and `$where`.  A document of
which every key begins with a dollar sign is read as operators; any other value
is compared as it stands.

The first fault in document order is the one reported.
-/
import ContentQuery.Filter
import ContentQuery.Error

namespace ContentQuery.Filter

/-- Whether a key is an operator. -/
def isOperator (key : String) : Bool := key.toList.head? == some '$'

/-- The operators of a field, when its value is a document of operators. -/
def operators? : Value → Option Document
  | .document d => if !d.isEmpty && d.all (fun e => isOperator e.1) then some d else none
  | _ => none

/-- The condition that an operator makes of its value; `options` are those of a
pattern. -/
def parseCondition (field options operator : String) (v : Value) :
    Except ArgumentFault Condition :=
  match operator with
  | "$eq" => .ok (.compare .eq v)
  | "$ne" => .ok (.compare .ne v)
  | "$gt" => .ok (.compare .gt v)
  | "$gte" => .ok (.compare .gte v)
  | "$lt" => .ok (.compare .lt v)
  | "$lte" => .ok (.compare .lte v)
  | "$in" =>
    match v with
    | .array items => .ok (.oneOf items)
    | _ => .error (.needsArray operator field)
  | "$nin" =>
    match v with
    | .array items => .ok (.noneOf items)
    | _ => .error (.needsArray operator field)
  | "$exists" =>
    match v with
    | .bool b => .ok (.present b)
    | .int32 n => .ok (.present (n != 0))
    | .int64 n => .ok (.present (n != 0))
    | _ => .error (.existsNeedsBool field)
  | "$regex" =>
    match v with
    | .string text => .ok (.pattern text options)
    | _ => .error (.patternNeedsString field)
  | other => .error (.unsupportedOperator other field)

/-- The options that a document of operators gives to its pattern. -/
def parseOptions (field : String) (ops : Document) : Except ArgumentFault String :=
  match Entries.get? ops "$options" with
  | none => .ok ""
  | some (.string s) => .ok s
  | some _ => .error (.optionsNeedString field)

/-- The conditions of a document of operators, in order. -/
def parseConditions (field options : String) : Document → Except ArgumentFault (List Condition)
  | [] => .ok []
  | (op, v) :: rest =>
    if op = "$options" then parseConditions field options rest
    else do
      let c ← parseCondition field options op v
      let cs ← parseConditions field options rest
      pure (c :: cs)

/-- What a plain key asks of its field. -/
def parsePredicate (field : String) (v : Value) : Except ArgumentFault Predicate :=
  match operators? v with
  | none => .ok (.equals v)
  | some ops => do
    let options ← parseOptions field ops
    let conds ← parseConditions field options ops
    if conds.isEmpty then .error (.optionsNeedPattern field) else pure (.conditions conds)

/-- The script of a `$where` key. -/
def parseScript : Value → Except ArgumentFault String
  | .string s => .ok s
  | .code s => .ok s
  | _ => .error .scriptNeedsString

mutual

/-- The filter of an operand of a combinator. -/
def parseOperand (operator : String) : Value → Except ArgumentFault Filter
  | .document d => parseFields {} d
  | _ => .error (.operandNotDocument operator)

/-- The operands of a combinator. -/
def parseOperands (operator : String) : Value → Except ArgumentFault (List Filter)
  | .array [] => .error (.operandsEmpty operator)
  | .array items => parseEach operator items
  | _ => .error (.operandsNotArray operator)

def parseEach (operator : String) : List Value → Except ArgumentFault (List Filter)
  | [] => .ok []
  | v :: rest => do
    let f ← parseOperand operator v
    let fs ← parseEach operator rest
    pure (f :: fs)

/-- Add the fields of a predicate document to a filter, one after the other. -/
def parseFields : Filter → List (String × Value) → Except ArgumentFault Filter
  | f, [] => .ok f
  | f, (key, v) :: rest =>
    if key = "$and" then do
      let operands ← parseOperands key v
      parseFields { f with allOf := f.allOf ++ operands } rest
    else if key = "$or" then do
      let operands ← parseOperands key v
      parseFields { f with anyOf := f.anyOf ++ operands } rest
    else if key = "$where" then do
      let s ← parseScript v
      parseFields { f with script := some s } rest
    else if isOperator key then .error (.unsupportedTopLevel key)
    else if key.isEmpty then .error .emptyFieldName
    else do
      let p ← parsePredicate key v
      parseFields { f with fields := f.fields ++ [(key, p)] } rest

end

/-- The filter of a predicate document. -/
def parse (d : Document) : Except ArgumentFault Filter := parseFields {} d

end ContentQuery.Filter
