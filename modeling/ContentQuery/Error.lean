/-
What can go wrong, by cause.

* an `ArgumentFault` is a malformed predicate or a refused argument of a query
  call;
* a `StoreFault` is what a store reports;
* a `ConfigFault` is a setting that cannot be honoured.

`Error.message` is the wording of each cause, after the words for its kind.
-/
namespace ContentQuery

/-- A refused predicate or call argument. -/
inductive ArgumentFault
  /-- a combinator whose value is not an array -/
  | operandsNotArray (operator : String)
  /-- a combinator without operands -/
  | operandsEmpty (operator : String)
  /-- an operand of a combinator that is not a document -/
  | operandNotDocument (operator : String)
  /-- an operator of a field that takes an array -/
  | needsArray (operator field : String)
  /-- an existence test that is not a boolean -/
  | existsNeedsBool (field : String)
  /-- a pattern that is not a string -/
  | patternNeedsString (field : String)
  /-- an operator that no field knows -/
  | unsupportedOperator (operator field : String)
  /-- pattern options that are not a string -/
  | optionsNeedString (field : String)
  /-- pattern options without a pattern -/
  | optionsNeedPattern (field : String)
  /-- a script that is neither a string nor code -/
  | scriptNeedsString
  /-- an operator that no predicate document knows -/
  | unsupportedTopLevel (operator : String)
  /-- an empty key in a predicate document -/
  | emptyFieldName
  /-- predicate text whose value is not an object -/
  | textNotObject
  /-- a payload without a usable identity -/
  | payloadNeedsUid
  /-- an empty content type or locale -/
  | identityEmpty
  /-- a call with an empty field key -/
  | emptyKey (call : String)
  /-- a call with an empty list -/
  | emptyList (call : String)
  /-- a call whose list holds an empty field name -/
  | emptyNames (call : String)
  /-- a call with a negative number -/
  | negative (call : String) (n : Int)
  /-- a limit of zero -/
  | zeroLimit
  /-- a call with an empty uid -/
  | emptyUid (call : String)
  /-- an empty locale -/
  | emptyLocale
  /-- an empty pattern -/
  | emptyPattern
  /-- an empty script -/
  | emptyScript
  /-- a call with an empty predicate document -/
  | emptyPredicate (call : String)
  /-- a reference predicate with a combinator or a script -/
  | referenceFieldsOnly
  /-- a key of a reference predicate without a dot -/
  | referenceKeyUndotted (key : String)
  deriving DecidableEq

/-- A failure that a store reports. -/
inductive StoreFault
  /-- a filter that does not parse -/
  | badFilter (cause : ArgumentFault)
  /-- a filter with a script, in a store that runs none -/
  | scriptUnsupported
  /-- a projection that both includes and excludes -/
  | mixedProjection
  /-- any other failure, in the store's own words -/
  | failed (reason : String)
  deriving DecidableEq

/-- A setting that cannot be honoured. -/
inductive ConfigFault
  | noLocale
  | zeroLimit
  | emptyCollection
  | notExclusion (field : String) (value : Int)
  deriving DecidableEq

/-- An error of the library. -/
inductive Error
  | invalidArgument (cause : ArgumentFault)
  /-- a call that needs a content type came before one was chosen -/
  | preconditionFailed (call : String)
  | store (cause : StoreFault)
  | config (cause : ConfigFault)
  /-- a file that cannot be read as text -/
  | unreadable
  /-- text that is not JSON -/
  | notJson
  /-- text that is not TOML, or settings of the wrong types -/
  | notToml
  deriving DecidableEq

def ArgumentFault.message : ArgumentFault → String
  | operandsNotArray op => s!"{op} requires an array of predicates"
  | operandsEmpty op => s!"{op} requires a non-empty array"
  | operandNotDocument op => s!"{op} operands must be documents"
  | needsArray op field => s!"{op} on '{field}' requires an array"
  | existsNeedsBool field => s!"$exists on '{field}' requires a boolean"
  | patternNeedsString field => s!"$regex on '{field}' requires a string"
  | unsupportedOperator op field => s!"unsupported operator {op} on '{field}'"
  | optionsNeedString field => s!"$options on '{field}' must be a string"
  | optionsNeedPattern field => s!"$options on '{field}' requires $regex"
  | scriptNeedsString => "$where requires a string expression"
  | unsupportedTopLevel op => s!"unsupported top-level operator {op}"
  | emptyFieldName => "empty field name in predicate"
  | textNotObject => "predicate JSON must be an object"
  | payloadNeedsUid => "payload requires a non-empty string 'uid'"
  | identityEmpty => "content_type_uid and locale must be non-empty"
  | emptyKey call => s!"{call}: field key must be a non-empty string"
  | emptyList call => s!"{call}: expected a non-empty array"
  | emptyNames call => s!"{call}: field names must be non-empty strings"
  | negative call n => s!"{call}: expected a non-negative number, got {n}"
  | zeroLimit => "limit: expected a positive number, got 0"
  | emptyUid call => s!"{call}: uid must be a non-empty string"
  | emptyLocale => "language: locale must be a non-empty string"
  | emptyPattern => "regex: pattern must be a non-empty string"
  | emptyScript => "where: expression must be a non-empty string"
  | emptyPredicate call => s!"{call}: expected a non-empty predicate object"
  | referenceFieldsOnly => "queryReferences: only field predicates are supported"
  | referenceKeyUndotted key => s!"queryReferences: '{key}' must be '<reference>.<field>'"

/-- The words for each kind of error, which stand before its cause. -/
def invalidArgumentHead : String := "invalid argument: "

def StoreFault.message : StoreFault → String
  | badFilter cause => invalidArgumentHead ++ cause.message
  | scriptUnsupported => "$where expressions are not supported by the memory store"
  | mixedProjection => "cannot mix inclusion and exclusion in a projection"
  | failed reason => reason

def ConfigFault.message : ConfigFault → String
  | noLocale => "at least one non-empty locale is required"
  | zeroLimit => "limit must be positive"
  | emptyCollection => "collection_name must not be empty"
  | notExclusion field value =>
    s!"default projection '{field}' must be an exclusion (0), got {value}"

/-- The text of an error. -/
def Error.message : Error → String
  | invalidArgument cause => invalidArgumentHead ++ cause.message
  | preconditionFailed call =>
    s!"precondition failed: {call}() requires contentType(), asset() or schema() first"
  | store cause => "store error: " ++ cause.message
  | config cause => "configuration error: " ++ cause.message
  | unreadable => "unreadable file"
  | notJson => "malformed JSON"
  | notToml => "malformed TOML"

end ContentQuery
