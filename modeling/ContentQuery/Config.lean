/-
The configuration of a stack.

What a query does not say itself is taken from here.  A configuration is valid
when its settings can be honoured; `validate` reports the first that cannot.
Environment variables are laid over a configuration: what does not read as a
value of its setting changes nothing.
-/
import ContentQuery.Entries
import ContentQuery.Error
import ContentQuery.Ordered
import ContentQuery.Text.Blank
import ContentQuery.Text.Numeral

namespace ContentQuery

/-- The settings of a stack. -/
structure Config where
  /-- the known locales; the first is the one of queries that choose none -/
  locales : List String := ["en-us"]
  collection : String := "contents"
  limit : Nat := 100
  skip : Nat := 0
  /-- default exclusions, by payload field in increasing order; each must be 0 -/
  projections : List (String × Int32) := []
  defaultSortField : String := "updated_at"
  /-- expand every reference when a query names no paths -/
  includeReferences : Bool := false
  referenceDepth : Nat := 4

namespace Config

/-- The locale of a query that chooses none. -/
def defaultLocale (c : Config) : String := c.locales.headD "en-us"

/-- Set the default projections. -/
def withProjections (c : Config) (entries : List (String × Int32)) : Config :=
  { c with projections := Ordered.ofEntries compare entries }

/-- The first setting that cannot be honoured. -/
def fault? (c : Config) : Option ConfigFault :=
  if c.locales.isEmpty || c.locales.any String.isEmpty then some .noLocale
  else if c.limit = 0 then some .zeroLimit
  else if c.collection.isEmpty then some .emptyCollection
  else (c.projections.find? fun e => e.2 != 0).map fun e => .notExclusion e.1 e.2.toInt

/-- Whether every setting can be honoured. -/
def validate (c : Config) : Except Error Unit :=
  match c.fault? with
  | some cause => .error (.config cause)
  | none => .ok ()

/-! ### Environment variables -/

/-- The words between commas, without the blanks around them and without empty
ones. -/
def commaList (text : String) : List String :=
  (((text.toList.splitOn ',').map Text.trimmed).filter (!·.isEmpty)).map String.ofList

/-- Replace a number by what a variable says, if it is set to a number. -/
def overlayNumber (value : Option String) (present : Nat) : Nat :=
  (value.bind Text.unsigned?).getD present

/-- Lay environment variables over a configuration. -/
def overlay (var : String → Option String) (c : Config) : Config :=
  let locales := ((var "CONTENTLITE_LOCALES").map commaList).getD []
  { c with
    locales := if locales.isEmpty then c.locales else locales
    collection := (var "CONTENTLITE_COLLECTION").getD c.collection
    limit := overlayNumber (var "CONTENTLITE_LIMIT") c.limit
    skip := overlayNumber (var "CONTENTLITE_SKIP") c.skip
    referenceDepth := overlayNumber (var "CONTENTLITE_REFERENCE_DEPTH") c.referenceDepth }

end Config

/-- A configuration that a store can be queried with. -/
structure Stack where
  config : Config
  valid : config.fault? = none

/-- The stack of a configuration, if that is valid. -/
def Stack.ofConfig (c : Config) : Except Error Stack :=
  match h : c.fault? with
  | some cause => .error (.config cause)
  | none => .ok ⟨c, h⟩

end ContentQuery
