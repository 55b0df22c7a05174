/-
The logging configuration of a host.

There are two log files: one for the query log and one for everything else.
Both keep the same level.
-/
namespace ContentQuery.Logging

/-- The least severity that is logged. -/
inductive Level
  | off | error | warn | info | debug | trace
  deriving DecidableEq

/-- The name of a level. -/
def Level.name : Level → String
  | off => "OFF"
  | error => "ERROR"
  | warn => "WARN"
  | info => "INFO"
  | debug => "DEBUG"
  | trace => "TRACE"

/-- The level of a word, in any case of its ASCII letters; any other word, and
none, is info. -/
def Level.ofWord (word : Option String) : Level :=
  match String.ofList ((word.getD "info").toList.map Char.toLower) with
  | "off" => off
  | "error" => error
  | "warn" => warn
  | "debug" => debug
  | "trace" => trace
  | _ => info

/-- A logger and the appenders that it writes to; an additive one also writes
to those of the root. -/
structure Logger where
  name : String
  level : Level
  additive : Bool
  appenders : List String

/-- A log file, and how many rolled files of it are kept. -/
structure Appender where
  name : String
  kept : Nat

/-- A logging configuration. -/
structure Setup where
  rootLevel : Level
  rootAppenders : List String
  appenders : List Appender
  loggers : List Logger

/-- The target of the query log. -/
def queryTarget : String := "contentlite::query"

/-- The number of rolled files that are kept when none is given, or too large a
one. -/
def defaultKept : Nat := 7

/-- The configuration for a level word and a number of rolled files. -/
def setup (word : Option String) (retention : Option Nat) : Setup :=
  let level := Level.ofWord word
  let kept := (retention.filter (· < Nat.pow 2 32)).getD defaultKept
  { rootLevel := level
    rootAppenders := ["app"]
    appenders := [⟨"app", kept⟩, ⟨"query", kept⟩]
    loggers := [⟨queryTarget, level, false, ["query"]⟩] }

end ContentQuery.Logging
