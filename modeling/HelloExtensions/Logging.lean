import HelloExtensions.Host
import HelloExtensions.Text.Capital

/-!
Levels of logging. A level is named in any mixture of small and capital letters. Records are
of two severities only; a level that is not set is the one of warnings. One logger serves all
decoders, and the root logger, to which its records go on, takes the first file that is named for
a log and no other.
-/
namespace HelloExtensions

inductive LogLevel where
  | critical
  | error
  | warning
  | info
  | debug
  | notSet
deriving DecidableEq, Repr

namespace LogLevel

def all : List LogLevel := [.critical, .error, .warning, .info, .debug, .notSet]

def name : LogLevel → String
  | .critical => "CRITICAL"
  | .error => "ERROR"
  | .warning => "WARNING"
  | .info => "INFO"
  | .debug => "DEBUG"
  | .notSet => "NOTSET"

def ofName? (name : String) : Option LogLevel := all.find? (·.name = name)

theorem ofName?_eq_some_iff {s : String} {level : LogLevel} :
    ofName? s = some level ↔ level.name = s := by
  refine ⟨fun h => by simpa using List.find?_some h, fun h => ?_⟩
  subst h
  cases level <;> decide

def ofText? (s : String) : Option LogLevel := ofName? (Text.capitals s)

end LogLevel

inductive Severity where
  | debug
  | warning
deriving DecidableEq, Repr

def Severity.name : Severity → String
  | .debug => "DEBUG"
  | .warning => "WARNING"

/-- Whether records of a severity come out at a level. -/
def LogLevel.admits : LogLevel → Severity → Bool
  | .debug, _ => true
  | .info, severity => severity == .warning
  | .warning, severity => severity == .warning
  | .notSet, severity => severity == .warning
  | .error, _ => false
  | .critical, _ => false

structure LogRecord where
  severity : Severity
  message : String
deriving DecidableEq, Repr

/-- The records that come out. -/
def LogLevel.filter (level : LogLevel) (records : List LogRecord) : List LogRecord :=
  records.filter fun r => level.admits r.severity

/-- The level of the logger, and whether the root logger has a handler. -/
structure Logging where
  level : LogLevel
  handled : Bool
deriving DecidableEq, Repr

/-- What keeps a file from being opened for the log. An empty path stands for no file. -/
def Host.logObstacle? (host : Host) (path : String) : Option FileError :=
  if path = "" then none else host.obstacle? path

/-- Give the root logger a handler for the file that is named, unless it has one. -/
def Logging.attach (host : Host) (path? : Option String) (logging : Logging) :
    Except FileError Logging :=
  match path? with
  | none => .ok logging
  | some path =>
    if logging.handled then .ok logging
    else match host.logObstacle? path with
      | some e => .error e
      | none => .ok { logging with handled := true }

end HelloExtensions
