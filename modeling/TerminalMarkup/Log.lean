import TerminalMarkup.Text.Basic

/-!
Contract: log records and the log file.

A logger writes the records up to its threshold to the end of its file, one
line each. Only one logger can be installed, and the first stays.
-/

set_option autoImplicit false

namespace TerminalMarkup.Log

/-- How grave a record is, the gravest first. -/
inductive Level where
  | error
  | warn
  | info
  | debug
  | trace
deriving DecidableEq, Repr

namespace Level

/-- The place of a level, counted from the gravest. -/
def rank : Level → Nat
  | error => 1
  | warn => 2
  | info => 3
  | debug => 4
  | trace => 5

def name : Level → Text
  | error => "ERROR".toList
  | warn => "WARN".toList
  | info => "INFO".toList
  | debug => "DEBUG".toList
  | trace => "TRACE".toList

def all : List Level := [error, warn, info, debug, trace]

end Level

/-- A log record: its level, the part of the program that it comes from, and
what it says. -/
structure Record where
  level : Level
  target : Text
  message : Text
deriving DecidableEq, Repr

/-- The line of a record in a log file. -/
def Record.line (record : Record) : Text :=
  '[' :: record.level.name ++ "] ".toList ++ record.target ++ ": ".toList ++
    record.message ++ ['\n']

/-- A logger and what its file holds. -/
structure Logger where
  threshold : Level := .debug
  file : Text := []
deriving DecidableEq, Repr

namespace Logger

def enabled (logger : Logger) (level : Level) : Bool :=
  level.rank ≤ logger.threshold.rank

/-- Writes a record, unless its level is beyond the threshold. -/
def log (logger : Logger) (record : Record) : Logger :=
  if logger.enabled record.level then
    { logger with file := logger.file ++ record.line }
  else logger

def logAll (logger : Logger) (records : List Record) : Logger :=
  records.foldl log logger

end Logger

/-- The one cause for which a logger is not installed. -/
inductive InstallError where
  | alreadyInstalled
deriving DecidableEq, Repr

def InstallError.message : InstallError → Text
  | .alreadyInstalled =>
    "attempted to set a logger after the logging system was already initialized".toList

/-- The installed logger after an attempt to install one. -/
def install (installed : Option Logger) (logger : Logger) : Except InstallError Logger :=
  match installed with
  | none => .ok logger
  | some _ => .error .alreadyInstalled

end TerminalMarkup.Log
