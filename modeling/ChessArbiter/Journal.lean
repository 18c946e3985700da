import ChessArbiter.Text

/-!
# The journal

Announcements have a level. A journal with a threshold keeps those at or above it, in order, and
one without a threshold keeps none; nothing is ever announced at level `off`.
-/

namespace ChessArbiter

inductive LogLevel where
  | trace
  | debug
  | info
  | warning
  | error
  | off
deriving DecidableEq

namespace LogLevel

def rank : LogLevel → Nat
  | trace => 0
  | debug => 1
  | info => 2
  | warning => 3
  | error => 4
  | off => 5

def label : LogLevel → String
  | trace => "TRACE"
  | debug => "DEBUG"
  | info => "INFO"
  | warning => "WARNING"
  | error => "ERROR"
  | off => "OFF"

def names : List (String × LogLevel) :=
  [("TRACE", trace), ("DEBUG", debug), ("INFO", info), ("WARNING", warning), ("WARN", warning),
    ("ERROR", error), ("OFF", off), ("NONE", off)]

def ofName? (name : String) : Option LogLevel := names.lookup (Text.upper name)

end LogLevel

structure Journal where
  threshold : Option LogLevel := none
  entries : Array (LogLevel × String) := #[]
deriving DecidableEq

namespace Journal

def enabled (j : Journal) (level : LogLevel) : Bool :=
  match j.threshold with
  | none => false
  | some least => level != .off && least.rank ≤ level.rank

def write (j : Journal) (level : LogLevel) (message : String) : Journal :=
  if j.enabled level then { j with entries := j.entries.push (level, message) } else j

def text (j : Journal) : String :=
  j.entries.foldl (fun out e => out ++ ("[" ++ e.1.label ++ "] " ++ e.2 ++ "\n")) ""

def blank (j : Journal) : Journal := { j with entries := #[] }

end Journal

end ChessArbiter
