import ChessArbiter.Window

/-!
# Starting the window

The arguments are a log level, given by an option, and a position, whose fields may come as
separate arguments. `Launch.start` either refuses them or opens the window on the position; the
journal goes to the output, around a greeting.
-/

namespace ChessArbiter

structure Launch where
  level : LogLevel := .info
  fen : String := ""
deriving DecidableEq

namespace Launch

def usage : String := "usage: chess-gui [--log-level LEVEL] [FEN]\n"

def greeting : String := "Starting chess board\n"

def addField (l : Launch) (arg : String) : Launch :=
  { l with fen := if l.fen.isEmpty then arg else l.fen ++ " " ++ arg }

/-- Reads the arguments; nothing if an option lacks a proper level. -/
def parse (l : Launch) : List String → Option Launch
  | [] => some l
  | arg :: rest =>
    if arg = "--log-level" then
      match rest with
      | [] => none
      | name :: rest =>
        match LogLevel.ofName? name with
        | some level => parse { l with level } rest
        | none => none
    else parse (l.addField arg) rest

/-- How a start ends: with a complaint, after some output, or with an open window. -/
inductive Outcome where
  | refused (output complaint : String)
  | opened (output : String) (window : Window)

def start (args : List String) : Outcome :=
  match parse {} args with
  | none => .refused "" usage
  | some l =>
    let a := Arbiter.opening { threshold := some l.level }
    match (if l.fen.isEmpty then (.ok (), a) else a.loadFen l.fen) with
    | (.error e, a) => .refused a.journal.text (e.describe ++ "\n")
    | (.ok (), a) =>
      .opened (a.journal.text ++ greeting)
        { arbiter := { a with journal := a.journal.blank }, startFen := l.fen }

end Launch

end ChessArbiter
