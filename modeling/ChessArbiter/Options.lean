import ChessArbiter.Journal

/-!
# Options of the replay command

The command line names the files to replay and says how. `Options.parse` reads it from left to
right and reports the first fault; options may stand between the files.
-/

namespace ChessArbiter

structure Options where
  threads : Int32 := 1
  logLevel : LogLevel := .warning
  failedOut : Option String := none
  printBoard : Bool := false
  showHelp : Bool := false
  files : List String := []
deriving DecidableEq

inductive OptionFault where
  | missingValue (option : String)
  | badThreads (text : String)
  | unknownLevel (name : String)
  | unknownOption (option : String)
  | noFiles
deriving DecidableEq

def OptionFault.message : OptionFault → String
  | missingValue option => option ++ " needs a value"
  | badThreads text => "--threads expects a positive number, got '" ++ text ++ "'"
  | unknownLevel name => "Unknown log level '" ++ name ++ "'"
  | unknownOption option => "Unknown option '" ++ option ++ "'"
  | noFiles => "No PGN files given"

namespace Options

def usage : String :=
  "usage: chess-replay [--threads N] [--log-level LEVEL] [--failed-out FILE] [--print-board] FILE...\n"
    ++ "  --threads N        replay games on N worker threads (default 1)\n"
    ++ "  --log-level LEVEL  trace, debug, info, warning, error or off (default warning)\n"
    ++ "  --failed-out FILE  where failed games are written (default <file>-failed.pgn)\n"
    ++ "  --print-board      print the final position of every game\n"

def readThreads (text : String) : Except OptionFault Int32 :=
  match Text.readInt? text.toList with
  | some n => if 1 ≤ n then .ok n else .error (.badThreads text)
  | none => .error (.badThreads text)

def readLevel (name : String) : Except OptionFault LogLevel :=
  match LogLevel.ofName? name with
  | some level => .ok level
  | none => .error (.unknownLevel name)

inductive Valued where
  | threads
  | logLevel
  | failedOut
deriving DecidableEq

def Valued.ofArg? (arg : String) : Option Valued :=
  if arg = "--threads" then some .threads
  else if arg = "--log-level" then some .logLevel
  else if arg = "--failed-out" then some .failedOut
  else none

def setValue (o : Options) (value : String) : Valued → Except OptionFault Options
  | .threads => (readThreads value).map fun n => { o with threads := n }
  | .logLevel => (readLevel value).map fun level => { o with logLevel := level }
  | .failedOut => .ok { o with failedOut := some value }

/-- Takes in an argument that needs no value. A dash alone is a file. -/
def setFlag (o : Options) (arg : String) : Except OptionFault Options :=
  if arg = "--help" ∨ arg = "-h" then .ok { o with showHelp := true }
  else if arg = "--print-board" then .ok { o with printBoard := true }
  else if arg.toList.head? = some '-' ∧ arg ≠ "-" then .error (.unknownOption arg)
  else .ok { o with files := o.files ++ [arg] }

def readArgs (o : Options) : List String → Except OptionFault Options
  | [] => .ok o
  | arg :: rest =>
    match Valued.ofArg? arg with
    | none =>
      match o.setFlag arg with
      | .ok o => readArgs o rest
      | .error fault => .error fault
    | some option =>
      match rest with
      | [] => .error (.missingValue arg)
      | value :: rest =>
        match o.setValue value option with
        | .ok o => readArgs o rest
        | .error fault => .error fault

/-- Reads a command line; without a request for help it must name a file. -/
def parse (args : List String) : Except OptionFault Options :=
  match readArgs {} args with
  | .error fault => .error fault
  | .ok o => if o.files = [] ∧ !o.showHelp then .error .noFiles else .ok o

end Options

end ChessArbiter
