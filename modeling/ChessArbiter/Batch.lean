import ChessArbiter.Folder
import ChessArbiter.Options
import ChessArbiter.Percent
import ChessArbiter.Replay

/-!
# Replaying files

`fileOutcome` replays the games of one file and says what is printed about it and which games have
to be written out. `Batch.run` does so for a list of files in a folder, one after the other, and
keeps the account: what was printed, the exit code and the paths written to. What a path leads to is
left open. A path that was already written to in the same run is appended to, any other is replaced.
-/

namespace ChessArbiter

/-- Where the failed games of a file go by default: beside it, or into the same file if that is a
list of failed games already. -/
def failedPath (path : String) : String :=
  if Text.occursIn "failed".toList path.toList then path
  else
    let stem := if ".pgn".toList.isSuffixOf path.toList then path.toList.take (path.length - 4)
      else path.toList
    String.ofList stem ++ "-failed.pgn"

namespace Report

def lines (r : Report) (board : Bool) : String :=
  (match r.error with
    | none => "  PASS  " ++ r.title ++ "\n"
    | some e =>
      "  FAIL  " ++ r.title
        ++ (match r.failedMove with
          | none => ""
          | some move => "  (move " ++ toString (r.movesPlayed + 1) ++ " '" ++ move ++ "')")
        ++ "\n        " ++ e.describe ++ "\n")
    ++ (if board then r.finalBoard ++ r.finalFen ++ "\n\n" else "")

end Report

structure FileOutcome where
  log : String
  summary : String
  failed : Option String
deriving DecidableEq

def fileOutcome (o : Options) (path text : String) : FileOutcome :=
  let games := PgnGame.readGames text
  let results := replayAll o.threads (some o.logLevel) games
  let reports := results.map (·.1)
  let passed := (reports.filter (·.passed)).length
  { log := String.join (results.map (·.2.text))
    summary := "=== " ++ path ++ " ===\n" ++ String.join (reports.map (·.lines o.printBoard))
      ++ path ++ ": " ++ toString passed ++ "/" ++ toString reports.length ++ " passed ("
      ++ Percent.text passed reports.length ++ "%)\n"
    failed := if passed = reports.length then none else some (failedGames reports games) }

structure Batch where
  folder : Folder
  output : String := ""
  errors : String := ""
  exitCode : Nat := 0
  written : List String := []
deriving DecidableEq

namespace Batch

variable (paths : Paths)

def openFault (path : String) : String := "Cannot open " ++ path ++ "\n"

def writeFault (path : String) : String := "Cannot write " ++ path ++ "\n"

def writeNotice (path : String) : String := "Failed games written to " ++ path ++ "\n"

def print (b : Batch) (text : String) : Batch := { b with output := b.output ++ text }

def complain (b : Batch) (text : String) : Batch := { b with errors := b.errors ++ text }

/-- A trouble with files outranks a failed game. -/
def failWith (b : Batch) (code : Nat) : Batch := { b with exitCode := max b.exitCode code }

/-- Shows what was written to one of the program's own streams. -/
def echo (b : Batch) (path text : String) : Batch :=
  match paths path with
  | some (.other _ (some .output)) => b.print text
  | some (.other _ (some .errors)) => b.complain text
  | _ => b

/-- The notice comes before the games where both go to the same stream. -/
def writeFailed (b : Batch) (path games : String) : Batch :=
  match b.folder.write? paths path (b.written.contains path) games with
  | some folder =>
    let b := { b with folder, written := b.written ++ [path] }
    (b.print (writeNotice path)).echo paths path games
  | none => (b.complain (writeFault path)).failWith 2

def replayFile (o : Options) (b : Batch) (path : String) : Batch :=
  match b.folder.read? paths path with
  | none => (b.complain (openFault path)).failWith 2
  | some text =>
    let outcome := fileOutcome o path text
    let b := (b.complain outcome.log).print outcome.summary
    match outcome.failed with
    | none => b
    | some games => (b.failWith 1).writeFailed paths (o.failedOut.getD (failedPath path)) games

def run (o : Options) (folder : Folder) : Batch := o.files.foldl (replayFile paths o) { folder }

def refusal (fault : OptionFault) : String := fault.message ++ "\n" ++ Options.usage

def command (args : List String) (folder : Folder) : Batch :=
  match Options.parse args with
  | .error fault =>
    ({ folder, exitCode := 2 } : Batch).complain (refusal fault)
  | .ok o => if o.showHelp then ({ folder } : Batch).print Options.usage else run paths o folder

end Batch

end ChessArbiter
