import ChessArbiter.Batch
import ChessArbiter.ByteText

/-!
# The replay command

Reads the files named on the command line, prints what `fileOutcome` says about each, and writes
failed games to disk, by the same account as `Batch.run` keeps on a folder.
-/

namespace ChessArbiter.Command

def say (stream : IO.FS.Stream) (text : String) : IO Unit := do
  stream.write (ByteText.toBytes text)
  stream.flush

def nativePath (path : String) : String :=
  (String.fromUTF8? (ByteText.toBytes path)).getD path

def openFile? (path : String) (mode : IO.FS.Mode) : IO (Option IO.FS.Handle) := do
  try return some (← IO.FS.Handle.mk (nativePath path) mode)
  catch _ => return none

/-- The text behind a path. What can be opened but not read, as a directory, gives no text. -/
def readFile? (path : String) : IO (Option String) := do
  match ← openFile? path .read with
  | none => return none
  | some h =>
    try return some (ByteText.ofBytes (← h.readBinToEnd))
    catch _ => return some ""

/-- Writes to an open file. What a full device refuses is lost. -/
def fill (h : IO.FS.Handle) (text : String) : IO Unit := do
  try
    h.write (ByteText.toBytes text)
    h.flush
  catch _ => return ()

/-- Replays a file. Gives the exit code and the files written so far. -/
def replayFile (o : Options) (code : Nat) (written : List String) (path : String) :
    IO (Nat × List String) := do
  let output ← IO.getStdout
  let errors ← IO.getStderr
  match ← readFile? path with
  | none =>
    say errors (Batch.openFault path)
    return (2, written)
  | some text =>
    let outcome := fileOutcome o path text
    say errors outcome.log
    say output outcome.summary
    match outcome.failed with
    | none => return (code, written)
    | some games =>
      let target := o.failedOut.getD (failedPath path)
      match ← openFile? target (if target ∈ written then .append else .write) with
      | some h =>
        say output (Batch.writeNotice target)
        fill h games
        return (max code 1, target :: written)
      | none =>
        say errors (Batch.writeFault target)
        return (2, written)

def replayFiles (o : Options) (code : Nat) (written : List String) : List String → IO Nat
  | [] => return code
  | path :: rest => do
    let (code, written) ← replayFile o code written path
    replayFiles o code written rest

end ChessArbiter.Command

open ChessArbiter in
def main (args : List String) : IO UInt32 := do
  match Options.parse (args.map fun arg => ByteText.ofBytes arg.toUTF8) with
  | .error fault =>
    Command.say (← IO.getStderr) (Batch.refusal fault)
    return 2
  | .ok o =>
    if o.showHelp then
      Command.say (← IO.getStdout) Options.usage
      return 0
    return (← Command.replayFiles o 0 [] o.files).toUInt32
