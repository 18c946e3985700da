import ChessArbiter.Diagram
import ChessArbiter.PgnGame
import ChessArbiter.Resolution
import ChessArbiter.WorkerPool

/-!
# Replaying recorded games

`replay` plays a recorded game from its starting position up to the first move that is refused
and reports how far it came. `replayAll` replays many games on a pool of workers; its reports are
in the order of the games. The games that failed can be written out again.
-/

namespace ChessArbiter

structure Report where
  title : String
  movesPlayed : Nat := 0
  failedMove : Option String := none
  error : Option MoveError := none
  finalFen : String
  finalBoard : String
deriving DecidableEq

namespace Report

def passed (r : Report) : Bool := r.error.isNone

def ofGame (title : String) (g : Game) (movesPlayed : Nat := 0)
    (failure : Option (Option String × MoveError) := none) : Report :=
  { title, movesPlayed
    failedMove := failure.bind (·.1)
    error := failure.map (·.2)
    finalFen := g.toFen
    finalBoard := g.board.render [] .glyphs }

end Report

/-- Plays written moves until one is refused. Gives the number played, and the refused move with
its error. -/
def Arbiter.playAll (a : Arbiter) (played : Nat) :
    List String → (Nat × Option (String × MoveError)) × Arbiter
  | [] => ((played, none), a)
  | text :: rest =>
    match a.play text with
    | (.ok _, a) => playAll a (played + 1) rest
    | (.error e, a) => ((played, some (text, e)), a)

def Arbiter.setUpFor (a : Arbiter) (game : PgnGame) : Except MoveError Unit × Arbiter :=
  match game.tag "fen" with
  | none => (.ok (), a)
  | some fen => a.loadFen fen

/-- Replays a game. The journal takes announcements from the given level on. -/
def replay (level : Option LogLevel) (game : PgnGame) : Report × Journal :=
  match (Arbiter.opening { threshold := level }).setUpFor game with
  | (.error e, a) => (.ofGame game.title a.toGame 0 (some (none, e)), a.journal)
  | (.ok (), a) =>
    let ((played, failure), a) := a.playAll 0 game.moves
    let report := Report.ofGame game.title a.toGame played
      (failure.map fun (text, e) => (some text, e))
    (report,
      if report.passed then
        a.journal.write .debug (game.title ++ ": " ++ toString played ++ " moves replayed")
      else a.journal)

/-- At least one worker, and no more than there are games. -/
def workerCount (threads : Int32) (games : Nat) : Nat := min (max threads.toInt 1).toNat games

def replayAll (threads : Int32) (level : Option LogLevel) (games : List PgnGame) :
    List (Report × Journal) :=
  WorkerPool.runAll (replay level) (workerCount threads games.length) games.toArray

/-- The texts of the games that failed, each followed by a blank line. -/
def failedGames (reports : List Report) (games : List PgnGame) : String :=
  String.join (((reports.zip games).filter (!·.1.passed)).map (·.2.text ++ "\n"))

end ChessArbiter
