import ChessArbiter.Fen
import ChessArbiter.Journal
import ChessArbiter.Snapshot

/-!
# The arbiter

An `Arbiter` conducts a game and announces what happens in a journal. Nothing in the game depends
on the journal. While a rollback scope is open, announcements below a warning are demoted to the
lowest level. Closing a scope restores the snapshot taken when it was opened.
-/

namespace ChessArbiter

structure Arbiter extends Game where
  journal : Journal
deriving DecidableEq

namespace Arbiter

variable {α : Type}

def note (a : Arbiter) (level : LogLevel) (message : String) : Arbiter :=
  let level := if 0 < a.depth ∧ level.rank < LogLevel.warning.rank then .trace else level
  { a with journal := a.journal.write level message }

def announce (a : Arbiter) (messages : List String) : Arbiter :=
  messages.foldl (·.note .info ·) a

def refuse (a : Arbiter) (e : MoveError) : Except MoveError α × Arbiter :=
  (.error e, a.note .debug e.describe)

@[simp] theorem toGame_note (a : Arbiter) (level : LogLevel) (message : String) :
    (a.note level message).toGame = a.toGame := rfl

@[simp] theorem toGame_announce (a : Arbiter) (messages : List String) :
    (a.announce messages).toGame = a.toGame := by
  induction messages generalizing a with
  | nil => rfl
  | cons m ms ih => exact (ih (a.note .info m)).trans (toGame_note a .info m)

/-! ### Setting up -/

/-- Takes up another game at the current depth of scopes. -/
def takeUp (a : Arbiter) (g : Game) : Arbiter := { a with toGame := { g with depth := a.depth } }

def clear (a : Arbiter) : Arbiter := a.takeUp .empty

def reset (a : Arbiter) : Arbiter :=
  (a.takeUp .start).note .debug "Board reset to the starting position"

def opening (journal : Journal) : Arbiter := Arbiter.reset { toGame := .empty, journal }

/-- Sets up the position of a text, or refuses the text and leaves the game alone. -/
def loadFen (a : Arbiter) (fen : String) : Except MoveError Unit × Arbiter :=
  match Setup.ofFen fen with
  | .error fault => (.error (a.failure .invalidFen (fault.reason ++ " in '" ++ fen ++ "'")), a)
  | .ok s =>
    let a := a.takeUp (.ofSetup s)
    (.ok (), a.note .debug ("Loaded position " ++ a.toFen))

def add (a : Arbiter) (p : Piece) (s : Square) : Option Man × Arbiter :=
  if a.board.isEmpty s then
    let (m, g) := a.enlist p s
    (some m, { a with toGame := g })
  else
    (none, a.note .warning ("Cannot add " ++ p.label ++ ": " ++ s.name ++ " is occupied"))

def remove (a : Arbiter) (s : Square) : Bool × Arbiter :=
  match a.lift s with
  | (none, _) => (false, a)
  | (some m, t) => (true, { a with toGame := { a.toGame with toTable := t }.dismiss m })

/-! ### Rollback scopes -/

def restoreTo (a : Arbiter) (s : Snapshot) : Arbiter := { a with toGame := a.restore s }

def openScope (a : Arbiter) : Snapshot × Arbiter := (a.snapshot, { a with depth := a.depth + 1 })

def closeScope (a : Arbiter) (s : Snapshot) : Arbiter :=
  { a.restoreTo s with depth := a.depth - 1 }

/-- Acts inside a scope of its own, so that only the answer and the journal remain. -/
def speculate (a : Arbiter) (act : Arbiter → α × Arbiter) : α × Arbiter :=
  let (s, b) := a.openScope
  let (answer, b) := act b
  (answer, b.closeScope s)

theorem toGame_speculate (a : Arbiter) (act : Arbiter → α × Arbiter)
    (hgrown : a.toGame.Grown (act a.openScope.2).2.toGame)
    (hdepth : (act a.openScope.2).2.depth = a.depth + 1) :
    (a.speculate act).2.toGame = a.toGame := by
  have hback : (act a.openScope.2).2.restore a.snapshot =
      { a.toGame with depth := (act a.openScope.2).2.depth } := hgrown.restore
  have hclose : (a.speculate act).2.toGame =
      { (act a.openScope.2).2.restore a.snapshot with
        depth := (act a.openScope.2).2.depth - 1 } := rfl
  rw [hclose, hback, hdepth]
  rfl

end Arbiter

end ChessArbiter
