import ChessArbiter.Board

/-!
# The board and its men

A `Table` is a board with a roster: for every man ever made, where it stands, if anywhere, and
whether it has moved. `place`, `lift` and `relocate` change the board and the roster together.
The queries about a man start from where the roster says it stands.
-/

namespace ChessArbiter

structure Status where
  square : Option Square
  moved : Bool
deriving DecidableEq

structure Table where
  board : Board
  roster : Array Status
deriving DecidableEq

namespace Table

def empty : Table := ⟨.empty, #[]⟩

def square? (t : Table) (m : Man) : Option Square := t.roster[m.id]?.bind (·.square)

def hasMoved (t : Table) (m : Man) : Bool := t.roster[m.id]?.any (·.moved)

def setSquare (t : Table) (m : Man) (s : Option Square) : Table :=
  { t with roster := t.roster.modify m.id fun st => { st with square := s } }

def setMoved (t : Table) (m : Man) (moved : Bool) : Table :=
  { t with roster := t.roster.modify m.id fun st => { st with moved := moved } }

/-- Makes a man for a square without putting it there. -/
def make (t : Table) (p : Piece) (s : Square) : Man × Table :=
  (⟨p, t.roster.size⟩, { t with roster := t.roster.push ⟨some s, false⟩ })

/-- Puts a man on a square. What stood there is gone from the board but keeps its status. -/
def place (t : Table) (m : Man) (s : Square) : Table :=
  { t with board := t.board.put s (some m) }.setSquare m (some s)

def lift (t : Table) (s : Square) : Option Man × Table :=
  match t.board.occupant s with
  | none => (none, t)
  | some m => (some m, { t with board := t.board.put s none }.setSquare m none)

/-- Moves a man whatever the rules say. Gives back the man that stood in the way. -/
def relocate (t : Table) (src dst : Square) : Option Man × Table :=
  match t.board.occupant src with
  | none => (none, t)
  | some m =>
    if src = dst then (none, t)
    else
      let victim := t.board.occupant dst
      let t := victim.elim t (t.setSquare · none)
      (victim, { t with board := (t.board.put src none).put dst (some m) }.setSquare m (some dst))

/-- The shape of the step to `dst` fits the man where it stands. -/
def reaches (t : Table) (m : Man) (dst : Square) : Bool :=
  (t.square? m).any fun src => m.reaches (t.hasMoved m) src dst

/-- The man would capture on `dst` if an enemy stood there, as far as the men in between let it. -/
def attacks (t : Table) (m : Man) (dst : Square) : Bool :=
  (t.square? m).any fun src =>
    match m.kind with
    | .pawn => (Geometry.pawnStrikes m.colour src).has dst
    | .knight => m.reaches (t.hasMoved m) src dst
    | .king => m.reaches (t.hasMoved m) src dst
    | _ => m.reaches (t.hasMoved m) src dst && t.board.pathClear src dst

def holdsOpponent (t : Table) (m : Man) (s : Square) : Bool :=
  (t.board.occupant s).any (·.colour != m.colour)

end Table

end ChessArbiter
