import ChessArbiter.Game

/-!
# Attacks, check and mate

Which men strike a square, where a man may go and what it may take, whether a king is in check or
has no square left to step to, and which castles are open. All of this only looks at the game.
-/

namespace ChessArbiter.Game

def strikes (g : Game) (m : Man) (s : Square) : Bool :=
  (g.square? m).any (· != s) && g.attacks m s

def isAttacked (g : Game) (s : Square) (attacker : Colour) : Bool :=
  (g.live.get attacker).any (g.strikes · s)

/-- A sliding man sees `s` once `vacated` counts as empty. -/
def slidesThrough (g : Game) (m : Man) (s vacated : Square) : Bool :=
  m.kind.slides && g.reaches m s
    && (g.square? m).any fun src =>
      src != s && Geometry.between src s &&& g.board.occupied.erase vacated == 0#64

/-- As `isAttacked`, with `vacated` counted as empty: so a king judges its own step. -/
def isAttackedWithout (g : Game) (s : Square) (attacker : Colour) (vacated : Square) : Bool :=
  (g.live.get attacker).any fun m => g.strikes m s || g.slidesThrough m s vacated

def inCheck (g : Game) (c : Colour) : Bool :=
  (g.king c).any fun k => (g.square? k).any (g.isAttacked · c.opposite)

def pawnAdvances (g : Game) (m : Man) (dst : Square) : Bool :=
  (g.square? m).any fun src =>
    let d := dst - src
    d.files == 0
      && (d.ranks == m.colour.forward
        || (d.ranks == 2 * m.colour.forward && m.mayStepTwice (g.hasMoved m) src
          && g.board.pathClear src dst))
      && g.board.isEmpty dst

/-- A king's step to `dst` ends on a square that no enemy attacks. -/
def kingSteps (g : Game) (m : Man) (dst : Square) : Bool :=
  (g.square? m).any fun src =>
    g.reaches m dst && !g.isAttackedWithout dst m.colour.opposite src

def canMoveTo (g : Game) (m : Man) (dst : Square) : Bool :=
  match m.kind with
  | .pawn => g.pawnAdvances m dst
  | .king => g.kingSteps m dst
  | _ => g.attacks m dst

/-- The pawn that has just passed over the empty square `dst` stands beside the pawn `m`. -/
def passedBy (g : Game) (m : Man) (dst : Square) : Bool :=
  g.enPassant == some dst && g.board.isEmpty dst
    && (g.square? m).any fun src =>
      (g.board.occupant ⟨dst.file, src.rank⟩).any fun v => v.kind == .pawn && v.colour != m.colour

def canTake (g : Game) (m : Man) (dst : Square) : Bool :=
  match m.kind with
  | .pawn => g.attacks m dst && (g.holdsOpponent m dst || g.passedBy m dst)
  | _ => g.canMoveTo m dst && g.holdsOpponent m dst

def kingOffsets : List Offset :=
  [⟨-1, -1⟩, ⟨-1, 0⟩, ⟨-1, 1⟩, ⟨0, -1⟩, ⟨0, 1⟩, ⟨1, -1⟩, ⟨1, 0⟩, ⟨1, 1⟩]

/-- The king of `defender` has no square to step to. Blocks and captures of the attacker by other
men are left out of account. -/
def isCheckmate (g : Game) (defender : Colour) : Bool :=
  (g.king defender).any fun k =>
    (g.square? k).any fun src =>
      !(kingOffsets.filterMap src.tryOffset).any fun dst =>
        !(g.board.occupant dst).any (·.colour == defender) && g.canMoveTo k dst

def unmovedAt (g : Game) (c : Colour) (kind : PieceKind) (s : Square) : Bool :=
  (g.board.occupant s).any fun m => m.kind == kind && m.colour == c && !g.hasMoved m

def hasRight (g : Game) (c : Colour) (w : Wing) : Bool :=
  let path := CastlePath.of c w
  g.unmovedAt c .king path.kingFrom && g.unmovedAt c .rook path.rookFrom

def canCastle (g : Game) (c : Colour) (w : Wing) : Bool :=
  let path := CastlePath.of c w
  g.hasRight c w && g.board.pathClear path.kingFrom path.rookFrom
    && !(path.kingFrom :: path.kingTo :: Geometry.squaresBetween path.kingFrom path.kingTo).any
      (g.isAttacked · c.opposite)

end ChessArbiter.Game
