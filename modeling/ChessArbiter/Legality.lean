import ChessArbiter.Fen

/-!
# What a move would be

`Game.assess` looks at a request to move a man from one square to another, and either refuses it
with the first objection found or says what carrying it out amounts to: a castle, or a `Step`.
Whether a step leaves the mover's king attacked is not asked here; that shows once it is made.
-/

namespace ChessArbiter

structure Step where
  man : Man
  src : Square
  dst : Square
  /-- A pawn takes another one in passing. -/
  passing : Bool
  /-- What a pawn that ends on its last rank turns into. -/
  becomes : Option PieceKind
deriving DecidableEq

inductive Plan where
  | castle (wing : Wing)
  | step (step : Step)
deriving DecidableEq

def Man.castleRequest (m : Man) (src dst : Square) : Option Wing :=
  if m.kind = .king then
    Wing.all.find? fun w =>
      (CastlePath.of m.colour w).kingFrom == src && (CastlePath.of m.colour w).kingTo == dst
  else none

def Man.promotesOn (m : Man) (dst : Square) : Bool :=
  m.kind == .pawn && dst.rank == m.colour.lastRank

namespace Game

/-- The man of the side to move that is asked to leave `src` for another square. -/
def moverAt (g : Game) (src dst : Square) : Except MoveError Man :=
  match g.board.occupant src with
  | none => .error (g.failure .emptySource ("No piece at " ++ src.name) src dst)
  | some m =>
    if m.colour ≠ g.active then
      .error (g.failure .wrongTurnOwner ("It is " ++ g.active.label ++ "'s move, cannot move "
        ++ m.label ++ " at " ++ src.name) src dst)
    else if src = dst then
      .error (g.failure .illegalGeometry (m.label ++ " must leave " ++ src.name) src dst)
    else .ok m

def promotionObjection (g : Game) (m : Man) (src dst : Square) :
    Option PieceKind → Option MoveError
  | none => none
  | some k =>
    if m.kind ≠ .pawn then
      some (g.failure .promotionError ("Only pawns can be promoted, not the " ++ m.label) src dst)
    else if dst.rank ≠ m.colour.lastRank then
      some (g.failure .promotionError ("Pawn on " ++ dst.name ++ " has not reached the last rank")
        src dst)
    else if k.isOfficer then none
    else some (g.failure .promotionError ("Cannot promote to " ++ k.label) src dst)

def captureObjection (g : Game) (m : Man) (src dst : Square) : Option MoveError :=
  match g.board.occupant dst with
  | none => none
  | some v =>
    if v.colour = m.colour then
      some (g.failure .illegalCapture
        (m.label ++ " cannot capture its own " ++ v.kind.label ++ " on " ++ dst.name) src dst)
    else none

/-- A pawn reaches the en passant target in the way that takes the pawn that passed over it. -/
def isPassing (g : Game) (m : Man) (dst : Square) : Bool :=
  m.kind == .pawn && g.board.isEmpty dst && g.enPassant == some dst && g.canTake m dst

def obeysRules (g : Game) (m : Man) (dst : Square) : Bool :=
  if g.board.isEmpty dst then g.isPassing m dst || g.canMoveTo m dst else g.canTake m dst

def ruleObjection (g : Game) (m : Man) (src dst : Square) : MoveError :=
  if !g.reaches m dst then
    g.failure .illegalGeometry (m.label ++ " at " ++ src.name ++ " cannot reach " ++ dst.name)
      src dst
  else if m.kind ≠ .knight ∧ !g.board.pathClear src dst then
    g.failure .blockedPath ("Path from " ++ src.name ++ " to " ++ dst.name ++ " is blocked")
      src dst
  else if m.kind = .king then
    g.failure .selfCheck (m.label ++ " cannot step onto attacked square " ++ dst.name) src dst
  else
    let deed := if g.board.isEmpty dst then " cannot move to " else " cannot capture on "
    g.failure .illegalGeometry (m.label ++ " at " ++ src.name ++ deed ++ dst.name) src dst

/-- The step of a man that leaves `src` for `dst`, a queen being the default promotion. -/
def stepOf (g : Game) (m : Man) (src dst : Square) (promotion : Option PieceKind) : Step :=
  { man := m, src, dst
    passing := g.isPassing m dst
    becomes := if m.promotesOn dst then some (promotion.getD .queen) else none }

def assess (g : Game) (src dst : Square) (promotion : Option PieceKind) : Except MoveError Plan :=
  match g.moverAt src dst with
  | .error e => .error e
  | .ok m =>
    match m.castleRequest src dst with
    | some w => .ok (.castle w)
    | none =>
      match (g.promotionObjection m src dst promotion).or (g.captureObjection m src dst) with
      | some e => .error e
      | none =>
        if g.obeysRules m dst then .ok (.step (g.stepOf m src dst promotion))
        else .error (g.ruleObjection m src dst)

end Game

end ChessArbiter
