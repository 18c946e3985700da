import ChessArbiter.Proofs.Strikes
import ChessArbiter.Castling

/-!
# The rules of chess

A `Position` is what the rules speak of: which piece stands where, who is to move, the castling
rights that are left, the square a pawn has just passed over, and the two counters. Attacks are
found by walking along lines until something stands in the way. A move is pseudo-legal by the rules
of its kind, and legal if the own king is not attacked once it is made. `Position.after` gives the
position to which a move leads, if the rules allow it.
-/

namespace ChessArbiter

abbrev Placement := Square → Option Piece

namespace Placement

def free (men : Placement) (s : Square) : Bool := (men s).isNone

def isAttacked (men : Placement) (s : Square) (c : Colour) : Bool :=
  Square.all.any fun src => (men src).any fun x => x.colour == c && x.bearsOn men.free src s

def inCheck (men : Placement) (c : Colour) : Bool :=
  Square.all.any fun s => men s == some ⟨.king, c⟩ && men.isAttacked s c.opposite

/-- A pawn's advance: one square ahead or, from its starting rank, two, all of them free. -/
def pushes (men : Placement) (c : Colour) (src dst : Square) : Bool :=
  (src.tryOffset ⟨0, c.forward⟩).any fun next => men.free next &&
    (next == dst ||
      src.rank == c.pawnRank && next.tryOffset ⟨0, c.forward⟩ == some dst && men.free dst)

end Placement

namespace Piece

def promotes (x : Piece) (dst : Square) : Bool :=
  x.kind == .pawn && dst.rank == x.colour.lastRank

/-- What stands on the destination afterwards; a pawn on its last rank becomes a queen unless
another piece is asked for. -/
def arriving (x : Piece) (dst : Square) (promotion : Option PieceKind) : Piece :=
  if x.promotes dst then ⟨promotion.getD .queen, x.colour⟩ else x

def doublePush (x : Piece) (src dst : Square) : Bool :=
  x.kind == .pawn && src.tryOffset ⟨0, 2 * x.colour.forward⟩ == some dst

def castling (x : Piece) (src dst : Square) : Option Wing :=
  Wing.all.find? fun w => x.kind == .king && (CastlePath.of x.colour w).kingFrom == src
    && (CastlePath.of x.colour w).kingTo == dst

end Piece

@[ext]
structure Position where
  men : Placement
  active : Colour
  rights : Colour → Wing → Bool
  /-- The square that a pawn has passed over with the last move. -/
  passing : Option Square
  halfmove : Int
  turn : Int

namespace Position

def initial : Position :=
  { men := fun s =>
      if s.rank = 0 then some ⟨officers s.file, .white⟩
      else if s.rank = 1 then some ⟨.pawn, .white⟩
      else if s.rank = 6 then some ⟨.pawn, .black⟩
      else if s.rank = 7 then some ⟨officers s.file, .black⟩
      else none
    active := .white, rights := fun _ _ => true, passing := none, halfmove := 0, turn := 1 }
where
  officers : Fin 8 → PieceKind := fun file =>
    match file with
    | 0 | 7 => .rook
    | 1 | 6 => .knight
    | 2 | 5 => .bishop
    | 3 => .queen
    | 4 => .king

/-- A pawn takes the one that has just passed it. -/
def takesPassing (p : Position) (x : Piece) (src dst : Square) : Bool :=
  x.kind == .pawn && p.passing == some dst && x.bearsOn p.men.free src dst

def pseudoLegal (p : Position) (x : Piece) (src dst : Square) : Bool :=
  !(p.men dst).any (·.colour == x.colour) &&
    if x.kind = .pawn then
      p.men.pushes x.colour src dst || x.bearsOn p.men.free src dst && !p.men.free dst
        || p.takesPassing x src dst
    else x.bearsOn p.men.free src dst

def menAfter (p : Position) (x : Piece) (src dst : Square) (promotion : Option PieceKind) :
    Placement :=
  fun u =>
    if u = dst then some (x.arriving dst promotion)
    else if u = src then none
    else if p.takesPassing x src dst = true ∧ u = ⟨dst.file, src.rank⟩ then none
    else p.men u

/-- A right is lost when its king or its rook leaves home, or its rook is taken there. -/
def rightsAfter (p : Position) (src dst : Square) (c : Colour) (w : Wing) : Bool :=
  p.rights c w && src != (CastlePath.of c w).kingFrom && src != (CastlePath.of c w).rookFrom
    && dst != (CastlePath.of c w).rookFrom

/-- The position after a move of the piece `x`, whether or not the rules allow it. -/
def moved (p : Position) (x : Piece) (src dst : Square) (promotion : Option PieceKind) :
    Position :=
  { men := p.menAfter x src dst promotion
    active := p.active.opposite
    rights := p.rightsAfter src dst
    passing := if x.doublePush src dst then src.tryOffset ⟨0, x.colour.forward⟩ else none
    halfmove := if x.kind = .pawn ∨ p.men dst ≠ none then 0 else p.halfmove + 1
    turn := if p.active = .black then p.turn + 1 else p.turn }

/-- The right is left, no piece stands between king and rook, and the king does not start from,
pass over or reach an attacked square. The square it passes over is the one the rook comes to. -/
def mayCastle (p : Position) (w : Wing) : Bool :=
  p.rights p.active w
    && Square.orthogonals.any (Square.sees p.men.free · 7 (CastlePath.of p.active w).kingFrom
      (CastlePath.of p.active w).rookFrom)
    && !p.men.isAttacked (CastlePath.of p.active w).kingFrom p.active.opposite
    && !p.men.isAttacked (CastlePath.of p.active w).rookTo p.active.opposite
    && !p.men.isAttacked (CastlePath.of p.active w).kingTo p.active.opposite

def castled (p : Position) (w : Wing) : Position :=
  { men := fun u =>
      if u = (CastlePath.of p.active w).kingTo then some ⟨.king, p.active⟩
      else if u = (CastlePath.of p.active w).rookTo then some ⟨.rook, p.active⟩
      else if u = (CastlePath.of p.active w).kingFrom ∨ u = (CastlePath.of p.active w).rookFrom then
        none
      else p.men u
    active := p.active.opposite
    rights := p.rightsAfter (CastlePath.of p.active w).kingFrom (CastlePath.of p.active w).kingTo
    passing := none
    halfmove := p.halfmove + 1
    turn := if p.active = .black then p.turn + 1 else p.turn }

def afterCastle (p : Position) (w : Wing) : Option Position :=
  if p.mayCastle w then some (p.castled w) else none

/-- The position to which a move of the piece `x` leads, if the rules allow it. -/
def afterStep (p : Position) (x : Piece) (src dst : Square) (promotion : Option PieceKind) :
    Option Position :=
  if p.pseudoLegal x src dst && !(p.menAfter x src dst promotion).inCheck x.colour then
    some (p.moved x src dst promotion)
  else none

def after (p : Position) (src dst : Square) (promotion : Option PieceKind) : Option Position :=
  match p.men src with
  | none => none
  | some x =>
    if x.colour = p.active then
      match x.castling src dst with
      | some w => p.afterCastle w
      | none => p.afterStep x src dst promotion
    else none

end Position

end ChessArbiter
