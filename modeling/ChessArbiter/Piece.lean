import ChessArbiter.Geometry

/-!
# Pieces

A `PieceKind` has a value, a name and a letter; a `Piece` is a kind of one colour. A `Man` is one
particular piece of a set, told apart from its equals by its number. `Piece.reaches` is the bare
shape of a piece's step, on an empty board.
-/

namespace ChessArbiter

inductive PieceKind where
  | pawn
  | knight
  | bishop
  | rook
  | queen
  | king
deriving DecidableEq

namespace PieceKind

def all : List PieceKind := [pawn, knight, bishop, rook, queen, king]

def code : PieceKind → Fin 6
  | pawn => 0
  | knight => 1
  | bishop => 2
  | rook => 3
  | queen => 4
  | king => 5

def value : PieceKind → Nat
  | pawn => 1
  | knight => 3
  | bishop => 3
  | rook => 5
  | queen => 9
  | king => 100

def label : PieceKind → String
  | pawn => "Pawn"
  | knight => "Knight"
  | bishop => "Bishop"
  | rook => "Rook"
  | queen => "Queen"
  | king => "King"

def plural (k : PieceKind) : String := k.label ++ "s"

def letter : PieceKind → Char
  | pawn => 'P'
  | knight => 'N'
  | bishop => 'B'
  | rook => 'R'
  | queen => 'Q'
  | king => 'K'

/-- Reads a letter of either case. -/
def ofLetter? (c : Char) : Option PieceKind := all.find? (·.letter == c.toUpper)

/-- The kinds that move along a line until something stands in the way. -/
def slides : PieceKind → Bool
  | bishop => true
  | rook => true
  | queen => true
  | _ => false

/-- A pawn may become any of the four officers. -/
def isOfficer : PieceKind → Bool
  | pawn => false
  | king => false
  | _ => true

@[simp] theorem ofLetter?_letter (k : PieceKind) : ofLetter? k.letter = some k := by
  cases k <;> rfl

end PieceKind

structure Piece where
  kind : PieceKind
  colour : Colour
deriving DecidableEq

structure Man extends Piece where
  id : Nat
deriving DecidableEq

namespace Colour

def forward : Colour → Int
  | white => 1
  | black => -1

def pawnRank : Colour → Fin 8
  | white => 1
  | black => 6

def homeRank : Colour → Fin 8
  | white => 0
  | black => 7

def lastRank : Colour → Fin 8
  | white => 7
  | black => 0

end Colour

namespace Piece

def label (p : Piece) : String := p.colour.label ++ " " ++ p.kind.label

def symbol (p : Piece) : Char :=
  match p.colour with
  | .white => p.kind.letter
  | .black => p.kind.letter.toLower

def ofSymbol? (c : Char) : Option Piece :=
  (PieceKind.ofLetter? c).map (⟨·, if c.isUpper then .white else .black⟩)

def glyph (p : Piece) : Char :=
  match p.colour, p.kind with
  | .white, .pawn => '♙'
  | .white, .knight => '♘'
  | .white, .bishop => '♗'
  | .white, .rook => '♖'
  | .white, .queen => '♕'
  | .white, .king => '♔'
  | .black, .pawn => '♟'
  | .black, .knight => '♞'
  | .black, .bishop => '♝'
  | .black, .rook => '♜'
  | .black, .queen => '♛'
  | .black, .king => '♚'

/-- A pawn's double step is open to it: it has not moved and stands where its side's pawns start. -/
def mayStepTwice (p : Piece) (moved : Bool) (src : Square) : Bool :=
  !moved && src.rank == p.colour.pawnRank

/-- The shape of the step from `src` to `dst` fits the piece, whatever else is on the board. -/
def reaches (p : Piece) (moved : Bool) (src dst : Square) : Bool :=
  let d := dst - src
  match p.kind with
  | .pawn =>
    if d.files = 0 then
      d.ranks == p.colour.forward || (d.ranks == 2 * p.colour.forward && p.mayStepTwice moved src)
    else d.files.natAbs == 1 && d.ranks == p.colour.forward
  | .knight => (Geometry.knightStrikes src).has dst
  | .bishop => d.files != 0 && d.files.natAbs == d.ranks.natAbs
  | .rook => (d.files == 0) != (d.ranks == 0)
  | .queen =>
    !(d.files == 0 && d.ranks == 0)
      && (d.files == 0 || d.ranks == 0 || d.files.natAbs == d.ranks.natAbs)
  | .king => (Geometry.kingStrikes src).has dst

@[simp] theorem ofSymbol?_symbol (p : Piece) : ofSymbol? p.symbol = some p := by
  obtain ⟨k, c⟩ := p
  cases k <;> cases c <;> rfl

end Piece

end ChessArbiter
