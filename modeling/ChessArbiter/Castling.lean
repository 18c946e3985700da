import ChessArbiter.Move

/-!
# The four castles

Each side may castle on either wing; a `CastlePath` gives the home squares of king and rook and
the squares on which they end.
-/

namespace ChessArbiter

inductive Wing where
  | king
  | queen
deriving DecidableEq

namespace Wing

def all : List Wing := [king, queen]

def label : Wing → String
  | king => "kingside"
  | queen => "queenside"

def text : Wing → String
  | king => "O-O"
  | queen => "O-O-O"

/-- The letter of a castling right, in the case of the side that holds it. -/
def symbol (w : Wing) (c : Colour) : Char :=
  match w, c with
  | king, .white => 'K'
  | queen, .white => 'Q'
  | king, .black => 'k'
  | queen, .black => 'q'

end Wing

def MoveFlag.castle : Wing → MoveFlag
  | .king => .kingCastle
  | .queen => .queenCastle

structure CastlePath where
  kingFrom : Square
  kingTo : Square
  rookFrom : Square
  rookTo : Square
deriving DecidableEq

namespace CastlePath

def of (c : Colour) : Wing → CastlePath
  | .king => ⟨⟨4, c.homeRank⟩, ⟨6, c.homeRank⟩, ⟨7, c.homeRank⟩, ⟨5, c.homeRank⟩⟩
  | .queen => ⟨⟨4, c.homeRank⟩, ⟨2, c.homeRank⟩, ⟨0, c.homeRank⟩, ⟨3, c.homeRank⟩⟩

end CastlePath

def castles : List (Colour × Wing) :=
  [(.white, .king), (.white, .queen), (.black, .king), (.black, .queen)]

end ChessArbiter
