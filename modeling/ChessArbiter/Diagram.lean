import ChessArbiter.Board

/-!
# Drawing the board

`render` draws ranks 8 to 1 between two lines of file letters, each man as a chess glyph or as
its letter, with brackets around the highlighted squares.
-/

namespace ChessArbiter.Board

inductive Lettering where
  | glyphs
  | letters
deriving DecidableEq

def Lettering.mark (style : Lettering) (p : Piece) : Char :=
  match style with
  | .glyphs => p.glyph
  | .letters => p.symbol

def fileLabels : String := "   a  b  c  d  e  f  g  h\n"

def drawSquare (b : Board) (highlights : List Square) (style : Lettering) (s : Square) :
    List Char :=
  let mark := (b.piece s).elim '.' style.mark
  if s ∈ highlights then ['[', mark, ']'] else [' ', mark, ' ']

def drawRank (b : Board) (highlights : List Square) (style : Lettering) (rank : Fin 8) : String :=
  let number := Char.ofNat ('1'.toNat + rank.val)
  String.ofList ([number, ' '] ++ (Square.ofRank rank).flatMap (b.drawSquare highlights style)
    ++ [' ', number, '\n'])

def render (b : Board) (highlights : List Square) (style : Lettering) : String :=
  fileLabels ++ String.join ((List.finRange 8).reverse.map (b.drawRank highlights style))
    ++ fileLabels

end ChessArbiter.Board
