import ChessArbiter.Castling
import ChessArbiter.Move
import ChessArbiter.Table

/-!
# The state of a game

A `Game` is a table with the bookkeeping of play: the live and the captured men of each side in
order, the move log, whose turn it is, the counters and the en passant target. Counters are words
of 32 bits, as wide as the numbers a position text may give. `Game.start` is the usual starting
position.
-/

namespace ChessArbiter

structure Game extends Table where
  /-- The men in play, in the order in which they joined. -/
  live : Sides (List Man)
  /-- The men taken, in the order in which they left. -/
  captured : Sides (List Man)
  moves : List MoveRecord
  active : Colour
  ply : Int32
  turn : Int32
  /-- Moves since the last pawn move or capture. -/
  halfmove : Int32
  enPassant : Option Square
  depth : Nat
deriving DecidableEq

namespace Game

def empty : Game :=
  { toTable := .empty, live := .both [], captured := .both [], moves := [], active := .white,
    ply := 0, turn := 1, halfmove := 0, enPassant := none, depth := 0 }

def enlist (g : Game) (p : Piece) (s : Square) : Man × Game :=
  let (m, t) := g.make p s
  (m, { g with toTable := t.place m s, live := g.live.modify p.colour (· ++ [m]) })

def dismiss (g : Game) (m : Man) : Game :=
  { g with live := g.live.modify m.colour (·.filter (· != m)) }

def capture (g : Game) (m : Man) : Game :=
  let g := g.dismiss m
  { g with captured := g.captured.modify m.colour (· ++ [m]) }

def enlistAll (g : Game) (men : List (Piece × Square)) : Game :=
  men.foldl (fun g e => (g.enlist e.1 e.2).2) g

def officers : List PieceKind :=
  [.rook, .knight, .bishop, .queen, .king, .bishop, .knight, .rook]

/-- The starting position, file by file from White's officer to Black's. -/
def startMen : List (Piece × Square) :=
  ((List.finRange 8).zip officers).flatMap fun (file, officer) =>
    [(⟨officer, .white⟩, ⟨file, Colour.white.homeRank⟩),
      (⟨.pawn, .white⟩, ⟨file, Colour.white.pawnRank⟩),
      (⟨.pawn, .black⟩, ⟨file, Colour.black.pawnRank⟩),
      (⟨officer, .black⟩, ⟨file, Colour.black.homeRank⟩)]

def start : Game := empty.enlistAll startMen

def king (g : Game) (c : Colour) : Option Man := (g.live.get c).find? (·.kind == .king)

def passTurn (g : Game) (resetClock : Bool) : Game :=
  { g with
    halfmove := if resetClock then 0 else g.halfmove + 1
    active := g.active.opposite
    ply := g.ply + 1
    turn := if g.active = .black then g.turn + 1 else g.turn }

def retitle (g : Game) (text : String) : Game :=
  match g.moves.getLast? with
  | none => g
  | some r => { g with moves := g.moves.dropLast ++ [{ r with text := text }] }

end Game

end ChessArbiter
