import ChessArbiter.Bitboard
import ChessArbiter.Colour

/-!
# Board geometry

Which squares a knight, a king or a pawn strikes from a given square, and which squares lie
between two others. The step tables shift a single bit and mask away what wrapped round the edge
of the board; occupancy plays no part here.
-/

namespace ChessArbiter.Geometry

def fileA : Bitboard := 0x0101010101010101#64
def fileB : Bitboard := fileA <<< 1
def fileG : Bitboard := fileA <<< 6
def fileH : Bitboard := fileA <<< 7

def knightStrikes (s : Square) : Bitboard :=
  let b := Bitboard.single s
  (b <<< 17 &&& ~~~fileA) ||| (b <<< 15 &&& ~~~fileH)
    ||| (b >>> 15 &&& ~~~fileA) ||| (b >>> 17 &&& ~~~fileH)
    ||| (b <<< 10 &&& ~~~(fileA ||| fileB)) ||| (b <<< 6 &&& ~~~(fileG ||| fileH))
    ||| (b >>> 6 &&& ~~~(fileA ||| fileB)) ||| (b >>> 10 &&& ~~~(fileG ||| fileH))

def kingStrikes (s : Square) : Bitboard :=
  let b := Bitboard.single s
  (b <<< 8 ||| b >>> 8)
    ||| ((b <<< 1 ||| b <<< 9 ||| b >>> 7) &&& ~~~fileA)
    ||| ((b >>> 1 ||| b >>> 9 ||| b <<< 7) &&& ~~~fileH)

def pawnStrikes (c : Colour) (s : Square) : Bitboard :=
  let b := Bitboard.single s
  match c with
  | .white => (b <<< 7 &&& ~~~fileH) ||| (b <<< 9 &&& ~~~fileA)
  | .black => (b >>> 7 &&& ~~~fileA) ||| (b >>> 9 &&& ~~~fileH)

def aligned (s t : Square) : Bool :=
  let d := t - s
  d.files == 0 || d.ranks == 0 || d.files.natAbs == d.ranks.natAbs

/-- The squares met in `n` equal steps from `s`, as far as the edge of the board. -/
def walk (step : Offset) : Nat → Square → List Square
  | 0, _ => []
  | n + 1, s =>
    match s.tryOffset step with
    | none => []
    | some u => u :: walk step n u

/-- The squares strictly between two aligned squares, and none when they are not aligned. -/
def between (s t : Square) : Bitboard :=
  if aligned s t then
    let d := t - s
    (walk ⟨d.files.sign, d.ranks.sign⟩ (max d.files.natAbs d.ranks.natAbs - 1) s).foldl
      Bitboard.insert 0#64
  else 0#64

/-- The squares strictly between, in the order seen from `s`. -/
def squaresBetween (s t : Square) : List Square :=
  let path := (between s t).toList
  if t.index < s.index then path.reverse else path

end ChessArbiter.Geometry
