import ChessArbiter.Piece

/-!
# The board

A board holds a man or nothing on each of its squares, together with three bitboards: the squares
of White's men, of Black's, and of both. `put` is the only way to change a square, and it brings
the bitboards up to date from the old and the new occupant alone.
-/

namespace ChessArbiter

structure Board where
  squares : Vector (Option Man) 64
  sides : Sides Bitboard
  occupied : Bitboard
deriving DecidableEq

namespace Board

def empty : Board := ⟨Vector.replicate 64 none, .both 0#64, 0#64⟩

def occupant (b : Board) (s : Square) : Option Man := b.squares[s.index]

def isEmpty (b : Board) (s : Square) : Bool := (b.occupant s).isNone

/-- Takes a square out of the bitboards in which its occupant keeps it. -/
def vacate (b : Board) (s : Square) : Board :=
  match b.occupant s with
  | none => b
  | some old =>
    { b with sides := b.sides.modify old.colour (·.erase s), occupied := b.occupied.erase s }

def put (b : Board) (s : Square) (new : Option Man) : Board :=
  let b := b.vacate s
  let b := { b with squares := b.squares.set s.index new }
  match new with
  | none => b
  | some m =>
    { b with sides := b.sides.modify m.colour (·.insert s), occupied := b.occupied.insert s }

/-- Nothing stands strictly between two squares; true of squares on no common line. -/
def pathClear (b : Board) (s t : Square) : Bool := Geometry.between s t &&& b.occupied == 0#64

def piece (b : Board) (s : Square) : Option Piece := (b.occupant s).map (·.toPiece)

@[simp] theorem occupant_empty (s : Square) : empty.occupant s = none := by
  simp [empty, occupant]

@[simp] theorem squares_vacate (b : Board) (s : Square) : (b.vacate s).squares = b.squares := by
  unfold vacate
  split <;> rfl

theorem occupant_put (b : Board) (s t : Square) (new : Option Man) :
    (b.put s new).occupant t = if t = s then new else b.occupant t := by
  have hput : (b.put s new).squares = b.squares.set s.index new := by
    unfold put
    cases new <;> simp only [squares_vacate]
  simp only [occupant, hput, Fin.getElem_fin]
  by_cases h : t = s
  · subst h
    simp
  · have hne : s.index.val ≠ t.index.val := fun e => h (Square.index_inj.1 (Fin.ext e.symm))
    simp [h, hne]

end Board

end ChessArbiter
