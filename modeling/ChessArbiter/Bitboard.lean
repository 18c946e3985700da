import ChessArbiter.Square

/-!
# Sets of squares as 64-bit words

Bit `s.index` of a bitboard says whether `s` belongs to the set. `insert`, `erase` and `single`
are described by what they do to `has`, and `toList` lists the members from a1 to h8.
-/

namespace ChessArbiter

abbrev Bitboard := BitVec 64

namespace Bitboard

def single (s : Square) : Bitboard := 1#64 <<< s.index.val

def has (b : Bitboard) (s : Square) : Bool := b.getLsbD s.index.val

def insert (b : Bitboard) (s : Square) : Bitboard := b ||| single s

def erase (b : Bitboard) (s : Square) : Bitboard := b &&& ~~~single s

def ofPred (p : Square → Bool) : Bitboard :=
  Square.all.foldl (fun b s => if p s then insert b s else b) 0#64

def toList (b : Bitboard) : List Square := Square.all.filter (has b)

def count (b : Bitboard) : Nat := (toList b).length

@[simp] theorem has_single (s t : Square) : has (single s) t = decide (t = s) := by
  have hs := s.index.isLt
  have ht := t.index.isLt
  simp only [has, single, BitVec.getLsbD_shiftLeft, BitVec.getLsbD_one]
  by_cases h : t = s
  · subst h; simp [ht]
  · have hne : t.index.val ≠ s.index.val := fun e => h (Square.index_inj.1 (Fin.ext e))
    simp only [h, decide_false]
    by_cases hlt : t.index.val < s.index.val
    · simp [hlt]
    · have : t.index.val - s.index.val ≠ 0 := by omega
      simp [this]

@[simp] theorem has_zero (t : Square) : has 0#64 t = false := by simp [has]

@[simp] theorem has_insert (b : Bitboard) (s t : Square) :
    has (insert b s) t = (has b t || decide (t = s)) := by
  rw [← has_single]
  simp only [has, insert, BitVec.getLsbD_or]

@[simp] theorem has_erase (b : Bitboard) (s t : Square) :
    has (erase b s) t = (has b t && !decide (t = s)) := by
  rw [← has_single]
  simp only [has, erase, BitVec.getLsbD_and, BitVec.getLsbD_not, t.index.isLt, decide_true,
    Bool.true_and]

@[simp] theorem mem_toList {b : Bitboard} {s : Square} : s ∈ toList b ↔ has b s = true := by
  simp [toList]

end Bitboard

end ChessArbiter
