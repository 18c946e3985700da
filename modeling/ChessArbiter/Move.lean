import ChessArbiter.Piece

/-!
# Packed moves and the move log's entries

A `Move` packs two squares and a flag into sixteen bits: bits 0 to 5 hold the source, 6 to 11 the
destination and 12 to 15 the flag. Bit 2 of a flag marks a capture and bit 3 a promotion; of a
promotion the two low bits name the officer.
-/

namespace ChessArbiter

/-- A move flag as a word, of which a packed move keeps the four low bits. -/
abbrev MoveFlag := BitVec 16

namespace MoveFlag

def quiet : MoveFlag := 0
def doublePush : MoveFlag := 1
def kingCastle : MoveFlag := 2
def queenCastle : MoveFlag := 3
def capture : MoveFlag := 4
def enPassant : MoveFlag := 5
def promotionBit : MoveFlag := 8

def promotion (kind : PieceKind) (capture : Bool) : MoveFlag :=
  promotionBit ||| (BitVec.ofNat 16 kind.code.val - 1) ||| (if capture then MoveFlag.capture else 0)

end MoveFlag

structure Move where
  data : BitVec 16
deriving DecidableEq

namespace Move

def ofParts (src dst : Square) (flag : MoveFlag) : Move :=
  ⟨BitVec.ofNat 16 src.index.val ||| BitVec.ofNat 16 dst.index.val <<< 6 ||| flag <<< 12⟩

def src (m : Move) : Square := .ofIndex (m.data.extractLsb' 0 6).toFin

def dst (m : Move) : Square := .ofIndex (m.data.extractLsb' 6 6).toFin

def flag (m : Move) : MoveFlag := m.data >>> 12

def isCapture (m : Move) : Bool := m.flag &&& MoveFlag.capture != 0

def isPromotion (m : Move) : Bool := m.flag &&& MoveFlag.promotionBit != 0

def isCastle (m : Move) : Bool := m.flag == MoveFlag.kingCastle || m.flag == MoveFlag.queenCastle

/-- The officer named by the two low bits of a promotion flag. -/
def promotion (m : Move) : Option PieceKind :=
  if m.isPromotion then
    some (match (m.flag &&& 3).toNat with
      | 0 => .knight
      | 1 => .bishop
      | 2 => .rook
      | _ => .queen)
  else none

theorem testBit_index (s : Square) {i : Nat} (hi : 6 ≤ i) : s.index.val.testBit i = false :=
  Nat.testBit_lt_two_pow (Nat.lt_of_lt_of_le s.index.isLt (Nat.pow_le_pow_right Nat.two_pos hi))

theorem getLsbD_ofParts (s d : Square) (f : MoveFlag) {i : Nat} (hi : i < 16) :
    (ofParts s d f).data.getLsbD i =
      (s.index.val.testBit i || (decide (6 ≤ i) && d.index.val.testBit (i - 6))
        || (decide (12 ≤ i) && f.getLsbD (i - 12))) := by
  have hi6 : i - 6 < 16 := by omega
  simp only [ofParts, BitVec.getLsbD_or, BitVec.getLsbD_shiftLeft, BitVec.getLsbD_ofNat, hi, hi6,
    decide_true, Bool.true_and, ← Nat.not_lt, decide_not]

@[simp] theorem src_ofParts (s d : Square) (f : MoveFlag) : (ofParts s d f).src = s := by
  have h : (ofParts s d f).data.extractLsb' 0 6 = BitVec.ofFin s.index := by
    apply BitVec.eq_of_getLsbD_eq
    intro i hi
    have h6 : ¬6 ≤ i := by omega
    have h12 : ¬12 ≤ i := by omega
    rw [BitVec.getLsbD_extractLsb', Nat.zero_add, getLsbD_ofParts s d f (by omega)]
    simp only [hi, h6, h12, decide_true, decide_false, Bool.true_and, Bool.false_and,
      Bool.or_false]
    rfl
  rw [src, h]
  exact Square.ofIndex_index s

@[simp] theorem dst_ofParts (s d : Square) (f : MoveFlag) : (ofParts s d f).dst = d := by
  have h : (ofParts s d f).data.extractLsb' 6 6 = BitVec.ofFin d.index := by
    apply BitVec.eq_of_getLsbD_eq
    intro i hi
    have h12 : ¬12 ≤ 6 + i := by omega
    rw [BitVec.getLsbD_extractLsb', getLsbD_ofParts s d f (by omega),
      testBit_index s (Nat.le_add_right 6 i), Nat.add_sub_cancel_left]
    simp only [hi, h12, Nat.le_add_right, decide_true, decide_false, Bool.true_and,
      Bool.false_and, Bool.or_false, Bool.false_or]
    rfl
  rw [dst, h]
  exact Square.ofIndex_index d

/-- A packed move keeps flags of four bits. -/
theorem flag_ofParts (s d : Square) {f : MoveFlag} (hf : f < 16) : (ofParts s d f).flag = f := by
  apply BitVec.eq_of_getLsbD_eq
  intro i hi
  rw [flag, BitVec.getLsbD_ushiftRight]
  by_cases h4 : i < 4
  · rw [getLsbD_ofParts s d f (by omega), testBit_index s (by omega),
      testBit_index d (by omega), Nat.add_sub_cancel_left]
    simp only [Nat.le_add_right, decide_true, Bool.true_and, Bool.and_false, Bool.false_or]
  · rw [BitVec.getLsbD_of_ge _ _ (by omega)]
    refine (Nat.testBit_lt_two_pow (Nat.lt_of_lt_of_le hf ?_)).symm
    exact Nat.pow_le_pow_right Nat.two_pos (Nat.le_of_not_lt h4)

end Move

structure MoveRecord where
  move : Move
  piece : PieceKind
  colour : Colour
  captured : Option PieceKind
  /-- The move as it was written when played, or its two squares. -/
  text : String
  check : Bool := false
  mate : Bool := false
deriving DecidableEq

end ChessArbiter
