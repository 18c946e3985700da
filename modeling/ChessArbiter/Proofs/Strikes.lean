import ChessArbiter.Attack
import ChessArbiter.Proofs.Rays

/-!
# Where a piece strikes

`Piece.bearsOn` is the attack of a piece by the plain rules: a pawn strikes diagonally forward, a
knight jumps, a king steps, and the others walk along their lines over free squares. The step
tables of single shifted bits agree with it (`has_knightStrikes`, `has_kingStrikes`,
`has_pawnStrikes`), and so do the bare shapes of the sliding pieces together with the squares
between (`Piece.reaches_slider`).
-/

namespace ChessArbiter

namespace Bitboard

@[simp] theorem has_and (b c : Bitboard) (s : Square) : (b &&& c).has s = (b.has s && c.has s) := by
  simp only [has, BitVec.getLsbD_and]

@[simp] theorem has_or (b c : Bitboard) (s : Square) : (b ||| c).has s = (b.has s || c.has s) := by
  simp only [has, BitVec.getLsbD_or]

@[simp] theorem has_not (b : Bitboard) (s : Square) : (~~~b).has s = !b.has s := by
  simp only [has, BitVec.getLsbD_not, s.index.isLt, decide_true, Bool.true_and]

theorem has_single_shiftLeft (s t : Square) (k : ℕ) :
    has (single s <<< k) t = decide (t.index.val = s.index.val + k) := by
  have ht := t.index.isLt
  rw [has, single, ← BitVec.shiftLeft_add, ← BitVec.twoPow_eq, BitVec.getLsbD_twoPow]
  rw [Bool.eq_iff_iff]
  simp only [Bool.and_eq_true, decide_eq_true_eq]
  omega

theorem has_single_shiftRight (s t : Square) (k : ℕ) :
    has (single s >>> k) t = decide (t.index.val + k = s.index.val) := by
  have hs := s.index.isLt
  rw [has, single, BitVec.getLsbD_ushiftRight, ← BitVec.twoPow_eq, BitVec.getLsbD_twoPow]
  rw [Bool.eq_iff_iff]
  simp only [Bool.and_eq_true, decide_eq_true_eq]
  omega

theorem ext_has {b c : Bitboard} (h : ∀ s, b.has s = c.has s) : b = c := by
  apply BitVec.eq_of_getLsbD_eq
  intro i hi
  simpa only [has, Square.index_ofIndex] using h (.ofIndex ⟨i, hi⟩)

theorem eq_zero_iff {b : Bitboard} : b = 0#64 ↔ ∀ s, b.has s = false := by
  constructor
  · rintro rfl s
    exact has_zero s
  · intro h
    refine ext_has fun s => ?_
    rw [h, has_zero]

end Bitboard

namespace Geometry

open Bitboard

theorem has_fileA (s : Square) : has fileA s = decide (s.file.val = 0) := by
  have h : ∀ i : Fin 64, fileA.getLsbD i.val = decide (i.val % 8 = 0) := by decide
  have hf := s.file.isLt
  rw [has, h]
  rw [Bool.eq_iff_iff]
  simp only [decide_eq_true_eq]
  change (s.rank.val * 8 + s.file.val) % 8 = _ ↔ _
  omega

theorem has_fileA_shiftLeft (s : Square) {k : ℕ} (hk : k < 8) :
    has (fileA <<< k) s = decide (s.file.val = k) := by
  have h : ∀ k : Fin 8, ∀ i : Fin 64,
      (fileA <<< k.val).getLsbD i.val = decide (i.val % 8 = k.val) := by
    decide
  have hf := s.file.isLt
  rw [has, h ⟨k, hk⟩]
  rw [Bool.eq_iff_iff]
  simp only [decide_eq_true_eq]
  change (s.rank.val * 8 + s.file.val) % 8 = _ ↔ _
  omega

theorem index_val (s : Square) : s.index.val = s.rank.val * 8 + s.file.val := rfl

theorem has_knightStrikes (s t : Square) :
    has (knightStrikes s) t = true ↔
      ((t - s).files.natAbs = 1 ∧ (t - s).ranks.natAbs = 2) ∨
        ((t - s).files.natAbs = 2 ∧ (t - s).ranks.natAbs = 1) := by
  have hs := s.file.isLt
  have ht := t.file.isLt
  have hsi := index_val s
  have hti := index_val t
  simp only [knightStrikes, fileB, fileG, fileH, has_or, has_and, has_not, has_single_shiftLeft,
    has_single_shiftRight, has_fileA, has_fileA_shiftLeft, Nat.reduceLT, Bool.or_eq_true,
    Bool.and_eq_true, Bool.not_eq_true', Bool.or_eq_false_iff, decide_eq_true_eq,
    decide_eq_false_iff_not, Square.files_sub, Square.ranks_sub]
  omega

theorem has_kingStrikes (s t : Square) :
    has (kingStrikes s) t = true ↔
      s ≠ t ∧ (t - s).files.natAbs ≤ 1 ∧ (t - s).ranks.natAbs ≤ 1 := by
  have hs := s.file.isLt
  have ht := t.file.isLt
  have hsi := index_val s
  have hti := index_val t
  simp only [kingStrikes, fileH, has_or, has_and, has_not, has_single_shiftLeft,
    has_single_shiftRight, has_fileA, has_fileA_shiftLeft, Nat.reduceLT, Bool.or_eq_true,
    Bool.and_eq_true, Bool.not_eq_true', decide_eq_true_eq, decide_eq_false_iff_not, ne_eq,
    Square.eq_iff, Square.files_sub, Square.ranks_sub]
  omega

theorem has_pawnStrikes (c : Colour) (s t : Square) :
    has (pawnStrikes c s) t = true ↔
      (t - s).files.natAbs = 1 ∧ (t - s).ranks = c.forward := by
  have hs := s.file.isLt
  have ht := t.file.isLt
  have hsi := index_val s
  have hti := index_val t
  cases c <;>
  · simp only [pawnStrikes, Colour.forward, fileH, has_or, has_and, has_not, has_single_shiftLeft,
      has_single_shiftRight, has_fileA, has_fileA_shiftLeft, Nat.reduceLT, Bool.or_eq_true,
      Bool.and_eq_true, Bool.not_eq_true', decide_eq_true_eq, decide_eq_false_iff_not,
      Square.files_sub, Square.ranks_sub]
    omega

end Geometry

namespace Piece

open Square ChessArbiter.Geometry

def jumps : List Offset :=
  [⟨1, 2⟩, ⟨2, 1⟩, ⟨2, -1⟩, ⟨1, -2⟩, ⟨-1, -2⟩, ⟨-2, -1⟩, ⟨-2, 1⟩, ⟨-1, 2⟩]

/-- The lines along which a sliding piece moves. -/
def lines : PieceKind → List Offset
  | .bishop => diagonals
  | .rook => orthogonals
  | .queen => directions
  | _ => []

/-- A piece of kind `p` on `src` bears on `dst` by the plain rules of its kind. -/
def bearsOn (p : Piece) (free : Square → Bool) (src dst : Square) : Bool :=
  match p.kind with
  | .pawn => [⟨-1, p.colour.forward⟩, ⟨1, p.colour.forward⟩].any (src.tryOffset · == some dst)
  | .knight => jumps.any (src.tryOffset · == some dst)
  | .king => directions.any (src.tryOffset · == some dst)
  | _ => (lines p.kind).any (sees free · 7 src dst)

theorem lines_subset (k : PieceKind) {d : Offset} (hd : d ∈ lines k) : d ∈ directions := by
  cases k <;> revert d <;> decide

/-- The shape of a sliding piece's step is that of one of its lines. -/
theorem reaches_slider {p : Piece} (hp : p.kind.slides = true) (moved : Bool) (src dst : Square) :
    p.reaches moved src dst = true ↔
      aligned src dst = true ∧ src ≠ dst ∧ heading src dst ∈ lines p.kind := by
  have hsign : ∀ x : ℤ, (x.sign = 0 ↔ x = 0) ∧ (x.sign = 1 ↔ 0 < x) ∧ (x.sign = -1 ↔ x < 0) :=
    fun x => ⟨Int.sign_eq_zero_iff_zero, Int.sign_eq_one_iff_pos, Int.sign_eq_neg_one_iff_neg⟩
  have hxor : ∀ x y : ℤ, ((x == 0) ≠ (y == 0)) ↔ ¬(x = 0 ↔ y = 0) := by
    intro x y
    by_cases hx : x = 0 <;> by_cases hy : y = 0 <;> simp [hx, hy]
  cases hk : p.kind <;> simp only [hk, PieceKind.slides, Bool.false_eq_true] at hp <;>
  · simp only [reaches, hk, aligned, heading, lines, directions, orthogonals, diagonals,
      eq_iff, files_sub, ranks_sub, Bool.and_eq_true, Bool.or_eq_true, bne_iff_ne, beq_iff_eq, hxor,
      Bool.not_eq_true', Bool.and_eq_false_imp, List.cons_append, List.nil_append, List.mem_cons,
      List.not_mem_nil, or_false, Offset.mk.injEq, hsign, beq_eq_false_iff_ne, ne_eq]
    omega

end Piece

end ChessArbiter
