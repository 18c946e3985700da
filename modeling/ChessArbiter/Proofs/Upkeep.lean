import ChessArbiter.Proofs.Handling

/-!
# The bitboards under any use

A `Bench` is a board with its men and the states of the board that were kept for later. Men are
placed, lifted and relocated on it with no regard to what stands there, the board is cleared, and
states kept are brought back in any order. None of this keeps the bitboards from showing the men on
the squares (`Bench.Upheld.use`), so that a clear path is one that is seen to be clear
(`Bench.bitboards_show_squares`). Where the roster says that a man stands does not matter for that:
a man may be on two squares, or on none where he is said to be.
-/

namespace ChessArbiter

namespace Board.Faithful

variable {b : Board}

theorem has_side_iff (hb : b.Faithful) {c : Colour} {s : Square} :
    (b.sides.get c).has s = true ↔ ∃ m, b.occupant s = some m ∧ m.colour = c := by
  rw [hb.side, Option.any_eq_true]
  simp only [beq_iff_eq]

theorem occupied_eq (hb : b.Faithful) : b.occupied = b.sides.white ||| b.sides.black := by
  refine Bitboard.ext_has fun s => ?_
  have hwhite := hb.side .white s
  have hblack := hb.side .black s
  simp only [Sides.get] at hwhite hblack
  rw [Bitboard.has_or, hwhite, hblack, hb.occupied]
  cases b.occupant s with
  | none => rfl
  | some m => cases hm : m.colour <;> simp [hm]

theorem sides_disjoint (hb : b.Faithful) : b.sides.white &&& b.sides.black = 0#64 := by
  rw [Board.meets_iff]
  intro s hwhite
  obtain ⟨m, hm, hcolour⟩ := hb.has_side_iff (c := .white) |>.1 hwhite
  have hblack := hb.side .black s
  rw [hm, Option.any_some, hcolour] at hblack
  exact hblack

theorem pathClear_iff_between (hb : b.Faithful) {s t : Square} :
    b.pathClear s t = true ↔ ∀ u, s.Between u t → b.occupant u = none ∧ b.piece u = none := by
  rw [Board.pathClear_iff hb]
  refine forall_congr' fun u => ?_
  rw [Square.between_iff, Board.isEmpty_iff, Board.piece, Option.map_eq_none_iff, and_self_iff]

end Board.Faithful

inductive Use where
  | place (m : Man) (s : Square)
  | lift (s : Square)
  | relocate (src dst : Square)
  | clear
  | keep
  | restore (n : Nat)
deriving DecidableEq

structure Bench where
  table : Table
  /-- The states of the board kept so far, the first one first. -/
  kept : List Board
deriving DecidableEq

namespace Bench

variable {b : Bench}

/-- An empty board, and men who may be said to stand anywhere. -/
def start (roster : Array Status) : Bench := ⟨⟨.empty, roster⟩, []⟩

def setBoard (b : Bench) (board : Board) : Bench := { b with table := { b.table with board } }

def use (b : Bench) : Use → Bench
  | .place m s => { b with table := b.table.place m s }
  | .lift s => { b with table := (b.table.lift s).2 }
  | .relocate src dst => { b with table := (b.table.relocate src dst).2 }
  | .clear => b.setBoard .empty
  | .keep => { b with kept := b.kept ++ [b.table.board] }
  | .restore n => b.kept[n]?.elim b b.setBoard

def run (b : Bench) (uses : List Use) : Bench := uses.foldl use b

/-- The board, and every state of it that was kept, shows its men. -/
structure Upheld (b : Bench) : Prop where
  board : b.table.board.Faithful
  kept : ∀ board ∈ b.kept, board.Faithful

theorem upheld_start (roster : Array Status) : (start roster).Upheld :=
  ⟨Board.faithful_empty, List.forall_mem_nil _⟩

namespace Upheld

theorem setBoard (h : b.Upheld) {board : Board} (hboard : board.Faithful) :
    (b.setBoard board).Upheld :=
  ⟨hboard, h.kept⟩

theorem use (h : b.Upheld) (u : Use) : (b.use u).Upheld := by
  cases u with
  | place m s => exact ⟨h.board.put s (some m), h.kept⟩
  | lift s => exact ⟨Table.faithful_lift b.table h.board s, h.kept⟩
  | relocate src dst => exact ⟨Table.faithful_relocate b.table h.board src dst, h.kept⟩
  | clear => exact h.setBoard Board.faithful_empty
  | keep =>
    refine ⟨h.board, List.forall_mem_append.2 ⟨h.kept, ?_⟩⟩
    exact List.forall_mem_singleton.2 h.board
  | restore n =>
    change (b.kept[n]?.elim b b.setBoard).Upheld
    cases hn : b.kept[n]? with
    | none => exact h
    | some board => exact h.setBoard (h.kept board (List.mem_of_getElem? hn))

theorem run (h : b.Upheld) (uses : List Use) : (b.run uses).Upheld := by
  induction uses generalizing b with
  | nil => exact h
  | cons u uses ih => exact ih (h.use u)

end Upheld

/-- However a board has been used since it was empty, the bitboard of a side has the squares on
which its men stand, that of all men has those of both sides, no square being of both, and a path is
found clear exactly if no man is seen between its ends. -/
theorem bitboards_show_squares (roster : Array Status) (uses : List Use) :
    let board := ((start roster).run uses).table.board
    (∀ c s, (board.sides.get c).has s = true ↔ ∃ m, board.occupant s = some m ∧ m.colour = c) ∧
    board.occupied = board.sides.white ||| board.sides.black ∧
    board.sides.white &&& board.sides.black = 0#64 ∧
    ∀ s t, board.pathClear s t = true ↔
      ∀ u, s.Between u t → board.occupant u = none ∧ board.piece u = none := by
  intro board
  have h : board.Faithful := ((upheld_start roster).run uses).board
  exact ⟨fun _ _ => h.has_side_iff, h.occupied_eq, h.sides_disjoint,
    fun _ _ => h.pathClear_iff_between⟩

/-- A man put on two squares and sent from one to the other is left on one. -/
example :
    let m : Man := ⟨⟨.rook, .black⟩, 0⟩
    ((start #[⟨none, false⟩]).run [.place m ⟨0, 0⟩, .place m ⟨1, 0⟩,
      .relocate ⟨0, 0⟩ ⟨1, 0⟩]).table.board.occupied = Bitboard.single ⟨1, 0⟩ := by
  decide

end Bench

end ChessArbiter
