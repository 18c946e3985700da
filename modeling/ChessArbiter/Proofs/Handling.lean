import ChessArbiter.Game
import ChessArbiter.Proofs.Occupancy

/-!
# Handling men

What `lift`, `relocate`, `place` and the two setters do to the three views of a table: the
occupant of each square, where the roster says a man stands, and whether he has moved. Each
operation keeps the board faithful. Men are told apart by their numbers, so the roster equations
ask that the man handled be enrolled.
-/

namespace ChessArbiter

namespace Table

variable (t : Table) {m v : Man} {s src dst : Square}

/-! ### The roster -/

@[simp] theorem size_setSquare (m : Man) (x : Option Square) :
    (t.setSquare m x).roster.size = t.roster.size := Array.size_modify

@[simp] theorem size_setMoved (m : Man) (x : Bool) :
    (t.setMoved m x).roster.size = t.roster.size := Array.size_modify

theorem square?_setSquare (hm : m.id < t.roster.size) (x : Option Square) (y : Man) :
    (t.setSquare m x).square? y = if y.id = m.id then x else t.square? y := by
  simp only [square?, setSquare, Array.getElem?_modify]
  by_cases h : y.id = m.id
  · rw [if_pos h.symm, if_pos h, h, Array.getElem?_eq_getElem hm]
    rfl
  · rw [if_neg (Ne.symm h), if_neg h]

@[simp] theorem hasMoved_setSquare (m : Man) (x : Option Square) (y : Man) :
    (t.setSquare m x).hasMoved y = t.hasMoved y := by
  simp only [hasMoved, setSquare, Array.getElem?_modify]
  split_ifs
  · exact Option.any_map
  · rfl

@[simp] theorem square?_setMoved (m : Man) (x : Bool) (y : Man) :
    (t.setMoved m x).square? y = t.square? y := by
  simp only [square?, setMoved, Array.getElem?_modify]
  split_ifs
  · rw [Option.bind_map]
    rfl
  · rfl

theorem hasMoved_setMoved (hm : m.id < t.roster.size) (x : Bool) (y : Man) :
    (t.setMoved m x).hasMoved y = if y.id = m.id then x else t.hasMoved y := by
  simp only [hasMoved, setMoved, Array.getElem?_modify]
  by_cases h : y.id = m.id
  · rw [if_pos h.symm, if_pos h, h, Array.getElem?_eq_getElem hm]
    rfl
  · rw [if_neg (Ne.symm h), if_neg h]

/-! ### Lifting -/

theorem occupant_lift (s u : Square) :
    (t.lift s).2.board.occupant u = if u = s then none else t.board.occupant u := by
  unfold lift
  cases hs : t.board.occupant s with
  | none =>
    split_ifs with h
    · rw [h, hs]
    · rfl
  | some m => exact Board.occupant_put _ _ _ _

theorem fst_lift (s : Square) : (t.lift s).1 = t.board.occupant s := by
  unfold lift
  cases hs : t.board.occupant s <;> rfl

theorem faithful_lift (ht : t.board.Faithful) (s : Square) : (t.lift s).2.board.Faithful := by
  unfold lift
  cases t.board.occupant s with
  | none => exact ht
  | some m => exact ht.put s none

@[simp] theorem size_lift (s : Square) : (t.lift s).2.roster.size = t.roster.size := by
  unfold lift
  cases t.board.occupant s with
  | none => rfl
  | some m => exact size_setSquare _ m none

theorem square?_lift (hs : t.board.occupant s = some m) (hm : m.id < t.roster.size) (y : Man) :
    (t.lift s).2.square? y = if y.id = m.id then none else t.square? y := by
  unfold lift
  rw [hs]
  exact square?_setSquare _ hm none y

@[simp] theorem hasMoved_lift (s : Square) (y : Man) :
    (t.lift s).2.hasMoved y = t.hasMoved y := by
  unfold lift
  cases t.board.occupant s with
  | none => rfl
  | some m => exact hasMoved_setSquare _ m none y

/-! ### Relocating -/

theorem relocate_eq (hs : t.board.occupant src = some m) (hne : src ≠ dst) :
    t.relocate src dst = (t.board.occupant dst,
      { (t.board.occupant dst).elim t (t.setSquare · none) with
        board := (t.board.put src none).put dst (some m) }.setSquare m (some dst)) := by
  unfold relocate
  rw [hs]
  simp only [if_neg hne]
  cases t.board.occupant dst <;> rfl

theorem occupant_relocate (hs : t.board.occupant src = some m) (hne : src ≠ dst) (u : Square) :
    (t.relocate src dst).2.board.occupant u =
      if u = dst then some m else if u = src then none else t.board.occupant u := by
  rw [relocate_eq t hs hne]
  change ((t.board.put src none).put dst (some m)).occupant u = _
  rw [Board.occupant_put, Board.occupant_put]

/-- Whoever is in the way may as well be lifted first. -/
theorem relocate_eq_lift (ht : t.board.Faithful) (hs : t.board.occupant src = some m)
    (hne : src ≠ dst) : (t.relocate src dst).2 = ((t.lift dst).2.relocate src dst).2 := by
  have hs' : (t.lift dst).2.board.occupant src = some m := by
    rw [occupant_lift, if_neg hne, hs]
  have hd' : (t.lift dst).2.board.occupant dst = none := by rw [occupant_lift, if_pos rfl]
  have hboard : (t.board.put src none).put dst (some m) =
      ((t.lift dst).2.board.put src none).put dst (some m) := by
    refine ((ht.put _ _).put _ _).ext (((faithful_lift t ht dst).put _ _).put _ _) fun u => ?_
    simp only [Board.occupant_put, occupant_lift]
    split_ifs <;> rfl
  rw [relocate_eq t hs hne, relocate_eq _ hs' hne, hd', hboard]
  simp only [lift]
  cases t.board.occupant dst <;> rfl

theorem faithful_relocate (ht : t.board.Faithful) (src dst : Square) :
    (t.relocate src dst).2.board.Faithful := by
  unfold relocate
  cases t.board.occupant src with
  | none => exact ht
  | some m =>
    dsimp only
    split_ifs
    · exact ht
    · have hput := (ht.put src none).put dst (some m)
      cases t.board.occupant dst <;> exact hput

theorem roster_elim (o : Option Man) (b : Board) :
    ({ o.elim t (t.setSquare · none) with board := b } : Table).roster.size = t.roster.size := by
  cases o with
  | none => rfl
  | some v => exact size_setSquare t v none

@[simp] theorem size_relocate (src dst : Square) :
    (t.relocate src dst).2.roster.size = t.roster.size := by
  unfold relocate
  cases t.board.occupant src with
  | none => rfl
  | some m =>
    dsimp only
    split_ifs
    · rfl
    · rw [size_setSquare]
      cases t.board.occupant dst with
      | none => rfl
      | some v => exact size_setSquare t v none

/-- Relocating brings a man to his square and sends away the man in the way. -/
theorem square?_relocate (hs : t.board.occupant src = some m) (hne : src ≠ dst)
    (hm : m.id < t.roster.size) (hv : ∀ v, t.board.occupant dst = some v → v.id < t.roster.size)
    (y : Man) :
    (t.relocate src dst).2.square? y =
      if y.id = m.id then some dst
      else if (t.board.occupant dst).any (·.id == y.id) then none else t.square? y := by
  rw [relocate_eq t hs hne]
  rw [square?_setSquare _ (by rw [roster_elim]; exact hm)]
  refine if_congr Iff.rfl rfl ?_
  cases hd : t.board.occupant dst with
  | none => rfl
  | some v =>
    change (t.setSquare v none).square? y = _
    rw [square?_setSquare t (hv v hd)]
    simp only [Option.any_some, beq_iff_eq, eq_comm (a := v.id)]

@[simp] theorem hasMoved_relocate (src dst : Square) (y : Man) :
    (t.relocate src dst).2.hasMoved y = t.hasMoved y := by
  unfold relocate
  cases t.board.occupant src with
  | none => rfl
  | some m =>
    dsimp only
    split_ifs
    · rfl
    · rw [hasMoved_setSquare]
      cases t.board.occupant dst with
      | none => rfl
      | some v => exact hasMoved_setSquare t v none y

end Table

namespace Game

variable (g : Game)

/-! ### Enlisting -/

theorem fst_enlist (p : Piece) (s : Square) : (g.enlist p s).1 = ⟨p, g.roster.size⟩ := rfl

theorem occupant_enlist (p : Piece) (s u : Square) :
    (g.enlist p s).2.board.occupant u =
      if u = s then some ⟨p, g.roster.size⟩ else g.board.occupant u :=
  Board.occupant_put _ _ _ _

theorem size_enlist (p : Piece) (s : Square) :
    (g.enlist p s).2.roster.size = g.roster.size + 1 := by
  change (Table.setSquare _ _ _).roster.size = _
  rw [Table.size_setSquare]
  exact Array.size_push _

theorem square?_enlist (p : Piece) (s : Square) (y : Man) :
    (g.enlist p s).2.square? y = if y.id = g.roster.size then some s else g.square? y := by
  change (Table.setSquare _ _ _).square? y = _
  rw [Table.square?_setSquare _ (by rw [Array.size_push]; exact Nat.lt_succ_self _)]
  by_cases h : y.id = g.roster.size
  · rw [if_pos h, if_pos h]
  · rw [if_neg h, if_neg h]
    simp only [Table.square?, Array.getElem?_push, if_neg h]

theorem hasMoved_enlist (p : Piece) (s : Square) (y : Man) :
    (g.enlist p s).2.hasMoved y = if y.id = g.roster.size then false else g.hasMoved y := by
  change (Table.setSquare _ _ _).hasMoved y = _
  rw [Table.hasMoved_setSquare]
  simp only [Table.hasMoved, Array.getElem?_push]
  split_ifs <;> rfl

theorem faithful_enlist (hg : g.board.Faithful) (p : Piece) (s : Square) :
    (g.enlist p s).2.board.Faithful :=
  hg.put s (some ⟨p, g.roster.size⟩)

theorem live_enlist (p : Piece) (s : Square) :
    (g.enlist p s).2.live = g.live.modify p.colour (· ++ [⟨p, g.roster.size⟩]) := rfl

end Game

end ChessArbiter
