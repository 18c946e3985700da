import ChessArbiter.Proofs.Coherence

/-!
# Consistent games

A coherent game in which every man in play stands somewhere is `Consistent`. The operations of
which moves are made keep it so: capturing or withdrawing whoever stands on a square, relocating a
man to an empty square, enlisting a new one there, and marking a man as moved. For each of them
the board, the men in play and the marks afterwards are given.
-/

namespace ChessArbiter

namespace Game

variable {g : Game} {m v : Man} {s src dst : Square}

structure Consistent (g : Game) : Prop extends g.Coherent where
  placed : ∀ c, ∀ m ∈ g.live.get c, ∃ s, g.square? m = some s

/-- Captures whoever stands on a square. -/
def take (g : Game) (s : Square) : Game :=
  match g.board.occupant s with
  | none => g
  | some v => { g with toTable := (g.lift s).2 }.capture v

/-- Removes whoever stands on a square from play. -/
def withdraw (g : Game) (s : Square) : Game :=
  match g.board.occupant s with
  | none => g
  | some m => { g with toTable := (g.lift s).2 }.dismiss m

theorem toTable_take (g : Game) (s : Square) : (g.take s).toTable = (g.lift s).2 := by
  unfold take
  cases hs : g.board.occupant s with
  | none => rw [Table.lift, hs]
  | some v => rfl

theorem toTable_withdraw (g : Game) (s : Square) : (g.withdraw s).toTable = (g.lift s).2 := by
  unfold withdraw
  cases hs : g.board.occupant s with
  | none => rw [Table.lift, hs]
  | some v => rfl

theorem live_take (g : Game) (s : Square) : (g.take s).live = (g.withdraw s).live := by
  unfold take withdraw
  cases g.board.occupant s <;> rfl

theorem occupant_take (g : Game) (s u : Square) :
    (g.take s).board.occupant u = if u = s then none else g.board.occupant u := by
  rw [toTable_take, Table.occupant_lift]

theorem occupant_withdraw (g : Game) (s u : Square) :
    (g.withdraw s).board.occupant u = if u = s then none else g.board.occupant u := by
  rw [toTable_withdraw, Table.occupant_lift]

theorem hasMoved_take (g : Game) (s : Square) (y : Man) :
    (g.take s).hasMoved y = g.hasMoved y := by
  rw [toTable_take, Table.hasMoved_lift]

theorem hasMoved_withdraw (g : Game) (s : Square) (y : Man) :
    (g.withdraw s).hasMoved y = g.hasMoved y := by
  rw [toTable_withdraw, Table.hasMoved_lift]

theorem size_withdraw (g : Game) (s : Square) : (g.withdraw s).roster.size = g.roster.size := by
  rw [toTable_withdraw, Table.size_lift]

namespace Consistent

theorem congr {g' : Game} (h : g.Consistent) (ht : g'.toTable = g.toTable)
    (hl : g'.live = g.live) (hc : g'.captured = g.captured) : g'.Consistent where
  toCoherent := h.toCoherent.congr ht hl hc
  placed c y hy := by
    rw [ht]
    exact h.placed c y (hl ▸ hy)

/-- Every man in play is where the board shows him. -/
theorem exists_occupant (h : g.Consistent) {c : Colour} (hm : m ∈ g.live.get c) :
    ∃ s, g.square? m = some s ∧ g.board.occupant s = some m := by
  obtain ⟨s, hs⟩ := h.placed c m hm
  obtain rfl := h.live_colour c m hm
  exact ⟨s, hs, (h.occupant_iff s m).2 ⟨hs, hm⟩⟩

theorem mem_live_withdraw (h : g.Consistent) {c : Colour} {y : Man} :
    y ∈ (g.withdraw s).live.get c ↔ y ∈ g.live.get c ∧ g.board.occupant s ≠ some y := by
  unfold withdraw
  cases hs : g.board.occupant s with
  | none => simp
  | some v =>
    dsimp only
    rw [(h.lift s).mem_live_dismiss]
    simp only [ne_eq, Option.some.injEq, eq_comm]

theorem mem_live_take (h : g.Consistent) {c : Colour} {y : Man} :
    y ∈ (g.take s).live.get c ↔ y ∈ g.live.get c ∧ g.board.occupant s ≠ some y := by
  rw [live_take]
  exact h.mem_live_withdraw

/-- Who is left after a man was lifted still stands where he stood. -/
theorem placed_lift (h : g.Consistent) (hs : g.board.occupant s = some v) {c : Colour} {y : Man}
    (hy : y ∈ g.live.get c) (hne : y ≠ v) : ∃ u, (g.lift s).2.square? y = some u := by
  rw [Table.square?_lift _ hs (h.enrolled_of_occupant hs)]
  have hid : y.id ≠ v.id := fun hid =>
    hne (h.id_inj y v (h.knows_of_live hy) (h.knows_of_occupant hs) hid)
  rw [if_neg hid]
  exact h.placed c y hy

theorem take (h : g.Consistent) (s : Square) : (g.take s).Consistent := by
  unfold Game.take
  cases hs : g.board.occupant s with
  | none => exact h
  | some v =>
    have hoff : (g.lift s).2.square? v = none := by
      rw [Table.square?_lift _ hs (h.enrolled_of_occupant hs), if_pos rfl]
    refine ⟨(h.lift s).capture hoff (h.live_of_occupant hs), ?_⟩
    intro c y hy
    obtain ⟨hy, hne⟩ := (h.lift s).mem_live_dismiss.1 hy
    exact h.placed_lift hs hy hne

theorem withdraw (h : g.Consistent) (s : Square) : (g.withdraw s).Consistent := by
  unfold Game.withdraw
  cases hs : g.board.occupant s with
  | none => exact h
  | some v =>
    have hoff : (g.lift s).2.square? v = none := by
      rw [Table.square?_lift _ hs (h.enrolled_of_occupant hs), if_pos rfl]
    refine ⟨(h.lift s).dismiss hoff, ?_⟩
    intro c y hy
    obtain ⟨hy, hne⟩ := (h.lift s).mem_live_dismiss.1 hy
    exact h.placed_lift hs hy hne

theorem relocate (h : g.Consistent) (hs : g.board.occupant src = some m)
    (hd : g.board.occupant dst = none) :
    { g with toTable := (g.relocate src dst).2 }.Consistent where
  toCoherent := h.toCoherent.relocate_empty hs hd
  placed c y hy := by
    have hne : src ≠ dst := by
      rintro rfl
      rw [hs] at hd
      cases hd
    change ∃ u, (g.relocate src dst).2.square? y = some u
    rw [Table.square?_relocate _ hs hne (h.enrolled_of_occupant hs) (by simp [hd]), hd,
      Option.any_none, if_neg Bool.false_ne_true]
    split_ifs
    · exact ⟨dst, rfl⟩
    · exact h.placed c y hy

theorem setMoved (h : g.Consistent) (m : Man) (x : Bool) :
    { g with toTable := g.setMoved m x }.Consistent where
  toCoherent := h.toCoherent.setMoved m x
  placed c y hy := by
    change ∃ u, (g.setMoved m x).square? y = some u
    rw [Table.square?_setMoved]
    exact h.placed c y hy

theorem enlist (h : g.Consistent) (p : Piece) (hs : g.board.occupant s = none) :
    (g.enlist p s).2.Consistent where
  toCoherent := h.toCoherent.enlist p hs
  placed c y hy := by
    rw [square?_enlist]
    split_ifs with hid
    · exact ⟨s, rfl⟩
    · rcases Coherent.mem_live_enlist.1 hy with hy | ⟨rfl, _⟩
      · exact h.placed c y hy
      · exact absurd rfl hid

end Consistent

theorem consistent_empty : empty.Consistent where
  faithful := Board.faithful_empty
  occupant_iff s m := by
    rw [show empty.board = .empty from rfl, Board.occupant_empty]
    exact iff_of_false nofun fun h => by cases m.colour <;> simp [empty] at h
  live_colour c m hm := by simp [empty] at hm
  captured_colour c m hm := by simp [empty] at hm
  live_nodup c := by simp [empty]
  captured_nodup c := by simp [empty]
  live_not_captured c d m hm := by simp [empty] at hm
  id_inj m v hm := by simp [Knows, empty] at hm
  enrolled m hm := by simp [Knows, empty] at hm
  captured_off c m hm := by simp [empty] at hm
  placed c m hm := by simp [empty] at hm

end Game

end ChessArbiter
