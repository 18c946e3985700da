import ChessArbiter.Proofs.KingSafety
import ChessArbiter.Proofs.Pawns

/-!
# Games played from the start

What holds of every game in play from the starting position, besides the safety of its kings: no
pawn stands on its side's home rank, a pawn on its starting rank has not moved, behind an en passant
target stands the pawn that has just passed over it, and the counters agree with the length of the
log as long as they have room for it. The starting position has these properties
(`regular_start`), and a turn keeps them (`Turn.regular`).
-/

namespace ChessArbiter

namespace Game

variable {g g' : Game} {s : Step} {c : Colour} {y : Man} {u t : Square}

/-! ### Where men come from -/

/-- A pawn on the board after a step is the one that moved, or has stayed where it was. -/
theorem pawn_of_execute (hs : g.Admits s) (h : g.Coherent)
    (hu : (g.execute s).2.board.occupant u = some y) (hy : y.kind = .pawn) :
    (u = s.dst ∧ y = s.man) ∨
      (g.board.occupant u = some y ∧ (g.execute s).2.hasMoved y = g.hasMoved y) := by
  rw [occupant_execute hs h] at hu
  split_ifs at hu with hdst hgone
  · obtain rfl := Option.some.inj hu
    left
    cases hb : s.becomes with
    | none => exact ⟨hdst, arrival_of_none hb⟩
    | some k =>
      have hofficer := hs.isOfficer_arrival hb
      rw [hy] at hofficer
      cases hofficer
  · right
    have hsrc : u ≠ s.src := fun he => hgone (.inl he)
    exact ⟨hu, hasMoved_of_stays hs h hu hsrc⟩

/-- Castling leaves every pawn where it was. -/
theorem pawn_of_executeCastle {w : Wing} {k r : Man} (h : g.Consistent)
    (hw : g.canCastle c w = true) (hh : g.AtHome c w k r)
    (hu : (g.executeCastle (CastlePath.of c w)).board.occupant u = some y) (hy : y.kind = .pawn) :
    g.board.occupant u = some y ∧
      (g.executeCastle (CastlePath.of c w)).hasMoved y = g.hasMoved y := by
  rw [occupant_executeCastle h hw hh] at hu
  split_ifs at hu with _ _ hhome
  · obtain rfl := Option.some.inj hu
    rw [hh.king_kind] at hy
    cases hy
  · obtain rfl := Option.some.inj hu
    rw [hh.rook_kind] at hy
    cases hy
  · rw [not_or] at hhome
    exact ⟨hu, hasMoved_beside_castle h hw hh hu hhome.1 hhome.2⟩

/-! ### Counters -/

structure Counted (g : Game) : Prop where
  halfmove : 0 ≤ g.halfmove.toInt ∧ g.halfmove.toInt ≤ g.moves.length
  turn : 2 * (g.turn.toInt - 1) + (if g.active = .black then 1 else 0) = g.moves.length

theorem toInt_add_one {x : Int32} (hx : x.toInt + 1 < 2 ^ 31) : (x + 1).toInt = x.toInt + 1 := by
  have hle := x.le_toInt
  rw [Int32.toInt_add, Int32.toInt_one]
  exact Int.bmod_eq_of_le (by omega) (by omega)

theorem SameBooks.counted (hb : g.SameBooks g') (h : g.Counted) : g'.Counted where
  halfmove := by
    rw [hb.halfmove, hb.moves]
    exact h.halfmove
  turn := by
    rw [hb.turn, hb.active, hb.moves]
    exact h.turn

theorem halfmove_logged (hroom : g.halfmove.toInt + 1 < 2 ^ 31) (r : MoveRecord)
    (resetClock : Bool) : (g.logged r resetClock).halfmove.toInt =
      if resetClock then 0 else g.halfmove.toInt + 1 := by
  change (if resetClock = true then (0 : Int32) else g.halfmove + 1).toInt = _
  split_ifs
  · rfl
  · exact toInt_add_one hroom

theorem turn_logged (hroom : g.turn.toInt + 1 < 2 ^ 31) (r : MoveRecord) (resetClock : Bool) :
    (g.logged r resetClock).turn.toInt =
      if g.active = .black then g.turn.toInt + 1 else g.turn.toInt := by
  change (if g.active = .black then g.turn + 1 else g.turn).toInt = _
  split_ifs
  · exact toInt_add_one hroom
  · rfl

/-- As long as the log has room, so have the counters. -/
theorem Counted.room (h : g.Counted) (hroom : g.moves.length + 1 < 2 ^ 31) :
    g.halfmove.toInt + 1 < 2 ^ 31 ∧ g.turn.toInt + 1 < 2 ^ 31 := by
  have hhalf := h.halfmove
  have hturn := h.turn
  split_ifs at hturn <;> omega

theorem counted_logged (h : g.Counted) (hroom : g.moves.length + 1 < 2 ^ 31) (r : MoveRecord)
    (resetClock : Bool) : (g.logged r resetClock).Counted where
  halfmove := by
    have hle := h.halfmove
    rw [halfmove_logged (h.room hroom).1, moves_logged, List.length_append, List.length_singleton]
    split_ifs <;> omega
  turn := by
    have hturn := h.turn
    rw [turn_logged (h.room hroom).2, moves_logged, List.length_append, List.length_singleton]
    change 2 * (_ - 1) + (if g.active.opposite = .black then 1 else 0) = _
    cases hc : g.active <;> simp [hc, Colour.opposite] at hturn ⊢ <;> omega

/-! ### The invariants -/

/-- Orderly, with no pawn on its side's home rank, and unmoved ones where pawns start. -/
structure Tidy (g : Game) : Prop extends g.Orderly where
  pawn_off_home : ∀ u y, g.board.occupant u = some y → y.kind = .pawn →
    u.rank ≠ y.colour.homeRank
  pawn_fresh : ∀ u y, g.board.occupant u = some y → y.kind = .pawn →
    u.rank = y.colour.pawnRank → g.hasMoved y = false

structure Regular (g : Game) : Prop extends g.Orderly where
  pawn_off_home : ∀ u y, g.board.occupant u = some y → y.kind = .pawn →
    u.rank ≠ y.colour.homeRank
  pawn_fresh : ∀ u y, g.board.occupant u = some y → y.kind = .pawn →
    u.rank = y.colour.pawnRank → g.hasMoved y = false
  target : ∀ t, g.enPassant = some t → g.board.occupant t = none ∧
    ∃ u v, t.tryOffset ⟨0, g.active.opposite.forward⟩ = some u ∧ g.board.occupant u = some v ∧
      v.kind = .pawn ∧ v.colour = g.active.opposite
  counted : g.moves.length < 2 ^ 31 → g.Counted

theorem Regular.tidy (h : g.Regular) : g.Tidy where
  toOrderly := h.toOrderly
  pawn_off_home := h.pawn_off_home
  pawn_fresh := h.pawn_fresh

/-- The pawn that has just passed over the target stands beside a pawn that bears on it. -/
theorem Regular.passed (h : g.Regular) (ht : g.enPassant = some t) {src : Square} {m : Man}
    (hk : m.kind = .pawn) (hc : m.colour = g.active)
    (hb : m.bearsOn g.board.isEmpty src t = true) :
    g.board.occupant t = none ∧ ∃ v, g.board.occupant ⟨t.file, src.rank⟩ = some v ∧
      v.kind = .pawn ∧ v.colour ≠ m.colour := by
  obtain ⟨hempty, u, v, hu, hv, hvk, hvc⟩ := h.target t ht
  refine ⟨hempty, v, ?_, hvk, ?_⟩
  · rw [Piece.bearsOn_pawn hk, Geometry.has_pawnStrikes, hc, Square.ranks_sub] at hb
    have hahead := Square.tryOffset_eq_some.1 hu
    have hbeside : u = ⟨t.file, src.rank⟩ := by
      rw [Square.eq_iff]
      dsimp only at hahead ⊢
      cases hactive : g.active <;>
      · simp only [hactive, Colour.opposite, Colour.forward] at hb hahead
        omega
    rw [← hbeside]
    exact hv
  · rw [hvc, hc]
    exact Colour.opposite_ne _

theorem target_execute (hs : g.Admits s) (h : g.Coherent)
    (ht : (g.execute s).2.enPassant = some t) :
    (g.execute s).2.board.occupant t = none ∧
      ∃ u v, t.tryOffset ⟨0, g.active.forward⟩ = some u ∧
        (g.execute s).2.board.occupant u = some v ∧ v.kind = .pawn ∧ v.colour = g.active := by
  rw [enPassant_execute hs h] at ht
  split_ifs at ht with hd
  obtain ⟨hk, hb, next, hnext, hdst, hempty, _⟩ := hs.double_push h hd
  rw [hnext, Option.some.injEq] at ht
  subst ht
  have hne : next ≠ s.dst := by
    rintro rfl
    have hself := (Square.ahead_iff.1 hdst).2
    rw [Square.ranks_sub] at hself
    cases hc : s.man.colour <;> simp [hc, Colour.forward] at hself
  rw [← hs.mover]
  constructor
  · rw [occupant_execute hs h, if_neg hne, hempty]
    exact ite_self none
  · refine ⟨s.dst, s.man, hdst, ?_, hk, rfl⟩
    rw [occupant_execute hs h, if_pos rfl, arrival_of_none hb]

/-! ### Turns keep them -/

theorem occupant_logged (g : Game) (r : MoveRecord) (resetClock : Bool) (u : Square) :
    (g.logged r resetClock).board.occupant u = g.board.occupant u := rfl

theorem hasMoved_logged (g : Game) (r : MoveRecord) (resetClock : Bool) (y : Man) :
    (g.logged r resetClock).hasMoved y = g.hasMoved y := rfl

/-- A pawn on the board after a turn has come there by an admitted step, or was there before. -/
theorem Turn.pawn_cases (hturn : g.Turn g') (h : g.Consistent)
    (hu : g'.board.occupant u = some y) (hy : y.kind = .pawn) :
    (∃ s, g.Admits s ∧ u = s.dst ∧ y = s.man) ∨
      (g.board.occupant u = some y ∧ g'.hasMoved y = g.hasMoved y) := by
  cases hturn with
  | @step _ _ _ s hs _ =>
    have hadm := (admits_of_assess hs).1
    rw [afterStep, occupant_logged] at hu
    rw [afterStep, hasMoved_logged]
    rcases pawn_of_execute hadm h.toCoherent hu hy with hmover | hold
    · exact .inl ⟨s, hadm, hmover⟩
    · exact .inr hold
  | @castle w hw =>
    obtain ⟨k, r, hh⟩ := atHome_of_canCastle hw
    rw [afterCastle, occupant_logged] at hu
    rw [afterCastle, hasMoved_logged]
    exact .inr (pawn_of_executeCastle h hw hh hu hy)

theorem Turn.tidy (hturn : g.Turn g') (h : g.Tidy) : g'.Tidy where
  toOrderly := hturn.orderly h.toOrderly
  pawn_off_home u y hu hy := by
    rcases hturn.pawn_cases h.toConsistent hu hy with ⟨s, hadm, rfl, rfl⟩ | ⟨hold, _⟩
    · have hsrc := h.pawn_off_home s.src s.man hadm.source hy
      exact (hadm.pawn_rank h.toCoherent hy hsrc).1
    · exact h.pawn_off_home u y hold hy
  pawn_fresh u y hu hy hrank := by
    rcases hturn.pawn_cases h.toConsistent hu hy with ⟨s, hadm, rfl, rfl⟩ | ⟨hold, hmoved⟩
    · -- a pawn never arrives on a starting rank
      have hsrc := h.pawn_off_home s.src s.man hadm.source hy
      exact absurd hrank (hadm.pawn_rank h.toCoherent hy hsrc).2
    · rw [hmoved]
      exact h.pawn_fresh u y hold hy hrank

theorem Turn.target (hturn : g.Turn g') (h : g.Regular) (t : Square)
    (ht : g'.enPassant = some t) : g'.board.occupant t = none ∧
      ∃ u v, t.tryOffset ⟨0, g'.active.opposite.forward⟩ = some u ∧
        g'.board.occupant u = some v ∧ v.kind = .pawn ∧ v.colour = g'.active.opposite := by
  rw [hturn.active, Colour.opposite_opposite]
  cases hturn with
  | @step _ _ _ s hs _ => exact target_execute (admits_of_assess hs).1 h.toCoherent ht
  | castle hw => cases ht

theorem Turn.counted (hturn : g.Turn g') (h : g.Regular) (hroom : g'.moves.length < 2 ^ 31) :
    g'.Counted := by
  obtain ⟨r, hmoves, _⟩ := hturn.log
  rw [hmoves, List.length_append, List.length_singleton] at hroom
  have hold := h.counted (by omega)
  cases hturn with
  | @step _ _ _ s hs _ =>
    have hbooks := g.sameBooks_execute s
    refine counted_logged (hbooks.counted hold) ?_ _ _
    rw [hbooks.moves]
    exact hroom
  | @castle w hw =>
    have hbooks := g.sameBooks_executeCastle (CastlePath.of g.active w)
    refine counted_logged (hbooks.counted hold) ?_ _ _
    rw [hbooks.moves]
    exact hroom

theorem Turn.regular (hturn : g.Turn g') (h : g.Regular) : g'.Regular where
  toOrderly := hturn.orderly h.toOrderly
  pawn_off_home := (hturn.tidy h.tidy).pawn_off_home
  pawn_fresh := (hturn.tidy h.tidy).pawn_fresh
  target := hturn.target h
  counted := hturn.counted h

theorem Tidy.retitle (h : g.Tidy) (title : String) : (g.retitle title).Tidy where
  toOrderly := h.toOrderly.retitle title
  pawn_off_home := by
    rw [retitle_eq]
    exact h.pawn_off_home
  pawn_fresh := by
    rw [retitle_eq]
    exact h.pawn_fresh

theorem length_moves_retitle (g : Game) (title : String) :
    (g.retitle title).moves.length = g.moves.length := by
  rw [moves_retitle, List.length_append, List.length_map, List.length_dropLast]
  cases g.moves using List.reverseRecOn with
  | nil => rfl
  | append_singleton rs r => simp

theorem Regular.retitle (h : g.Regular) (title : String) : (g.retitle title).Regular where
  toOrderly := h.toOrderly.retitle title
  pawn_off_home := (h.tidy.retitle title).pawn_off_home
  pawn_fresh := (h.tidy.retitle title).pawn_fresh
  target := by
    rw [retitle_eq]
    exact h.target
  counted hroom := by
    have hlength := length_moves_retitle g title
    have hold := h.counted (hlength ▸ hroom)
    refine ⟨?_, ?_⟩ <;> rw [hlength, retitle_eq]
    · exact hold.halfmove
    · exact hold.turn

theorem Regular.setDepth (h : g.Regular) (n : Nat) : { g with depth := n }.Regular where
  toOrderly := h.toOrderly.setDepth n
  pawn_off_home := h.pawn_off_home
  pawn_fresh := h.pawn_fresh
  target := h.target
  counted hroom := ⟨(h.counted hroom).halfmove, (h.counted hroom).turn⟩

/-- In the starting position pawns stand on their starting ranks, unmoved. -/
theorem pawn_start : ∀ u ∈ Square.all, ∀ y ∈ start.board.occupant u, y.kind = .pawn →
    u.rank = y.colour.pawnRank ∧ start.hasMoved y = false := by
  decide +kernel

theorem regular_start : start.Regular where
  toOrderly := orderly_start
  pawn_off_home u y hu hy := by
    rw [(pawn_start u (Square.mem_all u) y hu hy).1]
    cases y.colour <;> decide
  pawn_fresh u y hu hy _ := (pawn_start u (Square.mem_all u) y hu hy).2
  target := nofun
  counted _ := ⟨by decide, by decide⟩

end Game

end ChessArbiter
