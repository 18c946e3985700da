import ChessArbiter.Proofs.Attacks

/-!
# Castling

An open castle has king and rook at home and all squares between them empty. Making it moves the
two men and marks them as moved (`occupant_executeCastle`, `hasMoved_executeCastle`). Although
attacks are only asked about before the king and the rook have moved, the king is safe on its new
square: a line that could open when they leave home runs along the home rank, where the rook
stands in the way or nothing lies beyond (`not_attacked_of_canCastle`).
-/

namespace ChessArbiter

namespace CastlePath

variable (c : Colour) (w : Wing)

theorem distinct :
    (of c w).kingFrom ≠ (of c w).kingTo ∧ (of c w).kingFrom ≠ (of c w).rookFrom ∧
      (of c w).kingFrom ≠ (of c w).rookTo ∧ (of c w).kingTo ≠ (of c w).rookFrom ∧
      (of c w).kingTo ≠ (of c w).rookTo ∧ (of c w).rookFrom ≠ (of c w).rookTo := by
  cases c <;> cases w <;> decide

theorem destinations_between :
    (Geometry.between (of c w).kingFrom (of c w).rookFrom).has (of c w).kingTo = true ∧
      (Geometry.between (of c w).kingFrom (of c w).rookFrom).has (of c w).rookTo = true := by
  cases c <;> cases w <;> decide

theorem rank_eq :
    (of c w).kingFrom.rank = (of c w).kingTo.rank ∧ (of c w).rookFrom.rank = (of c w).kingTo.rank ∧
      (of c w).rookTo.rank = (of c w).kingTo.rank := by
  cases w <;> exact ⟨rfl, rfl, rfl⟩

/-- Whoever looks across the king's home square at its new one looks across the rook's new one. -/
theorem rookTo_between {s : Square}
    (h : (Geometry.between s (of c w).kingTo).has (of c w).kingFrom = true) :
    (Geometry.between s (of c w).kingTo).has (of c w).rookTo = true := by
  obtain ⟨hk, _, hr⟩ := rank_eq c w
  rw [Geometry.has_between_of_rank_eq hk] at h
  rw [Geometry.has_between_of_rank_eq hr]
  refine ⟨h.1, ?_⟩
  have hfile := h.2
  cases w <;>
  · simp only [of, Fin.lt_def] at hfile ⊢
    omega

/-- Behind the rook's home square the board ends. -/
theorem rookFrom_not_between (s : Square) :
    ¬(Geometry.between s (of c w).kingTo).has (of c w).rookFrom = true := by
  have hs := s.file.isLt
  rw [Geometry.has_between_of_rank_eq (rank_eq c w).2.1]
  rintro ⟨_, hfile⟩
  cases w <;>
  · simp only [of, Fin.lt_def] at hfile
    omega

end CastlePath

namespace Game

variable {g : Game} {c : Colour} {w : Wing} {k r m : Man} {s : Square}

theorem unmovedAt_iff {kind : PieceKind} :
    g.unmovedAt c kind s = true ↔ ∃ m, g.board.occupant s = some m ∧ m.kind = kind ∧
      m.colour = c ∧ g.hasMoved m = false := by
  unfold unmovedAt
  simp only [Option.any_eq_true, Bool.and_eq_true, beq_iff_eq, Bool.not_eq_true', and_assoc]

/-- King and rook stand where a castle finds them. -/
structure AtHome (g : Game) (c : Colour) (w : Wing) (k r : Man) : Prop where
  king : g.board.occupant (CastlePath.of c w).kingFrom = some k
  king_kind : k.kind = .king
  king_colour : k.colour = c
  rook : g.board.occupant (CastlePath.of c w).rookFrom = some r
  rook_kind : r.kind = .rook
  rook_colour : r.colour = c

theorem hasRight_iff :
    g.hasRight c w = true ↔
      ∃ k r, g.AtHome c w k r ∧ g.hasMoved k = false ∧ g.hasMoved r = false := by
  unfold hasRight
  rw [Bool.and_eq_true, unmovedAt_iff, unmovedAt_iff]
  constructor
  · rintro ⟨⟨k, hk, hkk, hkc, hkm⟩, r, hr, hrk, hrc, hrm⟩
    exact ⟨k, r, ⟨hk, hkk, hkc, hr, hrk, hrc⟩, hkm, hrm⟩
  · rintro ⟨k, r, h, hkm, hrm⟩
    exact ⟨⟨k, h.king, h.king_kind, h.king_colour, hkm⟩,
      r, h.rook, h.rook_kind, h.rook_colour, hrm⟩

theorem canCastle_iff :
    g.canCastle c w = true ↔ g.hasRight c w = true ∧
      g.board.pathClear (CastlePath.of c w).kingFrom (CastlePath.of c w).rookFrom = true ∧
      ∀ u ∈ (CastlePath.of c w).kingFrom :: (CastlePath.of c w).kingTo ::
          Geometry.squaresBetween (CastlePath.of c w).kingFrom (CastlePath.of c w).kingTo,
        g.isAttacked u c.opposite = false := by
  unfold canCastle
  rw [Bool.and_eq_true, Bool.and_eq_true, Bool.not_eq_true', List.any_eq_false, and_assoc]
  simp only [Bool.not_eq_true]

theorem atHome_of_canCastle (hw : g.canCastle c w = true) : ∃ k r, g.AtHome c w k r := by
  obtain ⟨k, r, h, _⟩ := hasRight_iff.1 (canCastle_iff.1 hw).1
  exact ⟨k, r, h⟩

theorem path_empty_of_canCastle (h : g.Coherent) (hw : g.canCastle c w = true) {u : Square}
    (hu : (Geometry.between (CastlePath.of c w).kingFrom (CastlePath.of c w).rookFrom).has u =
      true) : g.board.occupant u = none := by
  have hclear := (canCastle_iff.1 hw).2.1
  rw [Board.pathClear_iff h.faithful] at hclear
  exact Board.isEmpty_iff.1 (hclear u hu)

theorem kingTo_safe_of_canCastle (hw : g.canCastle c w = true) :
    g.isAttacked (CastlePath.of c w).kingTo c.opposite = false := by
  apply (canCastle_iff.1 hw).2.2
  exact List.mem_cons_of_mem _ List.mem_cons_self

theorem wear_eq (hs : g.board.occupant s = some m) :
    g.wear s = { g with toTable := g.setMoved m true } := by
  unfold wear
  rw [hs]

theorem size_wear (g : Game) (s : Square) : (g.wear s).roster.size = g.roster.size := by
  unfold wear
  cases g.board.occupant s with
  | none => rfl
  | some m => exact Table.size_setMoved g.toTable m true

/-- The castle before the men are marked: first the king goes, then the rook. -/
def shiftForCastle (g : Game) (path : CastlePath) : Game :=
  { g with
    toTable := ((g.relocate path.kingFrom path.kingTo).2.relocate path.rookFrom path.rookTo).2 }

theorem size_shiftForCastle (g : Game) (path : CastlePath) :
    (g.shiftForCastle path).roster.size = g.roster.size :=
  (Table.size_relocate _ _ _).trans (Table.size_relocate _ _ _)

theorem size_executeCastle (g : Game) (path : CastlePath) :
    (g.executeCastle path).roster.size = g.roster.size :=
  ((size_wear _ _).trans (size_wear _ _)).trans (g.size_shiftForCastle path)

variable (h : g.Consistent) (hw : g.canCastle c w = true) (hh : g.AtHome c w k r)

include h hw hh

theorem rook_after_king :
    (g.relocate (CastlePath.of c w).kingFrom (CastlePath.of c w).kingTo).2.board.occupant
        (CastlePath.of c w).rookFrom = some r ∧
      (g.relocate (CastlePath.of c w).kingFrom (CastlePath.of c w).kingTo).2.board.occupant
        (CastlePath.of c w).rookTo = none := by
  obtain ⟨hkk, hkr, hkt, htr, htt, _⟩ := CastlePath.distinct c w
  rw [Table.occupant_relocate _ hh.king hkk, Table.occupant_relocate _ hh.king hkk,
    if_neg htr.symm, if_neg hkr.symm, if_neg htt.symm, if_neg hkt.symm]
  exact ⟨hh.rook, path_empty_of_canCastle h.toCoherent hw (CastlePath.destinations_between c w).2⟩

theorem occupant_shiftForCastle (u : Square) :
    (g.shiftForCastle (CastlePath.of c w)).board.occupant u =
      if u = (CastlePath.of c w).kingTo then some k
      else if u = (CastlePath.of c w).rookTo then some r
      else if u = (CastlePath.of c w).kingFrom ∨ u = (CastlePath.of c w).rookFrom then none
      else g.board.occupant u := by
  obtain ⟨hkk, hkr, hkt, htr, htt, hrt⟩ := CastlePath.distinct c w
  refine (Table.occupant_relocate _ (rook_after_king h hw hh).1 hrt u).trans ?_
  rw [Table.occupant_relocate _ hh.king hkk]
  by_cases hkt' : u = (CastlePath.of c w).kingTo
  · rw [hkt', if_neg htt, if_neg htr, if_pos rfl, if_pos rfl]
  · rw [if_neg hkt', if_neg hkt']
    split_ifs <;> simp_all

theorem consistent_shiftForCastle : (g.shiftForCastle (CastlePath.of c w)).Consistent := by
  have hking := h.relocate hh.king
    (path_empty_of_canCastle h.toCoherent hw (CastlePath.destinations_between c w).1)
  obtain ⟨hr, hempty⟩ := rook_after_king h hw hh
  exact hking.relocate hr hempty

theorem executeCastle_eq :
    g.executeCastle (CastlePath.of c w) =
      { g.shiftForCastle (CastlePath.of c w) with
        toTable := ((g.shiftForCastle (CastlePath.of c w)).setMoved k true).setMoved r true
        enPassant := none } := by
  obtain ⟨_, _, _, _, htt, _⟩ := CastlePath.distinct c w
  have hocc := occupant_shiftForCastle h hw hh
  have hk : (g.shiftForCastle (CastlePath.of c w)).wear (CastlePath.of c w).kingTo =
      { g.shiftForCastle (CastlePath.of c w) with
        toTable := (g.shiftForCastle (CastlePath.of c w)).setMoved k true } := by
    refine wear_eq ?_
    rw [hocc, if_pos rfl]
  have hr : ({ g.shiftForCastle (CastlePath.of c w) with
        toTable := (g.shiftForCastle (CastlePath.of c w)).setMoved k true } : Game).wear
        (CastlePath.of c w).rookTo =
      { g.shiftForCastle (CastlePath.of c w) with
        toTable := ((g.shiftForCastle (CastlePath.of c w)).setMoved k true).setMoved r true } := by
    refine wear_eq ?_
    change (g.shiftForCastle (CastlePath.of c w)).board.occupant (CastlePath.of c w).rookTo = _
    rw [hocc, if_neg htt.symm, if_pos rfl]
  change { ((g.shiftForCastle (CastlePath.of c w)).wear (CastlePath.of c w).kingTo).wear
    (CastlePath.of c w).rookTo with enPassant := none } = _
  rw [hk, hr]

theorem consistent_executeCastle : (g.executeCastle (CastlePath.of c w)).Consistent := by
  rw [executeCastle_eq h hw hh]
  exact (((consistent_shiftForCastle h hw hh).setMoved k true).setMoved r true).congr rfl rfl rfl

theorem occupant_executeCastle (u : Square) :
    (g.executeCastle (CastlePath.of c w)).board.occupant u =
      if u = (CastlePath.of c w).kingTo then some k
      else if u = (CastlePath.of c w).rookTo then some r
      else if u = (CastlePath.of c w).kingFrom ∨ u = (CastlePath.of c w).rookFrom then none
      else g.board.occupant u := by
  rw [executeCastle_eq h hw hh]
  exact occupant_shiftForCastle h hw hh u

theorem hasMoved_executeCastle (y : Man) :
    (g.executeCastle (CastlePath.of c w)).hasMoved y =
      if y.id = k.id ∨ y.id = r.id then true else g.hasMoved y := by
  have hmoved : (g.shiftForCastle (CastlePath.of c w)).hasMoved y = g.hasMoved y :=
    (Table.hasMoved_relocate _ _ _ y).trans (Table.hasMoved_relocate _ _ _ y)
  have hk := h.enrolled_of_occupant hh.king
  have hr := h.enrolled_of_occupant hh.rook
  rw [← g.size_shiftForCastle (CastlePath.of c w)] at hk hr
  rw [executeCastle_eq h hw hh]
  refine (Table.hasMoved_setMoved _ (by rwa [Table.size_setMoved]) true y).trans ?_
  rw [Table.hasMoved_setMoved _ hk, hmoved]
  split_ifs <;> simp_all

/-- Whoever else is on the board keeps his mark. -/
theorem hasMoved_beside_castle {u : Square} {y : Man} (hu : g.board.occupant u = some y)
    (hking : u ≠ (CastlePath.of c w).kingFrom) (hrook : u ≠ (CastlePath.of c w).rookFrom) :
    (g.executeCastle (CastlePath.of c w)).hasMoved y = g.hasMoved y := by
  rw [hasMoved_executeCastle h hw hh, if_neg]
  refine not_or.2 ⟨fun hid => hking ?_, fun hid => hrook ?_⟩
  · exact h.occupant_unique hu hh.king hid
  · exact h.occupant_unique hu hh.rook hid

theorem live_executeCastle : (g.executeCastle (CastlePath.of c w)).live = g.live := by
  rw [executeCastle_eq h hw hh]
  rfl

/-- The king is safe where castling brings him. -/
theorem not_attacked_of_canCastle :
    (g.executeCastle (CastlePath.of c w)).isAttacked (CastlePath.of c w).kingTo c.opposite =
      false := by
  have hocc := occupant_executeCastle h hw hh
  have hsafe := kingTo_safe_of_canCastle hw
  rw [← Bool.not_eq_true] at hsafe ⊢
  intro hatt
  have hcon := consistent_executeCastle h hw hh
  obtain ⟨src, m, hs, hm, hb⟩ := (isAttacked_iff hcon.toCoherent).1 hatt
  have hfoe : ∀ y, y.colour = c → m ≠ y := by
    rintro y hy rfl
    exact Colour.opposite_ne c (hm.symm.trans hy)
  -- the attacker stood there before
  have hs' : g.board.occupant src = some m := by
    rw [hocc] at hs
    split_ifs at hs
    · exact absurd (Option.some.inj hs).symm (hfoe k hh.king_colour)
    · exact absurd (Option.some.inj hs).symm (hfoe r hh.rook_colour)
    · exact hs
  refine hsafe ((isAttacked_iff h.toCoherent).2 ⟨src, m, hs', hm, ?_⟩)
  by_cases hk : m.kind.slides = true
  · rw [Piece.bearsOn_slider hk false] at hb ⊢
    refine ⟨hb.1, fun u hu => ?_⟩
    have hu' := hb.2 u hu
    rw [Board.isEmpty_iff, hocc] at hu'
    rw [Board.isEmpty_iff]
    split_ifs at hu' with _ _ hhome
    · rcases hhome with rfl | rfl
      · have hrook := hb.2 _ (CastlePath.rookTo_between c w hu)
        rw [Board.isEmpty_iff, hocc, if_neg (CastlePath.distinct c w).2.2.2.2.1.symm,
          if_pos rfl] at hrook
        cases hrook
      · exact absurd hu (CastlePath.rookFrom_not_between c w src)
    · exact hu'
  · rwa [Piece.bearsOn_congr_of_not_slides hk]

end Game

end ChessArbiter
