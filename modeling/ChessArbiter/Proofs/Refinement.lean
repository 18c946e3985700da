import ChessArbiter.Proofs.Abstraction

/-!
# Play follows the rules of chess

In a regular game the steps that are granted are those that the rules allow for its position
(`legal_step_iff`), and the men stand afterwards as the rules say (`piece_execute`). For a king the
first needs an argument: the game asks beforehand whether the destination is attacked, with the
king's square counted as empty, and the rules ask only once the king has moved
(`king_attacked_after`).
-/

namespace ChessArbiter

namespace Game

variable {g g' : Game} {s : Step} {m : Man} {src dst : Square} {promotion : Option PieceKind}
  {w : Wing}

theorem free_piece_iff {u : Square} :
    Placement.free g.board.piece u = true ↔ g.board.occupant u = none := by
  rw [free_piece, Board.isEmpty_iff]

theorem castling_eq (m : Man) (src dst : Square) :
    m.toPiece.castling src dst = m.castleRequest src dst := by
  unfold Piece.castling Man.castleRequest
  by_cases hk : m.kind = .king
  · rw [if_pos hk]
    simp [hk]
  · rw [if_neg hk]
    simp [hk]

/-- The pieces of the other side, or nothing, on a square. -/
theorem foe_iff : (!(g.board.piece dst).any (·.colour == m.colour)) = true ↔
    ∀ v, g.board.occupant dst = some v → v.colour ≠ m.colour := by
  unfold Board.piece
  cases g.board.occupant dst <;> simp

/-! ### Pseudo-legal moves -/

theorem pushes_iff (h : g.Tidy) (hs : g.board.occupant src = some m) (hk : m.kind = .pawn) :
    Placement.pushes g.board.piece m.colour src dst = true ↔ g.pawnAdvances m dst = true := by
  rw [pawnAdvances_iff h.toCoherent hs]
  unfold Placement.pushes
  simp only [Option.any_eq_true, Bool.and_eq_true, Bool.or_eq_true, beq_iff_eq, free_piece_iff]
  constructor
  · rintro ⟨next, hnext, hempty, rfl | ⟨⟨hrank, hdst⟩, hfree⟩⟩
    · exact ⟨hempty, .inl hnext⟩
    · have hfresh := h.pawn_fresh src m hs hk hrank
      exact ⟨hfree, .inr ⟨next, hnext, hdst, hempty, hrank, hfresh⟩⟩
  · rintro ⟨hfree, hone | ⟨next, hnext, hdst, hempty, hrank, _⟩⟩
    · exact ⟨dst, hone, hfree, .inl rfl⟩
    · exact ⟨next, hnext, hempty, .inr ⟨⟨hrank, hdst⟩, hfree⟩⟩

section rules

variable (h : g.Regular) (hs : g.board.occupant src = some m) (hc : m.colour = g.active)

include h hs hc

theorem takesPassing_eq :
    g.position.takesPassing m.toPiece src dst = g.isPassing m dst := by
  rw [Bool.eq_iff_iff, isPassing_iff h.toCoherent hs]
  unfold Position.takesPassing
  simp only [Bool.and_eq_true, beq_iff_eq, men_position, free_piece]
  constructor
  · rintro ⟨⟨hk, ht⟩, hb⟩
    obtain ⟨hempty, hvictim⟩ := h.passed ht hk hc hb
    exact ⟨hk, ht, hempty, hb, hvictim⟩
  · rintro ⟨hk, ht, _, hb, _⟩
    exact ⟨⟨hk, ht⟩, hb⟩

theorem pseudoLegal_pawn_iff (hk : m.kind = .pawn) :
    g.position.pseudoLegal m.toPiece src dst = true ↔
      (∀ v, g.board.occupant dst = some v → v.colour ≠ m.colour) ∧
        g.obeysRules m dst = true := by
  unfold Position.pseudoLegal
  rw [Bool.and_eq_true, men_position, foe_iff, if_pos hk, takesPassing_eq h hs hc]
  refine and_congr_right fun hfoe => ?_
  rw [obeysRules_pawn h.toCoherent hs hfoe hk, Bool.or_eq_true, Bool.or_eq_true, Bool.and_eq_true,
    Bool.not_eq_true', ← Bool.not_eq_true, pushes_iff h.tidy hs hk, free_piece, Board.isEmpty_iff,
    or_assoc]

omit hc

theorem pseudoLegal_officer_iff (hk : m.kind.isOfficer = true) :
    g.position.pseudoLegal m.toPiece src dst = true ↔
      (∀ v, g.board.occupant dst = some v → v.colour ≠ m.colour) ∧
        g.obeysRules m dst = true := by
  have hpawn : m.kind ≠ .pawn := by
    intro he
    rw [he] at hk
    cases hk
  unfold Position.pseudoLegal
  rw [Bool.and_eq_true, men_position, foe_iff, if_neg hpawn, free_piece]
  refine and_congr_right fun hfoe => ?_
  rw [obeysRules_officer h.toCoherent hs hfoe hk]

omit h hs

theorem pseudoLegal_king_iff (hk : m.kind = .king) :
    g.position.pseudoLegal m.toPiece src dst = true ↔
      (∀ v, g.board.occupant dst = some v → v.colour ≠ m.colour) ∧
        m.bearsOn g.board.isEmpty src dst = true := by
  have hpawn : m.kind ≠ .pawn := by
    rw [hk]
    exact nofun
  unfold Position.pseudoLegal
  rw [Bool.and_eq_true, men_position, foe_iff, if_neg hpawn, free_piece]

end rules

/-! ### The men after a step -/

theorem arriving_eq
    (hb : s.becomes = if s.man.promotesOn s.dst then some (promotion.getD .queen) else none) :
    s.man.arriving s.dst promotion = (g.arrival s).toPiece := by
  unfold Piece.arriving arrival
  have hsame : s.man.promotes s.dst = s.man.promotesOn s.dst := rfl
  rw [hb, hsame]
  split_ifs <;> rfl

theorem piece_execute (h : g.Regular) (hs : g.Admits s)
    (hb : s.becomes = if s.man.promotesOn s.dst then some (promotion.getD .queen) else none) :
    (g.execute s).2.board.piece =
      g.position.menAfter s.man.toPiece s.src s.dst promotion := by
  funext u
  unfold Board.piece Position.menAfter
  rw [occupant_execute hs h.toCoherent, takesPassing_eq h hs.source hs.mover, ← hs.passing_eq,
    arriving_eq hb]
  unfold Step.victimSquare Step.passed
  by_cases hdst : u = s.dst
  · rw [if_pos hdst, if_pos hdst]
    rfl
  · by_cases hsrc : u = s.src
    · rw [if_neg hdst, if_neg hdst, if_pos (.inl hsrc), if_pos hsrc]
      rfl
    · by_cases hp : s.passing = true
      · by_cases hpassed : u = ⟨s.dst.file, s.src.rank⟩
        · simp [hp, hpassed]
        · simp [hdst, hsrc, hp, hpassed, men_position, Board.piece]
      · simp [hdst, hsrc, hp, men_position, Board.piece]

/-- Whether the mover's king is attacked afterwards is told by the men alone. -/
theorem inCheck_menAfter (h : g.Regular) (hs : g.Admits s)
    (hb : s.becomes = if s.man.promotesOn s.dst then some (promotion.getD .queen) else none) :
    Placement.inCheck (g.position.menAfter s.man.toPiece s.src s.dst promotion) s.man.colour =
      (g.execute s).2.inCheck s.man.colour := by
  have hvictim := hs.victim_not_king h.toConsistent (h.one_king _) h.waiting_safe
  have hone := hasOneKing_execute hs h.toConsistent hvictim (h.one_king s.man.colour)
  rw [← piece_execute h hs hb]
  exact inCheck_piece (consistent_execute hs h.toConsistent) hone

/-- A king that steps to a square attacked through the one it leaves is in check there. -/
theorem king_attacked_after (h : g.Consistent) (hs : g.board.occupant src = some m)
    (hk : m.kind = .king) (hatt : g.isAttackedWithout dst m.colour.opposite src = true) :
    Placement.inCheck (g.position.menAfter m.toPiece src dst promotion) m.colour = true := by
  obtain ⟨u, y, hu, hc, hb⟩ := (isAttackedWithout_iff h).1 hatt
  have hpassing : g.position.takesPassing m.toPiece src dst = false := by
    simp [Position.takesPassing, hk]
  have harriving : m.arriving dst promotion = ⟨.king, m.colour⟩ := by
    have hpromotes : m.promotes dst = false := by simp [Piece.promotes, hk]
    rw [Piece.arriving, hpromotes, if_neg Bool.false_ne_true, ← hk]
  have hafter : ∀ t, g.position.menAfter m.toPiece src dst promotion t =
      if t = dst then some ⟨.king, m.colour⟩ else if t = src then none
      else g.board.piece t := by
    intro t
    unfold Position.menAfter
    rw [harriving, hpassing]
    simp [men_position]
  -- the attacker is neither the king that leaves nor on the square where it arrives
  have husrc : u ≠ src := by
    rintro rfl
    rw [hs, Option.some.injEq] at hu
    rw [← hu] at hc
    exact Colour.ne_opposite _ hc
  have hudst : u ≠ dst := Piece.bearsOn_ne hb
  have hfree : ∀ t, (Geometry.between u dst).has t = true →
      (g.board.isEmpty t || t == src) = true →
      Placement.free (g.position.menAfter m.toPiece src dst promotion) t = true := by
    intro t ht hempty
    rw [Bool.or_eq_true, beq_iff_eq, Board.isEmpty_iff] at hempty
    unfold Placement.free
    rw [hafter, if_neg (Geometry.between_ne_right ht)]
    by_cases htsrc : t = src
    · rw [if_pos htsrc]
      rfl
    · rw [if_neg htsrc, Board.piece, hempty.resolve_right htsrc]
      rfl
  have hstands : g.position.menAfter m.toPiece src dst promotion u = some y.toPiece := by
    rw [hafter, if_neg hudst, if_neg husrc]
    exact piece_eq_some.2 ⟨y, hu, rfl⟩
  unfold Placement.inCheck Placement.isAttacked
  simp only [List.any_eq_true, Square.mem_all, true_and, Bool.and_eq_true, beq_iff_eq,
    Option.any_eq_true]
  refine ⟨dst, ?_, u, y.toPiece, hstands, hc, Piece.bearsOn_mono hfree hb⟩
  rw [hafter, if_pos rfl]

/-! ### Legal moves -/

section legal

variable (h : g.Regular) (hs : g.board.occupant src = some m) (hc : m.colour = g.active)

include h hs hc

theorem pseudoLegal_of_obeysRules
    (hfoe : ∀ v, g.board.occupant dst = some v → v.colour ≠ m.colour)
    (hr : g.obeysRules m dst = true) : g.position.pseudoLegal m.toPiece src dst = true := by
  cases hk : m.kind with
  | pawn => exact (pseudoLegal_pawn_iff h hs hc hk).2 ⟨hfoe, hr⟩
  | king =>
    rw [obeysRules_king h.toCoherent hs hfoe hk, Bool.and_eq_true] at hr
    exact (pseudoLegal_king_iff hk).2 ⟨hfoe, hr.1⟩
  | knight | bishop | rook | queen =>
    exact (pseudoLegal_officer_iff h hs (by rw [hk]; rfl)).2 ⟨hfoe, hr⟩

theorem obeysRules_of_pseudoLegal
    (hp : g.position.pseudoLegal m.toPiece src dst = true)
    (hsafe : Placement.inCheck (g.position.menAfter m.toPiece src dst promotion) m.colour =
      false) :
    (∀ v, g.board.occupant dst = some v → v.colour ≠ m.colour) ∧ g.obeysRules m dst = true := by
  cases hk : m.kind with
  | pawn => exact (pseudoLegal_pawn_iff h hs hc hk).1 hp
  | king =>
    obtain ⟨hfoe, hb⟩ := (pseudoLegal_king_iff hk).1 hp
    refine ⟨hfoe, ?_⟩
    rw [obeysRules_king h.toCoherent hs hfoe hk, hb, Bool.true_and, Bool.not_eq_true',
      ← Bool.not_eq_true]
    intro hatt
    rw [king_attacked_after h.toConsistent hs hk hatt] at hsafe
    cases hsafe
  | knight | bishop | rook | queen =>
    exact (pseudoLegal_officer_iff h hs (by rw [hk]; rfl)).1 hp

/-- Of a man's steps those are granted that are pseudo-legal and leave the own king safe. -/
theorem legal_step_iff (hcastle : m.castleRequest src dst = none)
    (hp : g.promotionObjection m src dst promotion = none) :
    (∃ s, g.assess src dst promotion = .ok (.step s) ∧
        (g.execute s).2.inCheck s.man.colour = false) ↔
      g.position.pseudoLegal m.toPiece src dst = true ∧
        Placement.inCheck (g.position.menAfter m.toPiece src dst promotion) m.colour = false := by
  constructor
  · rintro ⟨s, hassess, hsafe⟩
    have hadm := (admits_of_assess hassess).1
    obtain ⟨n, ⟨hn, _⟩, _, _, _, _, rfl⟩ := assess_step_iff.1 hassess
    obtain rfl : n = m := Option.some.inj (hn.symm.trans hs)
    rw [← inCheck_menAfter h hadm rfl] at hsafe
    exact ⟨pseudoLegal_of_obeysRules h hs hc hadm.foe hadm.rules, hsafe⟩
  · rintro ⟨hpl, hsafe⟩
    obtain ⟨hfoe, hr⟩ := obeysRules_of_pseudoLegal h hs hc hpl hsafe
    have hne : src ≠ dst := by
      rintro rfl
      exact hfoe m hs rfl
    have hassess : g.assess src dst promotion = .ok (.step (g.stepOf m src dst promotion)) :=
      assess_step_iff.2
        ⟨m, ⟨hs, hc, hne⟩, hcastle, hp, captureObjection_eq_none_iff.2 hfoe, hr, rfl⟩
    have hadm := (admits_of_assess hassess).1
    refine ⟨_, hassess, ?_⟩
    rw [← inCheck_menAfter h hadm rfl]
    exact hsafe

end legal

end Game

end ChessArbiter
