import ChessArbiter.Proofs.Movement
import ChessArbiter.Proofs.Rules

/-!
# Pawns

How a pawn may go by the rules of the game, in terms of the squares ahead of it
(`pawnAdvances_iff`, `pawn_step`). A pawn that has left its side's home rank behind never stands
there or on its starting rank again (`Admits.pawn_rank`), and the step that leaves a target behind
is the double push (`enPassant_execute`).
-/

namespace ChessArbiter

namespace Colour

theorem ahead_mem_directions (c : Colour) :
    (⟨0, c.forward⟩ : Offset) ∈ Square.directions := by
  cases c <;> decide

end Colour

namespace Square

variable {src dst next u : Square} {c : Colour}

theorem ahead_iff {n : ℤ} :
    src.tryOffset ⟨0, n⟩ = some dst ↔ (dst - src).files = 0 ∧ (dst - src).ranks = n := by
  rw [tryOffset_eq_some, files_sub, ranks_sub]
  dsimp only
  omega

theorem two_ahead_iff :
    src.tryOffset ⟨0, 2 * c.forward⟩ = some dst ↔
      ∃ next, src.tryOffset ⟨0, c.forward⟩ = some next ∧
        next.tryOffset ⟨0, c.forward⟩ = some dst := by
  have hsteps : src.tryOffset ⟨0, 2 * c.forward⟩ = some dst ↔ src.StepsTo ⟨0, c.forward⟩ 2 dst := by
    simp only [tryOffset_eq_some, StepsTo]
    push_cast
    rfl
  rw [hsteps]
  constructor
  · intro h
    obtain ⟨next, hnext⟩ := h.exists_first
    rw [stepsTo_succ hnext, stepsTo_one] at h
    exact ⟨next, hnext, h⟩
  · rintro ⟨next, hnext, hdst⟩
    rw [stepsTo_succ hnext, stepsTo_one]
    exact hdst

theorem has_between_two_ahead (hnext : src.tryOffset ⟨0, c.forward⟩ = some next)
    (hdst : next.tryOffset ⟨0, c.forward⟩ = some dst) :
    (Geometry.between src dst).has u = true ↔ u = next := by
  have hstep : src.StepsTo ⟨0, c.forward⟩ (1 + 1) dst := by
    rw [stepsTo_succ hnext, stepsTo_one]
    exact hdst
  obtain ⟨hal, hhead, hdist⟩ := hstep.heading_eq c.ahead_mem_directions
  rw [Geometry.has_between, hhead, hdist]
  constructor
  · rintro ⟨_, k, hk, hu⟩
    obtain rfl : k = 0 := by omega
    rw [zero_add, stepsTo_one, hnext, Option.some.injEq] at hu
    exact hu.symm
  · rintro rfl
    refine ⟨hal, 0, by omega, ?_⟩
    rw [zero_add, stepsTo_one]
    exact hnext

end Square

namespace Game

variable {g : Game} {m : Man} {s : Step} {src dst : Square}

theorem pawnAdvances_iff (h : g.Coherent) (hs : g.board.occupant src = some m) :
    g.pawnAdvances m dst = true ↔ g.board.occupant dst = none ∧
      (src.tryOffset ⟨0, m.colour.forward⟩ = some dst ∨
        ∃ next, src.tryOffset ⟨0, m.colour.forward⟩ = some next ∧
          next.tryOffset ⟨0, m.colour.forward⟩ = some dst ∧ g.board.occupant next = none ∧
          src.rank = m.colour.pawnRank ∧ g.hasMoved m = false) := by
  unfold pawnAdvances
  rw [h.square?_of_occupant hs, Option.any_some]
  simp only [Bool.and_eq_true, Bool.or_eq_true, beq_iff_eq, Board.isEmpty_iff, Piece.mayStepTwice,
    Bool.not_eq_true', Board.pathClear_iff h.faithful]
  rw [and_comm]
  refine and_congr_right fun _ => ?_
  rw [and_or_left, ← Square.ahead_iff, ← and_assoc, ← and_assoc, ← Square.ahead_iff,
    Square.two_ahead_iff]
  refine or_congr_right ?_
  constructor
  · rintro ⟨⟨⟨next, hnext, hdst⟩, hmoved, hrank⟩, hclear⟩
    have hempty := hclear next ((Square.has_between_two_ahead hnext hdst).2 rfl)
    exact ⟨next, hnext, hdst, hempty, hrank, hmoved⟩
  · rintro ⟨next, hnext, hdst, hempty, hrank, hmoved⟩
    refine ⟨⟨⟨next, hnext, hdst⟩, hmoved, hrank⟩, fun u hu => ?_⟩
    rw [(Square.has_between_two_ahead hnext hdst).1 hu]
    exact hempty

theorem pawn_step (h : g.Coherent) (hs : g.board.occupant src = some m) (hk : m.kind = .pawn)
    (hfoe : ∀ v, g.board.occupant dst = some v → v.colour ≠ m.colour)
    (hr : g.obeysRules m dst = true) :
    src.tryOffset ⟨0, m.colour.forward⟩ = some dst ∨
      (∃ next, src.tryOffset ⟨0, m.colour.forward⟩ = some next ∧
        next.tryOffset ⟨0, m.colour.forward⟩ = some dst ∧ g.board.occupant next = none ∧
        src.rank = m.colour.pawnRank) ∨
      ((dst - src).files.natAbs = 1 ∧ (dst - src).ranks = m.colour.forward) := by
  have hstrike : m.bearsOn g.board.isEmpty src dst = true →
      (dst - src).files.natAbs = 1 ∧ (dst - src).ranks = m.colour.forward := by
    intro hb
    rwa [Piece.bearsOn_pawn hk, Geometry.has_pawnStrikes] at hb
  rcases (obeysRules_pawn h hs hfoe hk).1 hr with hadv | ⟨hb, _⟩ | hp
  · obtain ⟨_, hone | ⟨next, hnext, hdst, hempty, hrank, _⟩⟩ := (pawnAdvances_iff h hs).1 hadv
    · exact .inl hone
    · exact .inr (.inl ⟨next, hnext, hdst, hempty, hrank⟩)
  · exact .inr (.inr (hstrike hb))
  · obtain ⟨_, _, _, hb, _⟩ := (isPassing_iff h hs).1 hp
    exact .inr (.inr (hstrike hb))

namespace Admits

theorem pawn_rank (hs : g.Admits s) (h : g.Coherent) (hk : s.man.kind = .pawn)
    (hoff : s.src.rank ≠ s.man.colour.homeRank) :
    s.dst.rank ≠ s.man.colour.homeRank ∧ s.dst.rank ≠ s.man.colour.pawnRank := by
  have hahead : (s.dst.rank.val : ℤ) = s.src.rank.val + s.man.colour.forward ∨
      (s.dst.rank.val : ℤ) = s.src.rank.val + 2 * s.man.colour.forward := by
    rcases pawn_step h hs.source hk hs.foe hs.rules with hone | ⟨next, hnext, hdst, _⟩ | ⟨_, hr⟩
    · exact .inl (Square.tryOffset_eq_some.1 hone).2
    · exact .inr (Square.tryOffset_eq_some.1 (Square.two_ahead_iff.2 ⟨next, hnext, hdst⟩)).2
    · rw [Square.ranks_sub] at hr
      left
      omega
  have hsrc := s.src.rank.isLt
  have hdst := s.dst.rank.isLt
  simp only [ne_eq, Fin.ext_iff] at hoff ⊢
  cases hc : s.man.colour <;>
  · simp only [hc, Colour.forward, Colour.homeRank, Colour.pawnRank, Fin.val_zero, Fin.val_one,
      Fin.isValue] at hoff hahead ⊢
    omega

theorem double_iff (hs : g.Admits s) (h : g.Coherent) :
    (s.man.kind = .pawn ∧ (s.dst - s.src).files = 0 ∧ (s.dst - s.src).ranks.natAbs = 2) ↔
      s.man.doublePush s.src s.dst = true := by
  unfold Piece.doublePush
  rw [Bool.and_eq_true, beq_iff_eq, beq_iff_eq]
  have hfwd : s.man.colour.forward.natAbs = 1 := by cases s.man.colour <;> rfl
  refine and_congr_right fun hk => ?_
  constructor
  · rintro ⟨hf, hr⟩
    rcases pawn_step h hs.source hk hs.foe hs.rules with hone | ⟨next, hnext, hdst, _⟩ | ⟨hf', _⟩
    · have hr' := (Square.ahead_iff.1 hone).2
      omega
    · exact Square.two_ahead_iff.2 ⟨next, hnext, hdst⟩
    · omega
  · intro htwo
    obtain ⟨hf, hr⟩ := Square.ahead_iff.1 htwo
    omega

/-- A double push comes from the starting rank, over an empty square, and does not promote. -/
theorem double_push (hs : g.Admits s) (h : g.Coherent)
    (hd : s.man.doublePush s.src s.dst = true) : s.man.kind = .pawn ∧ s.becomes = none ∧
      ∃ next, s.src.tryOffset ⟨0, s.man.colour.forward⟩ = some next ∧
        next.tryOffset ⟨0, s.man.colour.forward⟩ = some s.dst ∧
        g.board.occupant next = none ∧ s.src.rank = s.man.colour.pawnRank := by
  have hfwd : s.man.colour.forward.natAbs = 1 := by cases s.man.colour <;> rfl
  obtain ⟨hk, hf, hr⟩ := (hs.double_iff h).2 hd
  rcases pawn_step h hs.source hk hs.foe hs.rules with
    hone | ⟨next, hnext, hdst, hempty, hrank⟩ | ⟨hf', _⟩
  · have hr' := (Square.ahead_iff.1 hone).2
    omega
  · refine ⟨hk, ?_, next, hnext, hdst, hempty, hrank⟩
    have htwo := (Square.ahead_iff.1 (Square.two_ahead_iff.2 ⟨next, hnext, hdst⟩)).2
    have hlast : s.man.promotesOn s.dst = false := by
      rw [Square.ranks_sub, hrank] at htwo
      simp only [Man.promotesOn, hk, Bool.and_eq_false_iff, beq_eq_false_iff_ne, ne_eq, Fin.ext_iff]
      right
      cases hc : s.man.colour <;>
      · simp only [hc, Colour.forward, Colour.lastRank, Colour.pawnRank, Fin.isValue] at htwo ⊢
        omega
    have hnone := hs.becomes_isSome
    rw [hlast, Option.isSome_eq_false_iff, Option.isNone_iff_eq_none] at hnone
    exact hnone
  · omega

end Admits

/-- The target that a step leaves behind: the square that a double push passes over. -/
theorem enPassant_execute (hs : g.Admits s) (h : g.Coherent) :
    (g.execute s).2.enPassant = if s.man.doublePush s.src s.dst = true then
      s.src.tryOffset ⟨0, s.man.colour.forward⟩ else none := by
  have hpromote : ∀ g' : Game, (g'.promote s).enPassant = g'.enPassant := by
    intro g'
    unfold promote
    cases s.becomes <;> rfl
  simp only [← hs.double_iff h]
  exact hpromote _

end Game

end ChessArbiter
