import ChessArbiter.Proofs.Lookahead
import ChessArbiter.Proofs.Session

/-!
# A king with no square to step to

What a game calls checkmate is that the king of the side to move has no step: every square next to
it is held by its own side or attacked once the king has left (`Game.isCheckmate_iff`). That is the
case exactly if the king is refused every move that is no castle
(`Arbiter.isCheckmate_iff_kingStuck`). Every true checkmate is found in this way, and so is a
stalemate, or a check that another man could parry. The mate that a record tells of is the one found
in the position that its move leads to.
-/

namespace ChessArbiter

namespace Game

variable {g g' : Game} {k : Man} {r : MoveRecord} {src dst : Square}

theorem mem_kingOffsets :
    dst ∈ kingOffsets.filterMap src.tryOffset ↔ (Geometry.kingStrikes src).has dst = true := by
  rw [Geometry.has_kingStrikes, List.mem_filterMap]
  simp only [kingOffsets, List.mem_cons, List.not_mem_nil, or_false, exists_eq_or_imp,
    exists_eq_left, Square.tryOffset_eq_some, Square.files_sub, Square.ranks_sub, ne_eq,
    Square.eq_iff]
  omega

theorem isCheckmate_iff (h : g.Consistent) (hone : g.HasOneKing k.colour)
    (hs : g.board.occupant src = some k) (hk : k.kind = .king) :
    g.isCheckmate k.colour = true ↔ ∀ dst, (Geometry.kingStrikes src).has dst = true →
      (∀ v, g.board.occupant dst = some v → v.colour ≠ k.colour) →
      g.isAttackedWithout dst k.colour.opposite src = true := by
  have hown : ∀ dst, (g.board.occupant dst).any (·.colour == k.colour) = false ↔
      ∀ v, g.board.occupant dst = some v → v.colour ≠ k.colour := by
    intro dst
    cases g.board.occupant dst <;> simp
  unfold isCheckmate
  rw [king_eq h.toCoherent hone (h.live_of_occupant hs) hk, Option.any_some,
    h.square?_of_occupant hs, Option.any_some, Bool.not_eq_true', List.any_eq_false]
  simp only [mem_kingOffsets, Bool.and_eq_true, Bool.not_eq_true', hown, not_and]
  refine forall_congr' fun dst => forall_congr' fun hnear => forall_congr' fun _ => ?_
  rw [canMoveTo_king h hs hk hnear, Bool.not_eq_true, Bool.not_eq_false']

theorem isCheckmate_logged (g : Game) (r : MoveRecord) (resetClock : Bool) :
    (g.logged r resetClock).isCheckmate (g.logged r resetClock).active =
      (g.entry r resetClock).mate := rfl

theorem Plays.mate_eq (h : g.Plays r g') : r.mate = g'.isCheckmate g'.active := by
  obtain ⟨hturn, hmoves⟩ := h
  cases hturn with
  | @step _ _ _ s hs hsafe =>
    rw [moves_afterStep] at hmoves
    rw [← entry_unique hmoves]
    exact (isCheckmate_logged _ _ _).symm
  | @castle w hw =>
    rw [moves_afterCastle] at hmoves
    rw [← entry_unique hmoves]
    exact (isCheckmate_logged _ _ _).symm

end Game

namespace Arbiter

variable {a : Arbiter} {k : Man} {src : Square}

/-- Whatever is asked of the king of the side to move, unless it is a castle, is refused. -/
def KingStuck (a : Arbiter) : Prop :=
  ∀ k src dst promotion, a.board.occupant src = some k → k.kind = .king → k.colour = a.active →
    k.castleRequest src dst = none → (a.move src dst promotion).1.isOk = false

/-- The side to move is in check, and every move is refused it. -/
def Mated (a : Arbiter) : Prop :=
  a.inCheck a.active = true ∧ ∀ src dst promotion, (a.move src dst promotion).1.isOk = false

theorem occupant_of_isOk {dst : Square} {promotion : Option PieceKind}
    (hok : (a.move src dst promotion).1.isOk = true) :
    ∃ m, a.board.occupant src = some m ∧ m.colour = a.active := by
  rw [isOk_move, Option.isSome_iff_exists] at hok
  obtain ⟨g', hg'⟩ := hok
  obtain ⟨m, hm, hcolour, _⟩ := Game.mover_of_attempt hg'
  exact ⟨m, hm, hcolour⟩

theorem step_of_isOk (h : a.Consistent) (hs : a.board.occupant src = some k)
    (hk : k.kind = .king) {dst : Square} {promotion : Option PieceKind}
    (hcastle : k.castleRequest src dst = none) (hok : (a.move src dst promotion).1.isOk = true) :
    (Geometry.kingStrikes src).has dst = true ∧
      (∀ v, a.board.occupant dst = some v → v.colour ≠ k.colour) ∧
      a.isAttackedWithout dst k.colour.opposite src = false := by
  rw [isOk_move, Option.isSome_iff_exists] at hok
  obtain ⟨g', hg'⟩ := hok
  obtain ⟨_, hobjection, hobeys, _⟩ := Game.step_of_attempt hs hcastle hg'
  have hfoe := Game.captureObjection_eq_none_iff.1 hobjection
  rw [Game.obeysRules_king h.toCoherent hs hfoe hk, Piece.bearsOn_king hk, Bool.and_eq_true,
    Bool.not_eq_true'] at hobeys
  exact ⟨hobeys.1, hfoe, hobeys.2⟩

theorem isCheckmate_iff_kingStuck (h : a.Consistent) (hone : a.HasOneKing a.active) :
    a.isCheckmate a.active = true ↔ a.KingStuck := by
  constructor
  · intro hmate k src dst promotion hs hk hactive hcastle
    rw [← hactive] at hmate hone
    rw [← Bool.not_eq_true]
    intro hok
    obtain ⟨hnear, hfoe, hsafe⟩ := step_of_isOk h hs hk hcastle hok
    rw [(Game.isCheckmate_iff h hone hs hk).1 hmate dst hnear hfoe] at hsafe
    cases hsafe
  · intro hstuck
    obtain ⟨k, hlive, hk, _⟩ := (Game.hasOneKing_iff h.toCoherent).1 hone
    obtain ⟨src, _, hs⟩ := h.exists_occupant hlive
    have hactive : k.colour = a.active := h.live_colour _ k hlive
    rw [← hactive] at hone ⊢
    refine (Game.isCheckmate_iff h hone hs hk).2 fun dst hnear hfoe => ?_
    have hrefused := hstuck k src dst none hs hk hactive (Game.castleRequest_of_near hnear)
    rw [isOk_move, Game.isSome_attempt_king h hs hk hactive hone hfoe hnear,
      Bool.not_eq_false'] at hrefused
    exact hrefused

/-- A mate is found if and only if the king has no step. So every true mate is found, and the mate
that a granted request tells of says that the king of the side then to move has no step. -/
theorem mate_means_no_step (a : Arbiter) (h : a.Consistent) :
    (a.HasOneKing a.active → (a.isCheckmate a.active = true ↔ a.KingStuck)) ∧
    (a.HasOneKing a.active → a.Mated → a.isCheckmate a.active = true) ∧
    ∀ qs q r b, (a.run qs).answer q = (.ok r, b) → b.HasOneKing b.active →
      (r.mate = true ↔ b.KingStuck) := by
  refine ⟨isCheckmate_iff_kingStuck h, fun hone hmated => ?_, fun qs q r b hq hone => ?_⟩
  · exact (isCheckmate_iff_kingStuck h hone).2 fun _ src dst promotion _ _ _ _ =>
      hmated.2 src dst promotion
  · have hcon : ((a.run qs).answer q).2.Consistent :=
      consistent_answer (run_keeps Game.Turn.consistent (fun title hg => hg.retitle title) h qs) q
    rw [hq] at hcon
    obtain ⟨g', title, hplays, hb⟩ := answer_plays hq
    have hmate : r.mate = b.isCheckmate b.active := by
      rw [hb]
      exact hplays.mate_eq
    rw [hmate]
    exact isCheckmate_iff_kingStuck hcon hone

/-- A queen is about to stand before a lone king in the corner, with her own king behind her. -/
def loneKing : Arbiter := ((opening {}).loadFen "k7/7Q/1K6/8/8/8/8/8 w - - 0 1").2

theorem lone_king_has_no_step :
    ∃ r b, loneKing.answer (.move ⟨7, 6⟩ ⟨1, 6⟩ none) = (.ok r, b) ∧ r.mate = true ∧
      b.HasOneKing b.active ∧ b.KingStuck ∧ b.Mated ∧ b.isCheckmate b.active = true := by
  have hload : (opening {}).loadFen "k7/7Q/1K6/8/8/8/8/8 w - - 0 1" = (.ok (), loneKing) :=
    loadFen_of_isOk (by decide +kernel)
  obtain ⟨hcon, _⟩ := consistent_of_loadFen hload
  have hgranted : (loneKing.answer (.move ⟨7, 6⟩ ⟨1, 6⟩ none)).1.isOk = true := by decide +kernel
  have hmate : (loneKing.answer (.move ⟨7, 6⟩ ⟨1, 6⟩ none)).1.toOption.any (·.mate) = true := by
    decide +kernel
  have hactive : (loneKing.answer (.move ⟨7, 6⟩ ⟨1, 6⟩ none)).2.active = .black := by
    decide +kernel
  have hone : (loneKing.answer (.move ⟨7, 6⟩ ⟨1, 6⟩ none)).2.HasOneKing .black := by
    decide +kernel
  have hcheck : (loneKing.answer (.move ⟨7, 6⟩ ⟨1, 6⟩ none)).2.inCheck .black = true := by
    decide +kernel
  have hlone : ∀ src ∈ Square.all, ∀ m ∈ (loneKing.answer (.move ⟨7, 6⟩ ⟨1, 6⟩
      none)).2.board.occupant src, m.colour = .black → src = ⟨0, 7⟩ ∧ m.kind = .king := by
    decide +kernel
  have hconb := consistent_answer hcon (.move ⟨7, 6⟩ ⟨1, 6⟩ none)
  rcases hq : loneKing.answer (.move ⟨7, 6⟩ ⟨1, 6⟩ none) with ⟨e | r, b⟩
  · rw [hq] at hgranted
    cases hgranted
  rw [hq] at hmate hone hactive hcheck hlone hconb
  rw [← hactive] at hone hcheck
  have hstuck : b.KingStuck := ((mate_means_no_step loneKing hcon).2.2 [] _ r b hq hone).1 hmate
  -- Black has nobody but the king, so being stuck is being mated
  have hmated : b.Mated := by
    refine ⟨hcheck, fun src dst promotion => ?_⟩
    rw [← Bool.not_eq_true]
    intro hok
    obtain ⟨m, hm, hcolour⟩ := occupant_of_isOk hok
    obtain ⟨rfl, hk⟩ := hlone src (Square.mem_all src) m hm (hcolour.trans hactive)
    have hcastle : m.castleRequest ⟨0, 7⟩ dst = none := by
      rw [Option.eq_none_iff_forall_ne_some]
      intro w hw
      obtain ⟨_, hfrom, _⟩ := Game.castleRequest_eq_some_iff.1 hw
      rw [hcolour, hactive] at hfrom
      cases w <;> cases hfrom
    rw [hstuck m _ dst promotion hm hk hcolour hcastle] at hok
    cases hok
  exact ⟨r, b, rfl, hmate, hone, hstuck, hmated, (mate_means_no_step b hconb).2.1 hone hmated⟩

end Arbiter

end ChessArbiter
