import ChessArbiter.Proofs.Refinement

/-!
# Play simulates the rules

What a step or a castle makes of a game is what the rules make of its position
(`position_afterStep`, `position_afterCastle`), as long as the counters have room. A granted move
is therefore a move of the rules and a move of the rules is granted (`after_of_attempt`,
`attempt_of_after`). Every run from the starting position passes only through positions that the
rules can reach (`Lawful`), and in all of them moves, castles and the destinations offered are
those of the rules.
-/

namespace ChessArbiter

/-- The positions that arise from the starting position in `n` moves by the rules. -/
inductive Position.Reachable : ℕ → Position → Prop
  | initial : Reachable 0 .initial
  | move {n : ℕ} {p q : Position} {src dst : Square} {promotion : Option PieceKind}
      (hp : Reachable n p) (hq : p.after src dst promotion = some q) : Reachable (n + 1) q
  | castle {n : ℕ} {p q : Position} {w : Wing} (hp : Reachable n p)
      (hq : p.afterCastle w = some q) : Reachable (n + 1) q

namespace Game

variable {g g' : Game} {s : Step} {m : Man} {src dst : Square} {promotion : Option PieceKind}
  {w : Wing}

/-! ### Positions afterwards -/

theorem position_logged (h : g.Counted) (hroom : g.moves.length + 1 < 2 ^ 31) (r : MoveRecord)
    (resetClock : Bool) : (g.logged r resetClock).position =
      { g.position with
        active := g.active.opposite
        halfmove := if resetClock then 0 else g.halfmove.toInt + 1
        turn := if g.active = .black then g.turn.toInt + 1 else g.turn.toInt } :=
  Position.ext rfl rfl rfl rfl (halfmove_logged (h.room hroom).1 r resetClock)
    (turn_logged (h.room hroom).2 r resetClock)

theorem SameBooks.position (hb : g.SameBooks g') :
    g'.position =
      { g.position with men := g'.board.piece, rights := g'.hasRight, passing := g'.enPassant } :=
  Position.ext rfl hb.active rfl rfl (congrArg Int32.toInt hb.halfmove)
    (congrArg Int32.toInt hb.turn)

theorem position_execute (h : g.Regular) (hs : g.Admits s)
    (hb : s.becomes = if s.man.promotesOn s.dst then some (promotion.getD .queen) else none) :
    (g.execute s).2.position =
      { g.position with
        men := g.position.menAfter s.man.toPiece s.src s.dst promotion
        rights := g.position.rightsAfter s.src s.dst
        passing := if s.man.doublePush s.src s.dst then
          s.src.tryOffset ⟨0, s.man.colour.forward⟩ else none } := by
  have hrights : (g.execute s).2.hasRight = g.position.rightsAfter s.src s.dst :=
    funext fun c => funext fun w => hasRight_execute hs h.toOrderly
  rw [(g.sameBooks_execute s).position, piece_execute h hs hb, hrights,
    enPassant_execute hs h.toCoherent]

theorem resets_iff (h : g.Coherent) (hs : g.Admits s) :
    (s.man.kind == .pawn || (g.execute s).1.isSome) = true ↔
      s.man.kind = .pawn ∨ g.position.men s.dst ≠ none := by
  rw [Bool.or_eq_true, beq_iff_eq, fst_execute hs h]
  by_cases hk : s.man.kind = .pawn
  · simp [hk]
  · have hp : s.passing = false := by
      by_contra hne
      exact hk (hs.victim_of_passing h (by simpa using hne)).1
    unfold Step.victimSquare
    rw [hp, men_position, Board.piece]
    simp [hk, Option.isSome_iff_ne_none]

theorem position_afterStep (h : g.Regular) (hs : g.Admits s)
    (hb : s.becomes = if s.man.promotesOn s.dst then some (promotion.getD .queen) else none)
    (hroom : g.moves.length + 1 < 2 ^ 31) :
    (g.afterStep s).position = g.position.moved s.man.toPiece s.src s.dst promotion := by
  have hbooks := g.sameBooks_execute s
  have hcounted := hbooks.counted (h.counted (by omega))
  have hroom' : (g.execute s).2.moves.length + 1 < 2 ^ 31 := by
    rw [hbooks.moves]
    exact hroom
  rw [afterStep, position_logged hcounted hroom', position_execute h hs hb, hbooks.active,
    hbooks.halfmove, hbooks.turn]
  simp only [resets_iff h.toCoherent hs]
  rfl

theorem enPassant_executeCastle (g : Game) (path : CastlePath) :
    (g.executeCastle path).enPassant = none := rfl

theorem position_executeCastle (h : g.Consistent) (hw : g.canCastle g.active w = true) :
    (g.executeCastle (CastlePath.of g.active w)).position =
      { g.position with
        men := (g.position.castled w).men
        rights := (g.position.castled w).rights
        passing := none } := by
  obtain ⟨k, r, hh⟩ := atHome_of_canCastle hw
  have hking : k.toPiece = ⟨.king, g.active⟩ := by rw [← hh.king_kind, ← hh.king_colour]
  have hrook : r.toPiece = ⟨.rook, g.active⟩ := by rw [← hh.rook_kind, ← hh.rook_colour]
  have hrights : (g.executeCastle (CastlePath.of g.active w)).hasRight =
      (g.position.castled w).rights :=
    funext fun c => funext fun v => hasRight_executeCastle h hw
  have hmen : (g.executeCastle (CastlePath.of g.active w)).board.piece =
      (g.position.castled w).men := by
    funext u
    rw [Board.piece, occupant_executeCastle h hw hh]
    change _ = if u = (CastlePath.of g.active w).kingTo then some ⟨.king, g.active⟩
      else if u = (CastlePath.of g.active w).rookTo then some ⟨.rook, g.active⟩
      else if u = (CastlePath.of g.active w).kingFrom ∨ u = (CastlePath.of g.active w).rookFrom then
        none
      else g.board.piece u
    rw [← hking, ← hrook]
    split_ifs <;> rfl
  rw [(g.sameBooks_executeCastle _).position, hmen, hrights, enPassant_executeCastle]

theorem position_afterCastle (h : g.Regular) (hw : g.canCastle g.active w = true)
    (hroom : g.moves.length + 1 < 2 ^ 31) :
    (g.afterCastle w).position = g.position.castled w := by
  have hbooks := g.sameBooks_executeCastle (CastlePath.of g.active w)
  have hcounted := hbooks.counted (h.counted (by omega))
  have hroom' : (g.executeCastle (CastlePath.of g.active w)).moves.length + 1 < 2 ^ 31 := by
    rw [hbooks.moves]
    exact hroom
  rw [afterCastle, position_logged hcounted hroom', position_executeCastle h.toConsistent hw,
    hbooks.active, hbooks.halfmove, hbooks.turn]
  rfl

/-! ### Moves of the game and moves of the rules -/

theorem after_castle (hs : g.board.occupant src = some m) (hc : m.colour = g.active)
    (hcastle : m.castleRequest src dst = some w) :
    g.position.after src dst promotion = g.position.afterCastle w := by
  have hmen : g.position.men src = some m.toPiece := piece_eq_some.2 ⟨m, hs, rfl⟩
  have hmover : m.colour = g.position.active := hc
  simp only [Position.after, hmen, hmover, if_true, castling_eq, hcastle]

theorem after_step (hs : g.board.occupant src = some m) (hc : m.colour = g.active)
    (hcastle : m.castleRequest src dst = none) :
    g.position.after src dst promotion =
      g.position.afterStep m.toPiece src dst promotion := by
  have hmen : g.position.men src = some m.toPiece := piece_eq_some.2 ⟨m, hs, rfl⟩
  have hmover : m.colour = g.position.active := hc
  simp only [Position.after, hmen, hmover, if_true, castling_eq, hcastle]

theorem afterCastle_eq_some (h : g.Consistent) (hw : g.canCastle g.active w = true) :
    g.position.afterCastle w = some (g.position.castled w) := by
  rw [Position.afterCastle, mayCastle_eq h, if_pos hw]

theorem after_of_attempt (h : g.Regular) (hg : g.attempt src dst promotion = some g') :
    ∃ q, g.position.after src dst promotion = some q ∧
      (g.moves.length + 1 < 2 ^ 31 → g'.position = q) := by
  rcases attempt_eq_some_iff.1 hg with ⟨s, hassess, hsafe, rfl⟩ | ⟨w, hassess, hw, rfl⟩
  · have hadm := (admits_of_assess hassess).1
    obtain ⟨m, ⟨hs, hc, _⟩, hcastle, hp, _, _, hstep⟩ := assess_step_iff.1 hassess
    have hlegal := (legal_step_iff h hs hc hcastle hp).1 ⟨s, hassess, hsafe⟩
    refine ⟨g.position.moved m.toPiece src dst promotion, ?_, fun hroom => ?_⟩
    · rw [after_step hs hc hcastle, Position.afterStep, hlegal.1, hlegal.2]
      exact if_pos rfl
    · subst hstep
      exact position_afterStep h hadm rfl hroom
  · obtain ⟨m, ⟨hs, hc, _⟩, hcastle⟩ := assess_castle_iff.1 hassess
    refine ⟨g.position.castled w, ?_, position_afterCastle h hw⟩
    rw [after_castle hs hc hcastle]
    exact afterCastle_eq_some h.toConsistent hw

theorem attempt_of_after (h : g.Regular)
    (hpromotion : ∀ k, promotion = some k → k.isOfficer = true ∧
      ∃ x, g.position.men src = some x ∧ x.promotes dst = true)
    {q : Position} (hq : g.position.after src dst promotion = some q) :
    ∃ g', g.attempt src dst promotion = some g' := by
  cases hs : g.board.occupant src with
  | none =>
    have hmen : g.position.men src = none := by rw [men_position, Board.piece, hs]; rfl
    rw [Position.after, hmen] at hq
    cases hq
  | some m =>
    have hmen : g.position.men src = some m.toPiece := piece_eq_some.2 ⟨m, hs, rfl⟩
    by_cases hc : m.colour = g.active
    · cases hcastle : m.castleRequest src dst with
      | some w =>
        rw [after_castle hs hc hcastle, Position.afterCastle] at hq
        split_ifs at hq with hw
        rw [mayCastle_eq h.toConsistent] at hw
        obtain ⟨_, hfrom, hto⟩ := castleRequest_eq_some_iff.1 hcastle
        have hne : src ≠ dst := by
          rw [← hfrom, ← hto]
          exact (CastlePath.distinct m.colour w).1
        have hassess : g.assess src dst promotion = .ok (.castle w) :=
          assess_castle_iff.2 ⟨m, ⟨hs, hc, hne⟩, hcastle⟩
        exact ⟨_, attempt_eq_some_iff.2 (.inr ⟨w, hassess, hw, rfl⟩)⟩
      | none =>
        rw [after_step hs hc hcastle, Position.afterStep] at hq
        split_ifs at hq with hlegal
        rw [Bool.and_eq_true, Bool.not_eq_true'] at hlegal
        -- the rules say nothing of a promotion nobody can have, hence the hypothesis on it
        have hp : g.promotionObjection m src dst promotion = none := by
          rw [promotionObjection_eq_none_iff]
          intro k hk
          obtain ⟨hofficer, x, hx, hpromotes⟩ := hpromotion k hk
          rw [hmen, Option.some.injEq] at hx
          rw [← hx] at hpromotes
          exact ⟨hpromotes, hofficer⟩
        obtain ⟨s, hassess, hsafe⟩ := (legal_step_iff h hs hc hcastle hp).2 hlegal
        exact ⟨_, attempt_eq_some_iff.2 (.inl ⟨s, hassess, hsafe, rfl⟩)⟩
    · have hmover : ¬m.colour = g.position.active := hc
      rw [Position.after, hmen] at hq
      dsimp only at hq
      rw [if_neg hmover] at hq
      cases hq

theorem mover_of_after (h : g.Regular)
    (hpromotion : ∀ k, promotion = some k → k.isOfficer = true ∧
      ∃ x, g.position.men src = some x ∧ x.promotes dst = true)
    {q : Position} (hq : g.position.after src dst promotion = some q) :
    ∃ m, g.board.occupant src = some m ∧ m.colour = g.active ∧ src ≠ dst := by
  obtain ⟨g', hg'⟩ := attempt_of_after h hpromotion hq
  exact mover_of_attempt hg'

theorem position_retitle (g : Game) (title : String) : (g.retitle title).position = g.position := by
  rw [retitle_eq]
  rfl

theorem position_setDepth (g : Game) (n : ℕ) :
    ({ g with depth := n } : Game).position = g.position := rfl

/-- Regular, and at a position that the rules reach in as many moves as the log has entries. -/
structure Lawful (g : Game) : Prop extends g.Regular where
  reachable : g.moves.length < 2 ^ 31 → Position.Reachable g.moves.length g.position

theorem Turn.reachable (hturn : g.Turn g') (h : g.Regular)
    (hroom : g.moves.length + 1 < 2 ^ 31) {n : ℕ} (hr : Position.Reachable n g.position) :
    Position.Reachable (n + 1) g'.position := by
  cases hturn with
  | step hs hsafe =>
    obtain ⟨q, hq, hg'⟩ := after_of_attempt h (attempt_eq_some_iff.2 (.inl ⟨_, hs, hsafe, rfl⟩))
    rw [hg' hroom]
    exact .move hr hq
  | castle hw =>
    rw [position_afterCastle h hw hroom]
    exact .castle hr (afterCastle_eq_some h.toConsistent hw)

theorem Turn.lawful (hturn : g.Turn g') (h : g.Lawful) : g'.Lawful where
  toRegular := hturn.regular h.toRegular
  reachable hroom := by
    obtain ⟨_, hmoves, _⟩ := hturn.log
    have hlength : g'.moves.length = g.moves.length + 1 := by
      rw [hmoves, List.length_append, List.length_singleton]
    rw [hlength] at hroom ⊢
    exact hturn.reachable h.toRegular hroom (h.reachable (Nat.lt_of_succ_lt hroom))

theorem Lawful.retitle (h : g.Lawful) (title : String) : (g.retitle title).Lawful where
  toRegular := h.toRegular.retitle title
  reachable := by
    rw [length_moves_retitle, position_retitle]
    exact h.reachable

theorem lawful_start (n : ℕ) : { start with depth := n }.Lawful where
  toRegular := regular_start.setDepth n
  reachable _ := by
    rw [position_setDepth, position_start]
    exact .initial

end Game

/-! ### Runs -/

namespace Arbiter

variable {a b : Arbiter}

/-- Reached from the starting position by requests, granted or refused. -/
def InPlay (b : Arbiter) : Prop := ∃ (a : Arbiter) (qs : List Request), b = a.reset.run qs

theorem lawful_reset (a : Arbiter) : a.reset.toGame.Lawful := Game.lawful_start a.depth

theorem InPlay.lawful (hb : b.InPlay) : b.toGame.Lawful := by
  obtain ⟨a, qs, rfl⟩ := hb
  exact run_keeps Game.Turn.lawful (fun title hg => hg.retitle title) (lawful_reset a) qs

/-- A move is granted exactly if the rules allow it. It then leads to the position that the rules
give, and else changes nothing. -/
theorem move_iff_after (h : a.toGame.Regular) (src dst : Square) (promotion : Option PieceKind)
    (hpromotion : ∀ k, promotion = some k → k.isOfficer = true ∧
      ∃ x, a.position.men src = some x ∧ x.promotes dst = true) :
    (a.move src dst promotion).1.isOk = (a.position.after src dst promotion).isSome ∧
    (a.position.after src dst promotion = none →
      (a.move src dst promotion).2.toGame = a.toGame) ∧
    (a.moves.length + 1 < 2 ^ 31 → (a.move src dst promotion).2.position =
      (a.position.after src dst promotion).getD a.position) := by
  rcases hmove : a.move src dst promotion with ⟨e | r, a'⟩
  · obtain ⟨hnone, hsame, _⟩ := move_error hmove
    have hafter : a.position.after src dst promotion = none := by
      cases hq : a.position.after src dst promotion with
      | none => rfl
      | some q =>
        obtain ⟨g', hg'⟩ := Game.attempt_of_after h hpromotion hq
        rw [hnone] at hg'
        cases hg'
    rw [hafter]
    exact ⟨rfl, fun _ => hsame, fun _ => congrArg Game.position hsame⟩
  · obtain ⟨q, hq, hposition⟩ := Game.after_of_attempt h (move_ok hmove).1
    rw [hq]
    exact ⟨rfl, nofun, hposition⟩

theorem castle_iff_afterCastle (h : a.toGame.Regular) (w : Wing) :
    (a.castle w).1.isOk = (a.position.afterCastle w).isSome ∧
    (a.position.afterCastle w = none → (a.castle w).2.toGame = a.toGame) ∧
    (a.moves.length + 1 < 2 ^ 31 → (a.castle w).2.position =
      (a.position.afterCastle w).getD a.position) := by
  have hallowed := Game.mayCastle_eq (w := w) h.toConsistent
  rcases hcastle : a.castle w with ⟨e | r, a'⟩
  · obtain ⟨hclosed, hsame, _⟩ := castle_error hcastle
    rw [Position.afterCastle, hallowed, hclosed]
    exact ⟨rfl, fun _ => hsame, fun _ => congrArg Game.position hsame⟩
  · obtain ⟨hopen, ha', _⟩ := castle_ok hcastle
    rw [Position.afterCastle, hallowed, hopen]
    refine ⟨rfl, nofun, fun hroom => ?_⟩
    rw [ha']
    exact Game.position_afterCastle h hopen hroom

theorem legalDestinations_eq_filter (h : a.toGame.Regular) (src : Square) :
    (a.legalDestinations src).1 =
      Square.all.filter fun dst => (a.position.after src dst none).isSome := by
  have hown : ∀ dst, (a.position.after src dst none).isSome = true →
      (a.board.occupant src).any (·.colour == a.active) = true ∧ (dst != src) = true := by
    intro dst hdst
    obtain ⟨q, hq⟩ := Option.isSome_iff_exists.1 hdst
    obtain ⟨m, hs, hc, hne⟩ := Game.mover_of_after h (fun _ hk => by cases hk) hq
    rw [hs]
    exact ⟨beq_iff_eq.2 hc, bne_iff_ne.2 hne.symm⟩
  unfold legalDestinations
  split_ifs with hman
  · rw [fst_keep fun dst b => extends_move b src dst none, List.filter_filter]
    · refine List.filter_congr fun dst _ => ?_
      rw [Bool.and_eq_left_iff_imp]
      exact fun hdst => (hown dst hdst).2
    · intro dst b hb
      have hregular : b.toGame.Regular := by
        rw [hb]
        exact h.setDepth _
      have hposition : b.position = a.position := by
        rw [hb, Game.position_setDepth]
      rw [← hposition]
      exact (move_iff_after hregular src dst none nofun).1
  · refine (List.filter_eq_nil_iff.2 fun dst _ hdst => ?_).symm
    exact hman (hown dst hdst).1

/-- In play from the starting position moves and castles are granted exactly if the rules allow
them for the position on the board. They then lead to the position that the rules give, and else
change nothing. The destinations offered are those that the rules allow. -/
theorem play_follows_rules (hb : b.InPlay) :
    (b.moves.length < 2 ^ 31 → Position.Reachable b.moves.length b.position) ∧
    (∀ src dst promotion, (∀ k, promotion = some k → k.isOfficer = true ∧
        ∃ x, b.position.men src = some x ∧ x.promotes dst = true) →
      (b.move src dst promotion).1.isOk = (b.position.after src dst promotion).isSome ∧
      (b.position.after src dst promotion = none →
        (b.move src dst promotion).2.toGame = b.toGame) ∧
      (b.moves.length + 1 < 2 ^ 31 → (b.move src dst promotion).2.position =
        (b.position.after src dst promotion).getD b.position)) ∧
    (∀ w, (b.castle w).1.isOk = (b.position.afterCastle w).isSome ∧
      (b.position.afterCastle w = none → (b.castle w).2.toGame = b.toGame) ∧
      (b.moves.length + 1 < 2 ^ 31 → (b.castle w).2.position =
        (b.position.afterCastle w).getD b.position)) ∧
    ∀ src, (b.legalDestinations src).1 =
      Square.all.filter fun dst => (b.position.after src dst none).isSome :=
  ⟨hb.lawful.reachable, move_iff_after hb.lawful.toRegular,
    castle_iff_afterCastle hb.lawful.toRegular, legalDestinations_eq_filter hb.lawful.toRegular⟩

/-- White has pushed the king's pawn. -/
def opened : Arbiter := (Arbiter.opening {}).reset.run [.play "e4"]

theorem opened_follows_rules :
    opened.InPlay ∧ (opened.move ⟨4, 6⟩ ⟨4, 4⟩ none).1.isOk = true ∧
      (opened.position.after ⟨4, 6⟩ ⟨4, 4⟩ none).isSome = true ∧
      (opened.move ⟨4, 6⟩ ⟨4, 4⟩ none).2.position =
        (opened.position.after ⟨4, 6⟩ ⟨4, 4⟩ none).getD opened.position := by
  have hplay : opened.InPlay := ⟨_, _, rfl⟩
  have hgranted : (opened.move ⟨4, 6⟩ ⟨4, 4⟩ none).1.isOk = true := by decide +kernel
  have hlength : opened.moves.length = 1 := by decide +kernel
  obtain ⟨hsame, _, hposition⟩ :=
    (play_follows_rules hplay).2.1 ⟨4, 6⟩ ⟨4, 4⟩ none nofun
  refine ⟨hplay, hgranted, hsame.symm.trans hgranted, hposition ?_⟩
  rw [hlength]
  decide

end Arbiter

end ChessArbiter
