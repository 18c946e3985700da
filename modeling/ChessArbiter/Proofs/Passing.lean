import ChessArbiter.Proofs.Records

/-!
# Taking in passing

A target is set exactly when the last record is that of a double push, and it is the square that
the pawn has just passed over (`Plays.passedOver_iff`); whatever the next turn is, it sets the
target anew or takes it away. So a pawn is only ever taken in passing by the turn right after its
push, and it is the very pawn that made the push (`Arbiter.passing_for_one_ply`), although the
capture finds it by its coordinates alone.
-/

namespace ChessArbiter

namespace Game

variable {g g' : Game} {s : Step} {p r : MoveRecord} {v : Man} {t : Square}

/-- `r` is the record of the double push that has just passed over `t`. -/
structure PassedOver (g : Game) (r : MoveRecord) (t : Square) : Prop where
  flag : r.move.flag = .doublePush
  colour : r.colour = g.active.opposite
  ahead : r.move.src.tryOffset ⟨0, r.colour.forward⟩ = some t
  beyond : t.tryOffset ⟨0, r.colour.forward⟩ = some r.move.dst
  target_empty : g.board.occupant t = none
  source_empty : g.board.occupant r.move.src = none
  pusher : ∃ m, g.board.occupant r.move.dst = some m ∧ m.kind = .pawn ∧ m.colour = r.colour
  rank : t.rank = match g.active with
    | .white => 5
    | .black => 2

/-- The pawn `v` makes the double push that is entered as `r`. -/
structure Pushes (g : Game) (r : MoveRecord) (v : Man) (g' : Game) : Prop where
  flag : r.move.flag = .doublePush
  piece : r.piece = .pawn
  kind : v.kind = .pawn
  leaves : g.board.occupant r.move.src = some v
  arrives : g'.board.occupant r.move.dst = some v

/-- The man `v` is taken in passing by a pawn, which is entered as `r`. -/
structure TakesInPassing (g : Game) (r : MoveRecord) (v : Man) (g' : Game) : Prop where
  flag : r.move.flag = .enPassant
  piece : r.piece = .pawn
  captured : r.captured = some v.kind
  in_play : v ∈ g.live.get v.colour
  taken : g'.captured.get v.colour = g.captured.get v.colour ++ [v]

/-! ### One turn -/

theorem passedOver_execute (hs : g.Admits s) (h : g.Coherent)
    (ht : (g.execute s).2.enPassant = some t) :
    (g.afterStep s).PassedOver ((g.execute s).2.entry (s.record (g.execute s).1)
      (s.man.kind == .pawn || (g.execute s).1.isSome)) t := by
  have hempty := (target_execute hs h ht).1
  rw [enPassant_execute hs h] at ht
  split_ifs at ht with hd
  obtain ⟨hk, hb, next, hnext, hdst, _, hrank⟩ := hs.double_push h hd
  obtain rfl : next = t := Option.some.inj (hnext.symm.trans ht)
  -- the turn has passed, so the pusher is the foe of the side that may take
  have hmover : (g.afterStep s).active.opposite = s.man.colour := by
    rw [active_afterStep, Colour.opposite_opposite, hs.mover]
  have hactive : (g.afterStep s).active = s.man.colour.opposite := by
    rw [active_afterStep, hs.mover]
  constructor
  case flag => exact (hs.flag_eq_doublePush h).2 hd
  case colour => exact hmover.symm
  case ahead =>
    change (s.record (g.execute s).1).move.src.tryOffset _ = _
    rw [s.src_record]
    exact hnext
  case beyond =>
    change next.tryOffset _ = some (s.record (g.execute s).1).move.dst
    rw [s.dst_record]
    exact hdst
  case target_empty => exact hempty
  case source_empty =>
    change (g.execute s).2.board.occupant (s.record (g.execute s).1).move.src = none
    rw [s.src_record, occupant_execute hs h, if_neg hs.src_ne_dst, if_pos (.inl rfl)]
  case pusher =>
    refine ⟨s.man, ?_, hk, rfl⟩
    change (g.execute s).2.board.occupant (s.record (g.execute s).1).move.dst = _
    rw [s.dst_record, occupant_execute hs h, if_pos rfl, arrival_of_none hb]
  case rank =>
    have hranks := (Square.tryOffset_eq_some.1 hnext).2
    rw [hactive, Fin.ext_iff]
    rw [hrank] at hranks
    cases hc : s.man.colour <;>
    · simp only [hc, Colour.forward, Colour.pawnRank, Colour.opposite, Fin.isValue] at hranks ⊢
      omega

theorem Plays.passedOver_iff (ht : g.Plays r g') (h : g.Consistent) :
    g'.enPassant = some t ↔ g'.PassedOver r t := by
  rcases ht.cases with ⟨s, hs, rfl, rfl⟩ | ⟨w, hw, rfl, rfl⟩
  · constructor
    · exact passedOver_execute hs h.toCoherent
    · intro hpassed
      have hd := (hs.flag_eq_doublePush h.toCoherent).1 hpassed.flag
      have hahead : (s.record (g.execute s).1).move.src.tryOffset _ = _ := hpassed.ahead
      rw [s.src_record] at hahead
      change (g.execute s).2.enPassant = _
      rw [enPassant_execute hs h.toCoherent, if_pos hd]
      exact hahead
  · exact iff_of_false nofun fun hpassed => (flag_castleRecord_ne g.active w).1 hpassed.flag

theorem Plays.pushes (ht : g.Plays r g') (h : g.Consistent) (hr : r.move.flag = .doublePush) :
    ∃ v, g.Pushes r v g' := by
  rcases ht.cases with ⟨s, hs, rfl, rfl⟩ | ⟨w, hw, rfl, rfl⟩
  · have hd := (hs.flag_eq_doublePush h.toCoherent).1 hr
    obtain ⟨hk, hb, _⟩ := hs.double_push h.toCoherent hd
    refine ⟨s.man, hr, hk, hk, ?_, ?_⟩
    · change g.board.occupant (s.record (g.execute s).1).move.src = _
      rw [s.src_record]
      exact hs.source
    · change (g.execute s).2.board.occupant (s.record (g.execute s).1).move.dst = _
      rw [s.dst_record, occupant_execute hs h.toCoherent, if_pos rfl, arrival_of_none hb]
  · exact absurd hr (flag_castleRecord_ne g.active w).1

theorem PassedOver.dst_eq {src : Square} (h : g.PassedOver p t)
    (hbears : (t - src).ranks = g.active.forward) : p.move.dst = ⟨t.file, src.rank⟩ := by
  have hbeyond := Square.tryOffset_eq_some.1 h.beyond
  rw [h.colour] at hbeyond
  rw [Square.ranks_sub] at hbears
  rw [Square.eq_iff]
  dsimp only at hbeyond ⊢
  cases hactive : g.active <;>
  · simp only [hactive, Colour.opposite, Colour.forward] at hbears hbeyond
    omega

theorem Plays.takes (ht : g.Plays r g') (h : g.Consistent) (hr : r.move.flag = .enPassant) :
    ∃ t v, g.enPassant = some t ∧ g.TakesInPassing r v g' ∧
      ∀ p, g.PassedOver p t → g.board.occupant p.move.dst = some v := by
  rcases ht.cases with ⟨s, hs, rfl, rfl⟩ | ⟨w, hw, rfl, rfl⟩
  · obtain ⟨hb, hp⟩ := (Step.flag_record_eq_enPassant hs.officer).1 hr
    obtain ⟨hk, htarget, _, v, hv, hvk, hvc⟩ := hs.victim_of_passing h.toCoherent hp
    have hvictim : (g.execute s).1 = some v := by
      rw [fst_execute hs h.toCoherent, Step.victimSquare, if_pos hp]
      exact hv
    refine ⟨s.dst, v, htarget, ⟨hr, hk, ?_, h.live_of_occupant hv, ?_⟩, fun p hpassed => ?_⟩
    · change (g.execute s).1.map (·.kind) = _
      rw [hvictim]
      rfl
    · change (g.execute s).2.captured.get v.colour = _
      rw [captured_execute hs h.toCoherent, hvictim, Option.filter_some, if_pos (beq_self_eq_true _)]
      rfl
    · have hpassing := hs.passing_eq ▸ hp
      obtain ⟨_, _, _, hbears, _⟩ := (isPassing_iff h.toCoherent hs.source).1 hpassing
      rw [Piece.bearsOn_pawn hk, Geometry.has_pawnStrikes, hs.mover] at hbears
      rw [hpassed.dst_eq hbears.2]
      exact hv
  · exact absurd hr (flag_castleRecord_ne g.active w).2

theorem Plays.isSome_target_iff (ht : g.Plays r g') (h : g.Consistent) :
    g'.enPassant.isSome = true ↔ r.move.flag = .doublePush := by
  rcases ht.cases with ⟨s, hs, rfl, rfl⟩ | ⟨w, hw, rfl, rfl⟩
  · exact hs.isSome_target h.toCoherent
  · exact iff_of_false nofun (flag_castleRecord_ne g.active w).1

/-! ### Runs -/

/-- The last record tells whether there is a target, and where. -/
structure TargetTold (g : Game) : Prop where
  isSome_iff : g.enPassant.isSome = true ↔
    ∃ r, g.moves.getLast? = some r ∧ r.move.flag = .doublePush
  passedOver : ∀ t, g.enPassant = some t → ∃ r, g.moves.getLast? = some r ∧ g.PassedOver r t

theorem targetTold_of_unmoved (hmoves : g.moves = []) (htarget : g.enPassant = none) :
    g.TargetTold where
  isSome_iff := by
    rw [hmoves, htarget]
    exact iff_of_false nofun nofun
  passedOver := by
    rw [htarget]
    exact nofun

theorem Turn.targetTold (ht : g.Turn g') (h : g.Consistent) : g'.TargetTold := by
  obtain ⟨r, hmoves, _⟩ := ht.log
  have hlast : g'.moves.getLast? = some r := by
    rw [hmoves, List.getLast?_concat]
  have hplays : g.Plays r g' := ⟨ht, hmoves⟩
  constructor
  case isSome_iff =>
    rw [hplays.isSome_target_iff h, hlast]
    simp only [Option.some.injEq, exists_eq_left']
  case passedOver =>
    intro t htarget
    exact ⟨r, hlast, (hplays.passedOver_iff h).1 htarget⟩

theorem getLast?_retitle (g : Game) (title : String) :
    (g.retitle title).moves.getLast? = g.moves.getLast?.map ({ · with text := title }) := by
  rw [moves_retitle]
  cases g.moves using List.reverseRecOn with
  | nil => rfl
  | append_singleton rs r => simp

theorem PassedOver.retitle (h : g.PassedOver r t) (title : String) :
    (g.retitle title).PassedOver { r with text := title } t := by
  rw [retitle_eq]
  exact ⟨h.flag, h.colour, h.ahead, h.beyond, h.target_empty, h.source_empty, h.pusher, h.rank⟩

theorem TargetTold.retitle (h : g.TargetTold) (title : String) :
    (g.retitle title).TargetTold := by
  have htarget : (g.retitle title).enPassant = g.enPassant := by rw [retitle_eq]
  constructor
  case isSome_iff =>
    rw [htarget, h.isSome_iff, getLast?_retitle]
    simp only [Option.map_eq_some_iff, exists_exists_and_eq_and]
  case passedOver =>
    intro t ht
    rw [htarget] at ht
    obtain ⟨r, hlast, hpassed⟩ := h.passedOver t ht
    refine ⟨_, ?_, hpassed.retitle title⟩
    rw [getLast?_retitle, hlast]
    rfl

end Game

namespace Arbiter

variable {a b : Arbiter} {p r : MoveRecord} {q : Request} {qs : List Request}

theorem targetTold_reset (a : Arbiter) (qs : List Request) : (a.reset.run qs).TargetTold := by
  have hkept : (a.reset.run qs).toGame.Consistent ∧ (a.reset.run qs).TargetTold := by
    refine run_keeps (P := fun g => g.Consistent ∧ g.TargetTold) ?_ ?_ ?_ qs
    · exact fun ht h => ⟨ht.consistent h.1, ht.targetTold h.1⟩
    · exact fun title h => ⟨h.1.retitle title, h.2.retitle title⟩
    · exact ⟨(orderly_reset a).toConsistent, Game.targetTold_of_unmoved rfl rfl⟩
  exact hkept.2

theorem pushes_of_answer (h : a.toGame.Consistent) (hq : a.answer q = (.ok r, b))
    (hr : r.move.flag = .doublePush) : ∃ v, a.Pushes r v b.toGame := by
  obtain ⟨g', title, hplays, hb⟩ := answer_plays hq
  obtain ⟨v, hv⟩ := hplays.pushes h hr
  rw [hb]
  exact ⟨v, hv.flag, hv.piece, hv.kind, hv.leaves, hv.arrives⟩

theorem takes_of_answer (h : a.toGame.Consistent) (hq : a.answer q = (.ok r, b))
    (hr : r.move.flag = .enPassant) :
    ∃ t v, a.enPassant = some t ∧ a.TakesInPassing r v b.toGame ∧
      ∀ p, a.PassedOver p t → a.board.occupant p.move.dst = some v := by
  obtain ⟨g', title, hplays, hb⟩ := answer_plays hq
  obtain ⟨t, v, ht, hv, hpassed⟩ := hplays.takes h hr
  rw [hb]
  exact ⟨t, v, ht, ⟨hv.flag, hv.piece, hv.captured, hv.in_play, hv.taken⟩, hpassed⟩

/-- In play from the start there is a target exactly if the last record is a double push, and it is
the square passed over. Every record of taking in passing is that of a pawn, made on the very turn
after a double push, only refusals between them, and it takes the man who made that push. -/
theorem passing_for_one_ply (a : Arbiter) (qs : List Request) :
    ((a.reset.run qs).enPassant.isSome = true ↔
      ∃ r, (a.reset.run qs).moves.getLast? = some r ∧ r.move.flag = .doublePush) ∧
    (∀ t, (a.reset.run qs).enPassant = some t →
      ∃ r, (a.reset.run qs).moves.getLast? = some r ∧ (a.reset.run qs).PassedOver r t) ∧
    ∀ before r after, (a.reset.run qs).moves = before ++ r :: after →
      r.move.flag = .enPassant →
      ∃ first push middle take last p v x y,
        qs = first ++ push :: (middle ++ take :: last) ∧
        before = (a.reset.run first).moves ++ [p] ∧
        (a.reset.run first).answer push = (.ok p, x) ∧
        (a.reset.run first).Pushes p v x.toGame ∧
        (x.run middle).toGame = x.toGame ∧
        (x.run middle).answer take = (.ok r, y) ∧
        (x.run middle).TakesInPassing r v y.toGame := by
  have hcon : ∀ qs, (a.reset.run qs).toGame.Consistent :=
    fun qs => (orderly_run (orderly_reset a) qs).toConsistent
  refine ⟨(targetTold_reset a qs).isSome_iff, (targetTold_reset a qs).passedOver, ?_⟩
  intro before r after hlog hr
  have hlogged : (a.reset.run qs).moves = a.reset.moves ++ before ++ r :: after := hlog
  obtain ⟨earlier, take, last, y, rfl, hbefore, htake⟩ := answer_of_logged hlogged
  obtain ⟨t, v, ht, htakes, hpushed⟩ := takes_of_answer (hcon earlier) htake hr
  obtain ⟨p, hlast, hpassed⟩ := (targetTold_reset a earlier).passedOver t ht
  obtain ⟨before', hsplit⟩ := List.getLast?_eq_some_iff.1 hlast
  have hlogged' : (a.reset.run earlier).moves = a.reset.moves ++ before' ++ p :: [] := hsplit
  obtain ⟨first, push, middle, x, rfl, hfirst, hpush⟩ := answer_of_logged hlogged'
  obtain ⟨v', hpushes⟩ := pushes_of_answer (hcon first) hpush hpassed.flag
  have hrun : a.reset.run (first ++ push :: middle) = x.run middle := by
    rw [run_append, run_cons, hpush]
  rw [hrun] at hbefore htake htakes hpushed hpassed hsplit
  -- nothing was entered in between, so nothing has changed
  have hsame : (x.run middle).toGame = x.toGame := by
    apply toGame_run_of_moves
    rw [hsplit, moves_answer hpush]
    exact congrArg (· ++ [p]) hfirst.symm
  obtain rfl : v' = v := by
    have harrives := hpushes.arrives
    rw [← hsame, hpushed p hpassed] at harrives
    exact (Option.some.inj harrives).symm
  refine ⟨first, push, middle, take, last, p, v', x, y, by simp, ?_, hpush, hpushes, hsame, htake,
    htakes⟩
  exact hbefore.symm.trans (hsplit.trans (congrArg (· ++ [p]) hfirst.symm))

/-- A refused push between a double push and the capture that answers it. -/
def answeredPush : List Request :=
  [.play "e4", .play "a6", .play "e5", .play "d5", .play "d5", .play "exd6"]

theorem opened_passing_for_one_ply :
    ∃ (before : List MoveRecord) (r p : MoveRecord) (v : Man),
      ((opening {}).run answeredPush).moves = before ++ [r] ∧ r.move.flag = .enPassant ∧
      before.getLast? = some p ∧ p.move.flag = .doublePush ∧
      v.kind = .pawn ∧ r.captured = some v.kind := by
  have hopening : opening {} = ({ toGame := .empty, journal := {} } : Arbiter).reset := rfl
  have hflag : ((opening {}).run answeredPush).moves.getLast?.any
      (·.move.flag == .enPassant) = true := by
    decide +kernel
  obtain ⟨r, hlast, hr⟩ := (Option.any_eq_true _ _).1 hflag
  obtain ⟨before, hlog⟩ := List.getLast?_eq_some_iff.1 hlast
  rw [hopening] at hlog ⊢
  obtain ⟨first, _, _, _, _, p, v, _, _, _, hbefore, _, hpushes, _, _, htakes⟩ :=
    (passing_for_one_ply _ _).2.2 before r [] hlog (beq_iff_eq.1 hr)
  refine ⟨before, r, p, v, hlog, beq_iff_eq.1 hr, ?_, hpushes.flag, hpushes.kind, htakes.captured⟩
  rw [hbefore, List.getLast?_concat]

end Arbiter

end ChessArbiter
