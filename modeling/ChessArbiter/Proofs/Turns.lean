import ChessArbiter.Proofs.Castles

/-!
# Turns

`Game.Turn g g'` says that one completed move leads from `g` to `g'`: an admitted step that leaves
the mover's king safe, or an open castle, either of them entered in the log. An arbiter asked for a
castle or for a move between squares either completes a turn or refuses; a refusal leaves the game
as it was and reports its position (`castle_error`, `move_error`), and what is granted is a turn
(`castle_ok`, `move_ok`).
-/

namespace ChessArbiter

namespace Game

/-- The entry made for a completed move, with check and mate as the other side finds them. -/
def entry (g : Game) (r : MoveRecord) (resetClock : Bool) : MoveRecord :=
  { r with
    check := (g.passTurn resetClock).inCheck (g.passTurn resetClock).active
    mate := (g.passTurn resetClock).isCheckmate (g.passTurn resetClock).active }

def logged (g : Game) (r : MoveRecord) (resetClock : Bool) : Game :=
  { g.passTurn resetClock with moves := g.moves ++ [g.entry r resetClock] }

def afterStep (g : Game) (s : Step) : Game :=
  (g.execute s).2.logged (s.record (g.execute s).1)
    (s.man.kind == .pawn || (g.execute s).1.isSome)

def castleRecord (c : Colour) (w : Wing) : MoveRecord :=
  { move := .ofParts (CastlePath.of c w).kingFrom (CastlePath.of c w).kingTo (MoveFlag.castle w)
    piece := .king, colour := c, captured := none, text := w.text }

def afterCastle (g : Game) (w : Wing) : Game :=
  (g.executeCastle (CastlePath.of g.active w)).logged (castleRecord g.active w) false

inductive Turn (g : Game) : Game → Prop
  | step {src dst : Square} {promotion : Option PieceKind} {s : Step}
      (hs : g.assess src dst promotion = .ok (.step s))
      (hsafe : (g.execute s).2.inCheck s.man.colour = false) : Turn g (g.afterStep s)
  | castle {w : Wing} (hw : g.canCastle g.active w = true) : Turn g (g.afterCastle w)

/-- The game after a move between two squares, if it is granted. -/
def attempt (g : Game) (src dst : Square) (promotion : Option PieceKind) : Option Game :=
  match g.assess src dst promotion with
  | .error _ => none
  | .ok (.castle w) => if g.canCastle g.active w then some (g.afterCastle w) else none
  | .ok (.step s) => if (g.execute s).2.inCheck s.man.colour then none else some (g.afterStep s)

variable {g g' : Game} {s : Step} {w : Wing} {e : MoveError}

theorem attempt_eq_some_iff {src dst : Square} {promotion : Option PieceKind} :
    g.attempt src dst promotion = some g' ↔
      (∃ s, g.assess src dst promotion = .ok (.step s) ∧
        (g.execute s).2.inCheck s.man.colour = false ∧ g' = g.afterStep s) ∨
      ∃ w, g.assess src dst promotion = .ok (.castle w) ∧ g.canCastle g.active w = true ∧
        g' = g.afterCastle w := by
  constructor
  · intro h
    unfold attempt at h
    split at h
    case h_1 => cases h
    case h_2 w hw =>
      split_ifs at h with hopen
      exact .inr ⟨w, hw, hopen, (Option.some.inj h).symm⟩
    case h_3 s hs =>
      split_ifs at h with hcheck
      exact .inl ⟨s, hs, by simpa using hcheck, (Option.some.inj h).symm⟩
  · rintro (⟨s, hs, hsafe, rfl⟩ | ⟨w, hw, hopen, rfl⟩)
    · simp only [attempt, hs, hsafe, Bool.false_eq_true, if_false]
    · simp only [attempt, hw, hopen, if_true]

theorem turn_of_attempt {src dst : Square} {promotion : Option PieceKind}
    (h : g.attempt src dst promotion = some g') : g.Turn g' := by
  rcases attempt_eq_some_iff.1 h with ⟨s, hs, hsafe, rfl⟩ | ⟨w, _, hw, rfl⟩
  · exact .step hs hsafe
  · exact .castle hw

/-- A granted move takes a man of the side to move elsewhere. -/
theorem mover_of_attempt {src dst : Square} {promotion : Option PieceKind}
    (h : g.attempt src dst promotion = some g') :
    ∃ m, g.board.occupant src = some m ∧ m.colour = g.active ∧ src ≠ dst := by
  rcases attempt_eq_some_iff.1 h with ⟨s, hs, _⟩ | ⟨w, hw, _⟩
  · obtain ⟨m, hm, _⟩ := assess_step_iff.1 hs
    exact ⟨m, hm⟩
  · obtain ⟨m, hm, _⟩ := assess_castle_iff.1 hw
    exact ⟨m, hm⟩

/-- What is granted to a man who asks for no castle is the step asked for. -/
theorem step_of_attempt {m : Man} {src dst : Square} {promotion : Option PieceKind}
    (hsrc : g.board.occupant src = some m) (hcastle : m.castleRequest src dst = none)
    (h : g.attempt src dst promotion = some g') :
    g.assess src dst promotion = .ok (.step (g.stepOf m src dst promotion)) ∧
      g.captureObjection m src dst = none ∧ g.obeysRules m dst = true ∧
      (g.execute (g.stepOf m src dst promotion)).2.inCheck m.colour = false := by
  rcases attempt_eq_some_iff.1 h with ⟨s, hs, hsafe, _⟩ | ⟨w, hw, _⟩
  · obtain ⟨n, ⟨hn, _⟩, _, _, hfoe, hrules, rfl⟩ := assess_step_iff.1 hs
    obtain rfl : m = n := Option.some.inj (hsrc.symm.trans hn)
    exact ⟨hs, hfoe, hrules, hsafe⟩
  · obtain ⟨n, ⟨hn, _⟩, hrequest⟩ := assess_castle_iff.1 hw
    obtain rfl : m = n := Option.some.inj (hsrc.symm.trans hn)
    rw [hcastle] at hrequest
    cases hrequest

/-! ### What moving leaves alone -/

/-- The log, the side to move, the counters and the scope are the same. -/
structure SameBooks (g g' : Game) : Prop where
  moves : g'.moves = g.moves
  active : g'.active = g.active
  ply : g'.ply = g.ply
  turn : g'.turn = g.turn
  halfmove : g'.halfmove = g.halfmove
  depth : g'.depth = g.depth

theorem SameBooks.refl (g : Game) : g.SameBooks g := ⟨rfl, rfl, rfl, rfl, rfl, rfl⟩

theorem SameBooks.trans {g'' : Game} (h : g.SameBooks g') (h' : g'.SameBooks g'') :
    g.SameBooks g'' :=
  ⟨h'.moves.trans h.moves, h'.active.trans h.active, h'.ply.trans h.ply, h'.turn.trans h.turn,
    h'.halfmove.trans h.halfmove, h'.depth.trans h.depth⟩

theorem sameBooks_withTable (g : Game) (t : Table) : g.SameBooks { g with toTable := t } :=
  ⟨rfl, rfl, rfl, rfl, rfl, rfl⟩

theorem sameBooks_advance (g : Game) (s : Step) : g.SameBooks (g.advance s).2 := by
  have hcapture : ∀ (o : Option Man) (t : Table),
      g.SameBooks (o.elim { g with toTable := t } { g with toTable := t }.capture) := by
    intro o t
    cases o with
    | none => exact g.sameBooks_withTable t
    | some v => exact ⟨rfl, rfl, rfl, rfl, rfl, rfl⟩
  unfold advance
  split_ifs
  · exact hcapture (g.lift s.passed).1 ((g.lift s.passed).2.relocate s.src s.dst).2
  · exact hcapture (g.relocate s.src s.dst).1 (g.relocate s.src s.dst).2

theorem sameBooks_promote (g : Game) (s : Step) : g.SameBooks (g.promote s) := by
  unfold promote
  cases s.becomes with
  | none => exact .refl g
  | some k => exact ⟨rfl, rfl, rfl, rfl, rfl, rfl⟩

theorem sameBooks_execute (g : Game) (s : Step) : g.SameBooks (g.execute s).2 := by
  have hsettle : (g.advance s).2.SameBooks ((g.advance s).2.settle s) :=
    ⟨rfl, rfl, rfl, rfl, rfl, rfl⟩
  exact ((g.sameBooks_advance s).trans hsettle).trans (sameBooks_promote _ s)

/-- Restoring takes back all that a step has done. -/
theorem restore_execute (g : Game) (s : Step) : (g.execute s).2.restore g.snapshot = g := by
  have hgrown : g.Grown (g.execute s).2 :=
    ⟨by rw [(g.sameBooks_execute s).moves], g.size_le_execute s⟩
  rw [hgrown.restore, (g.sameBooks_execute s).depth]

theorem sameBooks_wear (g : Game) (u : Square) : g.SameBooks (g.wear u) := by
  unfold wear
  cases g.board.occupant u with
  | none => exact .refl g
  | some m => exact g.sameBooks_withTable _

theorem sameBooks_forget (g : Game) : g.SameBooks { g with enPassant := none } :=
  ⟨rfl, rfl, rfl, rfl, rfl, rfl⟩

theorem sameBooks_executeCastle (g : Game) (path : CastlePath) :
    g.SameBooks (g.executeCastle path) := by
  unfold executeCastle
  refine .trans ?_ (sameBooks_forget _)
  refine .trans ?_ (sameBooks_wear _ path.rookTo)
  refine .trans ?_ (sameBooks_wear _ path.kingTo)
  exact (sameBooks_withTable g _).trans (sameBooks_withTable _ _)

/-- One turn is entered in a log in one way. -/
theorem entry_unique {ms : List MoveRecord} {r r' : MoveRecord} (h : ms ++ [r] = ms ++ [r']) :
    r = r' :=
  List.singleton_inj.1 (List.append_cancel_left h)

theorem moves_logged (g : Game) (r : MoveRecord) (resetClock : Bool) :
    (g.logged r resetClock).moves = g.moves ++ [g.entry r resetClock] := rfl

theorem depth_logged (g : Game) (r : MoveRecord) (resetClock : Bool) :
    (g.logged r resetClock).depth = g.depth := rfl

theorem roster_logged (g : Game) (r : MoveRecord) (resetClock : Bool) :
    (g.logged r resetClock).roster = g.roster := rfl

theorem moves_afterStep (g : Game) (s : Step) :
    (g.afterStep s).moves = g.moves ++ [(g.execute s).2.entry (s.record (g.execute s).1)
      (s.man.kind == .pawn || (g.execute s).1.isSome)] := by
  rw [afterStep, moves_logged, (g.sameBooks_execute s).moves]

theorem moves_afterCastle (g : Game) (w : Wing) :
    (g.afterCastle w).moves = g.moves ++
      [(g.executeCastle (CastlePath.of g.active w)).entry (castleRecord g.active w) false] := by
  rw [afterCastle, moves_logged, (g.sameBooks_executeCastle _).moves]

/-- A turn enters one record in the log and stays in its scope. -/
theorem Turn.log (h : g.Turn g') : ∃ r, g'.moves = g.moves ++ [r] ∧ g'.depth = g.depth := by
  cases h with
  | @step _ _ _ s hs hsafe =>
    exact ⟨_, moves_afterStep g s, (depth_logged _ _ _).trans (g.sameBooks_execute s).depth⟩
  | @castle w hw =>
    exact ⟨_, moves_afterCastle g w, (depth_logged _ _ _).trans (g.sameBooks_executeCastle _).depth⟩

theorem Turn.grown (h : g.Turn g') : g.Grown g' := by
  obtain ⟨r, hmoves, _⟩ := h.log
  refine ⟨⟨[r], hmoves.symm⟩, ?_⟩
  cases h with
  | @step _ _ _ s hs hsafe =>
    rw [afterStep, roster_logged]
    exact g.size_le_execute s
  | @castle w hw =>
    rw [afterCastle, roster_logged, size_executeCastle]

theorem consistent_logged (h : g.Consistent) (r : MoveRecord) (resetClock : Bool) :
    (g.logged r resetClock).Consistent := h.congr rfl rfl rfl

theorem Turn.consistent (t : g.Turn g') (h : g.Consistent) : g'.Consistent := by
  cases t with
  | step hs _ => exact consistent_logged (consistent_execute (admits_of_assess hs).1 h) _ _
  | castle hw =>
    obtain ⟨k, r, hh⟩ := atHome_of_canCastle hw
    exact consistent_logged (consistent_executeCastle h hw hh) _ _

/-! ### Refusals name the position -/

theorem kind_failure (g : Game) (kind : ErrorKind) (message : String) (src dst : Option Square) :
    (g.failure kind message src dst).kind = kind := rfl

theorem fen_of_error {α : Type} {e e' : MoveError} {fen : String}
    (h : (.error e' : Except MoveError α) = .error e) (hfen : e'.fen = fen) : e.fen = fen := by
  rw [← Except.error.inj h]
  exact hfen

section refusals

variable {m : Man} {src dst : Square} {promotion : Option PieceKind}

theorem fen_moverAt (h : g.moverAt src dst = .error e) : e.fen = g.toFen := by
  unfold moverAt at h
  split at h
  · exact fen_of_error h rfl
  · split_ifs at h
    · exact fen_of_error h rfl
    · exact fen_of_error h rfl

theorem fen_promotionObjection (h : g.promotionObjection m src dst promotion = some e) :
    e.fen = g.toFen := by
  unfold promotionObjection at h
  split at h
  · cases h
  · split_ifs at h <;> exact (congrArg MoveError.fen (Option.some.inj h)).symm

theorem fen_captureObjection (h : g.captureObjection m src dst = some e) : e.fen = g.toFen := by
  unfold captureObjection at h
  split at h
  · cases h
  · split_ifs at h
    exact (congrArg MoveError.fen (Option.some.inj h)).symm

theorem fen_ruleObjection (g : Game) (m : Man) (src dst : Square) :
    (g.ruleObjection m src dst).fen = g.toFen := by
  unfold ruleObjection
  split_ifs <;> rfl

theorem fen_assess (h : g.assess src dst promotion = .error e) : e.fen = g.toFen := by
  unfold assess at h
  split at h
  case h_1 e' hm =>
    obtain rfl := Except.error.inj h
    exact fen_moverAt hm
  case h_2 m hm =>
    split at h
    · cases h
    · split at h
      case h_1 e' ho =>
        obtain rfl := Except.error.inj h
        rw [Option.or_eq_some_iff] at ho
        rcases ho with hp | ⟨_, hc⟩
        · exact fen_promotionObjection hp
        · exact fen_captureObjection hc
      case h_2 =>
        split_ifs at h
        obtain rfl := Except.error.inj h
        exact fen_ruleObjection g m src dst

end refusals

end Game

namespace Arbiter

variable {a b : Arbiter} {r : MoveRecord} {e : MoveError} {w : Wing} {s : Step}

theorem toGame_finalize (a : Arbiter) (r : MoveRecord) (resetClock : Bool) :
    (a.finalize r resetClock).2.toGame = a.toGame.logged r resetClock :=
  toGame_announce _ _

/-- The answer to a completed move is the entry made for it. -/
theorem finalize_fst (a : Arbiter) (r : MoveRecord) (resetClock : Bool) :
    (a.finalize r resetClock).1 = .ok (a.toGame.entry r resetClock) := rfl

theorem castle_ok (h : a.castle w = (.ok r, b)) :
    a.canCastle a.active w = true ∧ b.toGame = a.toGame.afterCastle w ∧
      b.moves = a.moves ++ [r] := by
  unfold castle at h
  dsimp only at h
  split_ifs at h with hw
  · have hb := congrArg (fun x => x.2.toGame) h
    have hr := congrArg Prod.fst h
    rw [finalize_fst, Except.ok.injEq] at hr
    have hb' : a.toGame.afterCastle w = b.toGame := (toGame_finalize _ _ _).symm.trans hb
    refine ⟨hw, hb'.symm, ?_⟩
    rw [← hb', ← hr]
    exact Game.moves_afterCastle a.toGame w
  · cases h

theorem castle_error (h : a.castle w = (.error e, b)) :
    a.canCastle a.active w = false ∧ b.toGame = a.toGame ∧ e.fen = a.toFen := by
  unfold castle at h
  dsimp only at h
  split_ifs at h with hw
  · have hr := congrArg Prod.fst h
    rw [finalize_fst] at hr
    cases hr
  · cases h
    exact ⟨by simpa using hw, rfl, rfl⟩

theorem carryOut_ok (h : a.carryOut s = (.ok r, b)) :
    (a.execute s).2.inCheck s.man.colour = false ∧ b.toGame = a.toGame.afterStep s ∧
      b.moves = a.moves ++ [r] := by
  unfold carryOut at h
  dsimp only at h
  split_ifs at h with hc
  · cases h
  · have hb := congrArg (fun x => x.2.toGame) h
    have hr := congrArg Prod.fst h
    rw [finalize_fst, Except.ok.injEq] at hr
    have hb' : a.toGame.afterStep s = b.toGame := by
      refine Eq.trans ?_ hb
      rw [toGame_finalize, toGame_note, toGame_announce]
      rfl
    refine ⟨by simpa using hc, hb'.symm, ?_⟩
    rw [← hb', ← hr, toGame_note, toGame_announce]
    exact Game.moves_afterStep a.toGame s

theorem carryOut_error (h : a.carryOut s = (.error e, b)) :
    (a.execute s).2.inCheck s.man.colour = true ∧ b.toGame = a.toGame ∧ e.fen = a.toFen := by
  unfold carryOut at h
  dsimp only at h
  split_ifs at h with hc
  · -- what was done is undone before the refusal is written
    have hback := a.toGame.restore_execute s
    have hb := congrArg (fun x => x.2.toGame) h
    have he := congrArg Prod.fst h
    simp only [refuse, restoreTo, toGame_note, toGame_announce, hback] at hb he
    exact ⟨hc, hb.symm, Game.fen_of_error he rfl⟩
  · have hr := congrArg Prod.fst h
    rw [finalize_fst] at hr
    cases hr

variable {src dst : Square} {promotion : Option PieceKind}

theorem move_ok (h : a.move src dst promotion = (.ok r, b)) :
    a.toGame.attempt src dst promotion = some b.toGame ∧ b.moves = a.moves ++ [r] := by
  unfold move at h
  split at h
  case h_1 => cases h
  case h_2 w hw =>
    obtain ⟨hopen, hb, hr⟩ := castle_ok h
    refine ⟨?_, hr⟩
    simp only [Game.attempt, hw, hopen, if_true, hb]
  case h_3 s hs =>
    obtain ⟨hsafe, hb, hr⟩ := carryOut_ok h
    refine ⟨?_, hr⟩
    simp only [Game.attempt, hs, hsafe, Bool.false_eq_true, if_false, hb]

theorem move_error (h : a.move src dst promotion = (.error e, b)) :
    a.toGame.attempt src dst promotion = none ∧ b.toGame = a.toGame ∧ e.fen = a.toFen := by
  unfold move at h
  split at h
  case h_1 e' he =>
    cases h
    refine ⟨?_, rfl, Game.fen_assess he⟩
    simp only [Game.attempt, he]
  case h_2 w hw =>
    obtain ⟨hclosed, hb, hfen⟩ := castle_error h
    refine ⟨?_, hb, hfen⟩
    simp only [Game.attempt, hw, hclosed, Bool.false_eq_true, if_false]
  case h_3 s hs =>
    obtain ⟨hcheck, hb, hfen⟩ := carryOut_error h
    refine ⟨?_, hb, hfen⟩
    simp only [Game.attempt, hs, hcheck, if_true]

/-- What would be granted is made when it is asked for. -/
theorem exists_move {g : Game} (h : a.toGame.attempt src dst promotion = some g) :
    ∃ r b, a.move src dst promotion = (.ok r, b) ∧ b.toGame = g ∧ b.moves = a.moves ++ [r] := by
  rcases hmove : a.move src dst promotion with ⟨e | r, b⟩
  · rw [(move_error hmove).1] at h
    cases h
  · obtain ⟨hattempt, hmoves⟩ := move_ok hmove
    exact ⟨r, b, rfl, Option.some.inj (hattempt.symm.trans h), hmoves⟩

end Arbiter

end ChessArbiter
