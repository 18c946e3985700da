import ChessArbiter.Proofs.Session

/-!
# The safety of kings

A turn never leaves the mover's king attacked (`Turn.safe`): after a step that was tested, and
after a castle it follows from the tests made before. In play from the starting position a king is
therefore never attacked while the other side is to move, and since whatever is captured was under
attack, no king is ever captured and each side keeps the one it has (`Orderly`).
-/

namespace ChessArbiter

namespace Game

variable {g g' : Game} {s : Step} {c : Colour}

theorem inCheck_logged (g : Game) (r : MoveRecord) (resetClock : Bool) (c : Colour) :
    (g.logged r resetClock).inCheck c = g.inCheck c := rfl

theorem hasOneKing_logged {r : MoveRecord} {resetClock : Bool} :
    (g.logged r resetClock).HasOneKing c ↔ g.HasOneKing c := Iff.rfl

theorem active_afterStep (g : Game) (s : Step) : (g.afterStep s).active = g.active.opposite :=
  congrArg Colour.opposite (g.sameBooks_execute s).active

theorem active_afterCastle (g : Game) (w : Wing) :
    (g.afterCastle w).active = g.active.opposite :=
  congrArg Colour.opposite (g.sameBooks_executeCastle (CastlePath.of g.active w)).active

theorem Turn.active (t : g.Turn g') : g'.active = g.active.opposite := by
  cases t with
  | step hs _ => exact active_afterStep g _
  | castle hw => exact active_afterCastle g _

theorem hasOneKing_executeCastle {w : Wing} {k r : Man} (h : g.Consistent)
    (hw : g.canCastle c w = true) (hh : g.AtHome c w k r) {d : Colour} (hone : g.HasOneKing d) :
    (g.executeCastle (CastlePath.of c w)).HasOneKing d := by
  unfold HasOneKing
  rw [live_executeCastle h hw hh]
  exact hone

theorem inCheck_executeCastle {w : Wing} (h : g.Consistent) (hone : g.HasOneKing c)
    (hw : g.canCastle c w = true) :
    (g.executeCastle (CastlePath.of c w)).inCheck c = false := by
  obtain ⟨k, r, hh⟩ := atHome_of_canCastle hw
  have hto : (g.executeCastle (CastlePath.of c w)).board.occupant (CastlePath.of c w).kingTo =
      some k := by
    rw [occupant_executeCastle h hw hh, if_pos rfl]
  have hcon := consistent_executeCastle h hw hh
  rw [inCheck_iff hcon.toCoherent (hasOneKing_executeCastle h hw hh hone) hto hh.king_kind
    hh.king_colour]
  exact not_attacked_of_canCastle h hw hh

/-- The side that moves is not in check afterwards. -/
theorem Turn.safe (t : g.Turn g') (h : g.Consistent) (hone : g.HasOneKing g.active) :
    g'.inCheck g.active = false := by
  cases t with
  | @step _ _ _ s hs hsafe =>
    rw [(admits_of_assess hs).1.mover] at hsafe
    exact (inCheck_logged _ _ _ _).trans hsafe
  | @castle w hw => exact (inCheck_logged _ _ _ _).trans (inCheck_executeCastle h hone hw)

/-! ### Kings stay -/

/-- A king whose side is not in check is not what a step takes. -/
theorem Admits.victim_not_king (hs : g.Admits s) (h : g.Consistent)
    (hone : g.HasOneKing g.active.opposite) (hsafe : g.inCheck g.active.opposite = false)
    (v : Man) (hv : g.board.occupant s.victimSquare = some v) : v.kind ≠ .king := by
  intro hking
  have hfoe := hs.victim_foe h.toCoherent hv
  rw [hs.mover] at hfoe
  rcases hs.victimSquare_cases h.toCoherent with hsame | ⟨_, v', hv', hpawn⟩
  · rw [hsame] at hv
    have hb := bearsOn_of_capture h.toCoherent hs.source hs.foe hs.rules (by simp [hv])
    have hatt : g.isAttacked s.dst g.active = true :=
      (isAttacked_iff h.toCoherent).2 ⟨s.src, s.man, hs.source, hs.mover, hb⟩
    rw [inCheck_iff h.toCoherent hone hv hking hfoe, Colour.opposite_opposite, hatt] at hsafe
    cases hsafe
  · rw [hv, Option.some.injEq] at hv'
    rw [← hv', hking] at hpawn
    cases hpawn

theorem mem_live_execute_king (hs : g.Admits s) (h : g.Consistent)
    (hv : ∀ v, g.board.occupant s.victimSquare = some v → v.kind ≠ .king) {y : Man}
    (hy : y.kind = .king) : y ∈ (g.execute s).2.live.get c ↔ y ∈ g.live.get c := by
  rw [mem_live_execute hs h]
  constructor
  · rintro (⟨hlive, _⟩ | ⟨hb, rfl, _⟩)
    · exact hlive
    · obtain ⟨k, hk⟩ := Option.isSome_iff_exists.1 hb
      have hofficer := hs.isOfficer_arrival hk
      rw [hy] at hofficer
      cases hofficer
  · intro hlive
    refine .inl ⟨hlive, fun hocc => hv y hocc hy, ?_⟩
    rintro hb rfl
    have hpawn := hs.kind_of_becomes hb
    rw [hy] at hpawn
    cases hpawn

theorem hasOneKing_execute (hs : g.Admits s) (h : g.Consistent)
    (hv : ∀ v, g.board.occupant s.victimSquare = some v → v.kind ≠ .king)
    (hone : g.HasOneKing c) : (g.execute s).2.HasOneKing c := by
  obtain ⟨k, hlive, hking, huniq⟩ := (hasOneKing_iff h.toCoherent).1 hone
  rw [hasOneKing_iff (consistent_execute hs h).toCoherent]
  refine ⟨k, (mem_live_execute_king hs h hv hking).2 hlive, hking, fun y hy hyk => ?_⟩
  exact huniq y ((mem_live_execute_king hs h hv hyk).1 hy) hyk

/-- Consistent, a king on each side, the side that waits not in check, and no king ever taken. -/
structure Orderly (g : Game) : Prop extends g.Consistent where
  one_king : ∀ c, g.HasOneKing c
  waiting_safe : g.inCheck g.active.opposite = false
  no_king_taken : ∀ r ∈ g.moves, r.captured ≠ some .king

theorem Turn.no_king_taken (t : g.Turn g') (h : g.Orderly) :
    ∀ r ∈ g'.moves, r.captured ≠ some .king := by
  cases t with
  | @step _ _ _ s hs _ =>
    have hadm := (admits_of_assess hs).1
    rw [moves_afterStep]
    intro r hr
    rcases List.mem_append.1 hr with hr | hr
    · exact h.no_king_taken r hr
    · rw [List.mem_singleton] at hr
      rw [hr]
      change (g.execute s).1.map (·.kind) ≠ some .king
      rw [fst_execute hadm h.toCoherent]
      intro hcap
      obtain ⟨v, hv, hking⟩ := Option.map_eq_some_iff.1 hcap
      exact hadm.victim_not_king h.toConsistent (h.one_king _) h.waiting_safe v hv hking
  | @castle w hw =>
    rw [moves_afterCastle]
    intro r hr
    rcases List.mem_append.1 hr with hr | hr
    · exact h.no_king_taken r hr
    · rw [List.mem_singleton] at hr
      rw [hr]
      exact nofun

/-- A turn that takes no king leaves each side its own. -/
theorem Turn.hasOneKing (t : g.Turn g') (h : g.Consistent) (hone : ∀ c, g.HasOneKing c)
    (hspared : ∀ r ∈ g'.moves, r.captured ≠ some .king) (c : Colour) : g'.HasOneKing c := by
  cases t with
  | @step _ _ _ s hs _ =>
    have hadm := (admits_of_assess hs).1
    rw [moves_afterStep] at hspared
    have hlast := hspared _ (List.mem_append_right _ (List.mem_singleton_self _))
    change (g.execute s).1.map (·.kind) ≠ some .king at hlast
    rw [fst_execute hadm h.toCoherent] at hlast
    have hv : ∀ v, g.board.occupant s.victimSquare = some v → v.kind ≠ .king :=
      fun v hv hking => hlast (Option.map_eq_some_iff.2 ⟨v, hv, hking⟩)
    exact hasOneKing_logged.2 (hasOneKing_execute hadm h hv (hone c))
  | @castle w hw =>
    obtain ⟨k, r, hh⟩ := atHome_of_canCastle hw
    exact hasOneKing_logged.2 (hasOneKing_executeCastle h hw hh (hone c))

theorem Turn.orderly_of_spared (t : g.Turn g') (h : g.Consistent) (hone : ∀ c, g.HasOneKing c)
    (hspared : ∀ r ∈ g'.moves, r.captured ≠ some .king) : g'.Orderly where
  toConsistent := t.consistent h
  one_king := t.hasOneKing h hone hspared
  waiting_safe := by
    rw [t.active, Colour.opposite_opposite]
    exact t.safe h (hone _)
  no_king_taken := hspared

theorem Turn.orderly (t : g.Turn g') (h : g.Orderly) : g'.Orderly :=
  t.orderly_of_spared h.toConsistent h.one_king (t.no_king_taken h)

theorem Orderly.retitle (h : g.Orderly) (title : String) : (g.retitle title).Orderly where
  toConsistent := h.toConsistent.retitle title
  one_king c := by
    rw [retitle_eq]
    exact h.one_king c
  waiting_safe := by
    rw [retitle_eq]
    exact h.waiting_safe
  no_king_taken r hr := by
    rw [moves_retitle, List.mem_append, List.mem_map] at hr
    rcases hr with hr | ⟨r', hr', rfl⟩
    · exact h.no_king_taken r (List.dropLast_subset _ hr)
    · exact h.no_king_taken r' (List.mem_of_getLast? (Option.mem_toList.1 hr'))

theorem Orderly.setDepth (h : g.Orderly) (n : Nat) : { g with depth := n }.Orderly where
  toConsistent := h.toConsistent.congr rfl rfl rfl
  one_king := h.one_king
  waiting_safe := h.waiting_safe
  no_king_taken := h.no_king_taken

theorem orderly_start : start.Orderly where
  toConsistent := consistent_start
  one_king c := by cases c <;> decide
  waiting_safe := by decide
  no_king_taken := List.forall_mem_nil _

end Game

namespace Arbiter

variable {a : Arbiter}

theorem orderly_run (h : a.toGame.Orderly) (qs : List Request) : (a.run qs).toGame.Orderly :=
  run_keeps Game.Turn.orderly (fun title hg => hg.retitle title) h qs

theorem orderly_reset (a : Arbiter) : a.reset.toGame.Orderly :=
  Game.orderly_start.setDepth a.depth

/-- Granted requests, castles among them, leave no mover in check. In play from the start each
side keeps one king, the side that waits is not in check, and no king is captured. -/
theorem mover_safe (a : Arbiter) :
    (∀ q r b, a.toGame.Consistent → a.HasOneKing a.active → a.answer q = (.ok r, b) →
      b.inCheck a.active = false) ∧
    ∀ qs : List Request, (∀ c, (a.reset.run qs).HasOneKing c) ∧
      (a.reset.run qs).inCheck (a.reset.run qs).active.opposite = false ∧
      ∀ r ∈ (a.reset.run qs).moves, r.captured ≠ some .king := by
  constructor
  · intro q r b hcon hone hq
    obtain ⟨g', hturn, hb | ⟨title, hb⟩⟩ := answer_ok hq
    · rw [hb]
      exact hturn.safe hcon hone
    · rw [hb, Game.retitle_eq]
      exact hturn.safe hcon hone
  · intro qs
    have h := orderly_run (orderly_reset a) qs
    exact ⟨h.one_king, h.waiting_safe, h.no_king_taken⟩

theorem arranged_mover_safe :
    ∃ r b, Session.arranged.arbiter.answer (.castle .king) = (.ok r, b) ∧
      b.inCheck .white = false := by
  have hreached : Session.arranged.Reached := ⟨_, _, rfl⟩
  have hone : Session.arranged.arbiter.HasOneKing .white := by decide
  have hgranted : (Session.arranged.arbiter.answer (.castle .king)).1.isOk = true := by decide
  rcases h : Session.arranged.arbiter.answer (.castle .king) with ⟨e | r, b⟩
  · rw [h] at hgranted
    cases hgranted
  · exact ⟨r, b, rfl, (mover_safe _).1 _ r b hreached.sound.game hone h⟩

end Arbiter

end ChessArbiter
