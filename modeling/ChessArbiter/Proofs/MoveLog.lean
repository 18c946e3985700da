import ChessArbiter.Proofs.Resolving

/-!
# The move log

What a record packs into sixteen bits is enough to make its turn again (`Turn.attempt_again`): a
castle is a step of the king between its squares, a promotion names its officer whether one was
asked for or not, and taking in passing shows from the position. So the log of a run, made again
from where the run began, leads through the same turns to the same game (`Retraces`). Titles are
left out: a written move has its text, one made again its squares.
-/

namespace ChessArbiter

namespace Move

variable {src dst : Square} {k : PieceKind} {f : MoveFlag}

theorem promotion_ofParts (hk : k.isOfficer = true) (capture : Bool) :
    (ofParts src dst (.promotion k capture)).promotion = some k := by
  unfold promotion isPromotion
  rw [Arbiter.flag_promotion src dst hk]
  revert hk
  cases k <;> cases capture <;> decide

theorem promotion_ofParts_of_plain (hf : f < 16 ∧ f &&& MoveFlag.promotionBit = 0) :
    (ofParts src dst f).promotion = none := by
  unfold promotion isPromotion
  rw [flag_ofParts src dst hf.1, hf.2]
  rfl

end Move

namespace MoveRecord

/-- The request that a record stands for. -/
def request (r : MoveRecord) : Request := .move r.move.src r.move.dst r.move.promotion

def untitled (r : MoveRecord) : MoveRecord := { r with text := "" }

end MoveRecord

namespace Game

variable {g g' : Game} {s : Step} {r : MoveRecord} {rs : List MoveRecord}

/-! ### One record -/

theorem promotion_flag (hs : ∀ k, s.becomes = some k → k.isOfficer = true) (victim : Option Man) :
    (s.record victim).move.promotion = s.becomes := by
  unfold Step.record Step.flag
  cases hb : s.becomes with
  | some k => exact Move.promotion_ofParts (hs k hb) _
  | none =>
    dsimp only
    split_ifs <;> exact Move.promotion_ofParts_of_plain (by decide)

theorem assess_becomes {src dst : Square} {promotion : Option PieceKind}
    (h : g.assess src dst promotion = .ok (.step s)) :
    g.assess s.src s.dst s.becomes = .ok (.step s) := by
  obtain ⟨hadm, rfl, rfl⟩ := admits_of_assess h
  obtain ⟨m, hm, hcastle, _, hfoe, hrules, hs⟩ := assess_step_iff.1 h
  obtain rfl : m = s.man := (congrArg Step.man hs).symm
  have hpromotes := hadm.becomes_isSome
  refine assess_step_iff.2 ⟨s.man, hm, hcastle, ?_, hfoe, hrules, ?_⟩
  · rw [promotionObjection_eq_none_iff]
    intro k hk
    rw [hk] at hpromotes
    exact ⟨hpromotes.symm, hadm.officer k hk⟩
  · have hbecomes : s.becomes =
        if s.man.promotesOn s.dst then some (s.becomes.getD .queen) else none := by
      rw [← hpromotes]
      cases s.becomes <;> rfl
    have hpassing : s.passing = g.isPassing s.man s.dst := congrArg Step.passing hs
    obtain ⟨man, src, dst, passing, becomes⟩ := s
    unfold stepOf
    rw [Step.mk.injEq]
    exact ⟨rfl, rfl, rfl, hpassing, hbecomes⟩

/-- The record that a turn enters is enough to make the turn again. -/
theorem Turn.attempt_again (t : g.Turn g') :
    ∃ r, g'.moves = g.moves ++ [r] ∧
      g.attempt r.move.src r.move.dst r.move.promotion = some g' := by
  cases t with
  | @step src dst promotion s hs hsafe =>
    refine ⟨_, moves_afterStep g s, attempt_eq_some_iff.2 (.inl ⟨s, ?_, hsafe, rfl⟩)⟩
    have hpromotion := promotion_flag (admits_of_assess hs).1.officer (g.execute s).1
    change g.assess (s.record (g.execute s).1).move.src (s.record (g.execute s).1).move.dst
      (s.record (g.execute s).1).move.promotion = _
    rw [hpromotion]
    unfold Step.record
    rw [Move.src_ofParts, Move.dst_ofParts]
    exact assess_becomes hs
  | @castle w hw =>
    refine ⟨_, moves_afterCastle g w, attempt_eq_some_iff.2 (.inr ⟨w, ?_, hw, rfl⟩)⟩
    obtain ⟨k, _, hhome⟩ := atHome_of_canCastle hw
    change g.assess (castleRecord g.active w).move.src (castleRecord g.active w).move.dst
      (castleRecord g.active w).move.promotion = _
    unfold castleRecord
    rw [Move.src_ofParts, Move.dst_ofParts]
    refine assess_castle_iff.2 ⟨k, ⟨hhome.king, hhome.king_colour, (CastlePath.distinct _ w).1⟩, ?_⟩
    exact castleRequest_eq_some_iff.2 ⟨hhome.king_kind, by rw [hhome.king_colour], by
      rw [hhome.king_colour]⟩

/-! ### A whole log -/

/-- The game after the moves of some records, made one after another. -/
def redo (g : Game) : List MoveRecord → Option Game
  | [] => some g
  | r :: rs => (g.attempt r.move.src r.move.dst r.move.promotion).bind fun g' => g'.redo rs

theorem redo_append (g : Game) (rs rs' : List MoveRecord) :
    g.redo (rs ++ rs') = (g.redo rs).bind fun g' => g'.redo rs' := by
  induction rs generalizing g with
  | nil => rfl
  | cons r rs ih =>
    simp only [List.cons_append, redo, ih, Option.bind_assoc]

theorem redo_untitled (g : Game) (rs : List MoveRecord) :
    g.redo (rs.map MoveRecord.untitled) = g.redo rs := by
  induction rs generalizing g with
  | nil => rfl
  | cons r rs ih =>
    simp only [List.map_cons, redo, ih]
    rfl

theorem map_untitled_retitle (g : Game) (title : String) :
    (g.retitle title).moves.map MoveRecord.untitled = g.moves.map MoveRecord.untitled := by
  rw [moves_retitle]
  rcases List.eq_nil_or_concat g.moves with hnil | ⟨rs, r, hlast⟩
  · simp [hnil]
  · simp [hlast, MoveRecord.untitled]

/-- The log of `g` leads from `start` to `g`, titles left out. -/
def Retraces (start g : Game) : Prop :=
  ∃ ms, start.redo g.moves = some (g.relog ms g.depth) ∧
    ms.map MoveRecord.untitled = g.moves.map MoveRecord.untitled

theorem Turn.retraces {start : Game} (t : g.Turn g') (h : start.Retraces g) :
    start.Retraces g' := by
  obtain ⟨ms, hredo, htitles⟩ := h
  obtain ⟨r, hmoves, hagain⟩ := t.attempt_again
  obtain ⟨r', hmoves', hrelog⟩ := attempt_relog hagain ms g.depth
  obtain rfl : r = r' := entry_unique (hmoves.symm.trans hmoves')
  obtain ⟨_, _, hdepth⟩ := t.log
  refine ⟨ms ++ [r], ?_, ?_⟩
  · rw [hmoves, redo_append, hredo, Option.bind_some, redo, hrelog, hdepth]
    rfl
  · rw [hmoves, List.map_append, List.map_append, htitles]

theorem Retraces.retitle {start : Game} (title : String) (h : start.Retraces g) :
    start.Retraces (g.retitle title) := by
  obtain ⟨ms, hredo, htitles⟩ := h
  refine ⟨ms, ?_, htitles.trans (g.map_untitled_retitle title).symm⟩
  rw [← redo_untitled, map_untitled_retitle, redo_untitled, hredo, retitle_eq]
  rfl

theorem ply_logged (g : Game) (r : MoveRecord) (resetClock : Bool) :
    (g.logged r resetClock).ply = g.ply + 1 := rfl

theorem Turn.ply (t : g.Turn g') : g'.ply = g.ply + 1 := by
  cases t with
  | step => rw [afterStep, ply_logged, (g.sameBooks_execute _).ply]
  | castle => rw [afterCastle, ply_logged, (g.sameBooks_executeCastle _).ply]

/-- As long as the count has room, it counts the records. -/
def CountsFrom (start : Int) (g : Game) : Prop :=
  start + g.moves.length < 2 ^ 31 → g.ply.toInt = start + g.moves.length

theorem Turn.countsFrom {start : Int} (t : g.Turn g') (h : CountsFrom start g) :
    CountsFrom start g' := by
  obtain ⟨r, hmoves, _⟩ := t.log
  intro hroom
  rw [hmoves, List.length_append, List.length_singleton] at hroom ⊢
  have hbefore := h (by omega)
  rw [t.ply, toInt_add_one (by omega)]
  omega

theorem CountsFrom.retitle {start : Int} (title : String) (h : CountsFrom start g) :
    CountsFrom start (g.retitle title) := by
  intro hroom
  rw [length_moves_retitle] at hroom ⊢
  rw [retitle_eq]
  exact h hroom

end Game

namespace Arbiter

variable {a b : Arbiter} {g : Game}

def answers (a : Arbiter) : List Request → List (Except MoveError MoveRecord)
  | [] => []
  | q :: qs => (a.answer q).1 :: (a.answer q).2.answers qs

/-- Where the moves of some records can be made again, the requests they stand for are granted. -/
theorem answers_request {rs : List MoveRecord} (h : a.redo rs = some g) :
    ∃ ms, g.moves = a.moves ++ ms ∧ a.answers (rs.map MoveRecord.request) = ms.map .ok ∧
      (a.run (rs.map MoveRecord.request)).toGame = g := by
  induction rs generalizing a with
  | nil =>
    obtain rfl := Option.some.inj h
    exact ⟨[], (List.append_nil _).symm, rfl, rfl⟩
  | cons r rs ih =>
    obtain ⟨g', hattempt, hrest⟩ := Option.bind_eq_some_iff.1 h
    obtain ⟨r', b, hmove, rfl, hmoves⟩ := exists_move hattempt
    obtain ⟨ms, hg, hanswers, hrun⟩ := ih hrest
    have hanswer : a.answer r.request = (.ok r', b) := hmove
    refine ⟨r' :: ms, ?_, ?_, ?_⟩
    · rw [hg, hmoves, List.append_assoc, List.singleton_append]
    · rw [List.map_cons, answers, hanswer, hanswers, List.map_cons]
    · rw [← hrun, List.map_cons, run, List.foldl_cons, hanswer]
      rfl

theorem Begun.retraces_run (ha : a.Begun) (qs : List Request) :
    a.Retraces (a.run qs).toGame := by
  refine run_keeps Game.Turn.retraces Game.Retraces.retitle ⟨[], ?_, ?_⟩ qs
  · rw [ha.moves_eq_nil]
    exact congrArg some (congrArg (fun ms => a.relog ms a.depth) ha.moves_eq_nil)
  · rw [ha.moves_eq_nil]

/-- The moves of the log, made again on a fresh copy of the game that the run began with, are all
granted, with the same records but for what was written, and lead to the same game; and the plies
are as many as the records. -/
theorem log_is_complete (ha : a.Begun) (qs : List Request) (j : Journal) :
    ∃ records, ({ a with journal := j } : Arbiter).answers
        ((a.run qs).moves.map MoveRecord.request) = records.map .ok ∧
      records.map MoveRecord.untitled = (a.run qs).moves.map MoveRecord.untitled ∧
      (({ a with journal := j } : Arbiter).run
        ((a.run qs).moves.map MoveRecord.request)).toGame =
          { (a.run qs).toGame with moves := records } ∧
      (a.ply.toInt + (a.run qs).moves.length < 2 ^ 31 →
        (a.run qs).ply.toInt = a.ply.toInt + (a.run qs).moves.length) := by
  obtain ⟨records, hredo, htitles⟩ := ha.retraces_run qs
  obtain ⟨ms, hmoves, hanswers, hrun⟩ := answers_request (a := { a with journal := j }) hredo
  obtain rfl : records = ms := by
    rw [show ({ a with journal := j } : Arbiter).moves = [] from ha.moves_eq_nil] at hmoves
    exact hmoves
  have hplies : Game.CountsFrom a.ply.toInt (a.run qs).toGame := by
    refine run_keeps Game.Turn.countsFrom Game.CountsFrom.retitle (fun _ => ?_) qs
    rw [ha.moves_eq_nil]
    exact (Int.add_zero _).symm
  exact ⟨records, hanswers, htitles, hrun, hplies⟩

def castleThenPromote : List Request :=
  [.play " O-O", .play "Qd8", .moveByName "e8" "d7", .move ⟨1, 6⟩ ⟨0, 7⟩ none]

theorem promoted_log_is_complete :
    ∃ a records, (opening {}).loadFen "r3k3/1P6/8/8/8/8/8/4K2R w K - 0 1" = (.ok (), a) ∧
      (a.run castleThenPromote).moves.length = 3 ∧
      a.answers ((a.run castleThenPromote).moves.map MoveRecord.request) = records.map .ok ∧
      (a.run ((a.run castleThenPromote).moves.map MoveRecord.request)).toGame =
        { (a.run castleThenPromote).toGame with moves := records } ∧
      (a.run castleThenPromote).ply.toInt = a.ply.toInt + 3 := by
  have hloaded : ((opening {}).loadFen "r3k3/1P6/8/8/8/8/8/4K2R w K - 0 1").1.isOk = true := by
    decide +kernel
  have hlog : (((opening {}).loadFen "r3k3/1P6/8/8/8/8/8/4K2R w K - 0 1").2.run
      castleThenPromote).moves.length = 3 := by
    decide +kernel
  have hroom : ((opening {}).loadFen "r3k3/1P6/8/8/8/8/8/4K2R w K - 0 1").2.ply.toInt + 3 <
      2 ^ 31 := by
    decide +kernel
  rcases hload : (opening {}).loadFen "r3k3/1P6/8/8/8/8/8/4K2R w K - 0 1" with ⟨e | _, a⟩
  · rw [hload] at hloaded
    cases hloaded
  · rw [hload] at hlog hroom
    obtain ⟨records, hanswers, _, hrun, hply⟩ :=
      log_is_complete (.inr ⟨_, _, hload⟩) castleThenPromote a.journal
    rw [hlog] at hply
    exact ⟨a, records, rfl, hlog, hanswers, hrun, hply hroom⟩

end Arbiter

end ChessArbiter
