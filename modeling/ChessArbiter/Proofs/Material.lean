import Mathlib.Data.List.DropRight
import ChessArbiter.Window
import ChessArbiter.Proofs.Counters
import ChessArbiter.Proofs.Passing

/-!
# Records and material

The bits of a record's flag say truly what the turn did (`MoveRecord.Accurate`, `Plays.accurate`):
whether a man was taken, whether a pawn was exchanged and for what, whether the king castled, and
whether a target was left behind. Each turn adds to the men taken from a side just what the other
side's record says, and since an officer takes the place of his pawn, the men of a side in play or
taken are always as many as at the start (`Turn.muster`).
-/

namespace ChessArbiter

/-- The record of a turn from `g` to `g'` says truly what was done. -/
structure MoveRecord.Accurate (r : MoveRecord) (g g' : Game) : Prop where
  mover : g.board.piece r.move.src = some ⟨r.piece, r.colour⟩
  capture : r.move.isCapture = true ↔ r.captured.isSome = true
  promotion : r.move.isPromotion = true ↔ r.piece = .pawn ∧ r.move.dst.rank = r.colour.lastRank
  officer : r.move.isPromotion = true →
    ∃ k, r.move.promotion = some k ∧ g'.board.piece r.move.dst = some ⟨k, r.colour⟩
  castle : r.move.isCastle = true ↔
    r.piece = .king ∧ (r.move.dst - r.move.src).files.natAbs = 2
  push : r.move.flag = .doublePush ↔ g'.enPassant.isSome = true

theorem MoveRecord.Accurate.congr {r : MoveRecord} {g g' g'' : Game} {text : String}
    {check mate : Bool} (h : r.Accurate g g') (hboard : g''.board = g'.board)
    (htarget : g''.enPassant = g'.enPassant) :
    { r with text := text, check := check, mate := mate }.Accurate g g'' :=
  ⟨h.mover, h.capture, h.promotion, hboard ▸ h.officer, h.castle, htarget ▸ h.push⟩

namespace Game

variable {g g' : Game} {s : Step} {r : MoveRecord} {c : Colour} {u : Square} {v : Man}

/-! ### What a record says -/

theorem Admits.files_of_king (hs : g.Admits s) (h : g.Coherent) (hk : s.man.kind = .king) :
    (s.dst - s.src).files.natAbs ≠ 2 := by
  have hrules := hs.rules
  rw [obeysRules_king h hs.source hs.foe hk, Bool.and_eq_true, Piece.bearsOn_king hk,
    Geometry.has_kingStrikes] at hrules
  omega

theorem accurate_record (hs : g.Admits s) (h : g.Consistent) :
    (s.record (g.execute s).1).Accurate g (g.afterStep s) := by
  have hcapture := Step.isCapture_record hs.officer (hs.isSome_of_passing h.toCoherent)
  have hpromotion : (s.record (g.execute s).1).move.isPromotion = s.becomes.isSome :=
    Step.isPromotion_record hs.officer
  constructor
  case mover =>
    rw [s.src_record, Board.piece, hs.source]
    rfl
  case capture =>
    change _ ↔ ((g.execute s).1.map fun v : Man => v.kind).isSome = true
    rw [hcapture, Option.isSome_map]
  case promotion =>
    rw [hpromotion, hs.becomes_isSome, Man.promotesOn, Bool.and_eq_true, beq_iff_eq, beq_iff_eq,
      s.dst_record]
    rfl
  case officer =>
    intro hbit
    rw [hpromotion] at hbit
    obtain ⟨k, hk⟩ := Option.isSome_iff_exists.1 hbit
    refine ⟨k, (promotion_flag hs.officer _).trans hk, ?_⟩
    rw [s.dst_record, piece_eq_some]
    refine ⟨g.arrival s, ?_, ?_⟩
    · change (g.execute s).2.board.occupant s.dst = _
      rw [occupant_execute hs h.toCoherent, if_pos rfl]
    · rw [arrival_of_some hk]
      rfl
  case castle =>
    rw [Step.isCastle_record hs.officer, s.src_record, s.dst_record]
    exact iff_of_false Bool.false_ne_true fun hking => hs.files_of_king h.toCoherent hking.1 hking.2
  case push =>
    exact (hs.isSome_target h.toCoherent).symm

theorem accurate_castleRecord {w : Wing} (hw : g.canCastle g.active w = true) :
    (castleRecord g.active w).Accurate g (g.afterCastle w) := by
  obtain ⟨k, _, hh⟩ := atHome_of_canCastle hw
  have hflag := flag_castleRecord g.active w
  have hplain : (castleRecord g.active w).move.isPromotion = false := by
    rw [Move.isPromotion, hflag]
    cases w <;> rfl
  constructor
  case mover =>
    rw [src_castleRecord, piece_eq_some]
    refine ⟨k, hh.king, ?_⟩
    change k.toPiece = ⟨.king, g.active⟩
    rw [← hh.king_kind, ← hh.king_colour]
  case capture =>
    rw [Move.isCapture, hflag]
    exact iff_of_false (by cases w <;> decide) nofun
  case promotion =>
    rw [hplain]
    exact iff_of_false Bool.false_ne_true nofun
  case officer =>
    rw [hplain]
    exact fun hbit => absurd hbit Bool.false_ne_true
  case castle =>
    rw [Move.isCastle, hflag, src_castleRecord, dst_castleRecord]
    refine iff_of_true (by cases w <;> rfl) ⟨rfl, ?_⟩
    cases g.active <;> cases w <;> rfl
  case push =>
    exact iff_of_false (flag_castleRecord_ne g.active w).1 nofun

theorem Plays.accurate (t : g.Plays r g') (h : g.Consistent) : r.Accurate g g' := by
  rcases t.cases with ⟨s, hs, rfl, rfl⟩ | ⟨w, hw, rfl, rfl⟩
  · exact (accurate_record hs h).congr rfl rfl
  · exact (accurate_castleRecord hw).congr rfl rfl

/-! ### Whom a side has lost -/

/-- The kinds that the other side's records say were taken from a side. -/
def losses (rs : List MoveRecord) (c : Colour) : List PieceKind :=
  (rs.filter (·.colour == c.opposite)).filterMap (·.captured)

theorem losses_append (rs rs' : List MoveRecord) (c : Colour) :
    losses (rs ++ rs') c = losses rs c ++ losses rs' c := by
  unfold losses
  rw [List.filter_append, List.filterMap_append]

theorem losses_untitled (rs : List MoveRecord) (c : Colour) :
    losses (rs.map MoveRecord.untitled) c = losses rs c := by
  unfold losses
  rw [List.filter_map, List.filterMap_map]
  rfl

theorem losses_singleton (r : MoveRecord) (c : Colour) :
    losses [r] c = if r.colour = c.opposite then r.captured.toList else [] := by
  unfold losses
  by_cases hc : r.colour = c.opposite
  · cases hr : r.captured <;> simp [hc, hr]
  · simp [hc]

theorem captured_logged (g : Game) (r : MoveRecord) (resetClock : Bool) :
    (g.logged r resetClock).captured = g.captured := rfl

theorem Plays.captured_eq (t : g.Plays r g') (h : g.Consistent) (c : Colour) :
    (g'.captured.get c).map (·.kind) = (g.captured.get c).map (·.kind) ++ losses [r] c := by
  rw [losses_singleton]
  rcases t.cases with ⟨s, hs, rfl, rfl⟩ | ⟨w, hw, rfl, rfl⟩
  · change ((g.execute s).2.captured.get c).map (·.kind) = _ ++
      if s.man.colour = c.opposite then ((g.execute s).1.map (·.kind)).toList else []
    rw [captured_execute hs h.toCoherent, List.map_append]
    cases hv : (g.execute s).1 with
    | none => split_ifs <;> rfl
    | some v =>
      rw [fst_execute hs h.toCoherent] at hv
      -- the victim is the mover's foe, so the two lists count him for the same side
      have hfoe := hs.victim_foe h.toCoherent hv
      by_cases hc : v.colour = c
      · have hmover : s.man.colour = c.opposite := by rw [← hc, hfoe, Colour.opposite_opposite]
        rw [if_pos hmover, Option.filter_some, if_pos (beq_iff_eq.2 hc)]
        rfl
      · have hmover : s.man.colour ≠ c.opposite := by
          intro hmover
          rw [hfoe, hmover, Colour.opposite_opposite] at hc
          exact hc rfl
        rw [if_neg hmover, Option.filter_some, if_neg (by simpa using hc)]
        rfl
  · obtain ⟨k, rook, hh⟩ := atHome_of_canCastle hw
    have hcaptured : (g.afterCastle w).captured = g.captured := by
      rw [afterCastle, captured_logged, executeCastle_eq h hw hh]
      rfl
    rw [hcaptured]
    change _ = _ ++ if g.active = c.opposite then [] else []
    rw [ite_self, List.append_nil]

/-- Every man taken is told of in the log, in order. -/
def LossesTold (g : Game) : Prop :=
  ∀ c, (g.captured.get c).map (·.kind) = losses g.moves c

theorem Turn.lossesTold (t : g.Turn g') (hg : g.Consistent) (h : g.LossesTold) :
    g'.LossesTold := by
  obtain ⟨r, hmoves, _⟩ := t.log
  intro c
  rw [Plays.captured_eq ⟨t, hmoves⟩ hg c, hmoves, losses_append, h c]

theorem LossesTold.retitle (h : g.LossesTold) (title : String) :
    (g.retitle title).LossesTold := by
  intro c
  rw [← losses_untitled, map_untitled_retitle, losses_untitled, ← h c, retitle_eq]

theorem Unplayed.lossesTold (h : g.Unplayed) : g.LossesTold := by
  intro c
  rw [h.captured, h.moves]
  rfl

/-! ### How many men there are -/

/-- The number of men of a side, in play or taken. -/
def muster (g : Game) (c : Colour) : Nat :=
  (g.live.get c).length + (g.captured.get c).length

theorem length_dismiss (h : g.Coherent) (hv : v ∈ g.live.get v.colour) (c : Colour) :
    ((g.dismiss v).live.get c).length + (if c = v.colour then 1 else 0) =
      (g.live.get c).length := by
  change ((g.live.modify v.colour _).get c).length + _ = _
  rw [Sides.get_modify]
  split_ifs with hc
  · rw [hc, ← (h.live_nodup v.colour).erase_eq_filter, List.length_erase_add_one hv]
  · rfl

theorem muster_take (h : g.Coherent) (u : Square) (c : Colour) :
    (g.take u).muster c = g.muster c := by
  unfold take
  cases hu : g.board.occupant u with
  | none => rfl
  | some v =>
    have hlive := length_dismiss h (h.live_of_occupant hu) c
    change ((g.dismiss v).live.get c).length +
      ((g.captured.modify v.colour (· ++ [v])).get c).length = _
    rw [Sides.get_modify, muster]
    split_ifs at hlive ⊢ with hc
    · rw [List.length_append, List.length_singleton]
      omega
    · omega

theorem muster_brought (hs : g.Admits s) (h : g.Coherent) (c : Colour) :
    (g.brought s).muster c = g.muster c := by
  rw [← muster_take h s.victimSquare c]
  change (g.advance s).2.muster c = _
  rw [advance_eq hs h]
  rfl

/-- The officer takes the place of his pawn. -/
theorem muster_execute (hs : g.Admits s) (h : g.Consistent) (c : Colour) :
    (g.execute s).2.muster c = g.muster c := by
  rw [execute_snd, ← muster_brought hs h.toCoherent]
  cases hb : s.becomes with
  | none => rw [promote_of_none hb]
  | some k =>
    have hcoherent := (consistent_brought hs h).toCoherent
    have hdst : (g.brought s).board.occupant s.dst = some s.man := by
      rw [occupant_brought hs h.toCoherent, if_pos rfl]
    have hlive := length_dismiss hcoherent (hcoherent.live_of_occupant hdst) c
    rw [promote_eq hb hdst]
    unfold withdraw
    rw [hdst]
    change ((((g.brought s).dismiss s.man).live.modify s.man.colour (· ++ [_])).get c).length + _ =
      ((g.brought s).live.get c).length + _
    rw [Sides.get_modify]
    split_ifs at hlive ⊢ with hc
    · rw [List.length_append, List.length_singleton, hlive]
      rfl
    · rw [← hlive]
      rfl

theorem muster_logged (g : Game) (r : MoveRecord) (resetClock : Bool) (c : Colour) :
    (g.logged r resetClock).muster c = g.muster c := rfl

theorem Turn.muster (t : g.Turn g') (h : g.Consistent) (c : Colour) :
    g'.muster c = g.muster c := by
  obtain ⟨r, hmoves, _⟩ := t.log
  rcases Plays.cases ⟨t, hmoves⟩ with ⟨s, hs, rfl, -⟩ | ⟨w, hw, rfl, -⟩
  · rw [afterStep, muster_logged]
    exact muster_execute hs h c
  · obtain ⟨k, rook, hh⟩ := atHome_of_canCastle hw
    rw [afterCastle, muster_logged, executeCastle_eq h hw hh]
    rfl

/-! ### The half-move clock -/

/-- The clock counts the records at the end of the log that do not set it back, and goes on from
where it stood only if no record does. -/
theorem clock_eq (half : Int) (rs : List MoveRecord) :
    clock half rs =
      (rs.rtakeWhile fun r => !r.resets).length + if rs.any (·.resets) then 0 else half := by
  induction rs using List.reverseRecOn with
  | nil => exact (Int.zero_add half).symm
  | append_singleton rs r ih =>
    rw [clock_append, List.rtakeWhile_concat, List.any_append, List.any_cons, List.any_nil,
      Bool.or_false]
    cases r.resets with
    | true => simp
    | false =>
      simp only [Bool.false_eq_true, Bool.not_false, Bool.or_false, if_true, if_false,
        List.length_append, List.length_singleton, Nat.cast_add, Nat.cast_one, ih]
      omega

theorem tallied_start : Tallied 0 0 start := by
  constructor <;> rw [unplayed_start.moves] <;> decide +kernel

theorem Tallied.setDepth {start half : Int} (h : Tallied start half g) (n : Nat) :
    Tallied start half { g with depth := n } := ⟨h.ply, h.turn, h.active, h.halfmove⟩

end Game

namespace Arbiter

variable {a b : Arbiter} {r : MoveRecord} {q : Request}

theorem Begun.tallied (ha : a.Begun) :
    0 ≤ a.halfmove.toInt ∧ ∃ start, Game.Tallied start a.halfmove.toInt a.toGame := by
  rcases ha with ⟨x, rfl⟩ | ⟨x, text, hload⟩
  · exact ⟨le_rfl, 0, Game.tallied_start.setDepth x.depth⟩
  · exact ⟨(counters_nonneg_of_loadFen hload).1, _, tallied_of_loadFen hload⟩

theorem accurate_of_answer (h : a.toGame.Consistent) (hq : a.answer q = (.ok r, b)) :
    r.Accurate a.toGame b.toGame := by
  obtain ⟨g', title, hplays, hb⟩ := answer_plays hq
  rw [hb]
  exact (hplays.accurate h).congr rfl rfl

/-- In any play the bits of every record say what was done; the men taken from a side are those
that the other side's records name, in order, and their letters stand in the window; no man is ever
lost or made; and the clock, as far as it can count, counts the records after the last that set it
back. -/
theorem records_agree (ha : a.Begun) (qs : List Request) :
    (∀ before r after, (a.run qs).moves = before ++ r :: after →
      ∃ first q rest b, qs = first ++ q :: rest ∧ (a.run first).moves = before ∧
        (a.run first).answer q = (.ok r, b) ∧ r.Accurate (a.run first).toGame b.toGame) ∧
    (∀ c, ((a.run qs).captured.get c).map (·.kind) = Game.losses (a.run qs).moves c ∧
      (∀ w : Window, w.arbiter = a.run qs →
        w.takenBy c.opposite = String.ofList
          (((a.run qs).captured.get c).flatMap fun m => [m.kind.letter, ' '])) ∧
      (a.run qs).muster c = a.muster c) ∧
    let clock : Int := ((a.run qs).moves.rtakeWhile fun r => !r.resets).length +
      if (a.run qs).moves.any (·.resets) then 0 else a.halfmove.toInt
    clock < 2 ^ 31 → (a.run qs).halfmove.toInt = clock := by
  obtain ⟨hhalf, start, htallied⟩ := ha.tallied
  -- the four are carried along together, for a turn keeps the others only in a consistent game
  have hkept : (a.run qs).toGame.Consistent ∧ (a.run qs).LossesTold ∧
      (∀ c, (a.run qs).muster c = a.muster c) ∧
      Game.Tallied start a.halfmove.toInt (a.run qs).toGame := by
    refine run_keeps (P := fun g => g.Consistent ∧ g.LossesTold ∧ (∀ c, g.muster c = a.muster c) ∧
      Game.Tallied start a.halfmove.toInt g) ?_ ?_ ?_ qs
    · rintro g g' ht ⟨hg, hlosses, hmuster, hclock⟩
      exact ⟨ht.consistent hg, ht.lossesTold hg hlosses, fun c => (ht.muster hg c).trans (hmuster c),
        ht.tallied hclock⟩
    · rintro g title ⟨hg, hlosses, hmuster, hclock⟩
      refine ⟨hg.retitle title, hlosses.retitle title, ?_, hclock.retitle title⟩
      rw [Game.retitle_eq]
      exact hmuster
    · exact ⟨ha.consistent, ha.unplayed.lossesTold, fun _ => rfl, htallied⟩
  obtain ⟨-, hlosses, hmuster, hclock⟩ := hkept
  refine ⟨fun before r after hlog => ?_, fun c => ⟨hlosses c, fun w hw => ?_, hmuster c⟩, ?_⟩
  · rw [← List.nil_append before, ← ha.moves_eq_nil] at hlog
    obtain ⟨first, q, rest, b, hqs, hfirst, hq⟩ := answer_of_logged hlog
    rw [ha.moves_eq_nil, List.nil_append] at hfirst
    exact ⟨first, q, rest, b, hqs, hfirst, hq, accurate_of_answer (ha.consistent_run first) hq⟩
  · unfold Window.takenBy
    rw [hw]
    have htaken := hlosses c
    unfold Game.losses at htaken
    rw [← htaken, List.flatMap_map]
  · intro clock hroom
    have hnumber := Game.clock_eq a.halfmove.toInt (a.run qs).moves
    rw [hclock.halfmove, hnumber]
    exact Int32.toInt_ofInt_of_le (by omega) hroom

def cornered : String := "r3k2r/6P1/8/8/8/8/8/4K3 w kq - 7 1"

def captureThenCastle : List Request :=
  [.play "gxh8=N", .castle .queen, .play "Nxf7", .play "Ke2"]

theorem cornered_records_agree :
    (opening {}).loadFen cornered = (.ok (), loaded cornered) ∧
      (∃ r a b, ((loaded cornered).run captureThenCastle).moves.head? = some r ∧
        r.move.isPromotion = true ∧ r.Accurate a b) ∧
      (((loaded cornered).run captureThenCastle).captured.get .black).map (·.kind) = [.rook] ∧
      ((loaded cornered).run captureThenCastle).muster .black = 3 ∧
      ((loaded cornered).run captureThenCastle).halfmove.toInt = 2 := by
  have hload : (opening {}).loadFen cornered = (.ok (), loaded cornered) :=
    loadFen_of_isOk (by decide +kernel)
  have hpromoted : (((loaded cornered).run captureThenCastle).moves.head?.any
      (·.move.isPromotion)) = true := by
    decide +kernel
  have hfacts : Game.losses ((loaded cornered).run captureThenCastle).moves .black = [.rook] ∧
      (loaded cornered).muster .black = 3 ∧
      (((loaded cornered).run captureThenCastle).moves.rtakeWhile
        fun r => !r.resets).length = 2 ∧
      ((loaded cornered).run captureThenCastle).moves.any (·.resets) = true := by
    decide +kernel
  obtain ⟨hlosses, hmuster, hquiet, hreset⟩ := hfacts
  obtain ⟨hrecords, hlists, hclock⟩ := records_agree (.inr ⟨_, _, hload⟩) captureThenCastle
  obtain ⟨htaken, -, hkept⟩ := hlists .black
  rw [hquiet, hreset] at hclock
  refine ⟨hload, ?_, htaken.trans hlosses, hkept.trans hmuster, hclock (by decide)⟩
  obtain ⟨r, hhead, hr⟩ := (Option.any_eq_true _ _).1 hpromoted
  obtain ⟨after, hlog⟩ := List.head?_eq_some_iff.1 hhead
  obtain ⟨_, _, _, _, _, _, _, haccurate⟩ := hrecords [] r after hlog
  exact ⟨r, _, _, hhead, hr, haccurate⟩

end Arbiter

end ChessArbiter
