import ChessArbiter.Proofs.Records
import ChessArbiter.Proofs.Rollback
import ChessArbiter.Proofs.Telling

/-!
# Announcements

The captures and promotions announced are compared with the records of the log. A granted request
announces the deeds in its record and then only lines without any (`answer_granted_announces`); what
a written move is resolved to is never taken back, so a refused text announces nothing. But a step
between squares is told of before it is known to be safe, and a refusal does not take back the
telling (`capture_announced_and_refused`). Over a run without such steps the deeds announced are
those of the log, in order (`announced_exactly`).
-/

namespace ChessArbiter

namespace MoveRecord

def captureLine (r : MoveRecord) (passing : Bool) : List String :=
  match r.captured with
  | none => []
  | some k =>
    if passing then
      [Piece.label ⟨r.piece, r.colour⟩ ++ " captures " ++ Piece.label ⟨k, r.colour.opposite⟩
        ++ " en passant on " ++ (Square.mk r.move.dst.file r.move.src.rank).name]
    else
      [Piece.label ⟨r.piece, r.colour⟩ ++ " captures " ++ Piece.label ⟨k, r.colour.opposite⟩
        ++ " on " ++ r.move.dst.name]

def promotionLine (r : MoveRecord) : List String :=
  match r.move.promotion with
  | none => []
  | some k => [r.colour.label ++ " Pawn promoted to " ++ k.label ++ " on " ++ r.move.dst.name]

/-- These lines tell of the deeds in a record, each of them once. That a pawn took in passing shows
in the flag unless it promotes as well. -/
def Announces (r : MoveRecord) (lines : List String) : Prop :=
  ∃ passing, (r.move.promotion = none → (passing = true ↔ r.move.flag = .enPassant)) ∧
    lines = r.captureLine passing ++ r.promotionLine

theorem isDeed_of_announces {r : MoveRecord} {lines : List String} (h : r.Announces lines) :
    ∀ line ∈ lines, isDeed line = true := by
  obtain ⟨passing, -, rfl⟩ := h
  intro line hline
  rw [isDeed, Bool.or_eq_true]
  rcases List.mem_append.1 hline with hcapture | hpromotion
  · left
    unfold captureLine at hcapture
    split at hcapture
    · cases hcapture
    · split_ifs at hcapture
      · rw [List.mem_singleton.1 hcapture]
        simp only [String.toList_append, List.append_assoc]
        exact Text.occursIn_append_right _ _ _
      · rw [List.mem_singleton.1 hcapture]
        simp only [String.toList_append, List.append_assoc]
        exact Text.occursIn_append_right _ _ _
  · right
    have hwords : " Pawn promoted to ".toList = " Pawn".toList ++ " promoted to ".toList := rfl
    unfold promotionLine at hpromotion
    split at hpromotion
    · cases hpromotion
    · rw [List.mem_singleton.1 hpromotion]
      simp only [String.toList_append, hwords, List.append_assoc]
      rw [← List.append_assoc]
      exact Text.occursIn_append_right _ _ _

theorem announces_castle (c : Colour) (w : Wing) : (Game.castleRecord c w).Announces [] := by
  have hnone : (Game.castleRecord c w).move.promotion = none := by
    apply Move.promotion_ofParts_of_plain
    cases w <;> decide
  refine ⟨false, fun _ => ?_, ?_⟩
  · rw [Game.flag_castleRecord]
    cases w <;> decide
  · rw [promotionLine, hnone]
    rfl

end MoveRecord

namespace Game

variable {g : Game} {s : Step}

theorem Admits.announces (hs : g.Admits s) (h : g.Coherent) :
    (s.record (g.execute s).1).Announces (s.headlines (g.execute s).1) := by
  have hpromotion := promotion_flag hs.officer (g.execute s).1
  refine ⟨s.passing, fun hnone => ?_, ?_⟩
  · rw [hpromotion] at hnone
    rw [Step.flag_record_eq_enPassant hs.officer]
    exact (and_iff_right hnone).symm
  · have hpromoted : (s.record (g.execute s).1).promotionLine =
        match s.becomes with
        | none => []
        | some k => [s.man.colour.label ++ " Pawn promoted to " ++ k.label ++ " on "
            ++ s.dst.name] := by
      rw [MoveRecord.promotionLine, hpromotion, s.dst_record]
      rfl
    rw [hpromoted]
    unfold Step.headlines
    refine congrArg (· ++ _) ?_
    unfold MoveRecord.captureLine
    rw [s.src_record, s.dst_record]
    cases hv : (g.execute s).1 with
    | none => rfl
    | some v =>
      have hfoe : v.toPiece = ⟨v.kind, s.man.colour.opposite⟩ := by
        rw [fst_execute hs h] at hv
        rw [← hs.victim_foe h hv]
      dsimp only
      rw [hfoe]
      rfl

end Game

namespace Arbiter

variable {a b c : Arbiter} {r : MoveRecord} {e : MoveError} {w : Wing} {src dst : Square}
  {promotion : Option PieceKind} {n : Notation} {q : Request}

/-- What `b` has told since `a` are the deeds in the record, and then nothing but routine. -/
def Announced (a : Arbiter) (r : MoveRecord) (b : Arbiter) : Prop :=
  ∃ deeds rest, r.Announces deeds ∧ Routine rest ∧ a.Tells (a.aloud (deeds ++ rest)) b

theorem castle_granted_announces (h : a.castle w = (.ok r, b)) : Announced a r b := by
  obtain ⟨rest, hroutine, hrest⟩ := castle_granted_tells h
  rw [record_of_castle h]
  exact ⟨[], rest, MoveRecord.announces_castle a.active w, hroutine, hrest⟩

theorem move_granted_announces (hcon : a.Consistent)
    (h : a.move src dst promotion = (.ok r, b)) : Announced a r b := by
  have hmove := h
  unfold move at h
  split at h
  case h_1 => cases h
  case h_2 w hw => exact castle_granted_announces h
  case h_3 s hs =>
    obtain ⟨rest, hroutine, hrest⟩ := carryOut_granted_tells h
    have hadm := (Game.admits_of_assess hs).1
    rw [record_of_step hs hmove]
    exact ⟨_, rest, hadm.announces hcon.toCoherent, hroutine, hrest⟩

theorem attempt_of_resolved {m : Move} (hcastle : n.castle = none)
    (h : (a.resolve n).1 = .ok m) : (a.attempt m.src m.dst n.promotion).isSome = true := by
  unfold resolve at h
  rw [hcastle] at h
  cases hdst : n.dst with
  | none =>
    rw [hdst] at h
    cases h
  | some dst =>
    rw [hdst] at h
    obtain ⟨man, src, hmeant, rfl⟩ := resolveTo_ok h
    have hmem : (man, src) ∈ a.meant n dst := hmeant ▸ List.mem_singleton_self _
    rw [Move.src_ofParts, Move.dst_ofParts]
    exact (List.mem_filter.1 hmem).2

/-! ### What an answer tells -/

theorem Tells.announced (h : a.Tells [] b) (hdepth : b.depth = a.depth)
    (hb : Announced b r c) : Announced a r c := by
  obtain ⟨deeds, rest, hdeeds, hroutine, htold⟩ := hb
  refine ⟨deeds, rest, hdeeds, hroutine, ?_⟩
  rw [← aloud_congr hdepth h.threshold]
  exact h.trans htold

theorem playNotation_granted_announces (hcon : a.Consistent)
    (h : a.playNotation n = (.ok r, b)) : Announced a r b := by
  have hquiet := a.resolve_tells n
  have hgame := toGame_resolve a n
  unfold playNotation at h
  split at h
  · exact castle_granted_announces h
  · split at h
    case h_1 => cases h
    case h_2 m a' hm =>
      rw [hm] at hquiet hgame
      have hcon' : a'.Consistent := by
        rw [hgame]
        exact hcon
      exact hquiet.announced (congrArg Game.depth hgame) (move_granted_announces hcon' h)

theorem playNotation_refused_tells (h : a.playNotation n = (.error e, b)) : a.Tells [] b := by
  have hquiet := a.resolve_tells n
  have hgame := toGame_resolve a n
  unfold playNotation at h
  split at h
  · exact castle_refused_tells h
  · rename_i hcastle
    split at h
    case h_1 e' a' hm =>
      obtain ⟨-, rfl⟩ := Prod.mk.inj h
      rwa [hm] at hquiet
    case h_2 m a' hm =>
      have hgranted := attempt_of_resolved hcastle (congrArg Prod.fst hm)
      rw [hm] at hgame
      rw [← hgame, (move_error h).1] at hgranted
      cases hgranted

theorem play_granted_announces (hcon : a.Consistent) {text : String}
    (h : a.play text = (.ok r, b)) : Announced a r b := by
  have hdebug : LogLevel.debug ≠ .info := nofun
  unfold play at h
  split at h
  case h_1 => cases h
  case h_2 n hn =>
    dsimp only at h
    split at h
    case h_1 => cases h
    case h_2 r' a' hm =>
      have hquiet := note_tells_nothing hdebug a ("=== Turn " ++ toString a.turn.toInt
        ++ ": expanding " ++ a.active.label ++ "'s move '" ++ text ++ "'")
      obtain ⟨deeds, rest, hdeeds, hroutine, htold⟩ :=
        hquiet.announced rfl (playNotation_granted_announces hcon hm)
      obtain ⟨hr, rfl⟩ := Prod.mk.inj h
      refine ⟨deeds, rest, ?_, hroutine, ?_⟩
      · rw [← Except.ok.inj hr]
        exact hdeeds
      · exact ⟨htold.threshold, htold.infos⟩

theorem play_refused_tells {text : String} (h : a.play text = (.error e, b)) : a.Tells [] b := by
  have hdebug : LogLevel.debug ≠ .info := nofun
  have herror : LogLevel.error ≠ .info := nofun
  unfold play at h
  split at h
  case h_1 e' _ =>
    obtain ⟨-, rfl⟩ := Prod.mk.inj h
    exact note_tells_nothing herror a _
  case h_2 n hn =>
    dsimp only at h
    split at h
    case h_1 e' a' hm =>
      have hquiet := note_tells_nothing hdebug a ("=== Turn " ++ toString a.turn.toInt
        ++ ": expanding " ++ a.active.label ++ "'s move '" ++ text ++ "'")
      have hrefused := hquiet.trans (playNotation_refused_tells hm)
      obtain ⟨-, rfl⟩ := Prod.mk.inj h
      exact hrefused.trans (note_tells_nothing herror a' _)
    case h_2 => cases h

/-- What is told of a request that is carried out in part and then refused. -/
def takenBackBy (a : Arbiter) : Request → List String
  | .move src dst promotion => a.takenBack src dst promotion
  | .moveByName src dst =>
    match Wing.ofText? src, Square.parse src, Square.parse dst with
    | none, .ok s, .ok t => a.takenBack s t none
    | _, _, _ => []
  | .castle _ => []
  | .play _ => []

theorem answer_granted_announces (hcon : a.Consistent) (h : a.answer q = (.ok r, b)) :
    Announced a r b := by
  cases q with
  | move src dst promotion => exact move_granted_announces hcon h
  | moveByName src dst =>
    change a.moveByName src dst = _ at h
    unfold moveByName at h
    split at h
    · exact castle_granted_announces h
    · split at h
      · exact move_granted_announces hcon h
      · cases h
      · cases h
  | castle w => exact castle_granted_announces h
  | play text => exact play_granted_announces hcon h

theorem answer_refused_tells (h : a.answer q = (.error e, b)) :
    a.Tells (a.aloud (a.takenBackBy q)) b ∧ (a.takenBackBy q ≠ [] → e.kind = .selfCheck) := by
  have hnone : a.aloud [] = [] := ite_self []
  have hsilent : a.Tells [] b → a.takenBackBy q = [] →
      a.Tells (a.aloud (a.takenBackBy q)) b ∧ (a.takenBackBy q ≠ [] → e.kind = .selfCheck) := by
    intro htold hback
    rw [hback, hnone]
    exact ⟨htold, fun hne => absurd rfl hne⟩
  cases q with
  | move src dst promotion => exact move_refused_tells h
  | moveByName src dst =>
    change a.moveByName src dst = _ at h
    unfold moveByName at h
    split at h
    case h_1 w hw =>
      refine hsilent (castle_refused_tells h) ?_
      rw [takenBackBy, hw]
    case h_2 hw =>
      split at h
      case h_1 s t hs ht =>
        rw [takenBackBy, hw, hs, ht]
        exact move_refused_tells h
      case h_2 e' hs =>
        obtain ⟨-, rfl⟩ := Prod.mk.inj h
        refine hsilent (tells_nothing rfl) ?_
        rw [takenBackBy, hw, hs]
      case h_3 s e' hs ht =>
        obtain ⟨-, rfl⟩ := Prod.mk.inj h
        refine hsilent (tells_nothing rfl) ?_
        rw [takenBackBy, hw, hs, ht]
  | castle w => exact hsilent (castle_refused_tells h) rfl
  | play text => exact hsilent (play_refused_tells h) rfl

/-! ### Runs -/

def deeds (a : Arbiter) : List String := a.infos.filter isDeed

theorem Announced.deeds_eq (h : Announced a r b) (hheard : a.heard = true) :
    ∃ deeds, r.Announces deeds ∧ b.deeds = a.deeds ++ deeds := by
  obtain ⟨deeds, rest, hdeeds, hroutine, htold⟩ := h
  have hall := MoveRecord.isDeed_of_announces hdeeds
  have hnone : rest.filter isDeed = [] := by
    rw [List.filter_eq_nil_iff]
    intro line hline
    rw [hroutine line hline]
    exact Bool.false_ne_true
  refine ⟨deeds, hdeeds, ?_⟩
  rw [Arbiter.deeds, htold.infos, aloud_of_heard hheard, List.filter_append, List.filter_append,
    List.filter_eq_self.2 hall, hnone, List.append_nil]
  rfl

/-- No request of the run has a capture or a promotion of it told and taken back. -/
def TakesNothingBack (a : Arbiter) : List Request → Prop
  | [] => True
  | q :: qs => a.takenBackBy q = [] ∧ (a.answer q).2.TakesNothingBack qs

theorem deeds_run (hcon : a.Consistent) (hheard : a.heard = true) {qs : List Request}
    (hback : a.TakesNothingBack qs) :
    ∃ rs told, (a.run qs).moves = a.moves ++ rs ∧ List.Forall₂ MoveRecord.Announces rs told ∧
      (a.run qs).deeds = a.deeds ++ told.flatten := by
  induction qs generalizing a with
  | nil => exact ⟨[], [], (List.append_nil _).symm, .nil, (List.append_nil _).symm⟩
  | cons q qs ih =>
    have hcon' := consistent_answer hcon q
    have hdepth := (extends_answer a q).depth
    obtain ⟨hfirst, hlater⟩ := hback
    rw [run_cons]
    rcases hq : a.answer q with ⟨e | r, b⟩
    -- refused: nothing is logged, and nothing was announced that had to be taken back
    · have htold := (answer_refused_tells hq).1
      rw [hfirst, aloud_of_heard hheard] at htold
      rw [hq] at hcon' hdepth hlater
      have hsame : b.heard = true := (heard_congr hdepth htold.threshold).trans hheard
      obtain ⟨rs, told, hmoves, hall, hdeeds⟩ := ih hcon' hsame hlater
      refine ⟨rs, told, ?_, hall, ?_⟩
      · rw [hmoves, (answer_error hq).1]
      · rw [hdeeds, deeds, htold.infos, List.append_nil]
        rfl
    · have hannounced := answer_granted_announces hcon hq
      obtain ⟨block, hblock, hdeed⟩ := hannounced.deeds_eq hheard
      obtain ⟨_, _, _, _, htold⟩ := hannounced
      obtain ⟨g', title, -, hb⟩ := answer_plays hq
      rw [hq] at hcon' hdepth hlater
      have hsame : b.heard = true := (heard_congr hdepth htold.threshold).trans hheard
      obtain ⟨rs, told, hmoves, hall, hdeeds⟩ := ih hcon' hsame hlater
      refine ⟨r :: rs, block :: told, ?_, .cons hblock hall, ?_⟩
      · rw [hmoves, hb]
        exact List.append_assoc _ _ _
      · rw [hdeeds, hdeed, List.flatten_cons, List.append_assoc]

/-- With no scope open and a journal that keeps announcements, a refused request announces nothing,
unless it is a move refused for the check it would leave: then the capture and the promotion of the
step taken back have been announced. A granted one announces the deeds in its record, each once. So
over a run in which no deed was taken back, the captures and promotions announced are those in the
log, in its order. -/
theorem announced_exactly (a : Arbiter) (hdepth : a.depth = 0)
    (hjournal : a.journal.enabled .info = true) :
    (∀ q e b, a.answer q = (.error e, b) → b.infos = a.infos ++ a.takenBackBy q ∧
      (a.takenBackBy q ≠ [] → e.kind = .selfCheck)) ∧
    (a.Consistent →
      (∀ q r b, a.answer q = (.ok r, b) →
        ∃ deeds, r.Announces deeds ∧ b.deeds = a.deeds ++ deeds) ∧
      ∀ qs, a.TakesNothingBack qs →
        ∃ rs told, (a.run qs).moves = a.moves ++ rs ∧
          List.Forall₂ MoveRecord.Announces rs told ∧
          (a.run qs).deeds = a.deeds ++ told.flatten) := by
  have hheard : a.heard = true := by
    rw [heard, hdepth, hjournal]
    rfl
  refine ⟨fun q e b hq => ?_, fun hcon => ⟨fun q r b hq => ?_, fun qs hback => ?_⟩⟩
  · obtain ⟨htold, hkind⟩ := answer_refused_tells hq
    rw [aloud_of_heard hheard] at htold
    exact ⟨htold.infos, hkind⟩
  · exact (answer_granted_announces hcon hq).deeds_eq hheard
  · exact deeds_run hcon hheard hback

def attentive (text : String) : Arbiter := ((opening { threshold := some .info }).loadFen text).2

/-- A pawn that takes in passing on the last rank is told of twice. -/
theorem passing_announced_exactly :
    (attentive passedOnLastRank).TakesNothingBack [.play "Kxe8", .play "dxe8"] ∧
    ∃ r, ((attentive passedOnLastRank).run [.play "Kxe8", .play "dxe8"]).moves = [r] ∧
      r.Announces ["White Pawn captures Black Pawn en passant on e7",
        "White Pawn promoted to Queen on e8"] := by
  have hload : (opening { threshold := some .info }).loadFen passedOnLastRank =
      (.ok (), attentive passedOnLastRank) := loadFen_of_isOk (by decide +kernel)
  have hfacts : (attentive passedOnLastRank).depth = 0 ∧
      (attentive passedOnLastRank).journal.enabled .info = true ∧
      (attentive passedOnLastRank).moves = [] ∧ (attentive passedOnLastRank).deeds = [] ∧
      ((attentive passedOnLastRank).run [.play "Kxe8", .play "dxe8"]).moves.length = 1 ∧
      ((attentive passedOnLastRank).run [.play "Kxe8", .play "dxe8"]).deeds =
        ["White Pawn captures Black Pawn en passant on e7",
          "White Pawn promoted to Queen on e8"] := by
    decide +kernel
  obtain ⟨hdepth, hjournal, hnil, hsilent, hone, htwo⟩ := hfacts
  have hback : (attentive passedOnLastRank).TakesNothingBack [.play "Kxe8", .play "dxe8"] :=
    ⟨rfl, rfl, trivial⟩
  obtain ⟨rs, told, hmoves, hall, hdeeds⟩ :=
    ((announced_exactly _ hdepth hjournal).2 (consistent_of_loadFen hload).1).2 _ hback
  rw [hnil, List.nil_append] at hmoves
  rw [hsilent, htwo, List.nil_append] at hdeeds
  rw [hmoves] at hone
  obtain ⟨r, rfl⟩ := List.length_eq_one_iff.1 hone
  cases hall with
  | @cons _ block _ rest hblock hrest =>
    cases hrest
    rw [List.flatten_singleton] at hdeeds
    exact ⟨hback, r, hmoves, hdeeds ▸ hblock⟩

def shielded : String := "4r1k1/8/8/8/8/3n4/4B3/4K3 w - - 0 1"

/-- The capture is announced, and then refused for the check it leaves. -/
theorem capture_announced_and_refused :
    (opening { threshold := some .info }).loadFen shielded = (.ok (), attentive shielded) ∧
      (attentive shielded).infos = [] ∧
      ∃ e b, (attentive shielded).answer (.move ⟨4, 1⟩ ⟨3, 2⟩ none) = (.error e, b) ∧
        e.kind = .selfCheck ∧ b.moves = [] ∧
        b.infos = ["White Bishop captures Black Knight on d3"] := by
  have hrefused : ((attentive shielded).answer (.move ⟨4, 1⟩ ⟨3, 2⟩ none)).1.isOk = false ∧
      ((attentive shielded).answer (.move ⟨4, 1⟩ ⟨3, 2⟩ none)).2.moves = [] ∧
      ((attentive shielded).answer (.move ⟨4, 1⟩ ⟨3, 2⟩ none)).2.infos =
        ["White Bishop captures Black Knight on d3"] ∧
      (attentive shielded).takenBackBy (.move ⟨4, 1⟩ ⟨3, 2⟩ none) ≠ [] := by
    decide +kernel
  obtain ⟨herror, hmoves, hinfos, hback⟩ := hrefused
  refine ⟨loadFen_of_isOk (by decide +kernel), by decide +kernel, ?_⟩
  rcases hq : (attentive shielded).answer (.move ⟨4, 1⟩ ⟨3, 2⟩ none) with ⟨e | r, b⟩
  · rw [hq] at hmoves hinfos
    exact ⟨e, b, rfl, (answer_refused_tells hq).2 hback, hmoves, hinfos⟩
  · rw [hq] at herror
    cases herror

end Arbiter

end ChessArbiter
