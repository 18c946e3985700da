import ChessArbiter.Proofs.Clicks
import ChessArbiter.Proofs.Records

/-!
# Asking for a promotion

Whoever asks for a promotion gets that officer or is refused. A step of a man who cannot have what
is asked for is refused for the promotion, whatever else may be said of it, and a pawn on its last
rank becomes what was asked for (`promotion_honoured`). A king's step by which he castles is the
one request that is taken up before the promotion is looked at, and then nobody looks at it.
-/

namespace ChessArbiter

namespace Game

variable {g : Game} {m : Man} {s : Step} {src dst : Square} {k : PieceKind} {w : Wing}
  {e : MoveError} {promotion : Option PieceKind}

theorem kind_of_promotionObjection (h : g.promotionObjection m src dst promotion = some e) :
    e.kind = .promotionError := by
  unfold promotionObjection at h
  split at h
  · cases h
  · split_ifs at h <;> exact (congrArg MoveError.kind (Option.some.inj h)).symm

theorem assess_castle_asking (h : g.assess src dst promotion = .ok (.castle w))
    (promotion' : Option PieceKind) : g.assess src dst promotion' = .ok (.castle w) :=
  assess_castle_iff.2 (assess_castle_iff.1 h)

theorem assess_asking_refused (hs : g.assess src dst none = .ok (.step s))
    (hk : ¬(s.man.promotesOn dst = true ∧ k.isOfficer = true)) :
    ∃ e, g.assess src dst (some k) = .error e ∧ e.kind = .promotionError := by
  obtain ⟨m, hm, hcastle, _, _, _, hstep⟩ := assess_step_iff.1 hs
  obtain rfl : m = s.man := (congrArg Step.man hstep).symm
  have hobjects : g.promotionObjection s.man src dst (some k) ≠ none :=
    fun h => hk (promotionObjection_eq_none_iff.1 h k rfl)
  obtain ⟨e, he⟩ := Option.ne_none_iff_exists'.1 hobjects
  refine ⟨e, ?_, kind_of_promotionObjection he⟩
  unfold assess
  rw [moverAt_ok_iff.2 hm]
  dsimp only
  rw [hcastle, he]
  rfl

theorem asked_of_assess (hs : g.assess src dst (some k) = .ok (.step s)) :
    s.man.promotesOn dst = true ∧ k.isOfficer = true ∧ s.becomes = some k := by
  obtain ⟨m, _, _, hasked, _, _, rfl⟩ := assess_step_iff.1 hs
  obtain ⟨hpromotes, hofficer⟩ := promotionObjection_eq_none_iff.1 hasked k rfl
  exact ⟨hpromotes, hofficer, if_pos hpromotes⟩

theorem piece_afterStep_dst (hs : g.Admits s) (h : g.Coherent) (hb : s.becomes = some k) :
    (g.afterStep s).board.piece s.dst = some ⟨k, s.man.colour⟩ := by
  change (g.execute s).2.board.piece s.dst = _
  unfold Board.piece
  rw [occupant_execute hs h, if_pos rfl, arrival_of_some hb]
  rfl

end Game

namespace Arbiter

variable {a b : Arbiter} {r : MoveRecord} {src dst : Square} {k : PieceKind} {w : Wing} {s : Step}

/-- A king who castles may ask for any promotion, to no effect. -/
theorem move_castle_asking (hw : a.assess src dst none = .ok (.castle w)) (k : PieceKind) :
    a.move src dst (some k) = a.move src dst none := by
  unfold move
  rw [hw, Game.assess_castle_asking hw (some k)]

theorem move_asking_ok (h : a.toGame.Consistent)
    (hcastle : ∀ w, a.assess src dst none ≠ .ok (.castle w))
    (hmove : a.move src dst (some k) = (.ok r, b)) :
    (∃ m, a.board.occupant src = some m ∧ m.kind = .pawn ∧ m.colour = a.active) ∧
      dst.rank = a.active.lastRank ∧ k.isOfficer = true ∧ r.move.promotion = some k ∧
      b.board.piece dst = some ⟨k, a.active⟩ := by
  rcases Game.attempt_eq_some_iff.1 (move_ok hmove).1 with ⟨s, hs, _, hb⟩ | ⟨w, hw, _⟩
  · obtain ⟨hadm, rfl, rfl⟩ := Game.admits_of_assess hs
    obtain ⟨hpromotes, hofficer, hbecomes⟩ := Game.asked_of_assess hs
    rw [Man.promotesOn, Bool.and_eq_true, beq_iff_eq, beq_iff_eq, hadm.mover] at hpromotes
    refine ⟨⟨s.man, hadm.source, hpromotes.1, hadm.mover⟩, hpromotes.2, hofficer, ?_, ?_⟩
    · rw [record_of_step hs hmove, ← hbecomes]
      exact Game.promotion_flag hadm.officer _
    · rw [hb, ← hadm.mover]
      exact Game.piece_afterStep_dst hadm h.toCoherent hbecomes
  · exact absurd (Game.assess_castle_asking hw none) (hcastle w)

/-- Where the squares alone make a legal step, only the promotion can be refused. -/
theorem move_asking_of_legal (hcastle : ∀ w, a.assess src dst none ≠ .ok (.castle w))
    (hlegal : (a.move src dst none).1.isOk = true) {m : Man}
    (hm : a.board.occupant src = some m) :
    ((a.move src dst (some k)).1.isOk = true ↔
        m.promotesOn dst = true ∧ k.isOfficer = true) ∧
      ∀ e b, a.move src dst (some k) = (.error e, b) → e.kind = .promotionError := by
  rw [isOk_move] at hlegal
  obtain ⟨g', hg'⟩ := Option.isSome_iff_exists.1 hlegal
  rcases Game.attempt_eq_some_iff.1 hg' with ⟨s, hs, _⟩ | ⟨w, hw, _⟩
  · obtain ⟨hadm, rfl, rfl⟩ := Game.admits_of_assess hs
    obtain rfl : s.man = m := Option.some.inj (hadm.source.symm.trans hm)
    by_cases hk : s.man.promotesOn s.dst = true ∧ k.isOfficer = true
    · have hpawn := Bool.and_eq_true_iff.1 hk.1
      -- whether the king is safe does not depend on what the pawn becomes
      have hgranted : (a.move s.src s.dst (some k)).1.isOk = true := by
        rw [isOk_move]
        exact Game.isSome_attempt_officer hm (eq_of_beq hpawn.1) (eq_of_beq hpawn.2) hk.2 hlegal
      refine ⟨iff_of_true hgranted hk, fun e b hmove => ?_⟩
      rw [hmove] at hgranted
      cases hgranted
    · obtain ⟨e', he', hkind⟩ := Game.assess_asking_refused hs hk
      have hrefused : a.move s.src s.dst (some k) = a.refuse e' := by
        unfold move
        rw [he']
      refine ⟨iff_of_false (by rw [hrefused]; nofun) hk, fun e b hmove => ?_⟩
      rw [hrefused] at hmove
      cases hmove
      exact hkind
  · exact absurd hw (hcastle w)

/-- Unless a king castles, a move with a promotion is granted only to a pawn that reaches its last
rank and becomes the officer asked for, and where the squares alone would do, anything else that is
asked for is refused as a promotion and changes nothing. A castle is made, or refused, as if no
promotion had been asked for. -/
theorem promotion_honoured (h : a.toGame.Consistent) (src dst : Square) (k : PieceKind) :
    (∀ w, a.assess src dst none = .ok (.castle w) →
      a.move src dst (some k) = a.move src dst none) ∧
    ((∀ w, a.assess src dst none ≠ .ok (.castle w)) →
      (∀ r b, a.move src dst (some k) = (.ok r, b) →
        (∃ m, a.board.occupant src = some m ∧ m.kind = .pawn ∧ m.colour = a.active) ∧
          dst.rank = a.active.lastRank ∧ k.isOfficer = true ∧ r.move.promotion = some k ∧
          b.board.piece dst = some ⟨k, a.active⟩) ∧
      ∀ m, a.board.occupant src = some m → (a.move src dst none).1.isOk = true →
        ((a.move src dst (some k)).1.isOk = true ↔
          m.promotesOn dst = true ∧ k.isOfficer = true) ∧
        ∀ e b, a.move src dst (some k) = (.error e, b) →
          e.kind = .promotionError ∧ b.toGame = a.toGame) := by
  refine ⟨fun w hw => move_castle_asking hw k, fun hcastle =>
    ⟨fun r b hmove => move_asking_ok h hcastle hmove, fun m hm hlegal => ?_⟩⟩
  obtain ⟨hgranted, hrefused⟩ := move_asking_of_legal (k := k) hcastle hlegal hm
  exact ⟨hgranted, fun e b hmove => ⟨hrefused e b hmove, (move_error hmove).2.1⟩⟩

def aboutToPromote : Arbiter :=
  ((opening {}).loadFen "8/k2P4/8/8/8/8/8/4K2R w K - 0 1").2

/-- The king asks to become a queen, and castles. -/
theorem castle_with_promotion :
    (aboutToPromote.move ⟨4, 0⟩ ⟨6, 0⟩ (some .queen)).1.toOption.map
      (fun r => (r.piece, r.move.flag, r.move.promotion)) =
      some (.king, .kingCastle, none) := by
  decide +kernel

/-- The pawn becomes a knight when that is asked for, and the king stays what it is. -/
theorem knight_asked_for :
    (∃ r b, aboutToPromote.move ⟨3, 6⟩ ⟨3, 7⟩ (some .knight) = (.ok r, b) ∧
      r.move.promotion = some .knight ∧ b.board.piece ⟨3, 7⟩ = some ⟨.knight, .white⟩) ∧
    ∃ e b, aboutToPromote.move ⟨4, 0⟩ ⟨4, 1⟩ (some .queen) = (.error e, b) ∧
      e.kind = .promotionError ∧ b.toGame = aboutToPromote.toGame := by
  have hload : (opening {}).loadFen "8/k2P4/8/8/8/8/8/4K2R w K - 0 1" =
      (.ok (), aboutToPromote) := loadFen_of_isOk (by decide +kernel)
  have hcon := (consistent_of_loadFen hload).1
  have hactive : aboutToPromote.active = .white := by decide +kernel
  constructor
  · have hcastle : ∀ w, aboutToPromote.assess ⟨3, 6⟩ ⟨3, 7⟩ none ≠ .ok (.castle w) := by
      intro w
      cases w <;> decide +kernel
    have hgranted : (aboutToPromote.move ⟨3, 6⟩ ⟨3, 7⟩ (some .knight)).1.isOk = true := by
      decide +kernel
    rcases hmove : aboutToPromote.move ⟨3, 6⟩ ⟨3, 7⟩ (some .knight) with ⟨e | r, b⟩
    · rw [hmove] at hgranted
      cases hgranted
    · obtain ⟨_, _, _, hrecord, hboard⟩ :=
        ((promotion_honoured hcon ⟨3, 6⟩ ⟨3, 7⟩ .knight).2 hcastle).1 r b hmove
      rw [hactive] at hboard
      exact ⟨r, b, rfl, hrecord, hboard⟩
  · have hcastle : ∀ w, aboutToPromote.assess ⟨4, 0⟩ ⟨4, 1⟩ none ≠ .ok (.castle w) := by
      intro w
      cases w <;> decide +kernel
    have hlegal : (aboutToPromote.move ⟨4, 0⟩ ⟨4, 1⟩ none).1.isOk = true := by decide +kernel
    have hrefused : (aboutToPromote.move ⟨4, 0⟩ ⟨4, 1⟩ (some .queen)).1.isOk = false := by
      decide +kernel
    obtain ⟨k, hk⟩ : ∃ k, aboutToPromote.board.occupant ⟨4, 0⟩ = some k :=
      Option.isSome_iff_exists.1 (by decide +kernel)
    rcases hmove : aboutToPromote.move ⟨4, 0⟩ ⟨4, 1⟩ (some .queen) with ⟨e | r, b⟩
    · exact ⟨e, b, rfl, (((promotion_honoured hcon ⟨4, 0⟩ ⟨4, 1⟩ .queen).2 hcastle).2
        k hk hlegal).2 e b hmove⟩
    · rw [hmove] at hrefused
      cases hrefused

end Arbiter

end ChessArbiter
