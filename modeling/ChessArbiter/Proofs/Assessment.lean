import ChessArbiter.Proofs.Consistency

/-!
# What an accepted request guarantees

`Game.assess` is opened here once: `assess_step_iff` and `assess_castle_iff` say when it answers
with a step and when with a castle. A step that it can answer with is one the game `Admits`. Of a
pawn that takes in passing such a step guarantees that the pawn taken is there, an enemy's, on the
square beside the source (`Admits.victim_of_passing`).
-/

namespace ChessArbiter

namespace Game

variable {g : Game} {m : Man} {s : Step} {src dst : Square} {promotion : Option PieceKind}

theorem moverAt_ok_iff :
    g.moverAt src dst = .ok m ↔
      g.board.occupant src = some m ∧ m.colour = g.active ∧ src ≠ dst := by
  unfold moverAt
  cases hs : g.board.occupant src with
  | none => simp
  | some n =>
    dsimp only
    split_ifs with hc hd
    · simp only [false_iff, Option.some.injEq]
      rintro ⟨rfl, hm, _⟩
      exact hc hm
    · simp [hd]
    · simp only [Except.ok.injEq, Option.some.injEq]
      constructor
      · rintro rfl
        exact ⟨rfl, not_not.1 hc, hd⟩
      · exact And.left

theorem captureObjection_eq_none_iff :
    g.captureObjection m src dst = none ↔
      ∀ v, g.board.occupant dst = some v → v.colour ≠ m.colour := by
  unfold captureObjection
  cases g.board.occupant dst with
  | none => simp
  | some v => simp

/-- The promotions that may be asked for: none, or an officer for a pawn on its last rank. -/
theorem promotionObjection_eq_none_iff :
    g.promotionObjection m src dst promotion = none ↔
      ∀ k, promotion = some k → m.promotesOn dst = true ∧ k.isOfficer = true := by
  cases promotion with
  | none => simp [promotionObjection]
  | some k =>
    simp only [promotionObjection, Man.promotesOn, Option.some.injEq, forall_eq',
      Bool.and_eq_true, beq_iff_eq]
    split_ifs <;> simp_all

theorem assess_step_iff :
    g.assess src dst promotion = .ok (.step s) ↔ ∃ m,
      (g.board.occupant src = some m ∧ m.colour = g.active ∧ src ≠ dst) ∧
      m.castleRequest src dst = none ∧ g.promotionObjection m src dst promotion = none ∧
      g.captureObjection m src dst = none ∧ g.obeysRules m dst = true ∧
      s = g.stepOf m src dst promotion := by
  simp only [← moverAt_ok_iff]
  unfold assess
  cases hm : g.moverAt src dst with
  | error e => simp
  | ok m =>
    simp only [Except.ok.injEq, exists_eq_left']
    cases m.castleRequest src dst with
    | some w => simp
    | none =>
      cases g.promotionObjection m src dst promotion with
      | some e => simp
      | none =>
        cases g.captureObjection m src dst with
        | some e => simp
        | none =>
          simp only [Option.or_none, true_and]
          split_ifs with hr
          · simp [hr, eq_comm]
          · simp [hr]

theorem assess_castle_iff {w : Wing} :
    g.assess src dst promotion = .ok (.castle w) ↔ ∃ m,
      (g.board.occupant src = some m ∧ m.colour = g.active ∧ src ≠ dst) ∧
      m.castleRequest src dst = some w := by
  simp only [← moverAt_ok_iff]
  unfold assess
  cases hm : g.moverAt src dst with
  | error e => simp
  | ok m =>
    simp only [Except.ok.injEq, ↓existsAndEq, true_and]
    cases m.castleRequest src dst with
    | some v => simp
    | none =>
      cases (g.promotionObjection m src dst promotion).or (g.captureObjection m src dst) with
      | some e => simp
      | none => dsimp only; split_ifs <;> simp

theorem castleRequest_eq_some_iff {w : Wing} :
    m.castleRequest src dst = some w ↔ m.kind = .king ∧
      (CastlePath.of m.colour w).kingFrom = src ∧ (CastlePath.of m.colour w).kingTo = dst := by
  unfold Man.castleRequest
  split_ifs with hk
  · simp only [hk, true_and, Wing.all, List.find?_cons, List.find?_nil]
    cases w <;> cases m.colour <;> grind [CastlePath.of]
  · simp [hk]

/-- A step that may answer a request made of this game. -/
structure Admits (g : Game) (s : Step) : Prop where
  source : g.board.occupant s.src = some s.man
  mover : s.man.colour = g.active
  src_ne_dst : s.src ≠ s.dst
  foe : ∀ v, g.board.occupant s.dst = some v → v.colour ≠ s.man.colour
  rules : g.obeysRules s.man s.dst = true
  passing_eq : s.passing = g.isPassing s.man s.dst
  becomes_isSome : s.becomes.isSome = s.man.promotesOn s.dst
  officer : ∀ k, s.becomes = some k → k.isOfficer = true

theorem admits_of_assess (h : g.assess src dst promotion = .ok (.step s)) :
    g.Admits s ∧ s.src = src ∧ s.dst = dst := by
  obtain ⟨m, ⟨hs, hm, hne⟩, _, hp, hc, hr, rfl⟩ := assess_step_iff.1 h
  rw [promotionObjection_eq_none_iff] at hp
  refine ⟨⟨hs, hm, hne, captureObjection_eq_none_iff.1 hc, hr, rfl, ?_, ?_⟩, rfl, rfl⟩
  · cases hpr : m.promotesOn dst <;> simp [stepOf, hpr]
  · intro k hk
    simp only [stepOf] at hk
    split_ifs at hk
    cases promotion with
    | none =>
      cases hk
      rfl
    | some k' =>
      cases hk
      exact (hp _ rfl).2

/-! ### The rules of each kind -/

theorem holdsOpponent_iff :
    g.holdsOpponent m dst = true ↔ ∃ v, g.board.occupant dst = some v ∧ v.colour ≠ m.colour := by
  unfold Table.holdsOpponent
  cases g.board.occupant dst <;> simp

theorem holdsOpponent_eq (hfoe : ∀ v, g.board.occupant dst = some v → v.colour ≠ m.colour) :
    g.holdsOpponent m dst = !g.board.isEmpty dst := by
  unfold Table.holdsOpponent Board.isEmpty
  cases hd : g.board.occupant dst with
  | none => rfl
  | some v => simpa using hfoe v hd

theorem passedBy_iff (hm : g.square? m = some src) :
    g.passedBy m dst = true ↔ g.enPassant = some dst ∧ g.board.occupant dst = none ∧
      ∃ v, g.board.occupant ⟨dst.file, src.rank⟩ = some v ∧ v.kind = .pawn ∧
        v.colour ≠ m.colour := by
  unfold passedBy
  simp only [hm, Option.any_some, Bool.and_eq_true, beq_iff_eq, Board.isEmpty_iff, and_assoc,
    Option.any_eq_true, bne_iff_ne, ne_eq]

theorem isPassing_iff (h : g.Coherent) (hs : g.board.occupant src = some m) :
    g.isPassing m dst = true ↔ m.kind = .pawn ∧ g.enPassant = some dst ∧
      g.board.occupant dst = none ∧ m.bearsOn g.board.isEmpty src dst = true ∧
      ∃ v, g.board.occupant ⟨dst.file, src.rank⟩ = some v ∧ v.kind = .pawn ∧
        v.colour ≠ m.colour := by
  have hm := h.square?_of_occupant hs
  unfold isPassing
  simp only [Bool.and_eq_true, beq_iff_eq, Board.isEmpty_iff]
  constructor
  · rintro ⟨⟨⟨hk, hd⟩, hep⟩, ht⟩
    simp only [canTake, hk, Bool.and_eq_true, Bool.or_eq_true, holdsOpponent_iff, hd,
      reduceCtorEq, false_and, exists_false, false_or, passedBy_iff hm,
      Table.attacks_eq_bearsOn h.faithful hm] at ht
    exact ⟨hk, hep, hd, ht.1, ht.2.2.2⟩
  · rintro ⟨hk, hep, hd, hb, hv⟩
    refine ⟨⟨⟨hk, hd⟩, hep⟩, ?_⟩
    simp only [canTake, hk, Bool.and_eq_true, Bool.or_eq_true, passedBy_iff hm,
      Table.attacks_eq_bearsOn h.faithful hm]
    exact ⟨hb, .inr ⟨hep, hd, hv⟩⟩

variable (h : g.Coherent) (hs : g.board.occupant src = some m)
  (hfoe : ∀ v, g.board.occupant dst = some v → v.colour ≠ m.colour)

include h hs hfoe

theorem obeysRules_officer (hk : m.kind.isOfficer = true) :
    g.obeysRules m dst = m.bearsOn g.board.isEmpty src dst := by
  have hpassing : g.isPassing m dst = false := by
    cases hkind : m.kind <;> simp [hkind, PieceKind.isOfficer] at hk <;> simp [isPassing, hkind]
  have hmove : g.canMoveTo m dst = m.bearsOn g.board.isEmpty src dst := by
    rw [← Table.attacks_eq_bearsOn h.faithful (h.square?_of_occupant hs)]
    cases hkind : m.kind <;> simp [hkind, PieceKind.isOfficer] at hk <;>
      simp only [canMoveTo, hkind]
  have htake : g.canTake m dst = (g.canMoveTo m dst && g.holdsOpponent m dst) := by
    cases hkind : m.kind <;> simp [hkind, PieceKind.isOfficer] at hk <;> simp only [canTake, hkind]
  unfold obeysRules
  rw [hpassing, htake, holdsOpponent_eq hfoe, hmove]
  cases g.board.isEmpty dst <;> simp

theorem obeysRules_king (hk : m.kind = .king) :
    g.obeysRules m dst = (m.bearsOn g.board.isEmpty src dst &&
      !g.isAttackedWithout dst m.colour.opposite src) := by
  have hm := h.square?_of_occupant hs
  have hpassing : g.isPassing m dst = false := by simp [isPassing, hk]
  have hmove : g.canMoveTo m dst = (m.bearsOn g.board.isEmpty src dst &&
      !g.isAttackedWithout dst m.colour.opposite src) := by
    simp only [canMoveTo, hk, kingSteps, hm, Option.any_some, Table.reaches, Piece.reaches]
    rw [Piece.bearsOn_king hk]
  have htake : g.canTake m dst = (g.canMoveTo m dst && g.holdsOpponent m dst) := by
    simp only [canTake, hk]
  unfold obeysRules
  rw [hpassing, htake, holdsOpponent_eq hfoe, hmove]
  cases g.board.isEmpty dst <;> simp

theorem obeysRules_pawn (hk : m.kind = .pawn) :
    g.obeysRules m dst = true ↔ g.pawnAdvances m dst = true ∨
      (m.bearsOn g.board.isEmpty src dst = true ∧ g.board.occupant dst ≠ none) ∨
      g.isPassing m dst = true := by
  have hm := h.square?_of_occupant hs
  have hmove : g.canMoveTo m dst = g.pawnAdvances m dst := by simp only [canMoveTo, hk]
  unfold obeysRules
  rw [hmove]
  by_cases hd : g.board.occupant dst = none
  · rw [if_pos (Board.isEmpty_iff.2 hd), Bool.or_eq_true]
    simp only [hd, ne_eq, not_true_eq_false, and_false, false_or]
    exact or_comm
  · have hne : g.board.isEmpty dst = false := by
      simpa [Board.isEmpty] using Option.ne_none_iff_isSome.1 hd
    have hadv : g.pawnAdvances m dst = false := by
      simp [pawnAdvances, hne, hm]
    have hpass : g.isPassing m dst = false := by simp [isPassing, hne]
    have hopp : g.holdsOpponent m dst = true := by rw [holdsOpponent_eq hfoe, hne]; rfl
    simp [hne, hadv, hpass, canTake, hk, hopp, hd, Table.attacks_eq_bearsOn h.faithful hm]

omit hfoe

/-- Whoever is captured where the mover arrives was under the mover's attack. -/
theorem bearsOn_of_capture (hfoe : ∀ v, g.board.occupant dst = some v → v.colour ≠ m.colour)
    (hr : g.obeysRules m dst = true) (hd : g.board.occupant dst ≠ none) :
    m.bearsOn g.board.isEmpty src dst = true := by
  cases hk : m.kind with
  | pawn =>
    rcases (obeysRules_pawn h hs hfoe hk).1 hr with hadv | ⟨hb, _⟩ | hp
    · simp only [pawnAdvances, h.square?_of_occupant hs, Option.any_some, Bool.and_eq_true,
        Board.isEmpty_iff] at hadv
      exact absurd hadv.2 hd
    · exact hb
    · exact absurd ((isPassing_iff h hs).1 hp).2.2.1 hd
  | king =>
    rw [obeysRules_king h hs hfoe hk, Bool.and_eq_true] at hr
    exact hr.1
  | knight | bishop | rook | queen =>
    rwa [obeysRules_officer h hs hfoe (by rw [hk]; rfl)] at hr

end Game

end ChessArbiter
