import ChessArbiter.Proofs.Resolving

/-!
# The king looks ahead

A king asks before it steps whether the square it goes to is attacked, with its own square counted
as empty and whoever stands on the destination left where it is. The answer is the one that the
board gives after the step (`isAttacked_stepped`): who attacks through the square left behind is
seen either way, and nobody attacks the square on which he stands. Hence a king that may step is
never brought back, and no safe step is refused it (`king_looks_ahead`).
-/

namespace ChessArbiter

namespace Game

variable {g : Game} {k : Man} {s : Step} {src dst u v : Square} {c : Colour}
  {promotion : Option PieceKind}

/-- To lift a man is to count his square as empty, for all but the men of his own side. -/
theorem isAttackedWithout_eq_lift (h : g.Consistent)
    (hv : ∀ m, g.board.occupant v = some m → m.colour ≠ c) :
    g.isAttackedWithout u c v = { g with toTable := (g.lift v).2 }.isAttacked u c := by
  have hempty : (g.lift v).2.board.isEmpty = fun t => g.board.isEmpty t || t == v := by
    funext t
    rw [Bool.eq_iff_iff, Bool.or_eq_true, beq_iff_eq, Board.isEmpty_iff, Board.isEmpty_iff,
      Table.occupant_lift]
    split_ifs with ht <;> simp [ht]
  rw [Bool.eq_iff_iff, isAttackedWithout_iff h, isAttacked_iff (h.toCoherent.lift v)]
  simp only [Table.occupant_lift, hempty]
  refine exists_congr fun t => exists_congr fun m => and_congr_left fun ⟨hc, _⟩ => ?_
  split_ifs with ht
  · subst ht
    exact iff_of_false (fun hm => hv m hm hc) nofun
  · rfl

/-! ### A king brought to its square -/

/-- The game once a man was brought to a square and whoever stood there was captured. -/
def stepped (g : Game) (m : Man) (src dst : Square) : Game :=
  (g.advance ⟨m, src, dst, false, none⟩).2

section stepped

variable (hs : g.board.occupant src = some k) (hne : src ≠ dst)

include hs hne

theorem source_take_dst : (g.take dst).board.occupant src = some k := by
  rw [occupant_take, if_neg hne]
  exact hs

variable (h : g.Consistent)

include h

theorem stepped_eq : g.stepped k src dst =
    { g.take dst with toTable := ((g.take dst).relocate src dst).2 } := by
  let s : Step := ⟨k, src, dst, false, none⟩
  have hadvance := advance_of_not_passing (s := s) h.toCoherent hs hne rfl
  exact congrArg Prod.snd hadvance

theorem consistent_stepped : (g.stepped k src dst).Consistent := by
  have hempty : (g.take dst).board.occupant dst = none := by
    rw [occupant_take, if_pos rfl]
  rw [stepped_eq hs hne h]
  exact (h.take dst).relocate (source_take_dst hs hne) hempty

theorem occupant_stepped (u : Square) : (g.stepped k src dst).board.occupant u =
    if u = dst then some k else if u = src then none else g.board.occupant u := by
  rw [stepped_eq hs hne h]
  change ((g.take dst).relocate src dst).2.board.occupant u = _
  rw [Table.occupant_relocate _ (source_take_dst hs hne) hne, occupant_take]
  by_cases hu : u = dst <;> simp [hu]

theorem hasOneKing_stepped (hfoe : ∀ v, g.board.occupant dst = some v → v.colour ≠ k.colour)
    (hone : g.HasOneKing k.colour) : (g.stepped k src dst).HasOneKing k.colour := by
  have hlive : ∀ y, y ∈ (g.stepped k src dst).live.get k.colour ↔ y ∈ g.live.get k.colour := by
    intro y
    rw [stepped_eq hs hne h]
    change y ∈ (g.take dst).live.get k.colour ↔ _
    rw [h.mem_live_take]
    exact and_iff_left_of_imp fun hy hocc => hfoe y hocc (h.live_colour _ y hy)
  rw [hasOneKing_iff (consistent_stepped hs hne h).toCoherent]
  simp only [hlive]
  exact (hasOneKing_iff h.toCoherent).1 hone

/-- Who attacks the square on which a man arrives is seen beforehand, when the square that he leaves
is counted as empty. -/
theorem isAttacked_stepped : (g.stepped k src dst).isAttacked dst k.colour.opposite =
    g.isAttackedWithout dst k.colour.opposite src := by
  have hocc := occupant_stepped hs hne h
  have hcon := consistent_stepped hs hne h
  rw [Bool.eq_iff_iff, isAttackedWithout_iff h, isAttacked_iff hcon.toCoherent]
  -- what lies between an attacker and the destination is free before if it is free afterwards
  have hfree : ∀ u t, (Geometry.between u dst).has t = true →
      ((g.stepped k src dst).board.isEmpty t = true ↔
        (g.board.isEmpty t || t == src) = true) := by
    intro u t ht
    rw [Board.isEmpty_iff, hocc, if_neg (Geometry.between_ne_right ht), Bool.or_eq_true,
      beq_iff_eq, Board.isEmpty_iff]
    split_ifs with hsrc <;> simp [hsrc]
  constructor
  · rintro ⟨u, m, hu, hc, hb⟩
    rw [hocc, if_neg (Piece.bearsOn_ne hb)] at hu
    split_ifs at hu
    exact ⟨u, m, hu, hc, Piece.bearsOn_mono (fun t ht => (hfree u t ht).1) hb⟩
  · rintro ⟨u, m, hu, hc, hb⟩
    have hsrc : u ≠ src := by
      rintro rfl
      obtain rfl := Option.some.inj (hs.symm.trans hu)
      exact Colour.ne_opposite _ hc
    refine ⟨u, m, ?_, hc, Piece.bearsOn_mono (fun t ht => (hfree u t ht).2) hb⟩
    rw [hocc, if_neg (Piece.bearsOn_ne hb), if_neg hsrc]
    exact hu

theorem inCheck_stepped (hk : k.kind = .king)
    (hfoe : ∀ v, g.board.occupant dst = some v → v.colour ≠ k.colour)
    (hone : g.HasOneKing k.colour) : (g.stepped k src dst).inCheck k.colour =
      (g.stepped k src dst).isAttacked dst k.colour.opposite := by
  have hdst : (g.stepped k src dst).board.occupant dst = some k := by
    rw [occupant_stepped hs hne h, if_pos rfl]
  exact inCheck_iff (consistent_stepped hs hne h).toCoherent
    (hasOneKing_stepped hs hne h hfoe hone) hdst hk rfl

end stepped

/-! ### A king's request -/

section request

variable (h : g.Consistent) (hs : g.board.occupant src = some k) (hk : k.kind = .king)
  (hfoe : ∀ v, g.board.occupant dst = some v → v.colour ≠ k.colour)
  (hnear : (Geometry.kingStrikes src).has dst = true)

include h hs hk hnear

theorem canMoveTo_king :
    g.canMoveTo k dst = !g.isAttackedWithout dst k.colour.opposite src := by
  simp only [canMoveTo, hk, kingSteps, h.square?_of_occupant hs, Option.any_some, Table.reaches,
    Piece.reaches, hnear, Bool.true_and]

include hfoe

theorem canTake_king (hfull : g.board.occupant dst ≠ none) :
    g.canTake k dst = !g.isAttackedWithout dst k.colour.opposite src := by
  have hopponent : g.holdsOpponent k dst = true := by
    rw [holdsOpponent_eq hfoe, Bool.not_eq_true', ← Bool.not_eq_true, Board.isEmpty_iff]
    exact hfull
  simp only [canTake, hk]
  rw [canMoveTo_king h hs hk hnear, hopponent, Bool.and_true]

end request

/-- What a king finds out beforehand is what is found out when its step is made, admitted or not. -/
theorem inCheck_execute_king (h : g.Consistent) (hs : g.board.occupant s.src = some s.man)
    (hk : s.man.kind = .king) (hne : s.src ≠ s.dst)
    (hfoe : ∀ v, g.board.occupant s.dst = some v → v.colour ≠ s.man.colour)
    (hpassing : s.passing = false) (hstays : s.becomes = none) (hone : g.HasOneKing s.man.colour) :
    (g.execute s).2.inCheck s.man.colour =
      g.isAttackedWithout s.dst s.man.colour.opposite s.src := by
  -- marking the king as moved changes neither the board nor the lists
  have hbrought : g.brought s = (g.stepped s.man s.src s.dst).settle s := by
    unfold brought stepped
    rw [← hpassing, ← hstays]
  have hstepped := consistent_stepped hs hne h
  have hcon : (g.brought s).Consistent := by
    rw [hbrought]
    exact (hstepped.setMoved s.man true).congr rfl rfl rfl
  have hking : (g.brought s).HasOneKing s.man.colour := by
    rw [hbrought]
    exact hasOneKing_stepped hs hne h hfoe hone
  have hdst : (g.brought s).board.occupant s.dst = some s.man := by
    rw [hbrought]
    exact (occupant_stepped hs hne h s.dst).trans (if_pos rfl)
  rw [execute_snd, promote_of_none hstays, inCheck_iff hcon.toCoherent hking hdst hk rfl,
    ← isAttacked_stepped hs hne h, Bool.eq_iff_iff, isAttacked_iff hcon.toCoherent,
    isAttacked_iff hstepped.toCoherent, hbrought]
  rfl

theorem safe_of_admits_king (h : g.Consistent) (hs : g.Admits s) (hk : s.man.kind = .king)
    (hone : g.HasOneKing s.man.colour) : (g.execute s).2.inCheck s.man.colour = false := by
  have hpassing : s.passing = false := passing_of_not_pawn hs (by rw [hk]; decide)
  have hstays : s.becomes = none := by
    rw [← Option.not_isSome_iff_eq_none]
    intro hb
    have hpawn := hs.kind_of_becomes hb
    rw [hk] at hpawn
    cases hpawn
  have hrules := hs.rules
  rw [obeysRules_king h.toCoherent hs.source hs.foe hk, Bool.and_eq_true,
    Bool.not_eq_true'] at hrules
  rw [inCheck_execute_king h hs.source hk hs.src_ne_dst hs.foe hpassing hstays hone]
  exact hrules.2

theorem isSome_attempt_king (h : g.Consistent) (hs : g.board.occupant src = some k)
    (hk : k.kind = .king) (hactive : k.colour = g.active) (hone : g.HasOneKing k.colour)
    (hfoe : ∀ v, g.board.occupant dst = some v → v.colour ≠ k.colour)
    (hnear : (Geometry.kingStrikes src).has dst = true) :
    (g.attempt src dst none).isSome = !g.isAttackedWithout dst k.colour.opposite src := by
  have hbears : k.bearsOn g.board.isEmpty src dst = true := by
    rw [Piece.bearsOn_king hk]
    exact hnear
  have hrules : g.obeysRules k dst = !g.isAttackedWithout dst k.colour.opposite src := by
    rw [obeysRules_king h.toCoherent hs hfoe hk, hbears, Bool.true_and]
  have hcastle : k.castleRequest src dst = none := castleRequest_of_near hnear
  rw [← hrules, Bool.eq_iff_iff, Option.isSome_iff_exists]
  constructor
  · rintro ⟨g', hg'⟩
    obtain ⟨_, _, hobeys, _⟩ := step_of_attempt hs hcastle hg'
    exact hobeys
  · intro hobeys
    have hstep : g.assess src dst none = .ok (.step (g.stepOf k src dst none)) :=
      assess_step_iff.2 ⟨k, ⟨hs, hactive, Piece.bearsOn_ne hbears⟩, hcastle, rfl,
        captureObjection_eq_none_iff.2 hfoe, hobeys, rfl⟩
    have hsafe := safe_of_admits_king h (admits_of_assess hstep).1 hk hone
    exact ⟨_, attempt_eq_some_iff.2 (.inl ⟨_, hstep, hsafe, rfl⟩)⟩

end Game

namespace Arbiter

/-- Counting a square as empty is lifting whoever stands on it, for all but the men of his side. So
a king may step to a neighbouring square, or take who stands there, exactly if it is not attacked
once it is there; if it is its turn, that is when the step is granted. No step of a king that was
taken up is ever taken back. -/
theorem king_looks_ahead (a : Arbiter) (h : a.toGame.Consistent) :
    (∀ q c v, (∀ m, a.board.occupant v = some m → m.colour ≠ c) →
      a.isAttackedWithout q c v = { a.toGame with toTable := (a.lift v).2 }.isAttacked q c) ∧
    (∀ k src q, a.board.occupant src = some k → k.kind = .king → a.HasOneKing k.colour →
      src ≠ q → (q - src).files.natAbs ≤ 1 → (q - src).ranks.natAbs ≤ 1 →
      (∀ v, a.board.occupant q = some v → v.colour ≠ k.colour) →
      let b := a.stepped k src q
      b.inCheck k.colour = b.isAttacked q k.colour.opposite ∧
      a.canMoveTo k q = !b.inCheck k.colour ∧
      (a.board.occupant q ≠ none → a.canTake k q = !b.inCheck k.colour) ∧
      (k.colour = a.active → (a.move src q none).1.isOk = !b.inCheck k.colour)) ∧
    ∀ src dst promotion s, a.assess src dst promotion = .ok (.step s) → s.man.kind = .king →
      a.HasOneKing s.man.colour → (a.carryOut s).1.isOk = true := by
  refine ⟨fun q c v hv => Game.isAttackedWithout_eq_lift h hv, ?_, ?_⟩
  · intro k src q hs hk hone hne hfiles hranks hfoe b
    have hnear := (Geometry.has_kingStrikes src q).2 ⟨hne, hfiles, hranks⟩
    have hcheck := Game.inCheck_stepped hs hne h hk hfoe hone
    -- asked before the step, with the square the king stands on counted as empty
    have hahead : b.inCheck k.colour = a.isAttackedWithout q k.colour.opposite src :=
      hcheck.trans (Game.isAttacked_stepped hs hne h)
    refine ⟨hcheck, ?_, fun hfull => ?_, fun hactive => ?_⟩
    · rw [hahead]
      exact Game.canMoveTo_king h hs hk hnear
    · rw [hahead]
      exact Game.canTake_king h hs hk hfoe hnear hfull
    · rw [hahead, isOk_move]
      exact Game.isSome_attempt_king h hs hk hactive hone hfoe hnear
  · intro src dst promotion s hs hk hone
    have hsafe := Game.safe_of_admits_king h (Game.admits_of_assess hs).1 hk hone
    rcases hcarried : a.carryOut s with ⟨e | r, b⟩
    · rw [(carryOut_error hcarried).1] at hsafe
      cases hsafe
    · rfl

def kingInLine : Arbiter := ((opening {}).loadFen "4r2k/8/8/8/8/8/3nK3/8 w - - 0 1").2

/-- Further down the line it is still attacked, and it may not go there; it may take the knight. -/
theorem king_in_line_looks_ahead :
    let k : Man := ⟨⟨.king, .white⟩, 3⟩
    kingInLine.board.occupant ⟨4, 1⟩ = some k ∧
      (kingInLine.isAttackedWithout ⟨4, 0⟩ .black ⟨4, 1⟩ = true ∧
        { kingInLine.toGame with toTable := (kingInLine.lift ⟨4, 1⟩).2 }.isAttacked
          ⟨4, 0⟩ .black = true) ∧
      (kingInLine.canMoveTo k ⟨4, 0⟩ = false ∧
        (kingInLine.stepped k ⟨4, 1⟩ ⟨4, 0⟩).inCheck .white = true) ∧
      (kingInLine.canTake k ⟨3, 1⟩ = true ∧
        (kingInLine.stepped k ⟨4, 1⟩ ⟨3, 1⟩).inCheck .white = false ∧
        (kingInLine.move ⟨4, 1⟩ ⟨3, 1⟩ none).1.isOk = true) ∧
      ∃ s, kingInLine.assess ⟨4, 1⟩ ⟨3, 1⟩ none = .ok (.step s) ∧
        (kingInLine.carryOut s).1.isOk = true := by
  intro k
  have hload : (opening {}).loadFen "4r2k/8/8/8/8/8/3nK3/8 w - - 0 1" = (.ok (), kingInLine) :=
    loadFen_of_isOk (by decide +kernel)
  obtain ⟨hcon, hkings⟩ := consistent_of_loadFen hload
  have hone : kingInLine.HasOneKing .white := hkings .white
  have hk : kingInLine.board.occupant ⟨4, 1⟩ = some k := by decide +kernel
  have hlineup : kingInLine.isAttackedWithout ⟨4, 0⟩ .black ⟨4, 1⟩ = true := by decide +kernel
  have hbound : kingInLine.canMoveTo k ⟨4, 0⟩ = false := by decide +kernel
  have hfree : kingInLine.canMoveTo k ⟨3, 1⟩ = true := by decide +kernel
  obtain ⟨hlift, hking, hadmitted⟩ := king_looks_ahead kingInLine hcon
  obtain ⟨_, hback, _⟩ := hking k ⟨4, 1⟩ ⟨4, 0⟩ hk rfl hone (by decide) (by decide) (by decide)
    (by decide +kernel)
  obtain ⟨_, hbeside, htake, hgranted⟩ := hking k ⟨4, 1⟩ ⟨3, 1⟩ hk rfl hone (by decide)
    (by decide) (by decide) (by decide +kernel)
  have hsafe : (kingInLine.stepped k ⟨4, 1⟩ ⟨3, 1⟩).inCheck .white = false := by
    rw [hfree, eq_comm, Bool.not_eq_true'] at hbeside
    exact hbeside
  refine ⟨hk, ⟨hlineup, ?_⟩, ⟨hbound, ?_⟩, ⟨?_, hsafe, ?_⟩, ?_⟩
  · rw [← hlift ⟨4, 0⟩ .black ⟨4, 1⟩ (by decide +kernel)]
    exact hlineup
  · rw [hbound, eq_comm, Bool.not_eq_false'] at hback
    exact hback
  · rw [htake (by decide +kernel), hsafe]
    rfl
  · rw [hgranted (by decide +kernel), hsafe]
    rfl
  · refine ⟨kingInLine.stepOf k ⟨4, 1⟩ ⟨3, 1⟩ none, by decide +kernel, ?_⟩
    exact hadmitted ⟨4, 1⟩ ⟨3, 1⟩ none _ (by decide +kernel) rfl hone

end Arbiter

end ChessArbiter
