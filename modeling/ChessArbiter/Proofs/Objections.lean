import ChessArbiter.Proofs.Lookahead

/-!
# The reason that a refusal gives

A man who is asked for a plain step, neither onto a man of his own side nor as a castle, may be
refused for three reasons, found in three places: by the rules of his kind, by a king that looks
ahead, and by the check that shows once the step is made. The reason told is the true one
(`Arbiter.refusal_tells_why`): the way is blocked, else the step would be a good one but for the own
king, else it is none that the man may make.
-/

namespace ChessArbiter

namespace Game

variable {g : Game} {m : Man} {src dst : Square}

/-- The way of a man who cannot leap, and whom the shape of the step fits, is barred. -/
def Blocked (g : Game) (m : Man) (src dst : Square) : Prop :=
  g.reaches m dst = true ∧ m.kind ≠ .knight ∧
    ∃ u, src.Between u dst ∧ g.board.occupant u ≠ none

/-- A pawn goes to the empty square ahead of it or, unmoved on its starting rank, one further. -/
def PawnGoes (g : Game) (m : Man) (src dst : Square) : Prop :=
  g.board.occupant dst = none ∧
    (src.tryOffset ⟨0, m.colour.forward⟩ = some dst ∨
      ∃ next, src.tryOffset ⟨0, m.colour.forward⟩ = some next ∧
        next.tryOffset ⟨0, m.colour.forward⟩ = some dst ∧ g.board.occupant next = none ∧
        src.rank = m.colour.pawnRank ∧ g.hasMoved m = false)

/-- A pawn takes diagonally, either the man who stands there or the pawn that has just passed. -/
def PawnTakes (g : Game) (m : Man) (src dst : Square) : Prop :=
  m.bearsOn g.board.isEmpty src dst = true ∧
    (g.board.occupant dst ≠ none ∨
      g.enPassant = some dst ∧ ∃ v, g.board.occupant ⟨dst.file, src.rank⟩ = some v ∧
        v.kind = .pawn ∧ v.colour ≠ m.colour)

/-- The rule by which a man of this kind goes or takes, whatever becomes of his king. -/
def FollowsRule (g : Game) (m : Man) (src dst : Square) : Prop :=
  if m.kind = .pawn then g.PawnGoes m src dst ∨ g.PawnTakes m src dst
  else m.bearsOn g.board.isEmpty src dst = true

/-- The step, once made, leaves the king of the man's own side attacked. -/
def Exposes (g : Game) (m : Man) (src dst : Square) : Prop :=
  (g.execute (g.stepOf m src dst none)).2.inCheck m.colour = true

theorem kind_ruleObjection (g : Game) (m : Man) (src dst : Square) :
    (g.ruleObjection m src dst).kind =
      if g.reaches m dst = false then .illegalGeometry
      else if m.kind ≠ .knight ∧ g.board.pathClear src dst = false then .blockedPath
      else if m.kind = .king then .selfCheck
      else .illegalGeometry := by
  unfold ruleObjection
  simp only [Bool.not_eq_true']
  split_ifs <;> rw [kind_failure]

theorem blocked_iff (h : g.Consistent) : g.Blocked m src dst ↔
    g.reaches m dst = true ∧ m.kind ≠ .knight ∧ g.board.pathClear src dst = false := by
  have hpath : g.board.pathClear src dst = false ↔
      ∃ u, src.Between u dst ∧ g.board.occupant u ≠ none := by
    rw [← Bool.not_eq_true, Board.pathClear_iff h.faithful]
    simp only [Square.between_iff, Board.isEmpty_iff, not_forall, exists_prop, ne_eq]
  unfold Blocked
  rw [hpath]

theorem not_blocked_of_near (hnear : Square.distance src dst ≤ 1) : ¬g.Blocked m src dst :=
  fun ⟨_, _, _, hu, _⟩ => Square.not_between_of_near hnear hu

section rules

variable (h : g.Consistent) (hs : g.board.occupant src = some m)

include h hs

theorem reaches_of_occupant : g.reaches m dst = m.reaches (g.hasMoved m) src dst := by
  unfold Table.reaches
  rw [h.toCoherent.square?_of_occupant hs, Option.any_some]

theorem followsRule_iff_reaches (hk : m.kind ≠ .pawn) :
    g.FollowsRule m src dst ↔ g.reaches m dst = true ∧ ¬g.Blocked m src dst := by
  unfold FollowsRule
  rw [if_neg hk, reaches_of_occupant h hs]
  cases hkind : m.kind with
  | pawn => exact absurd hkind hk
  | knight =>
    have hleaps : ¬g.Blocked m src dst := fun hblocked => hblocked.2.1 hkind
    rw [Piece.bearsOn_knight hkind, Piece.reaches, hkind]
    exact (and_iff_left hleaps).symm
  | king =>
    rw [Piece.bearsOn_king hkind, Piece.reaches, hkind]
    refine (and_iff_left_of_imp fun hnear => not_blocked_of_near ?_).symm
    obtain ⟨_, hfiles, hranks⟩ := (Geometry.has_kingStrikes src dst).1 hnear
    exact max_le hfiles hranks
  | bishop | rook | queen =>
    have hslides : m.kind.slides = true := by rw [hkind]; rfl
    have hgoes : m.kind ≠ .knight := by rw [hkind]; decide
    rw [Piece.bearsOn_slider hslides (g.hasMoved m), blocked_iff h, reaches_of_occupant h hs,
      ← Board.pathClear_iff h.faithful]
    refine and_congr_right fun hreaches => ?_
    simp only [hreaches, hgoes, ne_eq, not_false_iff, true_and, Bool.not_eq_false]

theorem reaches_of_pawn (hk : m.kind = .pawn) (hrule : g.FollowsRule m src dst) :
    g.reaches m dst = true ∧ ¬g.Blocked m src dst := by
  have hfwd : m.colour.forward.natAbs = 1 := by cases m.colour <;> rfl
  rw [reaches_of_occupant h hs, Piece.reaches, hk]
  unfold FollowsRule at hrule
  rw [if_pos hk] at hrule
  rcases hrule with ⟨_, hone | ⟨next, hnext, hdst, hempty, hrank, hmoved⟩⟩ | ⟨htakes, _⟩
  · obtain ⟨hfiles, hranks⟩ := Square.ahead_iff.1 hone
    have hnear : Square.distance src dst ≤ 1 := by
      unfold Square.distance
      omega
    exact ⟨by simp [hfiles, hranks], not_blocked_of_near hnear⟩
  · obtain ⟨hfiles, hranks⟩ := Square.ahead_iff.1 (Square.two_ahead_iff.2 ⟨next, hnext, hdst⟩)
    refine ⟨by simp [hfiles, hranks, Piece.mayStepTwice, hrank, hmoved], ?_⟩
    rintro ⟨_, _, u, hu, hfull⟩
    rw [Square.between_iff, Square.has_between_two_ahead hnext hdst] at hu
    rw [hu] at hfull
    exact hfull hempty
  · rw [Piece.bearsOn_pawn hk, Geometry.has_pawnStrikes] at htakes
    obtain ⟨hfiles, hranks⟩ := htakes
    have hnear : Square.distance src dst ≤ 1 := by
      unfold Square.distance
      omega
    have hbeside : (dst - src).files ≠ 0 := by omega
    refine ⟨?_, not_blocked_of_near hnear⟩
    simp only [hbeside, if_false, hfiles, hranks, beq_self_eq_true, Bool.and_self]

theorem reaches_of_followsRule (hrule : g.FollowsRule m src dst) :
    g.reaches m dst = true ∧ ¬g.Blocked m src dst := by
  by_cases hk : m.kind = .pawn
  · exact reaches_of_pawn h hs hk hrule
  · exact (followsRule_iff_reaches h hs hk).1 hrule

variable (hfoe : ∀ v, g.board.occupant dst = some v → v.colour ≠ m.colour)

include hfoe

theorem obeysRules_iff_followsRule (hk : m.kind ≠ .king) :
    g.obeysRules m dst = true ↔ g.FollowsRule m src dst := by
  unfold FollowsRule
  split_ifs with hpawn
  · rw [obeysRules_pawn h.toCoherent hs hfoe hpawn, pawnAdvances_iff h.toCoherent hs,
      isPassing_iff h.toCoherent hs]
    refine or_congr Iff.rfl ?_
    unfold PawnTakes
    by_cases hempty : g.board.occupant dst = none
    · simp [hempty, hpawn, and_left_comm]
    · simp [hempty]
  · have hofficer : m.kind.isOfficer = true := by
      cases hkind : m.kind <;> simp_all [PieceKind.isOfficer]
    rw [obeysRules_officer h.toCoherent hs hfoe hofficer]

theorem followsRule_of_obeysRules (hr : g.obeysRules m dst = true) : g.FollowsRule m src dst := by
  by_cases hk : m.kind = .king
  · rw [obeysRules_king h.toCoherent hs hfoe hk, Bool.and_eq_true] at hr
    unfold FollowsRule
    rw [if_neg (by rw [hk]; decide)]
    exact hr.1
  · exact (obeysRules_iff_followsRule h hs hfoe hk).1 hr

/-- Only a king is refused what his rule allows: he has seen that the step would expose him. -/
theorem king_exposed_of_not_obeysRules (hone : g.HasOneKing m.colour)
    (hrule : g.FollowsRule m src dst) (hr : g.obeysRules m dst = false) :
    m.kind = .king ∧ g.Exposes m src dst := by
  have hk : m.kind = .king := by
    by_contra hk
    rw [(obeysRules_iff_followsRule h hs hfoe hk).2 hrule] at hr
    cases hr
  have hbears : m.bearsOn g.board.isEmpty src dst = true := by
    unfold FollowsRule at hrule
    rwa [if_neg (by rw [hk]; decide)] at hrule
  rw [obeysRules_king h.toCoherent hs hfoe hk, hbears, Bool.true_and, Bool.not_eq_false'] at hr
  have hpassing : (g.stepOf m src dst none).passing = false := by
    simp [stepOf, isPassing, hk]
  have hstays : (g.stepOf m src dst none).becomes = none := by
    simp [stepOf, Man.promotesOn, hk]
  have hseen := inCheck_execute_king (s := g.stepOf m src dst none) h hs hk
    (Piece.bearsOn_ne hbears) hfoe hpassing hstays hone
  exact ⟨hk, hseen.trans hr⟩

end rules

end Game

namespace Arbiter

variable {a : Arbiter} {m : Man} {src dst : Square}

def refusalIn : Except MoveError MoveRecord → Option ErrorKind
  | .error e => some e.kind
  | .ok _ => none

/-- The kind of error with which a step from one square to another is refused, if it is. -/
def refusal (a : Arbiter) (src dst : Square) : Option ErrorKind := refusalIn (a.move src dst none).1

theorem refusal_ne_none_iff :
    a.refusal src dst ≠ none ↔ (a.move src dst none).1.isOk = false := by
  unfold refusal
  cases (a.move src dst none).1 with
  | error e => exact iff_of_true (Option.some_ne_none _) rfl
  | ok r => exact iff_of_false (fun h => h rfl) Bool.noConfusion

theorem refusalIn_carryOut (a : Arbiter) (s : Step) : refusalIn (a.carryOut s).1 =
    if (a.execute s).2.inCheck s.man.colour = true then some .selfCheck else none := by
  rcases hc : a.carryOut s with ⟨e | r, b⟩
  · rw [if_pos (carryOut_error hc).1]
    exact congrArg some (kind_of_carryOut_error hc)
  · have hsafe := (carryOut_ok hc).1
    rw [hsafe, if_neg Bool.false_ne_true]
    rfl

section refusals

variable (hs : a.board.occupant src = some m) (hactive : m.colour = a.active) (hne : src ≠ dst)
  (hfoe : ∀ v, a.board.occupant dst = some v → v.colour ≠ m.colour)
  (hcastle : m.castleRequest src dst = none)

include hs hactive hne hfoe hcastle

theorem assess_plain : a.assess src dst none =
    if a.obeysRules m dst = true then .ok (.step (a.stepOf m src dst none))
    else .error (a.ruleObjection m src dst) := by
  have hmover : a.moverAt src dst = .ok m := Game.moverAt_ok_iff.2 ⟨hs, hactive, hne⟩
  unfold Game.assess
  simp only [hmover, hcastle, Game.promotionObjection, Game.captureObjection_eq_none_iff.2 hfoe,
    Option.or_none]

theorem refusal_of_obeysRules (hr : a.obeysRules m dst = true) : a.refusal src dst =
    if (a.execute (a.stepOf m src dst none)).2.inCheck m.colour = true then some .selfCheck
    else none := by
  unfold refusal move
  rw [assess_plain hs hactive hne hfoe hcastle, if_pos hr]
  exact refusalIn_carryOut a (a.stepOf m src dst none)

theorem refusal_of_not_obeysRules (hr : a.obeysRules m dst = false) :
    a.refusal src dst = some (a.ruleObjection m src dst).kind := by
  unfold refusal move
  rw [assess_plain hs hactive hne hfoe hcastle, if_neg (by rw [hr]; decide)]
  rfl

variable (h : a.Consistent)

include h

theorem refusal_of_blocked (hblocked : a.Blocked m src dst) :
    a.refusal src dst = some .blockedPath := by
  have hr : a.obeysRules m dst = false := by
    rw [← Bool.not_eq_true]
    intro hobeys
    have hrule := Game.followsRule_of_obeysRules h hs hfoe hobeys
    exact (Game.reaches_of_followsRule h hs hrule).2 hblocked
  obtain ⟨hreaches, hbarred⟩ := (Game.blocked_iff h).1 hblocked
  rw [refusal_of_not_obeysRules hs hactive hne hfoe hcastle hr, Game.kind_ruleObjection,
    if_neg (by rw [hreaches]; decide), if_pos hbarred]

theorem refusal_of_not_followsRule (hrule : ¬a.FollowsRule m src dst)
    (hfree : ¬a.Blocked m src dst) : a.refusal src dst = some .illegalGeometry := by
  have hr : a.obeysRules m dst = false := by
    rw [← Bool.not_eq_true]
    exact fun hobeys => hrule (Game.followsRule_of_obeysRules h hs hfoe hobeys)
  rw [refusal_of_not_obeysRules hs hactive hne hfoe hcastle hr, Game.kind_ruleObjection]
  split_ifs with hreaches hbarred hk
  · rfl
  · rw [Bool.not_eq_false] at hreaches
    exact absurd ((Game.blocked_iff h).2 ⟨hreaches, hbarred⟩) hfree
  · -- a king whom the shape of the step fits follows his rule
    rw [Bool.not_eq_false] at hreaches
    have hofficer : m.kind ≠ .pawn := by rw [hk]; decide
    exact absurd ((Game.followsRule_iff_reaches h hs hofficer).2 ⟨hreaches, hfree⟩) hrule
  · rfl

theorem refusal_of_safe (hone : a.HasOneKing m.colour) (hrule : a.FollowsRule m src dst)
    (hsafe : ¬a.Exposes m src dst) : a.refusal src dst = none := by
  have hr : a.obeysRules m dst = true := by
    rw [← Bool.not_eq_false]
    exact fun hrefused =>
      hsafe (Game.king_exposed_of_not_obeysRules h hs hfoe hone hrule hrefused).2
  rw [refusal_of_obeysRules hs hactive hne hfoe hcastle hr]
  exact if_neg hsafe

theorem refusal_of_exposes (hone : a.HasOneKing m.colour) (hrule : a.FollowsRule m src dst)
    (hexposed : a.Exposes m src dst) : a.refusal src dst = some .selfCheck := by
  cases hr : a.obeysRules m dst with
  | true =>
    rw [refusal_of_obeysRules hs hactive hne hfoe hcastle hr]
    exact if_pos hexposed
  | false =>
    obtain ⟨hk, _⟩ := Game.king_exposed_of_not_obeysRules h hs hfoe hone hrule hr
    obtain ⟨hreaches, hfree⟩ := Game.reaches_of_followsRule h hs hrule
    have hpath : ¬(m.kind ≠ .knight ∧ a.board.pathClear src dst = false) :=
      fun hbarred => hfree ((Game.blocked_iff h).2 ⟨hreaches, hbarred⟩)
    rw [refusal_of_not_obeysRules hs hactive hne hfoe hcastle hr, Game.kind_ruleObjection,
      if_neg (by rw [hreaches]; decide), if_neg hpath, if_pos hk]

end refusals

/-- A man of the side to move is asked for a step that is no castle, onto a square that is empty or
held by an enemy. If it is refused, the kind of the error tells why. -/
theorem refusal_tells_why (a : Arbiter) (h : a.Consistent) (hone : a.HasOneKing a.active)
    {m : Man} {src dst : Square} (hs : a.board.occupant src = some m)
    (hactive : m.colour = a.active) (hne : src ≠ dst)
    (hfoe : ∀ v, a.board.occupant dst = some v → v.colour ≠ m.colour)
    (hcastle : m.castleRequest src dst = none) :
    (a.refusal src dst = some .blockedPath ↔ a.Blocked m src dst) ∧
    (¬a.Blocked m src dst → (a.refusal src dst = some .selfCheck ↔
      a.FollowsRule m src dst ∧ a.Exposes m src dst)) ∧
    (¬a.Blocked m src dst → ¬(a.FollowsRule m src dst ∧ a.Exposes m src dst) →
      (a.refusal src dst = some .illegalGeometry ↔ (a.move src dst none).1.isOk = false)) ∧
    (m.kind ≠ .pawn →
      (a.refusal src dst = some .illegalGeometry ↔ a.reaches m dst = false)) := by
  rw [← hactive] at hone
  rw [← refusal_ne_none_iff]
  -- one case for each reason, in the order in which they are looked for
  by_cases hblocked : a.Blocked m src dst
  · have hkind := refusal_of_blocked hs hactive hne hfoe hcastle h hblocked
    simp [hkind, hblocked, hblocked.1]
  by_cases hrule : a.FollowsRule m src dst
  · have hreaches := (Game.reaches_of_followsRule h hs hrule).1
    by_cases hexposed : a.Exposes m src dst
    · have hkind := refusal_of_exposes hs hactive hne hfoe hcastle h hone hrule hexposed
      simp [hkind, hblocked, hrule, hexposed, hreaches]
    · have hkind := refusal_of_safe hs hactive hne hfoe hcastle h hone hrule hexposed
      simp [hkind, hblocked, hexposed, hreaches]
  · have hkind := refusal_of_not_followsRule hs hactive hne hfoe hcastle h hrule hblocked
    have hshape : m.kind ≠ .pawn → a.reaches m dst = false := by
      intro hk
      rw [← Bool.not_eq_true]
      exact fun hreaches =>
        hrule ((Game.followsRule_iff_reaches h hs hk).2 ⟨hreaches, hblocked⟩)
    simpa [hkind, hblocked, hrule] using hshape

def pinnedRook : Arbiter := ((opening {}).loadFen "4r2k/8/8/8/8/4R3/4K3/8 w - - 0 1").2

/-- It may not go through its king, nor leave the line, nor go where no rook goes. -/
theorem pinned_rook_told_why :
    pinnedRook.refusal ⟨4, 2⟩ ⟨4, 0⟩ = some .blockedPath ∧
      pinnedRook.refusal ⟨4, 2⟩ ⟨3, 2⟩ = some .selfCheck ∧
      pinnedRook.refusal ⟨4, 2⟩ ⟨5, 3⟩ = some .illegalGeometry := by
  have hload : (opening {}).loadFen "4r2k/8/8/8/8/4R3/4K3/8 w - - 0 1" = (.ok (), pinnedRook) :=
    loadFen_of_isOk (by decide +kernel)
  obtain ⟨hcon, hkings⟩ := consistent_of_loadFen hload
  have hone : pinnedRook.HasOneKing pinnedRook.active := hkings _
  let m : Man := ⟨⟨.rook, .white⟩, 2⟩
  have hs : pinnedRook.board.occupant ⟨4, 2⟩ = some m := by decide +kernel
  have hactive : m.colour = pinnedRook.active := by decide +kernel
  have hthrough : (⟨4, 2⟩ : Square) ≠ ⟨4, 0⟩ := by decide
  have haside : (⟨4, 2⟩ : Square) ≠ ⟨3, 2⟩ := by decide
  have hastray : (⟨4, 2⟩ : Square) ≠ ⟨5, 3⟩ := by decide
  obtain ⟨hblocked, _⟩ := refusal_tells_why pinnedRook hcon hone hs hactive hthrough
    (by decide +kernel) rfl
  obtain ⟨_, hexposed, _⟩ := refusal_tells_why pinnedRook hcon hone hs hactive haside
    (by decide +kernel) rfl
  obtain ⟨_, _, _, hshape⟩ := refusal_tells_why pinnedRook hcon hone hs hactive hastray
    (by decide +kernel) rfl
  have hfree : ¬pinnedRook.Blocked m ⟨4, 2⟩ ⟨3, 2⟩ := Game.not_blocked_of_near (by decide)
  have hrule : pinnedRook.FollowsRule m ⟨4, 2⟩ ⟨3, 2⟩ := by
    change m.bearsOn pinnedRook.board.isEmpty ⟨4, 2⟩ ⟨3, 2⟩ = true
    decide +kernel
  have hcheck : (pinnedRook.execute (pinnedRook.stepOf m ⟨4, 2⟩ ⟨3, 2⟩ none)).2.inCheck
      m.colour = true := by
    decide +kernel
  refine ⟨hblocked.2 ⟨by decide +kernel, by decide, ⟨4, 1⟩, ?_, by decide +kernel⟩,
    (hexposed hfree).2 ⟨hrule, hcheck⟩, (hshape (by decide)).2 (by decide +kernel)⟩
  rw [Square.between_iff]
  decide

end Arbiter

end ChessArbiter
