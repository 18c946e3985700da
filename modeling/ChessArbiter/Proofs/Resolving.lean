import ChessArbiter.Proofs.LoadedPlay

/-!
# What is resolved is what is played

A written move is resolved by trying out the men it may mean, and playing it resolves it first and
then makes the move. Trying out and making agree, because neither the log nor the scope decides what
is granted (`attempt_relog`), so the move resolved is granted, between the same squares
(`Arbiter.play_of_resolved`). The flag is worked out twice: from the squares when resolving, and
from what is done when playing. The two agree but for a pawn that takes in passing on its last rank
(`flagOf_eq`), which takes a target that no double push leaves (`Turn.target_off_last`).
-/

namespace ChessArbiter

namespace Game

variable {g g' : Game} {m : Man} {s : Step} {src dst : Square} {promotion : Option PieceKind}
  {n : Notation}

/-! ### The log and the scope -/

/-- The game with another log, in another scope. -/
def relog (g : Game) (ms : List MoveRecord) (d : Nat) : Game := { g with moves := ms, depth := d }

theorem execute_relog (g : Game) (s : Step) (ms : List MoveRecord) (d : Nat) :
    (g.relog ms d).execute s = ((g.execute s).1, (g.execute s).2.relog ms d) := by
  have hpromote : ∀ g : Game, (g.relog ms d).promote s = (g.promote s).relog ms d := by
    intro g
    unfold promote
    cases s.becomes <;> rfl
  have hadvance : (g.relog ms d).advance s = ((g.advance s).1, (g.advance s).2.relog ms d) := by
    have hcapture : ∀ (o : Option Man) (t : Table),
        o.elim { g.relog ms d with toTable := t } { g.relog ms d with toTable := t }.capture =
          (o.elim { g with toTable := t } { g with toTable := t }.capture).relog ms d := by
      intro o t
      cases o <;> rfl
    unfold advance
    cases s.passing
    · exact Prod.ext rfl (hcapture (g.relocate s.src s.dst).1 (g.relocate s.src s.dst).2)
    · exact Prod.ext rfl (hcapture (g.lift s.passed).1 ((g.lift s.passed).2.relocate s.src s.dst).2)
  unfold execute
  rw [hadvance]
  exact Prod.ext rfl (hpromote ((g.advance s).2.settle s))

theorem executeCastle_relog (g : Game) (path : CastlePath) (ms : List MoveRecord) (d : Nat) :
    (g.relog ms d).executeCastle path = (g.executeCastle path).relog ms d := by
  have hwear : ∀ (g : Game) (u : Square), (g.relog ms d).wear u = (g.wear u).relog ms d := by
    intro g u
    unfold wear relog
    dsimp only
    cases g.board.occupant u <;> rfl
  let brought : Game := { g with
    toTable := ((g.relocate path.kingFrom path.kingTo).2.relocate path.rookFrom path.rookTo).2 }
  have hworn : ((brought.relog ms d).wear path.kingTo).wear path.rookTo =
      ((brought.wear path.kingTo).wear path.rookTo).relog ms d := by
    rw [hwear, hwear]
  exact congrArg (fun g : Game => { g with enPassant := none }) hworn

theorem logged_relog (g : Game) (r : MoveRecord) (resetClock : Bool) (ms : List MoveRecord)
    (d : Nat) : (g.relog ms d).logged r resetClock =
      (g.logged r resetClock).relog (ms ++ [g.entry r resetClock]) d := rfl

theorem attempt_relog (h : g.attempt src dst promotion = some g') (ms : List MoveRecord) (d : Nat) :
    ∃ r, g'.moves = g.moves ++ [r] ∧
      (g.relog ms d).attempt src dst promotion = some (g'.relog (ms ++ [r]) d) := by
  rcases attempt_eq_some_iff.1 h with ⟨s, hs, hsafe, rfl⟩ | ⟨w, hw, hopen, rfl⟩
  · have hmade := congrArg (fun e : Option Man × Game => e.2.logged (s.record e.1)
      (s.man.kind == .pawn || e.1.isSome)) (g.execute_relog s ms d)
    refine ⟨_, moves_afterStep g s, attempt_eq_some_iff.2 (.inl ⟨s, hs, ?_, ?_⟩)⟩
    · rw [execute_relog]
      exact hsafe
    · exact (hmade.trans (logged_relog _ _ _ ms d)).symm
  · have hmade := congrArg (fun g' : Game => g'.logged (castleRecord g.active w) false)
      (g.executeCastle_relog (CastlePath.of g.active w) ms d)
    exact ⟨_, moves_afterCastle g w, attempt_eq_some_iff.2 (.inr ⟨w, hw, hopen,
      (hmade.trans (logged_relog _ _ _ ms d)).symm⟩)⟩

theorem isSome_attempt_setDepth (g : Game) (d : Nat) :
    ({ g with depth := d }.attempt src dst promotion).isSome =
      (g.attempt src dst promotion).isSome := by
  have hkept : ∀ (g : Game) (d : Nat), (g.attempt src dst promotion).isSome = true →
      ((g.relog g.moves d).attempt src dst promotion).isSome = true := by
    intro g d h
    obtain ⟨g', hg'⟩ := Option.isSome_iff_exists.1 h
    obtain ⟨_, _, hsame⟩ := attempt_relog hg' g.moves d
    rw [hsame]
    rfl
  exact Bool.eq_iff_iff.2 ⟨hkept (g.relog g.moves d) g.depth, hkept g d⟩

/-! ### Flags -/

theorem file_of_pawnAdvances (h : g.Coherent) (hs : g.board.occupant src = some m)
    (hadv : g.pawnAdvances m dst = true) : src.file = dst.file := by
  simp only [pawnAdvances, h.square?_of_occupant hs, Option.any_some, Bool.and_eq_true,
    beq_iff_eq] at hadv
  have hfiles := hadv.1.1
  rw [Square.files_sub] at hfiles
  omega

theorem Admits.passing_iff (hs : g.Admits s) (h : g.Coherent) (hk : s.man.kind = .pawn) :
    s.passing = true ↔ g.board.isEmpty s.dst = true ∧ s.src.file ≠ s.dst.file := by
  rw [hs.passing_eq]
  constructor
  · intro hp
    obtain ⟨_, _, hempty, hb, _⟩ := (isPassing_iff h hs.source).1 hp
    rw [Piece.bearsOn_pawn hk, Geometry.has_pawnStrikes, Square.files_sub] at hb
    exact ⟨Board.isEmpty_iff.2 hempty, by omega⟩
  · rintro ⟨hempty, hfile⟩
    rcases (obeysRules_pawn h hs.source hs.foe hk).1 hs.rules with hadv | ⟨_, hocc⟩ | hp
    · exact absurd (file_of_pawnAdvances h hs.source hadv) hfile
    · exact absurd (Board.isEmpty_iff.1 hempty) hocc
    · exact hp

theorem passing_of_not_pawn (hs : g.Admits s) (hk : s.man.kind ≠ .pawn) : s.passing = false := by
  rw [hs.passing_eq]
  simp [isPassing, hk]

theorem isSome_victim (hs : g.Admits s) (h : g.Coherent) :
    (g.execute s).1.isSome = (s.passing || !g.board.isEmpty s.dst) := by
  rw [fst_execute hs h]
  cases hp : s.passing with
  | true =>
    obtain ⟨_, _, _, v, hv, _⟩ := hs.victim_of_passing h hp
    simp [Step.victimSquare, hp, hv]
  | false => simp [Step.victimSquare, hp, Board.isEmpty]

theorem Admits.ranks_of_capture (hs : g.Admits s) (h : g.Coherent) (hk : s.man.kind = .pawn)
    (hfull : g.board.isEmpty s.dst = false) : (s.dst - s.src).ranks.natAbs ≠ 2 := by
  have hocc : g.board.occupant s.dst ≠ none := by
    intro hnone
    rw [Board.isEmpty_iff.2 hnone] at hfull
    cases hfull
  have hfwd : s.man.colour.forward.natAbs = 1 := by cases s.man.colour <;> rfl
  rcases (obeysRules_pawn h hs.source hs.foe hk).1 hs.rules with hadv | ⟨hb, _⟩ | hp
  · exact absurd ((pawnAdvances_iff h hs.source).1 hadv).1 hocc
  · rw [Piece.bearsOn_pawn hk, Geometry.has_pawnStrikes] at hb
    omega
  · exact absurd ((isPassing_iff h hs.source).1 hp).2.2.1 hocc

/-- The flag worked out from the squares is that of the deed, unless a pawn promotes in passing. -/
theorem flagOf_eq (hs : g.Admits s) (h : g.Coherent)
    (hb : s.becomes = if s.man.promotesOn s.dst then some (promotion.getD .queen) else none) :
    g.flagOf s.man s.src s.dst promotion =
      if s.passing = true then .enPassant else s.flag (g.execute s).1 := by
  have hvictim := isSome_victim hs h
  unfold flagOf Step.flag Step.isDoublePush
  rw [hb, Man.promotesOn, hs.mover]
  by_cases hk : s.man.kind = .pawn
  · have hpass := hs.passing_iff h hk
    cases hp : s.passing with
    | true =>
      obtain ⟨hempty, hfile⟩ := hpass.1 hp
      simp [hk, hempty, hfile]
    | false =>
      rw [hp, Bool.false_or] at hvictim
      have hstays : ¬((!!g.board.isEmpty s.dst) = true ∧ s.src.file ≠ s.dst.file) := by
        rw [Bool.not_not, ← hpass, hp]
        exact Bool.false_ne_true
      -- a pawn that captures moves one rank, so no capture is taken for a double push
      have hstrike := hs.ranks_of_capture h hk
      rw [if_pos hk, if_neg (by simpa using hstays), hvictim]
      by_cases hlast : s.dst.rank = g.active.lastRank
      · simp [hk, hlast]
      · cases hfull : g.board.isEmpty s.dst with
        | false =>
          rw [if_neg hlast, if_neg (hstrike hfull)]
          simp [hk, hlast]
        | true => simp [hk, hlast]
  · have hp := passing_of_not_pawn hs hk
    rw [hp, Bool.false_or] at hvictim
    simp [hk, hp, hvictim]

/-- A double push never leaves its target on the last rank of the side that may take it. -/
theorem Turn.target_off_last (t : g.Turn g') (h : g.Consistent) {u : Square}
    (hu : g'.enPassant = some u) : u.rank ≠ g'.active.lastRank := by
  rw [t.active]
  cases t with
  | @step _ _ _ s hs _ =>
    have hadm := (admits_of_assess hs).1
    have hu' : (g.execute s).2.enPassant = some u := hu
    rw [enPassant_execute hadm h.toCoherent] at hu'
    split_ifs at hu' with hd
    obtain ⟨_, _, next, hnext, _, _, hrank⟩ := hadm.double_push h.toCoherent hd
    obtain rfl : next = u := Option.some.inj (hnext.symm.trans hu')
    have hnext' := (Square.tryOffset_eq_some.1 hnext).2
    rw [hrank, hadm.mover] at hnext'
    intro hlast
    rw [hlast] at hnext'
    cases hc : g.active <;> simp [hc, Colour.opposite, Colour.lastRank, Colour.pawnRank,
      Colour.forward] at hnext'
  | castle hw => cases hu

/-! ### Candidates -/

theorem castleRequest_of_not_king (hk : m.kind ≠ .king) : m.castleRequest src dst = none :=
  if_neg hk

theorem castleRequest_of_near (hnear : (Geometry.kingStrikes src).has dst = true) :
    m.castleRequest src dst = none := by
  have hfar : ∀ c w, (Geometry.kingStrikes (CastlePath.of c w).kingFrom).has
      (CastlePath.of c w).kingTo = false := by
    intro c w
    cases c <;> cases w <;> decide
  rw [Option.eq_none_iff_forall_ne_some]
  intro w hw
  obtain ⟨_, hfrom, hto⟩ := castleRequest_eq_some_iff.1 hw
  rw [← hfrom, ← hto, hfar] at hnear
  cases hnear

theorem castleRequest_of_answers (hsq : g.square? m = some src)
    (h : g.answers n m dst = true) : m.castleRequest src dst = none := by
  by_cases hk : m.kind = .king
  · have hmove : g.canMoveTo m dst = true := by
      unfold answers at h
      split_ifs at h
      · exact h
      · simp [isPassing, hk] at h
      · rw [canTake, hk, Bool.and_eq_true] at h
        exact h.1
    simp only [canMoveTo, hk, kingSteps, hsq, Option.any_some, Bool.and_eq_true, Table.reaches,
      Piece.reaches] at hmove
    exact castleRequest_of_near hmove.1
  · exact castleRequest_of_not_king hk

/-- The sign for a capture asks whether anything is taken. -/
theorem answers_of_capture (hs : g.Admits s) (h : g.Coherent) (hc : n.capture = true) :
    g.answers n s.man s.dst = (g.execute s).1.isSome := by
  have hrules := hs.rules
  unfold answers
  unfold obeysRules at hrules
  rw [hc, Bool.not_true, if_neg Bool.false_ne_true, isSome_victim hs h, hs.passing_eq]
  cases hempty : g.board.isEmpty s.dst with
  | true => rw [if_pos rfl, Bool.not_true, Bool.or_false]
  | false =>
    rw [hempty, if_neg Bool.false_ne_true] at hrules
    rw [if_neg Bool.false_ne_true, hrules, Bool.not_false, Bool.or_true]

theorem canMoveTo_of_admits (hs : g.Admits s) (hk : s.man.kind ≠ .pawn) :
    g.canMoveTo s.man s.dst = true := by
  have htake : g.canTake s.man s.dst =
      (g.canMoveTo s.man s.dst && g.holdsOpponent s.man s.dst) := by
    unfold canTake
    cases hkind : s.man.kind <;> first | exact absurd hkind hk | rfl
  have hrules := hs.rules
  unfold obeysRules at hrules
  rw [← hs.passing_eq, passing_of_not_pawn hs hk, Bool.false_or] at hrules
  split_ifs at hrules
  · exact hrules
  · rw [htake, Bool.and_eq_true] at hrules
    exact hrules.1

theorem canMoveTo_pawn_iff (hs : g.Admits s) (h : g.Coherent) (hk : s.man.kind = .pawn) :
    g.canMoveTo s.man s.dst = true ↔ (g.execute s).1.isSome = false := by
  have hpass := hs.passing_iff h hk
  rw [isSome_victim hs h, Bool.or_eq_false_iff, Bool.not_eq_false']
  constructor
  · intro hmove
    rw [canMoveTo, hk] at hmove
    have hfile := file_of_pawnAdvances h hs.source hmove
    refine ⟨?_, Board.isEmpty_iff.2 ((pawnAdvances_iff h hs.source).1 hmove).1⟩
    rw [← Bool.not_eq_true, hpass]
    exact fun hcross => hcross.2 hfile
  · rintro ⟨hstays, hempty⟩
    have hrules := hs.rules
    unfold obeysRules at hrules
    rw [← hs.passing_eq, hempty, if_pos rfl, hstays, Bool.false_or] at hrules
    exact hrules

/-- Without the sign a pawn may take nothing, and any other man may. -/
theorem answers_of_plain (hs : g.Admits s) (h : g.Coherent) (hc : n.capture = false) :
    g.answers n s.man s.dst = true ↔
      (s.man.kind = .pawn → (g.execute s).1.isSome = false) := by
  unfold answers
  rw [hc, Bool.not_false, if_pos rfl]
  by_cases hk : s.man.kind = .pawn
  · rw [canMoveTo_pawn_iff hs h hk, forall_prop_of_true hk]
  · exact iff_of_true (canMoveTo_of_admits hs hk) fun hpawn => absurd hpawn hk

/-- The men that a written move may mean, each with its square, as far as they may go there. -/
def meant (g : Game) (n : Notation) (dst : Square) : List (Man × Square) :=
  (g.located (g.candidates n)).filter fun e => (g.attempt e.2 dst n.promotion).isSome

/-- The source is where a written move says that it is. -/
def Sourced (g : Game) (n : Notation) (src : Square) : Prop :=
  (g.sourceFilter n).1.all (· == (src.file.val : Int)) = true ∧
    (g.sourceFilter n).2.all (· == (src.rank.val : Int)) = true

theorem mem_meant (h : g.Consistent) (hdst : n.dst = some dst) :
    (m, src) ∈ g.meant n dst ↔
      (g.board.occupant src = some m ∧ m.colour = g.active ∧ m.kind = n.piece) ∧
        g.Sourced n src ∧ g.answers n m dst = true ∧
        (g.attempt src dst n.promotion).isSome = true := by
  unfold meant located candidates Sourced
  rw [hdst]
  simp only [List.mem_filter, List.mem_filterMap, Option.map_eq_some_iff, Prod.mk.injEq,
    Bool.and_eq_true, beq_iff_eq]
  constructor
  · rintro ⟨⟨m, ⟨hlive, ⟨hk, hsource⟩, hanswers⟩, src, hsq, rfl, rfl⟩, hattempt⟩
    have hc := h.live_colour _ m hlive
    rw [hsq, Option.any_some, Bool.and_eq_true] at hsource
    exact ⟨⟨(h.occupant_iff src m).2 ⟨hsq, hc.symm ▸ hlive⟩, hc, hk⟩, hsource, hanswers, hattempt⟩
  · rintro ⟨⟨hocc, hc, hk⟩, hsource, hanswers, hattempt⟩
    have hsq := h.square?_of_occupant hocc
    refine ⟨⟨m, ⟨hc ▸ h.live_of_occupant hocc, ⟨hk, ?_⟩, hanswers⟩, src, hsq, rfl, rfl⟩, hattempt⟩
    rw [hsq, Option.any_some, Bool.and_eq_true]
    exact hsource

theorem nodup_meant (h : g.Consistent) (hdst : n.dst = some dst) :
    ((g.meant n dst).map Prod.snd).Nodup := by
  have hcandidates : (g.candidates n).Nodup := by
    unfold candidates
    rw [hdst]
    exact (h.live_nodup g.active).filter _
  have hlocated : (g.located (g.candidates n)).Nodup := by
    refine hcandidates.filterMap fun m m' e hm hm' => ?_
    obtain ⟨_, _, rfl⟩ := Option.map_eq_some_iff.1 hm
    obtain ⟨_, _, he⟩ := Option.map_eq_some_iff.1 hm'
    exact (congrArg Prod.fst he).symm
  refine (hlocated.filter _).map_on fun e he e' he' hsquare => Prod.ext ?_ hsquare
  have hocc := ((mem_meant h hdst).1 he).1.1
  rw [hsquare, ((mem_meant h hdst).1 he').1.1] at hocc
  exact (Option.some.inj hocc).symm

theorem step_of_meant (h : g.Consistent) (hdst : n.dst = some dst)
    (hmem : (m, src) ∈ g.meant n dst) :
    ∃ s, g.assess src dst n.promotion = .ok (.step s) ∧
      (g.execute s).2.inCheck s.man.colour = false ∧
      s = g.stepOf m src dst n.promotion := by
  obtain ⟨⟨hocc, _⟩, _, hanswers, hattempt⟩ := (mem_meant h hdst).1 hmem
  have hnone := castleRequest_of_answers (h.square?_of_occupant hocc) hanswers
  obtain ⟨g', hg'⟩ := Option.isSome_iff_exists.1 hattempt
  obtain ⟨hs, _, _, hsafe⟩ := step_of_attempt hocc hnone hg'
  exact ⟨_, hs, hsafe, rfl⟩

end Game

namespace Arbiter

variable {a b : Arbiter} {r : MoveRecord} {e : MoveError} {m : Move} {n : Notation} {s : Step}
  {src dst : Square} {promotion : Option PieceKind} {w : Wing} {text : String}

/-! ### What is granted -/

theorem isOk_move (a : Arbiter) (src dst : Square) (promotion : Option PieceKind) :
    (a.move src dst promotion).1.isOk = (a.attempt src dst promotion).isSome := by
  rcases h : a.move src dst promotion with ⟨e | r, b⟩
  · rw [(move_error h).1]
    rfl
  · rw [(move_ok h).1]
    rfl

/-- The destinations offered to a man of the side to move are those to which a move is granted. -/
theorem fst_legalDestinations (a : Arbiter) (src : Square) :
    (a.legalDestinations src).1 =
      if (a.board.occupant src).any (·.colour == a.active) then
        (Square.all.filter (· != src)).filter fun dst => (a.attempt src dst none).isSome
      else [] := by
  have htried : ∀ dst (b : Arbiter), b.toGame = { a.toGame with depth := a.depth + 1 } →
      (b.move src dst none).1.isOk = (a.attempt src dst none).isSome := by
    intro dst b hb
    rw [isOk_move, hb, Game.isSome_attempt_setDepth]
  unfold legalDestinations
  split_ifs
  · exact fst_keep (fun dst b => extends_move b src dst none) htried _
  · rfl

/-! ### The entries made -/

theorem record_of_castle (h : a.castle w = (.ok r, b)) :
    r = (a.executeCastle (CastlePath.of a.active w)).entry (Game.castleRecord a.active w)
      false := by
  obtain ⟨_, hb, hmoves⟩ := castle_ok h
  rw [hb, Game.moves_afterCastle] at hmoves
  exact (Game.entry_unique hmoves).symm

theorem move_of_castle (h : a.castle w = (.ok r, b)) :
    r.move = .ofParts (CastlePath.of a.active w).kingFrom (CastlePath.of a.active w).kingTo
      (MoveFlag.castle w) := by
  rw [record_of_castle h]
  rfl

theorem kind_of_castle_error (h : a.castle w = (.error e, b)) : e.kind = .illegalCastle := by
  unfold castle at h
  dsimp only at h
  split_ifs at h with hw
  · have hr := congrArg Prod.fst h
    rw [finalize_fst] at hr
    cases hr
  · cases h
    rfl

theorem kind_of_carryOut_error (h : a.carryOut s = (.error e, b)) : e.kind = .selfCheck := by
  unfold carryOut at h
  dsimp only at h
  split_ifs at h
  · obtain ⟨he, _⟩ := Prod.mk.inj h
    rw [← Except.error.inj he]
    rfl
  · have hr := congrArg Prod.fst h
    rw [finalize_fst] at hr
    cases hr

theorem record_of_step (hs : a.assess src dst promotion = .ok (.step s))
    (h : a.move src dst promotion = (.ok r, b)) :
    r = (a.execute s).2.entry (s.record (a.execute s).1)
      (s.man.kind == .pawn || (a.execute s).1.isSome) := by
  obtain ⟨hattempt, hmoves⟩ := move_ok h
  rcases Game.attempt_eq_some_iff.1 hattempt with ⟨s', hs', _, hb⟩ | ⟨w, hw, _⟩
  · rw [hs, Except.ok.injEq, Plan.step.injEq] at hs'
    subst hs'
    rw [hb, Game.moves_afterStep] at hmoves
    exact (Game.entry_unique hmoves).symm
  · rw [hs] at hw
    cases hw

theorem move_of_step (hs : a.assess src dst promotion = .ok (.step s))
    (h : a.move src dst promotion = (.ok r, b)) :
    r.move = .ofParts src dst (s.flag (a.execute s).1) := by
  obtain ⟨_, rfl, rfl⟩ := Game.admits_of_assess hs
  rw [record_of_step hs h]
  rfl

/-! ### Resolving -/

theorem fst_keep_tryCandidate {a' : Arbiter} (h : a'.toGame = a.toGame) (n : Notation)
    (dst : Square) (men : List (Man × Square)) :
    (keep (tryCandidate dst n.promotion) men a').1 =
      men.filter fun e => (a.attempt e.2 dst n.promotion).isSome := by
  refine fst_keep (fun c b => extends_tryCandidate dst n.promotion c b) (fun c b hb => ?_) men
  rw [← Game.isSome_attempt_setDepth a.toGame (a'.depth + 1), ← h, ← hb]
  unfold tryCandidate
  split
  case h_1 r b' hmove =>
    rw [(move_ok hmove).1]
    rfl
  case h_2 e b' hmove =>
    rw [(move_error hmove).1]
    rfl

theorem fst_choose_congr (h : a.toGame = b.toGame) (men : List (Man × Square)) :
    (a.choose n dst men).1 = (b.choose n dst men).1 := by
  obtain ⟨g, _⟩ := a
  obtain ⟨g', _⟩ := b
  obtain rfl : g = g' := h
  rcases men with _ | ⟨⟨m, src⟩, _ | ⟨e, rest⟩⟩ <;> rfl

theorem fst_resolveTo (a : Arbiter) (n : Notation) (dst : Square) :
    (a.resolveTo n dst).1 =
      if n.promotion.isSome ∧ dst.rank ≠ a.active.lastRank then
        .error (a.failure .promotionError ("Pawn cannot promote on " ++ dst.name) none dst)
      else if (a.candidates n).isEmpty then
        .error (a.failure .noLegalCandidate ("None of " ++ a.active.label ++ "'s " ++ n.piece.plural
          ++ " can reach " ++ dst.name) none dst)
      else (a.choose n dst (a.meant n dst)).1 := by
  unfold resolveTo
  dsimp only
  split_ifs
  · rfl
  · rfl
  · rw [fst_keep_tryCandidate (a := a) (toGame_note a .debug _)]
    refine fst_choose_congr ?_ _
    rw [toGame_keep _ fun c b => extends_tryCandidate dst n.promotion c b]
    rfl

theorem fst_resolveTo_congr (h : a.toGame = b.toGame) :
    (a.resolveTo n dst).1 = (b.resolveTo n dst).1 := by
  rw [fst_resolveTo, fst_resolveTo, fst_choose_congr h, h]

theorem fst_resolve_congr (h : a.toGame = b.toGame) (n : Notation) :
    (a.resolve n).1 = (b.resolve n).1 := by
  unfold resolve
  cases n.castle with
  | some w =>
    obtain ⟨g, _⟩ := a
    obtain ⟨g', _⟩ := b
    obtain rfl : g = g' := h
    dsimp only
    split_ifs <;> rfl
  | none =>
    cases n.dst with
    | none => rfl
    | some dst => exact fst_resolveTo_congr h

theorem choose_ok {men : List (Man × Square)} (h : (a.choose n dst men).1 = .ok m) :
    ∃ man src, men = [(man, src)] ∧ m = .ofParts src dst (a.flagOf man src dst n.promotion) := by
  rcases men with _ | ⟨⟨man, src⟩, _ | ⟨e, rest⟩⟩
  · cases h
  · exact ⟨man, src, rfl, (Except.ok.inj h).symm⟩
  · cases h

theorem resolveTo_ok (h : (a.resolveTo n dst).1 = .ok m) :
    ∃ man src, a.meant n dst = [(man, src)] ∧
      m = .ofParts src dst (a.flagOf man src dst n.promotion) := by
  rw [fst_resolveTo] at h
  split_ifs at h
  exact choose_ok h

/-! ### Playing -/

/-- A move played is the move resolved, but for the flag of a pawn that promotes in passing. -/
structure SameMove (g : Game) (m r : Move) : Prop where
  src : r.src = m.src
  dst : r.dst = m.dst
  flag : r = m ∨ (g.enPassant = some m.dst ∧ m.dst.rank = g.active.lastRank ∧
    m.flag = .enPassant ∧ ∃ k, r.flag = .promotion k true)

theorem flag_promotion (src dst : Square) {k : PieceKind} (hk : k.isOfficer = true)
    (capture : Bool) :
    (Move.ofParts src dst (.promotion k capture)).flag = .promotion k capture := by
  refine Move.flag_ofParts src dst ?_
  revert hk
  cases k <;> cases capture <;> decide

theorem sameMove_of_step (h : a.toGame.Consistent) (hs : a.assess src dst promotion = .ok (.step s))
    (hstep : s = a.stepOf s.man src dst promotion) :
    SameMove a.toGame (.ofParts src dst (a.flagOf s.man src dst promotion))
      (.ofParts src dst (s.flag (a.execute s).1)) := by
  obtain ⟨hadm, rfl, rfl⟩ := Game.admits_of_assess hs
  have hb : s.becomes =
      if s.man.promotesOn s.dst then some (promotion.getD .queen) else none :=
    congrArg Step.becomes hstep
  have hflag := Game.flagOf_eq hadm h.toCoherent hb
  refine ⟨by simp, by simp, ?_⟩
  rw [hflag, Move.dst_ofParts]
  cases hp : s.passing with
  | false => exact .inl rfl
  | true =>
    rw [if_pos rfl]
    cases hk : s.becomes with
    | none =>
      left
      simp [Step.flag, hk, hp]
    | some k =>
      right
      obtain ⟨_, htarget, _⟩ := hadm.victim_of_passing h.toCoherent hp
      have hlast : s.man.promotesOn s.dst = true := by
        rw [← hadm.becomes_isSome, hk]
        rfl
      rw [Man.promotesOn, Bool.and_eq_true, beq_iff_eq, beq_iff_eq, hadm.mover] at hlast
      refine ⟨htarget, hlast.2, Move.flag_ofParts _ _ (by decide), k, ?_⟩
      rw [Step.flag, hk, Game.isSome_victim hadm h.toCoherent, hp]
      exact flag_promotion _ _ (hadm.officer k hk) true

theorem playNotation_of_resolved (h : a.toGame.Consistent) (hm : (a.resolve n).1 = .ok m) :
    ∃ r b, a.playNotation n = (.ok r, b) ∧ SameMove a.toGame m r.move := by
  have hgame := toGame_resolve a n
  unfold playNotation
  rcases hr : a.resolve n with ⟨e | m', a'⟩
  · rw [hr] at hm
    cases hm
  rw [hr] at hm hgame
  obtain rfl : m' = m := Except.ok.inj hm
  unfold resolve at hr
  cases hcastle : n.castle with
  | some w =>
    rw [hcastle] at hr
    dsimp only at hr ⊢
    split_ifs at hr with hopen
    · rcases hplay : a.castle w with ⟨e | r, b⟩
      · rw [(castle_error hplay).1] at hopen
        cases hopen
      · refine ⟨r, b, rfl, ?_⟩
        rw [move_of_castle hplay, ← Except.ok.inj (Prod.mk.inj hr).1]
        exact ⟨rfl, rfl, .inl rfl⟩
    · cases hr
  | none =>
    rw [hcastle] at hr
    cases hdst : n.dst with
    | none =>
      rw [hdst] at hr
      cases hr
    | some dst =>
      rw [hdst] at hr
      obtain ⟨man, src, hmeant, rfl⟩ := resolveTo_ok (congrArg Prod.fst hr)
      obtain ⟨s, hs, hsafe, hstep⟩ :=
        Game.step_of_meant h hdst (hmeant ▸ List.mem_singleton_self (man, src))
      obtain rfl : s.man = man := congrArg Step.man hstep
      dsimp only
      rw [Move.src_ofParts, Move.dst_ofParts]
      -- the man that was tried out may go there
      rcases hmove : a'.move src dst n.promotion with ⟨e | r, b⟩
      · have hrefused := (move_error hmove).1
        rw [hgame, Game.attempt_eq_some_iff.2 (.inl ⟨s, hs, hsafe, rfl⟩)] at hrefused
        cases hrefused
      · refine ⟨r, b, rfl, ?_⟩
        have hs' : a'.assess src dst n.promotion = .ok (.step s) := by rw [hgame, hs]
        rw [move_of_step hs' hmove, hgame]
        exact sameMove_of_step h hs hstep

theorem playNotation_of_unresolved (he : (a.resolve n).1 = .error e) :
    ∃ e' b, a.playNotation n = (.error e', b) ∧ e'.kind = e.kind := by
  unfold playNotation
  cases hcastle : n.castle with
  | some w =>
    unfold resolve at he
    rw [hcastle] at he
    dsimp only at he ⊢
    split_ifs at he with hopen
    rcases hplay : a.castle w with ⟨e' | r, b⟩
    · refine ⟨e', b, rfl, ?_⟩
      rw [kind_of_castle_error hplay, ← Except.error.inj he]
      rfl
    · exact absurd (castle_ok hplay).1 hopen
  | none =>
    dsimp only
    split
    case h_1 e' b hr =>
      rw [hr, Except.error.injEq] at he
      exact ⟨e', b, rfl, congrArg MoveError.kind he⟩
    case h_2 m b hr =>
      rw [hr] at he
      cases he

theorem play_of_parse (a : Arbiter) (hn : Notation.parse text = .ok n) :
    ∃ a' : Arbiter, a'.toGame = a.toGame ∧ a.play text =
      match a'.playNotation n with
      | (.error e, b) => (.error e, b.note .error e.describe)
      | (.ok r, b) => (.ok { r with text := n.text }, { b with toGame := b.retitle n.text }) := by
  unfold play
  rw [hn]
  exact ⟨_, toGame_note a .debug _, rfl⟩

theorem fst_play (a : Arbiter) (hn : Notation.parse text = .ok n) :
    ∃ a' : Arbiter, a'.toGame = a.toGame ∧
      (a.play text).1 = (a'.playNotation n).1.map ({ · with text := n.text }) := by
  obtain ⟨a', ha', hplay⟩ := a.play_of_parse hn
  refine ⟨a', ha', ?_⟩
  rw [hplay]
  rcases a'.playNotation n with ⟨e | r, b⟩ <;> rfl

theorem play_of_resolved (h : a.toGame.Consistent) (hm : (a.resolveText text).1 = .ok m) :
    ∃ r, (a.play text).1 = .ok r ∧ SameMove a.toGame m r.move := by
  unfold resolveText at hm
  cases hn : Notation.parse text with
  | error e =>
    rw [hn] at hm
    cases hm
  | ok n =>
    obtain ⟨a', ha', hplay⟩ := a.fst_play hn
    rw [hn] at hm
    dsimp only at hm
    rw [fst_resolve_congr ha'.symm] at hm
    obtain ⟨r, b, hr, hsame⟩ := playNotation_of_resolved (ha' ▸ h) hm
    rw [hplay, hr]
    exact ⟨_, rfl, ha' ▸ hsame⟩

theorem play_of_unresolved (he : (a.resolveText text).1 = .error e) :
    ∃ e', (a.play text).1 = .error e' ∧ e'.kind = e.kind := by
  unfold resolveText at he
  cases hn : Notation.parse text with
  | error e' =>
    rw [hn] at he
    obtain rfl : e' = e := Except.error.inj he
    refine ⟨{ e' with fen := a.toFen }, ?_, rfl⟩
    unfold play
    rw [hn]
  | ok n =>
    obtain ⟨a', ha', hplay⟩ := a.fst_play hn
    rw [hn] at he
    dsimp only at he
    rw [fst_resolve_congr ha'.symm] at he
    obtain ⟨e', b, hr, hkind⟩ := playNotation_of_unresolved he
    rw [hplay, hr]
    exact ⟨e', rfl, hkind⟩

/-! ### Play from the start or from a text -/

def Begun (a : Arbiter) : Prop :=
  (∃ x : Arbiter, a = x.reset) ∨ ∃ (x : Arbiter) (text : String), x.loadFen text = (.ok (), a)

theorem Begun.consistent (ha : a.Begun) : a.toGame.Consistent := by
  rcases ha with ⟨x, rfl⟩ | ⟨x, text, hload⟩
  · exact (orderly_reset x).toConsistent
  · exact (consistent_of_loadFen hload).1

theorem Begun.consistent_run (ha : a.Begun) (qs : List Request) : (a.run qs).toGame.Consistent :=
  run_keeps Game.Turn.consistent (fun title h => h.retitle title) ha.consistent qs

theorem Begun.unplayed (ha : a.Begun) : a.Unplayed := by
  rcases ha with ⟨x, rfl⟩ | ⟨x, text, hload⟩
  · exact Game.unplayed_start.setDepth x.depth
  · exact unplayed_of_loadFen hload

theorem Begun.moves_eq_nil (ha : a.Begun) : a.moves = [] := ha.unplayed.moves

/-- A target on the last rank is the one that was set up, and nobody has moved yet. -/
def TargetSetUp (t : Option Square) (g : Game) : Prop :=
  g.Consistent ∧ ∀ u, g.enPassant = some u → u.rank = g.active.lastRank →
    g.moves = [] ∧ t = some u

theorem targetSetUp_run (ha : a.Begun) (qs : List Request) :
    TargetSetUp a.enPassant (a.run qs).toGame := by
  have hturn : ∀ {g g' : Game}, g.Turn g' → TargetSetUp a.enPassant g →
      TargetSetUp a.enPassant g' := by
    intro g g' t h
    exact ⟨t.consistent h.1, fun u hu hlast => absurd hlast (t.target_off_last h.1 hu)⟩
  have htitle : ∀ {g : Game} (title : String), TargetSetUp a.enPassant g →
      TargetSetUp a.enPassant (g.retitle title) := by
    intro g title h
    refine ⟨h.1.retitle title, fun u hu hlast => ?_⟩
    rw [Game.retitle_eq] at hu hlast
    obtain ⟨hnil, ht⟩ := h.2 u hu hlast
    refine ⟨?_, ht⟩
    rw [Game.moves_retitle, hnil]
    rfl
  exact run_keeps hturn htitle ⟨ha.consistent, fun u hu _ => ⟨ha.moves_eq_nil, hu⟩⟩ qs

/-- In all play, a written move that is resolved is played, between the same squares and with the
same flag; one that is not is refused for the same kind of reason. Only a pawn that promotes by
taking in passing, as the first move from a text that names such a target, is resolved to the flag
of the one and played with that of the other. -/
theorem resolved_is_played (ha : a.Begun) (qs : List Request) (text : String) :
    (∀ m, ((a.run qs).resolveText text).1 = .ok m →
      ∃ r, ((a.run qs).play text).1 = .ok r ∧ r.move.src = m.src ∧ r.move.dst = m.dst ∧
        (r.move = m ∨ ((a.run qs).moves = [] ∧ a.enPassant = some m.dst ∧
          m.dst.rank = (a.run qs).active.lastRank ∧ m.flag = .enPassant ∧
          ∃ k, r.move.flag = .promotion k true))) ∧
    ∀ e, ((a.run qs).resolveText text).1 = .error e →
      ∃ e', ((a.run qs).play text).1 = .error e' ∧ e'.kind = e.kind := by
  have htarget := targetSetUp_run ha qs
  refine ⟨fun m hm => ?_, fun e he => play_of_unresolved he⟩
  obtain ⟨r, hplay, hsame⟩ := play_of_resolved htarget.1 hm
  refine ⟨r, hplay, hsame.src, hsame.dst, ?_⟩
  rcases hsame.flag with hflag | ⟨hpassing, hlast, hflags⟩
  · exact .inl hflag
  · obtain ⟨hnil, ht⟩ := htarget.2 m.dst hpassing hlast
    exact .inr ⟨hnil, ht, hlast, hflags⟩

/-- The target stands on White's last rank, beside a pawn about to promote. -/
def passedOnLastRank : String := "k7/3Pp3/8/8/8/8/8/4K3 w - e8 0 1"

/-- One written move with two flags: in passing when resolved, a promotion when played. -/
theorem promotion_in_passing :
    ((opening {}).loadFen passedOnLastRank).1 = .ok () ∧
      (let a := ((opening {}).loadFen passedOnLastRank).2
       (a.resolveText "dxe8").1.toOption.map (·.flag) = some .enPassant ∧
         (a.play "dxe8").1.toOption.map (·.move.flag) = some (.promotion .queen true)) := by
  decide +kernel

theorem straight_on_is_played :
    ∃ a m r, (opening {}).loadFen passedOnLastRank = (.ok (), a) ∧
      (a.resolveText "d8=N").1 = .ok m ∧ (a.play "d8=N").1 = .ok r ∧
      r.move.src = m.src ∧ r.move.dst = m.dst := by
  have hloaded : ((opening {}).loadFen passedOnLastRank).1.isOk = true := by decide +kernel
  have hmeant : (((opening {}).loadFen passedOnLastRank).2.resolveText "d8=N").1.isOk = true := by
    decide +kernel
  rcases hload : (opening {}).loadFen passedOnLastRank with ⟨e | _, a⟩
  · rw [hload] at hloaded
    cases hloaded
  · rw [hload] at hmeant
    rcases hm : (a.resolveText "d8=N").1 with e | m
    · rw [hm] at hmeant
      cases hmeant
    · have hplayed := resolved_is_played (.inr ⟨_, _, hload⟩) [] "d8=N"
      obtain ⟨r, hr, hsrc, hdst, _⟩ := hplayed.1 m hm
      exact ⟨a, m, r, rfl, hm, hr, hsrc, hdst⟩

end Arbiter

end ChessArbiter
