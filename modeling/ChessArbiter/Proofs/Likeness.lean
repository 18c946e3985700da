import ChessArbiter.Proofs.Simulation
import ChessArbiter.Proofs.Resolving

/-!
# Games at one position

Two games at the same position may differ in the numbers of their men, in the marks and in the
order in which they keep them, and in all that was played before. Tidy games (`Alike`) nevertheless
give the same answers: whatever a query reads of a man is his piece, his square, or a mark that the
position tells as well. A pawn's mark is asked for on its starting rank only, and there it is off;
those of kings and rooks only decide which castling rights are left. Moves assessed in both games
are refused for the same kind of reason or taken up alike (`Alike.assess`), and lead to games that
are alike again (`Alike.afterStep`, `Alike.afterCastle`).
-/

namespace ChessArbiter

namespace Game

variable {g h : Game} {m n : Man} {s : Step} {src dst u v : Square} {c : Colour} {w : Wing}
  {promotion : Option PieceKind}

/-! ### Queries that only read the position -/

theorem reaches_eq (h : g.Tidy) (hs : g.board.occupant src = some m) :
    g.reaches m dst = m.toPiece.reaches false src dst := by
  unfold Table.reaches
  rw [h.square?_of_occupant hs, Option.any_some]
  unfold Piece.reaches
  cases hk : m.kind with
  | pawn =>
    have hmark : m.mayStepTwice (g.hasMoved m) src = m.mayStepTwice false src := by
      by_cases hrank : src.rank = m.colour.pawnRank
      · rw [h.pawn_fresh src m hs hk hrank]
      · simp [Piece.mayStepTwice, hrank]
    dsimp only
    rw [hmark]
  | knight | bishop | rook | queen | king => rfl

theorem isAttackedWithout_piece (h : g.Consistent) :
    g.isAttackedWithout u c v = true ↔ ∃ src x, g.board.piece src = some x ∧ x.colour = c ∧
      x.bearsOn (fun t => g.board.isEmpty t || t == v) src u = true := by
  rw [isAttackedWithout_iff h]
  simp only [piece_eq_some]
  constructor
  · rintro ⟨src, m, hm, hc, hb⟩
    exact ⟨src, m.toPiece, ⟨m, hm, rfl⟩, hc, hb⟩
  · rintro ⟨src, _, ⟨m, hm, rfl⟩, hc, hb⟩
    exact ⟨src, m, hm, hc, hb⟩

/-- Tidy games at the same position. -/
structure Alike (g h : Game) : Prop where
  left : g.Tidy
  right : h.Tidy
  position : h.position = g.position

/-- The men of two games on one square, the same piece in both. -/
structure Counterparts (g h : Game) (u : Square) (m n : Man) : Prop where
  left : g.board.occupant u = some m
  right : h.board.occupant u = some n
  piece : n.toPiece = m.toPiece

theorem isSome_eq_of_toPiece {v v' : Option Man}
    (hv : v'.map (·.toPiece) = v.map (·.toPiece)) : v'.isSome = v.isSome := by
  simpa using congrArg Option.isSome hv

namespace Counterparts

theorem kind (hp : g.Counterparts h u m n) : n.kind = m.kind := congrArg Piece.kind hp.piece

theorem colour (hp : g.Counterparts h u m n) : n.colour = m.colour :=
  congrArg Piece.colour hp.piece

theorem castleRequest (hp : g.Counterparts h u m n) (src dst : Square) :
    n.castleRequest src dst = m.castleRequest src dst := by
  rw [← castling_eq, ← castling_eq, hp.piece]

/-- Moves of counterparts that take the same piece, or nothing, are recorded alike. -/
theorem record_eq (hp : g.Counterparts h u s.man n) {v v' : Option Man}
    (hv : v'.map (·.toPiece) = v.map (·.toPiece)) :
    ({ s with man := n } : Step).record v' = s.record v := by
  have hsome := isSome_eq_of_toPiece hv
  have hkinds : v'.map (·.kind) = v.map (·.kind) := by
    have h := congrArg (Option.map Piece.kind) hv
    rwa [Option.map_map, Option.map_map] at h
  unfold Step.record Step.flag Step.isDoublePush
  dsimp only
  rw [hkinds, hsome, hp.kind, hp.colour]

end Counterparts

namespace Alike

theorem symm (ha : g.Alike h) : h.Alike g := ⟨ha.right, ha.left, ha.position.symm⟩

section queries

variable (ha : g.Alike h)

include ha

theorem board_piece : h.board.piece = g.board.piece := congrArg Position.men ha.position

theorem active : h.active = g.active := congrArg Position.active ha.position

theorem hasRight : h.hasRight = g.hasRight := congrArg Position.rights ha.position

theorem enPassant : h.enPassant = g.enPassant := congrArg Position.passing ha.position

theorem halfmove : h.halfmove = g.halfmove :=
  Int32.toInt_inj.1 (congrArg Position.halfmove ha.position)

theorem turn : h.turn = g.turn := Int32.toInt_inj.1 (congrArg Position.turn ha.position)

theorem toFen : h.toFen = g.toFen :=
  toFen_congr ha.board_piece ha.active ha.hasRight ha.halfmove ha.turn

theorem isEmpty : h.board.isEmpty = g.board.isEmpty := by
  rw [← free_piece, ← free_piece, ha.board_piece]

theorem any_occupant (p : Piece → Bool) (u : Square) :
    ((h.board.occupant u).any fun y => p y.toPiece) =
      (g.board.occupant u).any fun y => p y.toPiece := by
  have hpieces : ∀ b : Board, ((b.occupant u).any fun y => p y.toPiece) = (b.piece u).any p :=
    fun b => Option.any_map.symm
  rw [hpieces, hpieces, ha.board_piece]

theorem pathClear (u v : Square) : h.board.pathClear u v = g.board.pathClear u v := by
  rw [Bool.eq_iff_iff, Board.pathClear_iff ha.right.faithful, Board.pathClear_iff ha.left.faithful,
    ha.isEmpty]

theorem isAttacked (u : Square) (c : Colour) : h.isAttacked u c = g.isAttacked u c := by
  rw [← isAttacked_piece ha.right.toConsistent, ← isAttacked_piece ha.left.toConsistent,
    ha.board_piece]

theorem isAttackedWithout (u : Square) (c : Colour) (v : Square) :
    h.isAttackedWithout u c v = g.isAttackedWithout u c v := by
  rw [Bool.eq_iff_iff, isAttackedWithout_piece ha.right.toConsistent,
    isAttackedWithout_piece ha.left.toConsistent, ha.board_piece, ha.isEmpty]

theorem inCheck (c : Colour) : h.inCheck c = g.inCheck c := by
  rw [← inCheck_piece ha.right.toConsistent (ha.right.one_king c),
    ← inCheck_piece ha.left.toConsistent (ha.left.one_king c), ha.board_piece]

theorem canCastle (w : Wing) : h.canCastle h.active w = g.canCastle g.active w := by
  rw [← mayCastle_eq ha.right.toConsistent, ← mayCastle_eq ha.left.toConsistent, ha.position]

theorem counterparts (hm : g.board.occupant u = some m) (hn : h.board.occupant u = some n) :
    g.Counterparts h u m n := by
  have hpieces := congrFun ha.board_piece u
  unfold Board.piece at hpieces
  rw [hm, hn] at hpieces
  exact ⟨hm, hn, Option.some.inj hpieces⟩

theorem exists_counterpart (hm : g.board.occupant u = some m) : ∃ n, g.Counterparts h u m n := by
  have hpiece : h.board.piece u = some m.toPiece := by
    rw [ha.board_piece]
    exact piece_eq_some.2 ⟨m, hm, rfl⟩
  obtain ⟨n, hn, _⟩ := piece_eq_some.1 hpiece
  exact ⟨n, ha.counterparts hm hn⟩

theorem occupant_eq_none (hu : g.board.occupant u = none) : h.board.occupant u = none := by
  rw [← Board.isEmpty_iff] at hu ⊢
  rwa [ha.isEmpty]

/-- The kings that the two games look for stand on one square. -/
theorem king (c : Colour) : ∃ k k' u, g.Counterparts h u k k' ∧ g.king c = some k ∧
    h.king c = some k' := by
  obtain ⟨k, hlive, hking, _⟩ := (hasOneKing_iff ha.left.toCoherent).1 (ha.left.one_king c)
  obtain ⟨u, _, hu⟩ := ha.left.exists_occupant hlive
  obtain ⟨k', hp⟩ := ha.exists_counterpart hu
  have hc : k'.colour = c := hp.colour.trans (ha.left.live_colour c k hlive)
  refine ⟨k, k', u, hp, king_eq ha.left.toCoherent (ha.left.one_king c) hlive hking,
    king_eq ha.right.toCoherent (ha.right.one_king c) ?_ (hp.kind.trans hking)⟩
  exact hc ▸ ha.right.live_of_occupant hp.right

variable (hp : g.Counterparts h src m n)

include hp

theorem reaches (dst : Square) : h.reaches n dst = g.reaches m dst := by
  rw [reaches_eq ha.right hp.right, reaches_eq ha.left hp.left, hp.piece]

theorem attacks (dst : Square) : h.attacks n dst = g.attacks m dst := by
  rw [Table.attacks_eq_bearsOn ha.right.faithful (ha.right.square?_of_occupant hp.right),
    Table.attacks_eq_bearsOn ha.left.faithful (ha.left.square?_of_occupant hp.left), hp.piece,
    ha.isEmpty]

theorem pawnAdvances (hk : m.kind = .pawn) (dst : Square) :
    h.pawnAdvances n dst = g.pawnAdvances m dst := by
  rw [Bool.eq_iff_iff, ← pushes_iff ha.right hp.right (hp.kind.trans hk),
    ← pushes_iff ha.left hp.left hk, ha.board_piece, hp.colour]

theorem kingSteps (dst : Square) : h.kingSteps n dst = g.kingSteps m dst := by
  unfold Game.kingSteps
  rw [ha.right.square?_of_occupant hp.right, ha.left.square?_of_occupant hp.left, Option.any_some,
    Option.any_some, ha.reaches hp, hp.colour, ha.isAttackedWithout]

theorem canMoveTo (dst : Square) : h.canMoveTo n dst = g.canMoveTo m dst := by
  unfold Game.canMoveTo
  rw [hp.kind]
  cases hk : m.kind with
  | pawn => exact ha.pawnAdvances hp hk dst
  | king => exact ha.kingSteps hp dst
  | knight | bishop | rook | queen => exact ha.attacks hp dst

theorem holdsOpponent (dst : Square) : h.holdsOpponent n dst = g.holdsOpponent m dst := by
  unfold Table.holdsOpponent
  rw [hp.colour]
  exact ha.any_occupant (·.colour != m.colour) dst

theorem passedBy (dst : Square) : h.passedBy n dst = g.passedBy m dst := by
  unfold Game.passedBy
  rw [ha.right.square?_of_occupant hp.right, ha.left.square?_of_occupant hp.left, Option.any_some,
    Option.any_some, hp.colour, ha.enPassant, ha.isEmpty]
  exact congrArg _ (ha.any_occupant (fun x => x.kind == .pawn && x.colour != m.colour) _)

theorem canTake (dst : Square) : h.canTake n dst = g.canTake m dst := by
  unfold Game.canTake
  rw [hp.kind, ha.attacks hp, ha.holdsOpponent hp, ha.passedBy hp, ha.canMoveTo hp]

theorem isPassing (dst : Square) : h.isPassing n dst = g.isPassing m dst := by
  unfold Game.isPassing
  rw [hp.kind, ha.isEmpty, ha.enPassant, ha.canTake hp]

theorem obeysRules (dst : Square) : h.obeysRules n dst = g.obeysRules m dst := by
  unfold Game.obeysRules
  rw [ha.isEmpty, ha.isPassing hp, ha.canMoveTo hp, ha.canTake hp]

theorem stepOf (dst : Square) (promotion : Option PieceKind) :
    h.stepOf n src dst promotion = { g.stepOf m src dst promotion with man := n } := by
  have hpromotes : n.promotesOn dst = m.promotesOn dst := by
    unfold Man.promotesOn
    rw [hp.kind, hp.colour]
  unfold Game.stepOf
  rw [ha.isPassing hp, hpromotes]

end queries

theorem isCheckmate (ha : g.Alike h) (c : Colour) : h.isCheckmate c = g.isCheckmate c := by
  obtain ⟨k, k', u, hp, hk, hk'⟩ := ha.king c
  unfold Game.isCheckmate
  rw [hk, hk', Option.any_some, Option.any_some, ha.right.square?_of_occupant hp.right,
    ha.left.square?_of_occupant hp.left, Option.any_some, Option.any_some]
  have hfree : ∀ dst, (!((h.board.occupant dst).any (·.colour == c)) && h.canMoveTo k' dst) =
      (!((g.board.occupant dst).any (·.colour == c)) && g.canMoveTo k dst) := by
    intro dst
    rw [ha.canMoveTo hp]
    exact congrArg (!· && g.canMoveTo k dst) (ha.any_occupant (·.colour == c) dst)
  simp only [hfree]

/-! ### Assessing a move -/

section objections

variable (ha : g.Alike h) (hp : g.Counterparts h src m n)

include hp

theorem kind_promotionObjection (dst : Square) (promotion : Option PieceKind) :
    (h.promotionObjection n src dst promotion).map (·.kind) =
      (g.promotionObjection m src dst promotion).map (·.kind) := by
  unfold promotionObjection
  rw [hp.kind, hp.colour]
  cases promotion with
  | none => rfl
  | some k =>
    dsimp only
    split_ifs <;> simp only [Option.map_some, Option.map_none, kind_failure]

include ha

theorem kind_captureObjection (dst : Square) :
    (h.captureObjection n src dst).map (·.kind) = (g.captureObjection m src dst).map (·.kind) := by
  unfold captureObjection
  cases hv : g.board.occupant dst with
  | none => rw [ha.occupant_eq_none hv]
  | some v =>
    obtain ⟨v', hpv⟩ := ha.exists_counterpart hv
    rw [hpv.right]
    dsimp only
    rw [hpv.colour, hp.colour]
    split_ifs <;> simp only [Option.map_some, Option.map_none, kind_failure]

theorem kind_ruleObjection (dst : Square) :
    (h.ruleObjection n src dst).kind = (g.ruleObjection m src dst).kind := by
  unfold ruleObjection
  rw [ha.reaches hp, ha.pathClear, hp.kind]
  split_ifs <;> simp only [kind_failure]

end objections

/-- One request, assessed in two games. -/
inductive Assessed (g h : Game) (src dst : Square) (promotion : Option PieceKind) : Prop
  | refused {e e' : MoveError} (he : g.assess src dst promotion = .error e)
      (he' : h.assess src dst promotion = .error e') (hkind : e'.kind = e.kind)
  | castle {w : Wing} (hw : g.assess src dst promotion = .ok (.castle w))
      (hw' : h.assess src dst promotion = .ok (.castle w))
  | step {s : Step} {n : Man} (hs : g.assess src dst promotion = .ok (.step s))
      (hs' : h.assess src dst promotion = .ok (.step { s with man := n }))
      (hp : g.Counterparts h s.src s.man n)

theorem moverAt (ha : g.Alike h) (src dst : Square) :
    (∃ e e', g.moverAt src dst = .error e ∧ h.moverAt src dst = .error e' ∧ e'.kind = e.kind) ∨
      ∃ m n, g.moverAt src dst = .ok m ∧ h.moverAt src dst = .ok n ∧
        g.Counterparts h src m n := by
  unfold Game.moverAt
  cases hm : g.board.occupant src with
  | none =>
    rw [ha.occupant_eq_none hm]
    exact .inl ⟨_, _, rfl, rfl, rfl⟩
  | some m =>
    obtain ⟨n, hp⟩ := ha.exists_counterpart hm
    rw [hp.right]
    dsimp only
    rw [hp.colour, ha.active]
    split_ifs
    · exact .inl ⟨_, _, rfl, rfl, rfl⟩
    · exact .inl ⟨_, _, rfl, rfl, rfl⟩
    · exact .inr ⟨m, n, rfl, rfl, hp⟩

/-- Counterparts that ask for no castle are refused for the same kind of reason, or step alike. -/
theorem assessed_of_movers (ha : g.Alike h) (hp : g.Counterparts h src m n)
    (hm : g.moverAt src dst = .ok m) (hn : h.moverAt src dst = .ok n)
    (hw : m.castleRequest src dst = none) : Assessed g h src dst promotion := by
  have hw' : n.castleRequest src dst = none := (hp.castleRequest src dst).trans hw
  have hkinds : ((h.promotionObjection n src dst promotion).or
        (h.captureObjection n src dst)).map (·.kind) =
      ((g.promotionObjection m src dst promotion).or
        (g.captureObjection m src dst)).map (·.kind) := by
    rw [Option.map_or, Option.map_or, kind_promotionObjection hp, ha.kind_captureObjection hp]
  have hrules := ha.obeysRules hp dst
  cases ho : (g.promotionObjection m src dst promotion).or (g.captureObjection m src dst) with
  | some e =>
    rw [ho] at hkinds
    obtain ⟨e', ho', hkind⟩ := Option.map_eq_some_iff.1 hkinds
    exact .refused (by simp only [Game.assess, hm, hw, ho])
      (by simp only [Game.assess, hn, hw', ho']) hkind
  | none =>
    rw [ho] at hkinds
    have ho' := Option.map_eq_none_iff.1 hkinds
    cases hr : g.obeysRules m dst with
    | true =>
      rw [hr] at hrules
      have hg : g.assess src dst promotion = .ok (.step (g.stepOf m src dst promotion)) := by
        simp only [Game.assess, hm, hw, ho, hr, if_true]
      refine .step hg ?_ hp
      simp only [Game.assess, hn, hw', ho', hrules, if_true, ha.stepOf hp]
    | false =>
      rw [hr] at hrules
      exact .refused (by simp only [Game.assess, hm, hw, ho, hr, Bool.false_eq_true, if_false])
        (by simp only [Game.assess, hn, hw', ho', hrules, Bool.false_eq_true, if_false])
        (ha.kind_ruleObjection hp dst)

/-- Both games refuse for the same kind of reason, or both take the request for the same castle or
for the same step of counterparts. -/
theorem assess (ha : g.Alike h) (src dst : Square) (promotion : Option PieceKind) :
    Assessed g h src dst promotion := by
  rcases ha.moverAt src dst with ⟨e, e', he, he', hkind⟩ | ⟨m, n, hm, hn, hp⟩
  · exact .refused (by simp only [Game.assess, he]) (by simp only [Game.assess, he']) hkind
  · cases hw : m.castleRequest src dst with
    | none => exact ha.assessed_of_movers hp hm hn hw
    | some w =>
      have hw' : n.castleRequest src dst = some w := (hp.castleRequest src dst).trans hw
      have hg : g.assess src dst promotion = .ok (.castle w) := by
        simp only [Game.assess, hm, hw]
      have hh : h.assess src dst promotion = .ok (.castle w) := by
        simp only [Game.assess, hn, hw']
      exact .castle hg hh

end Alike

/-! ### Making a move -/

theorem board_piece_execute (hs : g.Admits s) (h : g.Coherent) (u : Square) :
    (g.execute s).2.board.piece u =
      if u = s.dst then some (s.becomes.elim s.man.toPiece fun k => ⟨k, s.man.colour⟩)
      else if u = s.src ∨ u = s.victimSquare then none else g.board.piece u := by
  unfold Board.piece
  rw [occupant_execute hs h]
  split_ifs
  · unfold arrival
    cases s.becomes <;> rfl
  · rfl
  · rfl

theorem position_logged_congr (hposition : h.position = g.position) (r r' : MoveRecord)
    (resetClock : Bool) :
    (h.logged r' resetClock).position = (g.logged r resetClock).position := by
  have hactive : h.active = g.active := congrArg Position.active hposition
  have hhalf : h.halfmove = g.halfmove :=
    Int32.toInt_inj.1 (congrArg Position.halfmove hposition)
  have hturn : h.turn = g.turn := Int32.toInt_inj.1 (congrArg Position.turn hposition)
  have hmen : h.board.piece = g.board.piece := congrArg Position.men hposition
  have hrights : h.hasRight = g.hasRight := congrArg Position.rights hposition
  have htarget : h.enPassant = g.enPassant := congrArg Position.passing hposition
  refine Position.ext hmen (congrArg Colour.opposite hactive) hrights htarget ?_ ?_
  · change (if resetClock = true then (0 : Int32) else h.halfmove + 1).toInt =
      (if resetClock = true then (0 : Int32) else g.halfmove + 1).toInt
    rw [hhalf]
  · change (if h.active = .black then h.turn + 1 else h.turn).toInt =
      (if g.active = .black then g.turn + 1 else g.turn).toInt
    rw [hactive, hturn]

namespace Alike

/-- Games that are alike after a turn have made the same entry for it. -/
theorem entry {r : MoveRecord} {resetClock : Bool}
    (ha : (g.logged r resetClock).Alike (h.logged r resetClock)) :
    h.entry r resetClock = g.entry r resetClock := by
  have hcheck : (h.passTurn resetClock).inCheck (h.passTurn resetClock).active =
      (g.passTurn resetClock).inCheck (g.passTurn resetClock).active := by
    change (h.logged r resetClock).inCheck (h.logged r resetClock).active =
      (g.logged r resetClock).inCheck (g.logged r resetClock).active
    rw [ha.active]
    exact ha.inCheck _
  have hmate : (h.passTurn resetClock).isCheckmate (h.passTurn resetClock).active =
      (g.passTurn resetClock).isCheckmate (g.passTurn resetClock).active := by
    change (h.logged r resetClock).isCheckmate (h.logged r resetClock).active =
      (g.logged r resetClock).isCheckmate (g.logged r resetClock).active
    rw [ha.active]
    exact ha.isCheckmate _
  unfold Game.entry
  rw [hcheck, hmate]

section steps

variable (ha : g.Alike h) (hs : g.Admits s) (hs' : h.Admits { s with man := n })
  (hp : g.Counterparts h s.src s.man n)

include ha hs hs'

theorem piece_victim : (h.execute { s with man := n }).1.map (·.toPiece) =
    (g.execute s).1.map (·.toPiece) := by
  rw [fst_execute hs' ha.right.toCoherent, fst_execute hs ha.left.toCoherent]
  exact congrFun ha.board_piece s.victimSquare

include hp

theorem board_piece_execute :
    (h.execute { s with man := n }).2.board.piece = (g.execute s).2.board.piece := by
  funext u
  rw [Game.board_piece_execute hs' ha.right.toCoherent,
    Game.board_piece_execute hs ha.left.toCoherent, ha.board_piece]
  dsimp only
  rw [hp.piece]
  rfl

theorem position_execute :
    (h.execute { s with man := n }).2.position = (g.execute s).2.position := by
  have hrights : (h.execute { s with man := n }).2.hasRight = (g.execute s).2.hasRight := by
    funext c w
    rw [hasRight_execute hs' ha.right.toOrderly, hasRight_execute hs ha.left.toOrderly, ha.position]
  have htarget : (h.execute { s with man := n }).2.enPassant = (g.execute s).2.enPassant := by
    rw [enPassant_execute hs' ha.right.toCoherent, enPassant_execute hs ha.left.toCoherent]
    dsimp only
    rw [hp.piece]
  rw [(h.sameBooks_execute _).position, (g.sameBooks_execute s).position, ha.position,
    ha.board_piece_execute hs hs' hp, hrights, htarget]

/-- Both games find out together that a step leaves the mover's king attacked. -/
theorem inCheck_execute : (h.execute { s with man := n }).2.inCheck n.colour =
    (g.execute s).2.inCheck s.man.colour := by
  have hone : ∀ {g : Game} {s : Step}, g.Admits s → g.Tidy →
      (g.execute s).2.Consistent ∧ (g.execute s).2.HasOneKing s.man.colour := by
    intro g s hs h
    have hspared := hs.victim_not_king h.toConsistent (h.one_king _) h.waiting_safe
    exact ⟨consistent_execute hs h.toConsistent,
      hasOneKing_execute hs h.toConsistent hspared (h.one_king _)⟩
  obtain ⟨hcon, hking⟩ := hone hs ha.left
  obtain ⟨hcon', hking'⟩ := hone hs' ha.right
  rw [← inCheck_piece hcon hking, ← inCheck_piece hcon' hking', ha.board_piece_execute hs hs' hp]
  exact congrArg _ hp.colour

end steps

/-- The same step of counterparts leaves games that are alike, and the same entry in both. -/
theorem afterStep (ha : g.Alike h) (hs : g.assess src dst promotion = .ok (.step s))
    (hs' : h.assess src dst promotion = .ok (.step { s with man := n }))
    (hp : g.Counterparts h s.src s.man n)
    (hsafe : (g.execute s).2.inCheck s.man.colour = false) :
    (g.afterStep s).Alike (h.afterStep { s with man := n }) ∧
      ∃ r, (g.afterStep s).moves = g.moves ++ [r] ∧
        (h.afterStep { s with man := n }).moves = h.moves ++ [r] := by
  have hadm := (admits_of_assess hs).1
  have hadm' := (admits_of_assess hs').1
  have hvictim := ha.piece_victim hadm hadm'
  have hrecord := hp.record_eq hvictim
  have hclock : (n.kind == .pawn || (h.execute { s with man := n }).1.isSome) =
      (s.man.kind == .pawn || (g.execute s).1.isSome) := by
    rw [hp.kind, isSome_eq_of_toPiece hvictim]
  have hsafe' : (h.execute { s with man := n }).2.inCheck n.colour = false := by
    rw [ha.inCheck_execute hadm hadm' hp, hsafe]
  have hafter : (g.afterStep s).Alike (h.afterStep { s with man := n }) := by
    refine ⟨(Turn.step hs hsafe).tidy ha.left, (Turn.step hs' hsafe').tidy ha.right, ?_⟩
    unfold Game.afterStep
    dsimp only
    rw [hclock]
    exact position_logged_congr (ha.position_execute hadm hadm' hp) _ _ _
  refine ⟨hafter, _, moves_afterStep g s, ?_⟩
  rw [moves_afterStep]
  unfold Game.afterStep at hafter
  dsimp only at hafter ⊢
  rw [hrecord, hclock] at hafter ⊢
  rw [hafter.entry]

theorem afterCastle (ha : g.Alike h) (hw : g.canCastle g.active w = true) :
    (g.afterCastle w).Alike (h.afterCastle w) ∧
      ∃ r, (g.afterCastle w).moves = g.moves ++ [r] ∧
        (h.afterCastle w).moves = h.moves ++ [r] := by
  have hw' : h.canCastle h.active w = true := (ha.canCastle w).trans hw
  have hafter : (g.afterCastle w).Alike (h.afterCastle w) := by
    refine ⟨(Turn.castle hw).tidy ha.left, (Turn.castle hw').tidy ha.right, ?_⟩
    refine position_logged_congr ?_ _ _ _
    rw [position_executeCastle ha.right.toConsistent hw',
      position_executeCastle ha.left.toConsistent hw, ha.position]
  refine ⟨hafter, _, moves_afterCastle g w, ?_⟩
  rw [moves_afterCastle]
  unfold Game.afterCastle at hafter
  rw [ha.active] at hafter ⊢
  rw [hafter.entry]

/-- A move is granted in both games or in neither. If it is, the games are alike after it, with
the same entry for it. -/
theorem attempt (ha : g.Alike h) (src dst : Square) (promotion : Option PieceKind) :
    (g.attempt src dst promotion = none ∧ h.attempt src dst promotion = none) ∨
      ∃ g' h' r, g.attempt src dst promotion = some g' ∧ h.attempt src dst promotion = some h' ∧
        g'.Alike h' ∧ g'.moves = g.moves ++ [r] ∧ h'.moves = h.moves ++ [r] := by
  cases ha.assess src dst promotion with
  | refused he he' _ =>
    exact .inl ⟨by simp only [Game.attempt, he], by simp only [Game.attempt, he']⟩
  | @castle w hw hw' =>
    have hopen := ha.canCastle w
    cases hg : g.canCastle g.active w with
    | false =>
      rw [hg] at hopen
      exact .inl ⟨by simp only [Game.attempt, hw, hg, Bool.false_eq_true, if_false],
        by simp only [Game.attempt, hw', hopen, Bool.false_eq_true, if_false]⟩
    | true =>
      rw [hg] at hopen
      obtain ⟨hafter, r, hr, hr'⟩ := ha.afterCastle hg
      exact .inr ⟨_, _, r, attempt_eq_some_iff.2 (.inr ⟨w, hw, hg, rfl⟩),
        attempt_eq_some_iff.2 (.inr ⟨w, hw', hopen, rfl⟩), hafter, hr, hr'⟩
  | @step s n hs hs' hp =>
    have hcheck := ha.inCheck_execute (admits_of_assess hs).1 (admits_of_assess hs').1 hp
    cases hg : (g.execute s).2.inCheck s.man.colour with
    | true =>
      rw [hg] at hcheck
      exact .inl ⟨by simp only [Game.attempt, hs, hg, if_true],
        by simp only [Game.attempt, hs', hcheck, if_true]⟩
    | false =>
      rw [hg] at hcheck
      obtain ⟨hafter, r, hr, hr'⟩ := ha.afterStep hs hs' hp hg
      exact .inr ⟨_, _, r, attempt_eq_some_iff.2 (.inl ⟨s, hs, hg, rfl⟩),
        attempt_eq_some_iff.2 (.inl ⟨_, hs', hcheck, rfl⟩), hafter, hr, hr'⟩

/-! ### Reading a written move -/

theorem sourceFilter (ha : g.Alike h) (written : Notation) :
    h.sourceFilter written = g.sourceFilter written := by
  obtain ⟨k, k', u, hp, hk, hk'⟩ := ha.king g.active
  unfold Game.sourceFilter
  rw [ha.active, hk, hk', Option.bind_some, Option.bind_some,
    ha.right.square?_of_occupant hp.right, ha.left.square?_of_occupant hp.left]

theorem answers (ha : g.Alike h) (hp : g.Counterparts h src m n) (written : Notation)
    (dst : Square) : h.answers written n dst = g.answers written m dst := by
  unfold Game.answers
  rw [ha.canMoveTo hp, ha.isEmpty, ha.isPassing hp, ha.canTake hp]

theorem flagOf (ha : g.Alike h) (hp : g.Counterparts h src m n) (dst : Square)
    (promotion : Option PieceKind) :
    h.flagOf n src dst promotion = g.flagOf m src dst promotion := by
  unfold Game.flagOf
  rw [ha.isEmpty, hp.kind, ha.active]

theorem isSome_attempt (ha : g.Alike h) (src dst : Square) (promotion : Option PieceKind) :
    (h.attempt src dst promotion).isSome = (g.attempt src dst promotion).isSome := by
  rcases ha.attempt src dst promotion with ⟨hg, hh⟩ | ⟨g', h', _, hg, hh, _⟩ <;> rw [hg, hh]
  rfl

/-- The men meant by a written move stand on the same squares, though they may be listed in another
order. -/
theorem meant (ha : g.Alike h) {written : Notation} (hdst : written.dst = some dst) :
    ((h.meant written dst).map Prod.snd).Perm ((g.meant written dst).map Prod.snd) := by
  have hsquares : ∀ {g h : Game}, g.Alike h → ∀ u, u ∈ (g.meant written dst).map Prod.snd →
      u ∈ (h.meant written dst).map Prod.snd := by
    intro g h ha u hu
    obtain ⟨⟨m, u⟩, hm, rfl⟩ := List.mem_map.1 hu
    obtain ⟨⟨hocc, hc, hk⟩, hsource, hanswers, hattempt⟩ :=
      (mem_meant ha.left.toConsistent hdst).1 hm
    obtain ⟨n, hp⟩ := ha.exists_counterpart hocc
    refine List.mem_map.2 ⟨(n, u), (mem_meant ha.right.toConsistent hdst).2
      ⟨⟨hp.right, ?_, hp.kind.trans hk⟩, ?_, ?_, ?_⟩, rfl⟩
    · rw [hp.colour, hc, ha.active]
    · unfold Sourced at hsource ⊢
      rwa [ha.sourceFilter]
    · rwa [ha.answers hp]
    · rwa [ha.isSome_attempt]
  rw [List.perm_ext_iff_of_nodup (nodup_meant ha.right.toConsistent hdst)
    (nodup_meant ha.left.toConsistent hdst)]
  exact fun u => ⟨hsquares ha.symm u, hsquares ha u⟩

theorem retitle (ha : g.Alike h) (title : String) : (g.retitle title).Alike (h.retitle title) where
  left := ha.left.retitle title
  right := ha.right.retitle title
  position := by rw [position_retitle, position_retitle, ha.position]

end Alike

end Game

end ChessArbiter
