import ChessArbiter.Proofs.Abstraction
import ChessArbiter.Proofs.Mirror
import ChessArbiter.Proofs.MoveLog

/-!
# A game upside down

`Game.mirror` turns a game upside down with all its lists, the log and the en passant target.
`Reflects` leaves the turn number out, which counts Black's moves only, and what was written. Every
query about a man, a square or a side has the same answer upside down, from the squares that a man
sees (`Reflects.strikes`) to mate (`Reflects.isCheckmate`) and open castles (`Reflects.canCastle`),
and a request is assessed alike (`Reflects.assess`).
-/

namespace ChessArbiter

/-! ### Moves and records -/

namespace Move

def mirror (m : Move) : Move := .ofParts m.src.mirror m.dst.mirror m.flag

/-- What a packed move keeps of a flag is all that is packed again. -/
theorem ofParts_flag (s d s' d' : Square) (f : MoveFlag) :
    ofParts s' d' (ofParts s d f).flag = ofParts s' d' f := by
  have hdata : (ofParts s' d' (ofParts s d f).flag).data = (ofParts s' d' f).data := by
    apply BitVec.eq_of_getLsbD_eq
    intro i hi
    rw [getLsbD_ofParts _ _ _ hi, getLsbD_ofParts _ _ _ hi]
    by_cases h : 12 ≤ i
    · have hi' : 12 + (i - 12) < 16 := by omega
      rw [flag, BitVec.getLsbD_ushiftRight, getLsbD_ofParts _ _ _ hi', Nat.add_sub_cancel_left,
        testBit_index s (by omega), testBit_index d (by omega)]
      simp only [Nat.le_add_right, decide_true, Bool.true_and, Bool.and_false, Bool.false_or]
    · simp [h]
  exact congrArg Move.mk hdata

theorem mirror_ofParts (s d : Square) (f : MoveFlag) :
    (ofParts s d f).mirror = ofParts s.mirror d.mirror f := by
  rw [mirror, src_ofParts, dst_ofParts, ofParts_flag]

end Move

namespace MoveRecord

def mirror (r : MoveRecord) : MoveRecord :=
  { r with move := r.move.mirror, colour := r.colour.opposite }

end MoveRecord

/-! ### Castles and steps -/

namespace CastlePath

def mirror (path : CastlePath) : CastlePath :=
  ⟨path.kingFrom.mirror, path.kingTo.mirror, path.rookFrom.mirror, path.rookTo.mirror⟩

theorem of_opposite (c : Colour) (w : Wing) : of c.opposite w = (of c w).mirror := by
  cases c <;> cases w <;> rfl

end CastlePath

def Step.mirror (s : Step) : Step :=
  { s with man := s.man.mirror, src := s.src.mirror, dst := s.dst.mirror }

def Plan.mirror : Plan → Plan
  | .castle w => .castle w
  | .step s => .step s.mirror

namespace Man

variable (m : Man) (src dst : Square)

theorem castleRequest_mirror :
    m.mirror.castleRequest src.mirror dst.mirror = m.castleRequest src dst := by
  unfold castleRequest
  rw [kind_mirror, colour_mirror]
  simp only [CastlePath.of_opposite, CastlePath.mirror, Square.mirror_beq]

theorem rank_eq_lastRank_mirror :
    dst.mirror.rank = m.mirror.colour.lastRank ↔ dst.rank = m.colour.lastRank := by
  rw [colour_mirror, Colour.lastRank_opposite]
  exact Fin.rev_inj

theorem promotesOn_mirror : m.mirror.promotesOn dst.mirror = m.promotesOn dst := by
  unfold promotesOn
  rw [kind_mirror, Bool.eq_iff_iff]
  simp only [Bool.and_eq_true, beq_iff_eq, rank_eq_lastRank_mirror]

end Man

/-! ### Games -/

/-- What is the same but for its errors' texts and an image is refused twice or granted twice. -/
theorem refused_or_image {α : Type} {f : α → α} {x y : Except MoveError α}
    (h : y.mapError (·.kind) = (x.mapError (·.kind)).map f) :
    (∃ e e', x = .error e ∧ y = .error e' ∧ e'.kind = e.kind) ∨
      ∃ v, x = .ok v ∧ y = .ok (f v) := by
  cases x with
  | error e =>
    cases y with
    | error e' => exact .inl ⟨e, e', rfl, rfl, Except.error.inj h⟩
    | ok w => cases h
  | ok v =>
    cases y with
    | error e' => cases h
    | ok w => exact .inr ⟨v, rfl, congrArg Except.ok (Except.ok.inj h)⟩

namespace Game

variable {g g' : Game} {m : Man} {s src dst : Square} {c : Colour} {w : Wing}

def mirror (g : Game) : Game :=
  { toTable := g.toTable.mirror
    live := g.live.flip (·.map Man.mirror)
    captured := g.captured.flip (·.map Man.mirror)
    moves := g.moves.map MoveRecord.mirror
    active := g.active.opposite
    ply := g.ply
    turn := g.turn
    halfmove := g.halfmove
    enPassant := g.enPassant.map Square.mirror
    depth := g.depth }

/-- The one game is the other upside down, but for the turn number and what was written. -/
structure Reflects (g g' : Game) : Prop where
  table : g'.toTable = g.toTable.mirror
  live : g'.live = g.live.flip (·.map Man.mirror)
  captured : g'.captured = g.captured.flip (·.map Man.mirror)
  moves : g'.moves.map MoveRecord.untitled = g.moves.map fun r => r.mirror.untitled
  active : g'.active = g.active.opposite
  ply : g'.ply = g.ply
  halfmove : g'.halfmove = g.halfmove
  enPassant : g'.enPassant = g.enPassant.map Square.mirror
  depth : g'.depth = g.depth

-- Asked whether a game has as many plies as its image, `rfl` would compare the two games first.
theorem reflects_mirror (g : Game) : g.Reflects g.mirror := by
  unfold mirror
  exact ⟨rfl, rfl, rfl, List.map_map, rfl, rfl, rfl, rfl, rfl⟩

namespace Reflects

/-! ### What men see -/

section queries

variable (h : g.Reflects g')

include h

theorem occupant (s : Square) :
    g'.board.occupant s.mirror = (g.board.occupant s).map Man.mirror := by
  rw [h.table]
  exact g.board.occupant_mirror_mirror s

theorem isEmpty (s : Square) : g'.board.isEmpty s.mirror = g.board.isEmpty s := by
  rw [h.table]
  exact g.board.isEmpty_mirror s

theorem pathClear (s t : Square) :
    g'.board.pathClear s.mirror t.mirror = g.board.pathClear s t := by
  rw [h.table]
  exact g.board.pathClear_mirror s t

theorem square? (m : Man) : g'.square? m.mirror = (g.square? m).map Square.mirror := by
  rw [h.table]
  exact g.toTable.square?_mirror m

theorem hasMoved (m : Man) : g'.hasMoved m.mirror = g.hasMoved m := by
  rw [h.table]
  exact g.toTable.hasMoved_mirror m

theorem reaches (m : Man) (s : Square) : g'.reaches m.mirror s.mirror = g.reaches m s := by
  rw [h.table]
  exact g.toTable.reaches_mirror m s

theorem attacks (m : Man) (s : Square) : g'.attacks m.mirror s.mirror = g.attacks m s := by
  rw [h.table]
  exact g.toTable.attacks_mirror m s

theorem holdsOpponent (m : Man) (s : Square) :
    g'.holdsOpponent m.mirror s.mirror = g.holdsOpponent m s := by
  rw [h.table]
  exact g.toTable.holdsOpponent_mirror m s

theorem any_live (c : Colour) (p' p : Man → Bool) (hp : ∀ m, p' m.mirror = p m) :
    (g'.live.get c.opposite).any p' = (g.live.get c).any p := by
  rw [h.live, Sides.get_flip, Colour.opposite_opposite, List.any_map]
  exact congrArg (List.any _) (funext hp)

/-- A question about where a man stands, if anywhere. -/
theorem any_square? (m : Man) (p' p : Square → Bool) (hp : ∀ s, p' s.mirror = p s) :
    (g'.square? m.mirror).any p' = (g.square? m).any p := by
  rw [h.square?, Option.any_map]
  exact congrArg (Option.any · _) (funext hp)

theorem any_occupant (s : Square) (p' p : Man → Bool) (hp : ∀ m, p' m.mirror = p m) :
    (g'.board.occupant s.mirror).any p' = (g.board.occupant s).any p := by
  rw [h.occupant, Option.any_map]
  exact congrArg (Option.any · _) (funext hp)

theorem strikes (m : Man) (s : Square) : g'.strikes m.mirror s.mirror = g.strikes m s := by
  unfold Game.strikes
  rw [h.attacks, h.any_square? m _ (· != s) fun u => u.mirror_bne s]

theorem isAttacked (s : Square) (c : Colour) :
    g'.isAttacked s.mirror c.opposite = g.isAttacked s c :=
  h.any_live c _ _ fun m => h.strikes m s

theorem slidesThrough (m : Man) (s vacated : Square) :
    g'.slidesThrough m.mirror s.mirror vacated.mirror = g.slidesThrough m s vacated := by
  have hsees : ∀ u : Square,
      (u.mirror != s.mirror && Geometry.between u.mirror s.mirror &&&
        g'.board.occupied.erase vacated.mirror == 0#64) =
      (u != s && Geometry.between u s &&& g.board.occupied.erase vacated == 0#64) := by
    intro u
    have hocc : g'.board.occupied = Bitboard.mirror g.board.occupied := by
      rw [h.table]
      rfl
    rw [hocc, ← Bitboard.mirror_erase, Geometry.between_mirror, ← Bitboard.mirror_and,
      Bool.eq_iff_iff]
    simp only [Bool.and_eq_true, bne_iff_ne, ne_eq, beq_iff_eq, Square.mirror_inj,
      Bitboard.mirror_eq_zero_iff]
  unfold Game.slidesThrough
  rw [h.reaches, h.any_square? m _ _ hsees]
  rfl

theorem isAttackedWithout (s : Square) (c : Colour) (vacated : Square) :
    g'.isAttackedWithout s.mirror c.opposite vacated.mirror = g.isAttackedWithout s c vacated := by
  refine h.any_live c _ _ fun m => ?_
  rw [h.strikes, h.slidesThrough]

theorem king (c : Colour) : g'.king c.opposite = (g.king c).map Man.mirror := by
  unfold Game.king
  rw [h.live, Sides.get_flip, Colour.opposite_opposite, List.find?_map]
  rfl

theorem inCheck (c : Colour) : g'.inCheck c.opposite = g.inCheck c := by
  unfold Game.inCheck
  rw [h.king, Option.any_map]
  refine congrArg (Option.any · _) (funext fun k => ?_)
  exact h.any_square? k _ _ fun s => h.isAttacked s c.opposite

theorem pawnAdvances (m : Man) (dst : Square) :
    g'.pawnAdvances m.mirror dst.mirror = g.pawnAdvances m dst := by
  have hforward : m.mirror.colour.forward = -m.colour.forward := Geometry.forward_opposite m.colour
  refine h.any_square? m _ _ fun u => ?_
  have htwice : m.mirror.mayStepTwice (g'.hasMoved m.mirror) u.mirror =
      m.mayStepTwice (g.hasMoved m) u := by
    rw [h.hasMoved]
    exact m.mayStepTwice_mirror u _
  dsimp only
  rw [h.isEmpty, h.pathClear, htwice, Square.sub_mirror, hforward]
  simp only [Offset.mirror, Int.mul_neg, neg_beq_neg]

theorem kingSteps (m : Man) (dst : Square) :
    g'.kingSteps m.mirror dst.mirror = g.kingSteps m dst := by
  refine h.any_square? m _ _ fun u => ?_
  rw [h.reaches]
  exact congrArg (g.reaches m dst && !·) (h.isAttackedWithout dst m.colour.opposite u)

theorem canMoveTo (m : Man) (dst : Square) :
    g'.canMoveTo m.mirror dst.mirror = g.canMoveTo m dst := by
  unfold Game.canMoveTo
  rw [Man.kind_mirror]
  cases m.kind with
  | pawn => exact h.pawnAdvances m dst
  | king => exact h.kingSteps m dst
  | knight | bishop | rook | queen => exact h.attacks m dst

theorem isTarget (dst : Square) :
    (g'.enPassant == some dst.mirror) = (g.enPassant == some dst) := by
  rw [h.enPassant, Bool.eq_iff_iff, beq_iff_eq, beq_iff_eq]
  cases g.enPassant with
  | none => exact iff_of_false nofun nofun
  | some t => rw [Option.map_some, Option.some.injEq, Option.some.injEq, Square.mirror_inj]

theorem passedBy (m : Man) (dst : Square) :
    g'.passedBy m.mirror dst.mirror = g.passedBy m dst := by
  unfold Game.passedBy
  rw [h.isTarget, h.isEmpty]
  refine congrArg (_ && _ && ·) (h.any_square? m _ _ fun u => ?_)
  refine h.any_occupant ⟨dst.file, u.rank⟩ _ _ fun v => ?_
  exact congrArg (_ && ·) (Colour.opposite_bne v.colour m.colour)

theorem canTake (m : Man) (dst : Square) :
    g'.canTake m.mirror dst.mirror = g.canTake m dst := by
  unfold Game.canTake
  rw [Man.kind_mirror, h.attacks, h.holdsOpponent, h.passedBy, h.canMoveTo]

theorem isCheckmate (c : Colour) : g'.isCheckmate c.opposite = g.isCheckmate c := by
  have hoffsets : (kingOffsets.map Offset.mirror).Perm kingOffsets := by decide
  have hsteps : ∀ u : Square, ((kingOffsets.filterMap u.tryOffset).map Square.mirror).Perm
      (kingOffsets.filterMap u.mirror.tryOffset) := by
    intro u
    have hmap : (kingOffsets.map Offset.mirror).filterMap u.mirror.tryOffset =
        (kingOffsets.filterMap u.tryOffset).map Square.mirror := by
      rw [List.filterMap_map, List.map_filterMap]
      exact congrArg (List.filterMap · _) (funext fun d => u.tryOffset_mirror d)
    rw [← hmap]
    exact hoffsets.filterMap _
  unfold Game.isCheckmate
  rw [h.king, Option.any_map]
  refine congrArg (Option.any · _) (funext fun k => ?_)
  refine h.any_square? k _ _ fun u => congrArg (!·) ?_
  rw [← (hsteps u).any_eq, List.any_map]
  refine congrArg (List.any _) (funext fun dst => ?_)
  have hown : ((g'.board.occupant dst.mirror).any fun v => v.colour == c.opposite) =
      (g.board.occupant dst).any fun v => v.colour == c :=
    h.any_occupant dst _ _ fun v => Colour.opposite_beq v.colour c
  simp only [Function.comp_apply, hown, h.canMoveTo]

theorem unmovedAt (c : Colour) (kind : PieceKind) (s : Square) :
    g'.unmovedAt c.opposite kind s.mirror = g.unmovedAt c kind s := by
  refine h.any_occupant s _ _ fun m => ?_
  rw [h.hasMoved, Man.kind_mirror, Man.colour_mirror, Colour.opposite_beq]

theorem hasRight (c : Colour) (w : Wing) : g'.hasRight c.opposite w = g.hasRight c w := by
  unfold Game.hasRight
  rw [CastlePath.of_opposite]
  exact congrArg₂ and (h.unmovedAt c .king _) (h.unmovedAt c .rook _)

theorem canCastle (c : Colour) (w : Wing) : g'.canCastle c.opposite w = g.canCastle c w := by
  unfold Game.canCastle
  dsimp only
  rw [CastlePath.squaresBetween_eq, CastlePath.squaresBetween_eq, h.hasRight,
    CastlePath.of_opposite]
  simp only [CastlePath.mirror, List.any_cons, List.any_nil, h.pathClear, h.isAttacked]

/-! ### Assessing a move -/

theorem isPassing (m : Man) (dst : Square) :
    g'.isPassing m.mirror dst.mirror = g.isPassing m dst := by
  unfold Game.isPassing
  rw [Man.kind_mirror, h.isEmpty, h.isTarget, h.canTake]

theorem obeysRules (m : Man) (dst : Square) :
    g'.obeysRules m.mirror dst.mirror = g.obeysRules m dst := by
  unfold Game.obeysRules
  rw [h.isEmpty, h.isPassing, h.canMoveTo, h.canTake]

theorem stepOf (m : Man) (src dst : Square) (promotion : Option PieceKind) :
    g'.stepOf m.mirror src.mirror dst.mirror promotion = (g.stepOf m src dst promotion).mirror := by
  unfold Game.stepOf Step.mirror
  rw [h.isPassing, Man.promotesOn_mirror]

theorem moverAt (src dst : Square) :
    (g'.moverAt src.mirror dst.mirror).mapError (·.kind) =
      ((g.moverAt src dst).mapError (·.kind)).map Man.mirror := by
  unfold Game.moverAt
  rw [h.occupant, h.active]
  cases g.board.occupant src with
  | none => simp only [Option.map_none, Except.mapError, Except.map, kind_failure]
  | some m =>
    simp only [Option.map_some, Man.colour_mirror, ne_eq, Colour.opposite_inj, Square.mirror_inj]
    split_ifs <;> simp only [Except.mapError, Except.map, kind_failure]

omit h in
theorem kind_promotionObjection (g g' : Game) (m : Man) (src dst : Square)
    (promotion : Option PieceKind) :
    (g'.promotionObjection m.mirror src.mirror dst.mirror promotion).map (·.kind) =
      (g.promotionObjection m src dst promotion).map (·.kind) := by
  unfold Game.promotionObjection
  cases promotion with
  | none => rfl
  | some k =>
    simp only [Man.kind_mirror, ne_eq, Man.rank_eq_lastRank_mirror]
    split_ifs <;> simp only [Option.map_some, Option.map_none, kind_failure]

theorem kind_captureObjection (m : Man) (src dst : Square) :
    (g'.captureObjection m.mirror src.mirror dst.mirror).map (·.kind) =
      (g.captureObjection m src dst).map (·.kind) := by
  unfold Game.captureObjection
  rw [h.occupant]
  cases g.board.occupant dst with
  | none => rfl
  | some v =>
    simp only [Option.map_some, Man.colour_mirror, Colour.opposite_inj]
    split_ifs <;> simp only [Option.map_some, Option.map_none, kind_failure]

theorem kind_ruleObjection (m : Man) (src dst : Square) :
    (g'.ruleObjection m.mirror src.mirror dst.mirror).kind = (g.ruleObjection m src dst).kind := by
  unfold Game.ruleObjection
  rw [h.reaches, h.pathClear, Man.kind_mirror]
  split_ifs <;> simp only [kind_failure]

/-- A man of the side to move who asks for no castle is refused for the same kind of reason, or
steps alike. -/
theorem assess_step (m : Man) (src dst : Square) (promotion : Option PieceKind)
    (hm : g.moverAt src dst = .ok m) (hm' : g'.moverAt src.mirror dst.mirror = .ok m.mirror)
    (hw : m.castleRequest src dst = none) :
    (g'.assess src.mirror dst.mirror promotion).mapError (·.kind) =
      ((g.assess src dst promotion).mapError (·.kind)).map Plan.mirror := by
  have hw' : m.mirror.castleRequest src.mirror dst.mirror = none :=
    (m.castleRequest_mirror src dst).trans hw
  have hkinds : ((g'.promotionObjection m.mirror src.mirror dst.mirror promotion).or
        (g'.captureObjection m.mirror src.mirror dst.mirror)).map (·.kind) =
      ((g.promotionObjection m src dst promotion).or
        (g.captureObjection m src dst)).map (·.kind) := by
    rw [Option.map_or, Option.map_or, kind_promotionObjection g, h.kind_captureObjection]
  unfold Game.assess
  simp only [hm, hm', hw, hw']
  cases ho : (g.promotionObjection m src dst promotion).or (g.captureObjection m src dst) with
  | some e =>
    rw [ho] at hkinds
    obtain ⟨e', ho', hkind⟩ := Option.map_eq_some_iff.1 hkinds
    rw [ho']
    exact congrArg Except.error hkind
  | none =>
    rw [ho] at hkinds
    rw [Option.map_eq_none_iff.1 hkinds, h.obeysRules, h.stepOf]
    dsimp only
    split_ifs
    · rfl
    · exact congrArg Except.error (h.kind_ruleObjection m src dst)

/-- Upside down a request is refused for the same kind of reason, or is the same castle or step
upside down. -/
theorem assess (src dst : Square) (promotion : Option PieceKind) :
    (g'.assess src.mirror dst.mirror promotion).mapError (·.kind) =
      ((g.assess src dst promotion).mapError (·.kind)).map Plan.mirror := by
  rcases refused_or_image (h.moverAt src dst) with ⟨e, e', he, he', hkind⟩ | ⟨m, hm, hm'⟩
  · unfold Game.assess
    rw [he, he']
    exact congrArg Except.error hkind
  · cases hw : m.castleRequest src dst with
    | none => exact h.assess_step m src dst promotion hm hm' hw
    | some w =>
      unfold Game.assess
      simp only [hm, hm', hw, m.castleRequest_mirror]
      rfl

end queries

end Reflects

end Game

end ChessArbiter
