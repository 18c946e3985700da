import ChessArbiter.Proofs.Reflection

/-!
# The two sides are alike

A game and its image upside down stay so through every change that a move makes (`Reflects.execute`,
`Reflects.executeCastle`), through the turn that is passed and the entry that is made
(`Reflects.logged`). A request and its image are therefore granted with the same entry upside down
or refused for the same kind of reason (`Arbiter.mirrored_move`, `Arbiter.mirrored_castle`), and so
it goes on for any number of requests (`Arbiter.reflects_run`).
-/

namespace ChessArbiter

namespace Step

variable (s : Step) (victim : Option Man)

theorem isDoublePush_mirror : s.mirror.isDoublePush = s.isDoublePush := by
  have hranks : (s.mirror.dst - s.mirror.src).ranks.natAbs = (s.dst - s.src).ranks.natAbs := by
    change (s.dst.mirror - s.src.mirror).ranks.natAbs = _
    rw [Square.sub_mirror]
    exact Int.natAbs_neg _
  unfold isDoublePush
  rw [hranks]
  rfl

theorem flag_mirror : s.mirror.flag (victim.map Man.mirror) = s.flag victim := by
  unfold flag
  rw [Option.isSome_map, isDoublePush_mirror]
  rfl

theorem record_mirror :
    (s.mirror.record (victim.map Man.mirror)).untitled = (s.record victim).mirror.untitled := by
  have hkind : (victim.map Man.mirror).map (·.kind) = victim.map (·.kind) := Option.map_map ..
  unfold record MoveRecord.mirror MoveRecord.untitled
  rw [flag_mirror, hkind, Move.mirror_ofParts]
  rfl

end Step

/-- Moves between mirrored squares, or castles on the same wing. -/
inductive Request.Mirrors : Request → Request → Prop
  | move (src dst : Square) (promotion : Option PieceKind) :
    Mirrors (.move src dst promotion) (.move src.mirror dst.mirror promotion)
  | castle (w : Wing) : Mirrors (.castle w) (.castle w)

/-- A man joins a list of his side. -/
theorem Sides.mirror_join (xs : Sides (List Man)) (m : Man) :
    (xs.modify m.colour (· ++ [m])).flip (·.map Man.mirror) =
      (xs.flip (·.map Man.mirror)).modify m.mirror.colour (· ++ [m.mirror]) :=
  flip_modify _ _ (· ++ [m.mirror]) (fun _ => List.map_append) xs m.colour

namespace Game

theorem castleRecord_opposite (c : Colour) (w : Wing) :
    (castleRecord c.opposite w).untitled = (castleRecord c w).mirror.untitled := by
  unfold castleRecord MoveRecord.mirror MoveRecord.untitled
  rw [CastlePath.of_opposite, Move.mirror_ofParts]
  rfl

variable {g g' : Game}

namespace Reflects

/-! ### Making a move -/

section changes

variable (h : g.Reflects g')

include h

theorem withTable (t : Table) : Reflects { g with toTable := t } { g' with toTable := t.mirror } :=
  { h with table := rfl }

theorem forget : Reflects { g with enPassant := none } { g' with enPassant := none } :=
  { h with enPassant := rfl }

theorem lift (u : Square) :
    g'.lift u.mirror = ((g.lift u).1.map Man.mirror, (g.lift u).2.mirror) := by
  rw [h.table]
  exact g.mirror_lift u

theorem relocate (src dst : Square) : g'.relocate src.mirror dst.mirror =
    ((g.relocate src dst).1.map Man.mirror, (g.relocate src dst).2.mirror) := by
  rw [h.table]
  exact g.mirror_relocate src dst

theorem relocated (src dst : Square) :
    Reflects { g with toTable := (g.relocate src dst).2 }
      { g' with toTable := (g'.relocate src.mirror dst.mirror).2 } := by
  rw [h.relocate]
  exact h.withTable (g.relocate src dst).2

theorem setMoved (m : Man) (moved : Bool) :
    g'.setMoved m.mirror moved = (g.setMoved m moved).mirror := by
  rw [h.table]
  exact (g.mirror_setMoved m moved).symm

theorem dismiss (m : Man) : (g.dismiss m).Reflects (g'.dismiss m.mirror) := by
  have hfilter : ∀ xs : List Man,
      (xs.filter (· != m)).map Man.mirror = (xs.map Man.mirror).filter (· != m.mirror) := by
    intro xs
    rw [List.filter_map]
    refine congrArg (List.map _) (List.filter_congr fun v _ => ?_)
    rw [Function.comp_apply, Bool.eq_iff_iff, bne_iff_ne, bne_iff_ne, ne_eq, ne_eq, Man.mirror_inj]
  have hlive : g'.live.modify m.mirror.colour (·.filter (· != m.mirror)) =
      (g.live.modify m.colour (·.filter (· != m))).flip (·.map Man.mirror) := by
    rw [h.live]
    exact (Sides.flip_modify (·.map Man.mirror) _ _ hfilter g.live m.colour).symm
  unfold Game.dismiss
  exact { h with live := hlive }

theorem capture (m : Man) : (g.capture m).Reflects (g'.capture m.mirror) := by
  have hcaptured := g.captured.mirror_join m
  rw [← h.captured] at hcaptured
  unfold Game.capture
  exact { h.dismiss m with captured := hcaptured.symm }

theorem enlist (p : Piece) (u : Square) :
    (g'.enlist p.mirror u.mirror).1 = (g.enlist p u).1.mirror ∧
      (g.enlist p u).2.Reflects (g'.enlist p.mirror u.mirror).2 := by
  have hmake : g'.make p.mirror u.mirror = ((g.make p u).1.mirror, (g.make p u).2.mirror) := by
    rw [h.table]
    exact g.mirror_make u p
  have hlive := g.live.mirror_join (g.make p u).1
  rw [← h.live] at hlive
  unfold Game.enlist
  rw [hmake]
  exact ⟨rfl, { h with table := ((g.make p u).2.mirror_place _ u).symm, live := hlive.symm }⟩

/-- Bringing the man to its square, the man taken being a result too. -/
theorem advance (s : Step) :
    (g'.advance s.mirror).1 = (g.advance s).1.map Man.mirror ∧
      (g.advance s).2.Reflects (g'.advance s.mirror).2 := by
  have hcapture : ∀ (o : Option Man) (t : Table),
      Reflects (o.elim { g with toTable := t } { g with toTable := t }.capture)
        ((o.map Man.mirror).elim { g' with toTable := t.mirror }
          { g' with toTable := t.mirror }.capture) := by
    intro o t
    cases o with
    | none => exact h.withTable t
    | some v => exact (h.withTable t).capture v
  have hlift : g'.lift s.mirror.passed = _ := h.lift s.passed
  have hrelocate : g'.relocate s.mirror.src s.mirror.dst = _ := h.relocate s.src s.dst
  have hrelocate' : (g.lift s.passed).2.mirror.relocate s.mirror.src s.mirror.dst = _ :=
    (g.lift s.passed).2.mirror_relocate s.src s.dst
  unfold Game.advance
  rw [hlift, hrelocate, show s.mirror.passing = s.passing from rfl]
  dsimp only
  rw [hrelocate']
  split_ifs
  · exact ⟨rfl, hcapture _ _⟩
  · exact ⟨rfl, hcapture _ _⟩

theorem settle (s : Step) : (g.settle s).Reflects (g'.settle s.mirror) := by
  have hforward : (⟨0, s.man.colour.opposite.forward⟩ : Offset) =
      Offset.mirror ⟨0, s.man.colour.forward⟩ :=
    congrArg (Offset.mk 0) (Geometry.forward_opposite _)
  unfold Game.settle
  refine { h with table := h.setMoved s.man true, enPassant := ?_ }
  change (if s.man.kind = .pawn ∧ (s.dst.mirror - s.src.mirror).files = 0 ∧
    (s.dst.mirror - s.src.mirror).ranks.natAbs = 2 then
      s.src.mirror.tryOffset ⟨0, s.man.colour.opposite.forward⟩ else none) = _
  rw [Square.sub_mirror, hforward, Square.tryOffset_mirror]
  simp only [Offset.mirror, Int.natAbs_neg]
  split_ifs <;> rfl

theorem promote (s : Step) : (g.promote s).Reflects (g'.promote s.mirror) := by
  unfold Game.promote
  rw [show s.mirror.becomes = s.becomes from rfl]
  cases s.becomes with
  | none => exact h
  | some k =>
    have hlift : g'.lift s.mirror.dst = _ := h.lift s.dst
    have hleft := (h.withTable (g.lift s.dst).2).dismiss s.man
    obtain ⟨hman, hjoined⟩ := hleft.enlist ⟨k, s.man.colour⟩ s.dst
    dsimp only
    rw [hlift]
    refine { hjoined with table := ?_ }
    have hmarked := hjoined.setMoved
      (({ g with toTable := (g.lift s.dst).2 }.dismiss s.man).enlist ⟨k, s.man.colour⟩ s.dst).1 true
    rw [← hman] at hmarked
    exact hmarked

theorem execute (s : Step) :
    (g'.execute s.mirror).1 = (g.execute s).1.map Man.mirror ∧
      (g.execute s).2.Reflects (g'.execute s.mirror).2 := by
  obtain ⟨hvictim, hadvanced⟩ := h.advance s
  exact ⟨hvictim, (hadvanced.settle s).promote s⟩

theorem wear (u : Square) : (g.wear u).Reflects (g'.wear u.mirror) := by
  unfold Game.wear
  rw [h.occupant]
  cases g.board.occupant u with
  | none => exact h
  | some m => exact { h with table := h.setMoved m true }

theorem executeCastle (path : CastlePath) :
    (g.executeCastle path).Reflects (g'.executeCastle path.mirror) := by
  have hbrought := h.relocated path.kingFrom path.kingTo
  have hcastled := hbrought.relocated path.rookFrom path.rookTo
  exact ((hcastled.wear path.kingTo).wear path.rookTo).forget

/-! ### Completing it -/

theorem passTurn (resetClock : Bool) :
    (g.passTurn resetClock).Reflects (g'.passTurn resetClock) := by
  have hclock : (if resetClock then 0 else g'.halfmove + 1) =
      if resetClock then 0 else g.halfmove + 1 :=
    congrArg (fun x => if resetClock then 0 else x + 1) h.halfmove
  unfold Game.passTurn
  exact { h with
    active := congrArg Colour.opposite h.active
    ply := congrArg (· + 1) h.ply
    halfmove := hclock }

theorem entry {r r' : MoveRecord} (hr : r'.untitled = r.mirror.untitled) (resetClock : Bool) :
    (g'.entry r' resetClock).untitled = (g.entry r resetClock).mirror.untitled := by
  have hturn := h.passTurn resetClock
  have hcheck := hturn.inCheck (g.passTurn resetClock).active
  have hmate := hturn.isCheckmate (g.passTurn resetClock).active
  rw [← hturn.active] at hcheck hmate
  simp only [MoveRecord.untitled, MoveRecord.mirror, MoveRecord.mk.injEq] at hr
  obtain ⟨hmove, hpiece, hcolour, hcaptured, _⟩ := hr
  simp only [Game.entry, MoveRecord.untitled, MoveRecord.mirror, hmove, hpiece, hcolour,
    hcaptured, hcheck, hmate]

theorem logged {r r' : MoveRecord} (hr : r'.untitled = r.mirror.untitled) (resetClock : Bool) :
    (g.logged r resetClock).Reflects (g'.logged r' resetClock) := by
  unfold Game.logged
  refine { h.passTurn resetClock with moves := ?_ }
  change (g'.moves ++ [g'.entry r' resetClock]).map MoveRecord.untitled = _
  rw [List.map_append, h.moves, List.map_append, List.map_singleton, List.map_singleton,
    h.entry hr]

end changes

end Reflects

end Game

namespace Arbiter

variable {a b : Arbiter} {e e' : MoveError} {r r' : MoveRecord}

/-- Two answers that are each other's image: the same kind of error, or the same entry upside down
but for what was written, and games that are each other's image afterwards. -/
structure Mirrored (x y : Except MoveError MoveRecord × Arbiter) : Prop where
  answer : (y.1.mapError (·.kind)).map MoveRecord.untitled =
    (x.1.mapError (·.kind)).map fun r => r.mirror.untitled
  game : x.2.toGame.Reflects y.2.toGame

theorem Mirrored.isOk {x y : Except MoveError MoveRecord × Arbiter} (h : Mirrored x y) :
    y.1.isOk = x.1.isOk := by
  have hanswer := h.answer
  obtain ⟨e | r, a⟩ := x <;> obtain ⟨e' | r', b⟩ := y
  · rfl
  · cases hanswer
  · cases hanswer
  · rfl

section answers

variable (h : a.toGame.Reflects b.toGame)

include h

theorem mirrored_refuse (hkind : e'.kind = e.kind) : Mirrored (a.refuse e) (b.refuse e') :=
  ⟨congrArg Except.error hkind, h⟩

theorem mirrored_finalize (hr : r'.untitled = r.mirror.untitled) (resetClock : Bool) :
    Mirrored (a.finalize r resetClock) (b.finalize r' resetClock) where
  answer := congrArg Except.ok (h.entry hr resetClock)
  game := by
    rw [toGame_finalize, toGame_finalize]
    exact h.logged hr resetClock

theorem mirrored_castle (w : Wing) : Mirrored (a.castle w) (b.castle w) := by
  have hopen : b.canCastle b.active w = a.canCastle a.active w := by
    rw [h.active]
    exact h.canCastle a.active w
  have hrecord := Game.castleRecord_opposite a.active w
  have hcastled := h.executeCastle (CastlePath.of a.active w)
  rw [← h.active] at hrecord
  rw [← CastlePath.of_opposite, ← h.active] at hcastled
  unfold castle
  dsimp only
  rw [hopen]
  split_ifs
  · exact mirrored_finalize hcastled hrecord false
  · refine mirrored_refuse h ?_
    rw [Game.kind_failure, Game.kind_failure]

theorem mirrored_carryOut (s : Step) : Mirrored (a.carryOut s) (b.carryOut s.mirror) := by
  obtain ⟨hvictim, hdone⟩ := h.execute s
  have hclock : (s.mirror.man.kind == .pawn || (b.execute s.mirror).1.isSome) =
      (s.man.kind == .pawn || (a.execute s).1.isSome) := by
    rw [hvictim, Option.isSome_map]
    rfl
  have hrecord := s.record_mirror (a.execute s).1
  rw [← hvictim] at hrecord
  unfold carryOut
  dsimp only
  rw [show s.mirror.man.colour = s.man.colour.opposite from rfl, hdone.inCheck, hclock]
  split_ifs
  · -- both steps are undone before the refusal is written
    refine mirrored_refuse ?_ ?_
    · simp only [restoreTo, toGame_announce, Game.restore_execute]
      exact h
    · rw [Game.kind_failure, Game.kind_failure]
  · refine mirrored_finalize ?_ hrecord _
    rw [toGame_note, toGame_note, toGame_announce, toGame_announce]
    exact hdone

theorem mirrored_move (src dst : Square) (promotion : Option PieceKind) :
    Mirrored (a.move src dst promotion) (b.move src.mirror dst.mirror promotion) := by
  unfold move
  rcases refused_or_image (h.assess src dst promotion) with ⟨e, e', he, he', hkind⟩ | ⟨p, hp, hp'⟩
  · rw [he, he']
    exact mirrored_refuse h hkind
  · rw [hp, hp']
    cases p with
    | castle w => exact mirrored_castle h w
    | step s => exact mirrored_carryOut h s

theorem mem_legalDestinations_mirror (src dst : Square) :
    dst.mirror ∈ (b.legalDestinations src.mirror).1 ↔ dst ∈ (a.legalDestinations src).1 := by
  have hown : (b.board.occupant src.mirror).any (·.colour == b.active) =
      (a.board.occupant src).any (·.colour == a.active) := by
    refine h.any_occupant src _ _ fun m => ?_
    rw [h.active]
    exact Colour.opposite_beq m.colour a.active
  have hgranted : (b.attempt src.mirror dst.mirror none).isSome =
      (a.attempt src dst none).isSome := by
    rw [← isOk_move, ← isOk_move]
    exact (mirrored_move h src dst none).isOk
  rw [fst_legalDestinations, fst_legalDestinations, hown]
  split_ifs
  · simp only [List.mem_filter, Square.mem_all, true_and, bne_iff_ne, ne_eq, Square.mirror_inj,
      hgranted]
  · exact iff_of_false List.not_mem_nil List.not_mem_nil

/-! ### Any number of requests -/

theorem mirrored_answer {q q' : Request} (hq : q.Mirrors q') :
    Mirrored (a.answer q) (b.answer q') := by
  cases hq with
  | move src dst promotion => exact mirrored_move h src dst promotion
  | castle w => exact mirrored_castle h w

theorem reflects_run {qs qs' : List Request} (hqs : List.Forall₂ Request.Mirrors qs qs') :
    (a.run qs).toGame.Reflects (b.run qs').toGame := by
  induction hqs generalizing a b with
  | nil => exact h
  | cons hq _ ih =>
    rw [run_cons, run_cons]
    exact ih (mirrored_answer h hq).game

/-- White and Black are treated alike: from a game and its image upside down, moves and castles are
answered by each other's image and leave games that are each other's image, and so are the attacked
squares, check, mate, the open castles and the destinations that are offered. -/
theorem sides_alike :
    (∀ src dst promotion,
      Mirrored (a.move src dst promotion) (b.move src.mirror dst.mirror promotion)) ∧
    (∀ w, Mirrored (a.castle w) (b.castle w)) ∧
    (∀ s c, b.isAttacked s.mirror c.opposite = a.isAttacked s c) ∧
    (∀ c, b.inCheck c.opposite = a.inCheck c) ∧
    (∀ c, b.isCheckmate c.opposite = a.isCheckmate c) ∧
    (∀ c w, b.canCastle c.opposite w = a.canCastle c w) ∧
    ∀ src dst, dst.mirror ∈ (b.legalDestinations src.mirror).1 ↔
      dst ∈ (a.legalDestinations src).1 :=
  ⟨mirrored_move h, mirrored_castle h, h.isAttacked, h.inCheck, h.isCheckmate, h.canCastle,
    mem_legalDestinations_mirror h⟩

end answers

/-- White takes in passing, and upside down Black does. -/
theorem passing_sides_alike :
    ∃ a b : Arbiter, (opening {}).loadFen "4k3/8/8/3pP3/8/8/8/R3K2R w KQ d6 0 2" = (.ok (), a) ∧
      b.toGame = a.toGame.mirror ∧ b.active = .black ∧
      (b.move ⟨4, 3⟩ ⟨3, 2⟩ none).1.isOk = true ∧
      (a.move ⟨4, 4⟩ ⟨3, 5⟩ none).2.toGame.Reflects (b.move ⟨4, 3⟩ ⟨3, 2⟩ none).2.toGame := by
  let a := ((opening {}).loadFen "4k3/8/8/3pP3/8/8/8/R3K2R w KQ d6 0 2").2
  let b : Arbiter := { a with toGame := a.toGame.mirror }
  have hloaded : ((opening {}).loadFen "4k3/8/8/3pP3/8/8/8/R3K2R w KQ d6 0 2").1.isOk = true := by
    decide +kernel
  have htaken : (a.move ⟨4, 4⟩ ⟨3, 5⟩ none).1.isOk = true := by decide +kernel
  have hactive : a.active = .white := by decide +kernel
  obtain ⟨hmove, _⟩ := sides_alike (a := a) (b := b) a.toGame.reflects_mirror
  have hsrc : Square.mirror ⟨4, 4⟩ = ⟨4, 3⟩ := rfl
  have hdst : Square.mirror ⟨3, 5⟩ = ⟨3, 2⟩ := rfl
  have hpassing := hmove ⟨4, 4⟩ ⟨3, 5⟩ none
  rw [hsrc, hdst] at hpassing
  exact ⟨a, b, loadFen_of_isOk hloaded, rfl, congrArg Colour.opposite hactive,
    hpassing.isOk.trans htaken, hpassing.game⟩

end Arbiter

end ChessArbiter
