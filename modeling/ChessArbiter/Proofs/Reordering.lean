import ChessArbiter.Proofs.Reloading

/-!
# The order of the men

The men in play are kept in a list, and what is asked about them goes through that list from its
start. As long as a side has no second king the order of the list decides nothing: attacks are
asked of any man, and the first king found is the only one. So the same moves are granted in
another order (`Reordered.isSome_attempt`), and a written move is resolved to the same move or
refused for the same kind of reason (`kind_resolve_reordered`).
-/

namespace ChessArbiter

/-- The first of at most one element does not depend on the order. -/
theorem find?_perm {α : Type} {l l' : List α} {p : α → Bool} (h : l'.Perm l)
    (hone : l.countP p ≤ 1) : l'.find? p = l.find? p := by
  have hfilter := h.filter p
  rw [List.countP_eq_length_filter] at hone
  rw [← List.head?_filter, ← List.head?_filter]
  rcases hl : l.filter p with _ | ⟨x, _ | ⟨y, rest⟩⟩
  · rw [hl] at hfilter
    rw [List.perm_nil.1 hfilter]
  · rw [hl] at hfilter
    rw [List.perm_singleton.1 hfilter]
  · rw [hl] at hone
    simp at hone

namespace Game

variable {g h : Game} {m : Man} {s : Step} {src dst : Square} {c : Colour} {k : PieceKind}

/-- The side has no second king in play. -/
def AtMostOneKing (g : Game) (c : Colour) : Prop := (g.live.get c).countP (·.kind == .king) ≤ 1

instance (g : Game) (c : Colour) : Decidable (g.AtMostOneKing c) :=
  inferInstanceAs (Decidable (_ ≤ _))

/-- One game with the men in play listed in two orders. -/
structure Reordered (g h : Game) : Prop where
  same : { g with live := h.live } = h
  perm : ∀ c, (h.live.get c).Perm (g.live.get c)

namespace Reordered

variable (hr : g.Reordered h)

include hr

theorem toTable : h.toTable = g.toTable := (congrArg Game.toTable hr.same).symm

theorem active : h.active = g.active := (congrArg Game.active hr.same).symm

theorem enPassant : h.enPassant = g.enPassant := (congrArg Game.enPassant hr.same).symm

/-! ### Queries -/

theorem king (hone : g.AtMostOneKing c) : h.king c = g.king c := find?_perm (hr.perm c) hone

theorem isAttacked (u : Square) (c : Colour) : h.isAttacked u c = g.isAttacked u c := by
  rw [← hr.same]
  exact (hr.perm c).any_eq

theorem isAttackedWithout (u : Square) (c : Colour) (v : Square) :
    h.isAttackedWithout u c v = g.isAttackedWithout u c v := by
  rw [← hr.same]
  exact (hr.perm c).any_eq

theorem inCheck (hone : g.AtMostOneKing c) : h.inCheck c = g.inCheck c := by
  unfold Game.inCheck
  simp only [hr.king hone, hr.isAttacked, hr.toTable]

theorem canMoveTo (m : Man) (dst : Square) : h.canMoveTo m dst = g.canMoveTo m dst := by
  unfold Game.canMoveTo Game.kingSteps Game.pawnAdvances
  simp only [hr.isAttackedWithout, hr.toTable]

theorem canTake (m : Man) (dst : Square) : h.canTake m dst = g.canTake m dst := by
  unfold Game.canTake Game.passedBy
  simp only [hr.canMoveTo, hr.toTable, hr.enPassant]

theorem isPassing (m : Man) (dst : Square) : h.isPassing m dst = g.isPassing m dst := by
  unfold Game.isPassing
  rw [hr.canTake, hr.toTable, hr.enPassant]

theorem obeysRules (m : Man) (dst : Square) : h.obeysRules m dst = g.obeysRules m dst := by
  unfold Game.obeysRules
  rw [hr.canTake, hr.canMoveTo, hr.isPassing, hr.toTable]

theorem canCastle (c : Colour) (w : Wing) : h.canCastle c w = g.canCastle c w := by
  unfold Game.canCastle Game.hasRight Game.unmovedAt
  simp only [hr.isAttacked, hr.toTable]

theorem answers (n : Notation) (m : Man) (dst : Square) :
    h.answers n m dst = g.answers n m dst := by
  unfold Game.answers
  rw [hr.canMoveTo, hr.isPassing, hr.canTake, hr.toTable]

theorem flagOf (m : Man) (src dst : Square) (promotion : Option PieceKind) :
    h.flagOf m src dst promotion = g.flagOf m src dst promotion := by
  unfold Game.flagOf
  rw [hr.active, hr.toTable]

/-- Neither an objection nor a step reads the list but through the rules. -/
theorem assess (src dst : Square) (promotion : Option PieceKind) :
    h.assess src dst promotion = g.assess src dst promotion := by
  have hstep : ∀ m, h.stepOf m src dst promotion = g.stepOf m src dst promotion := by
    intro m
    unfold Game.stepOf
    rw [hr.isPassing]
  unfold Game.assess
  simp only [hr.obeysRules, hstep]
  rw [← hr.same]
  rfl

/-! ### Moves -/

theorem withTable (t : Table) : { g with toTable := t }.Reordered { h with toTable := t } where
  same := congrArg (fun x : Game => { x with toTable := t }) hr.same
  perm := hr.perm

theorem dismiss (m : Man) : (g.dismiss m).Reordered (h.dismiss m) where
  same := by
    rw [← hr.same]
    rfl
  perm c := by
    simp only [Game.dismiss, Sides.get_modify]
    split_ifs
    · exact (hr.perm c).filter _
    · exact hr.perm c

theorem capture (m : Man) : (g.capture m).Reordered (h.capture m) where
  same := by
    rw [← hr.same]
    rfl
  perm := (hr.dismiss m).perm

theorem enlist (p : Piece) (u : Square) : (g.enlist p u).2.Reordered (h.enlist p u).2 where
  same := by
    rw [← hr.same]
    rfl
  perm c := by
    rw [live_enlist, live_enlist, hr.toTable, Sides.get_modify, Sides.get_modify]
    split_ifs
    · exact (hr.perm c).append_right _
    · exact hr.perm c

theorem advance (s : Step) : (g.advance s).2.Reordered (h.advance s).2 := by
  have hcapture : ∀ (o : Option Man) (t : Table),
      (o.elim { g with toTable := t } { g with toTable := t }.capture).Reordered
        (o.elim { h with toTable := t } { h with toTable := t }.capture) := by
    intro o t
    cases o with
    | none => exact hr.withTable t
    | some v => exact (hr.withTable t).capture v
  unfold Game.advance
  rw [hr.toTable]
  cases s.passing
  · exact hcapture (g.relocate s.src s.dst).1 (g.relocate s.src s.dst).2
  · exact hcapture (g.lift s.passed).1 ((g.lift s.passed).2.relocate s.src s.dst).2

theorem settle (s : Step) : (g.settle s).Reordered (h.settle s) where
  same := by
    rw [← hr.same]
    rfl
  perm := hr.perm

theorem promote (s : Step) : (g.promote s).Reordered (h.promote s) := by
  unfold Game.promote
  cases s.becomes with
  | none => exact hr
  | some k =>
    have henlisted := ((hr.withTable (g.lift s.dst).2).dismiss s.man).enlist ⟨k, s.man.colour⟩ s.dst
    dsimp only
    rw [hr.toTable, henlisted.toTable]
    exact henlisted.withTable _

theorem execute (s : Step) : (g.execute s).2.Reordered (h.execute s).2 :=
  ((hr.advance s).settle s).promote s

end Reordered

/-! ### At most one king -/

namespace AtMostOneKing

variable (hone : g.AtMostOneKing c)

include hone

theorem dismiss (m : Man) : (g.dismiss m).AtMostOneKing c := by
  have hlive : ((g.dismiss m).live.get c).Sublist (g.live.get c) := by
    simp only [Game.dismiss, Sides.get_modify]
    split_ifs
    · exact List.filter_sublist
    · exact List.Sublist.refl _
  exact hlive.countP_le.trans hone

theorem enlist (hk : k.isOfficer = true) (d : Colour) (u : Square) :
    (g.enlist ⟨k, d⟩ u).2.AtMostOneKing c := by
  have hnew : ([⟨⟨k, d⟩, g.roster.size⟩] : List Man).countP (·.kind == .king) = 0 := by
    cases k <;> first | rfl | cases hk
  unfold AtMostOneKing
  rw [live_enlist, Sides.get_modify]
  split_ifs
  · rw [List.countP_append, hnew]
    exact hone
  · exact hone

theorem advance (s : Step) : (g.advance s).2.AtMostOneKing c := by
  have hcapture : ∀ (o : Option Man) (t : Table),
      (o.elim { g with toTable := t } { g with toTable := t }.capture).AtMostOneKing c := by
    intro o t
    cases o with
    | none => exact hone
    | some v => exact hone.dismiss v
  unfold Game.advance
  cases s.passing
  · exact hcapture (g.relocate s.src s.dst).1 (g.relocate s.src s.dst).2
  · exact hcapture (g.lift s.passed).1 ((g.lift s.passed).2.relocate s.src s.dst).2

/-- No pawn becomes a king. -/
theorem promote (hofficer : ∀ k, s.becomes = some k → k.isOfficer = true) :
    (g.promote s).AtMostOneKing c := by
  have hlifted : { g with toTable := (g.lift s.dst).2 }.AtMostOneKing c := hone
  unfold Game.promote
  cases hb : s.becomes with
  | none => exact hone
  | some k => exact (hlifted.dismiss s.man).enlist (hofficer k hb) s.man.colour s.dst

theorem execute (hofficer : ∀ k, s.becomes = some k → k.isOfficer = true) :
    (g.execute s).2.AtMostOneKing c := by
  have hsettled : ((g.advance s).2.settle s).AtMostOneKing c := hone.advance s
  exact hsettled.promote hofficer

end AtMostOneKing

/-! ### What a written move means -/

namespace Reordered

variable (hr : g.Reordered h) (hone : g.AtMostOneKing g.active)

include hr hone

/-- The same moves are granted. -/
theorem isSome_attempt (src dst : Square) (promotion : Option PieceKind) :
    (h.attempt src dst promotion).isSome = (g.attempt src dst promotion).isSome := by
  unfold Game.attempt
  rw [hr.assess]
  cases hassess : g.assess src dst promotion with
  | error e => rfl
  | ok plan =>
    cases plan with
    | castle w =>
      dsimp only
      rw [hr.active, hr.canCastle]
      split_ifs <;> rfl
    | step s =>
      have hadm := (admits_of_assess hassess).1
      have hking : (g.execute s).2.AtMostOneKing s.man.colour := by
        rw [hadm.mover]
        exact hone.execute hadm.officer
      dsimp only
      rw [(hr.execute s).inCheck hking]
      split_ifs <;> rfl

theorem sourceFilter (n : Notation) : h.sourceFilter n = g.sourceFilter n := by
  unfold Game.sourceFilter
  rw [hr.active, hr.king hone, hr.toTable]

theorem candidates (n : Notation) : (h.candidates n).Perm (g.candidates n) := by
  unfold Game.candidates
  cases n.dst with
  | none => exact List.Perm.nil
  | some dst =>
    simp only [hr.active, hr.sourceFilter hone, hr.answers, hr.toTable]
    exact (hr.perm g.active).filter _

/-- A written move means the same men, listed in another order. -/
theorem meant (n : Notation) (dst : Square) : (h.meant n dst).Perm (g.meant n dst) := by
  unfold Game.meant Game.located
  simp only [hr.isSome_attempt hone, hr.toTable]
  exact ((hr.candidates hone n).filterMap _).filter _

end Reordered

end Game

namespace Arbiter

variable {a b : Arbiter} {n : Notation} {dst : Square}

/-- Which of the men is chosen does not depend on their order. -/
theorem kind_choose_perm (hr : a.toGame.Reordered b.toGame) {men men' : List (Man × Square)}
    (hmen : men'.Perm men) :
    (b.choose n dst men').1.mapError (·.kind) = (a.choose n dst men).1.mapError (·.kind) := by
  rcases men with _ | ⟨⟨m, u⟩, _ | ⟨x, xs⟩⟩
  · rw [List.perm_nil.1 hmen]
    simp only [choose, Except.mapError, Game.kind_failure]
  · rw [List.perm_singleton.1 hmen]
    simp only [choose, hr.flagOf]
  · have hlength := hmen.length_eq
    rcases men' with _ | ⟨y, _ | ⟨z, ys⟩⟩
    · cases hlength
    · cases hlength
    · simp only [choose, Except.mapError, Game.kind_failure]

/-- With the men in another order a written move is resolved to the same move, or refused for the
same kind of reason. -/
theorem kind_resolve_reordered (hr : a.toGame.Reordered b.toGame)
    (hone : a.AtMostOneKing a.active) (n : Notation) :
    (b.resolve n).1.mapError (·.kind) = (a.resolve n).1.mapError (·.kind) := by
  unfold resolve
  cases n.castle with
  | some w =>
    dsimp only
    rw [hr.active, hr.canCastle]
    split_ifs <;> simp only [Except.mapError, Game.kind_failure]
  | none =>
    cases n.dst with
    | none => rfl
    | some dst =>
      dsimp only
      rw [kind_resolveTo, kind_resolveTo, hr.active]
      exact if_congr Iff.rfl rfl (kind_choose_perm hr (hr.meant hone n dst))

end Arbiter

end ChessArbiter
