import ChessArbiter.Proofs.Assessment

/-!
# The position after a step or a castle

An admitted step takes whoever stands on its victim square and brings the man across (`brought`);
on the last rank he is then exchanged for an officer (`promote_eq`). Both are spelled out in
operations on consistent games. It follows who stands where afterwards (`occupant_execute`), who has
moved (`hasMoved_execute`), who is in play (`mem_live_execute`), and that the game stays consistent.
-/

namespace ChessArbiter

/-- Where the man taken by a step stands, if there is one. -/
def Step.victimSquare (s : Step) : Square := if s.passing then s.passed else s.dst

namespace Game

variable {g : Game} {s : Step}

namespace Admits

theorem victim_of_passing (hs : g.Admits s) (h : g.Coherent) (hp : s.passing = true) :
    s.man.kind = .pawn ∧ g.enPassant = some s.dst ∧ g.board.occupant s.dst = none ∧
      ∃ v, g.board.occupant s.passed = some v ∧ v.kind = .pawn ∧
        v.colour = s.man.colour.opposite := by
  rw [hs.passing_eq, isPassing_iff h hs.source] at hp
  obtain ⟨hk, hep, hd, _, v, hv, hvk, hvc⟩ := hp
  exact ⟨hk, hep, hd, v, hv, hvk, Colour.eq_opposite_of_ne hvc⟩

theorem kind_of_becomes (hs : g.Admits s) (hb : s.becomes.isSome = true) : s.man.kind = .pawn := by
  rw [hs.becomes_isSome, Man.promotesOn, Bool.and_eq_true, beq_iff_eq] at hb
  exact hb.1

theorem victimSquare_ne_src (hs : g.Admits s) (h : g.Coherent) : s.victimSquare ≠ s.src := by
  unfold Step.victimSquare
  split_ifs with hp
  · intro heq
    obtain ⟨_, _, _, v, hv, _, hvc⟩ := hs.victim_of_passing h hp
    rw [heq, hs.source, Option.some.injEq] at hv
    rw [← hv] at hvc
    exact Colour.ne_opposite _ hvc
  · exact hs.src_ne_dst.symm

theorem victim_foe (hs : g.Admits s) (h : g.Coherent) {v : Man}
    (hv : g.board.occupant s.victimSquare = some v) : v.colour = s.man.colour.opposite := by
  unfold Step.victimSquare at hv
  split_ifs at hv with hp
  · obtain ⟨_, _, _, v', hv', _, hvc⟩ := hs.victim_of_passing h hp
    rw [hv, Option.some.injEq] at hv'
    exact hv' ▸ hvc
  · exact Colour.eq_opposite_of_ne (hs.foe v hv)

/-- What is taken elsewhere than on the destination is a pawn. -/
theorem victimSquare_cases (hs : g.Admits s) (h : g.Coherent) :
    s.victimSquare = s.dst ∨ g.board.occupant s.dst = none ∧
      ∃ v, g.board.occupant s.victimSquare = some v ∧ v.kind = .pawn := by
  unfold Step.victimSquare
  split_ifs with hp
  · obtain ⟨_, _, hempty, v, hv, hpawn, _⟩ := hs.victim_of_passing h hp
    exact .inr ⟨hempty, v, hv, hpawn⟩
  · exact .inl rfl

theorem dst_empty (hs : g.Admits s) (h : g.Coherent) :
    (g.take s.victimSquare).board.occupant s.dst = none := by
  rw [occupant_take]
  rcases hs.victimSquare_cases h with hsame | ⟨hempty, _⟩
  · rw [if_pos hsame.symm]
  · rw [hempty]
    exact ite_self none

theorem source_take (hs : g.Admits s) (h : g.Coherent) :
    (g.take s.victimSquare).board.occupant s.src = some s.man := by
  rw [occupant_take, if_neg (hs.victimSquare_ne_src h).symm]
  exact hs.source

end Admits

/-- A man who comes onto a square first takes whoever stands there. -/
theorem advance_of_not_passing (h : g.Coherent) (hs : g.board.occupant s.src = some s.man)
    (hne : s.src ≠ s.dst) (hp : s.passing = false) :
    g.advance s = (g.board.occupant s.dst,
      { g.take s.dst with toTable := ((g.take s.dst).relocate s.src s.dst).2 }) := by
  have hfst : (g.relocate s.src s.dst).1 = g.board.occupant s.dst := by
    rw [Table.relocate_eq g.toTable hs hne]
  rw [toTable_take, ← Table.relocate_eq_lift g.toTable h.faithful hs hne]
  unfold advance
  rw [hp, if_neg Bool.false_ne_true]
  simp only [hfst]
  unfold take
  cases g.board.occupant s.dst <;> rfl

theorem advance_eq (hs : g.Admits s) (h : g.Coherent) :
    g.advance s = (g.board.occupant s.victimSquare,
      { g.take s.victimSquare with
        toTable := ((g.take s.victimSquare).relocate s.src s.dst).2 }) := by
  cases hp : s.passing with
  | false =>
    rw [advance_of_not_passing h hs.source hs.src_ne_dst hp]
    simp only [Step.victimSquare, hp, Bool.false_eq_true, if_false]
  | true =>
    rw [toTable_take]
    unfold advance Step.victimSquare
    rw [hp, if_pos rfl, if_pos rfl]
    simp only [Table.fst_lift]
    unfold take
    cases g.board.occupant s.passed <;> rfl

theorem promote_eq {k : PieceKind} (hb : s.becomes = some k)
    (hd : g.board.occupant s.dst = some s.man) :
    g.promote s =
      { ((g.withdraw s.dst).enlist ⟨k, s.man.colour⟩ s.dst).2 with
        toTable := ((g.withdraw s.dst).enlist ⟨k, s.man.colour⟩ s.dst).2.setMoved
          ((g.withdraw s.dst).enlist ⟨k, s.man.colour⟩ s.dst).1 true } := by
  unfold promote withdraw
  rw [hb, hd]

theorem promote_of_none (hb : s.becomes = none) : g.promote s = g := by
  unfold promote
  rw [hb]

/-- The man whom a step leaves on its destination. -/
def arrival (g : Game) (s : Step) : Man :=
  match s.becomes with
  | none => s.man
  | some k => ⟨⟨k, s.man.colour⟩, g.roster.size⟩

theorem arrival_of_none (hb : s.becomes = none) : g.arrival s = s.man := by
  unfold arrival
  rw [hb]

theorem arrival_of_some {k : PieceKind} (hb : s.becomes = some k) :
    g.arrival s = ⟨⟨k, s.man.colour⟩, g.roster.size⟩ := by
  unfold arrival
  rw [hb]

/-- Nobody becomes a king, and nobody becomes a pawn. -/
theorem Admits.isOfficer_arrival (hs : g.Admits s) {k : PieceKind} (hb : s.becomes = some k) :
    (g.arrival s).kind.isOfficer = true := by
  rw [arrival_of_some hb]
  exact hs.officer k hb

/-! ### Before the exchange -/

/-- The game once the man has come across and is marked, before a pawn is exchanged. -/
def brought (g : Game) (s : Step) : Game := (g.advance s).2.settle s

theorem execute_snd (g : Game) (s : Step) : (g.execute s).2 = (g.brought s).promote s := rfl

theorem consistent_brought (hs : g.Admits s) (h : g.Consistent) : (g.brought s).Consistent := by
  have hadvance : (g.advance s).2.Consistent := by
    rw [advance_eq hs h.toCoherent]
    exact (h.take _).relocate (hs.source_take h.toCoherent) (hs.dst_empty h.toCoherent)
  exact (hadvance.setMoved s.man true).congr rfl rfl rfl

theorem occupant_brought (hs : g.Admits s) (h : g.Coherent) (u : Square) :
    (g.brought s).board.occupant u =
      if u = s.dst then some s.man
      else if u = s.src ∨ u = s.victimSquare then none else g.board.occupant u := by
  change (g.advance s).2.board.occupant u = _
  rw [advance_eq hs h]
  change ((g.take s.victimSquare).relocate s.src s.dst).2.board.occupant u = _
  rw [Table.occupant_relocate _ (hs.source_take h) hs.src_ne_dst, occupant_take]
  by_cases hsrc : u = s.src
  · simp [hsrc]
  · by_cases hv : u = s.victimSquare <;> simp [hsrc, hv]

theorem occupant_dst_brought (hs : g.Admits s) (h : g.Coherent) :
    (g.brought s).board.occupant s.dst = some s.man := by
  rw [occupant_brought hs h, if_pos rfl]

theorem size_advance (g : Game) (s : Step) : (g.advance s).2.roster.size = g.roster.size := by
  have hcapture : ∀ (o : Option Man) (t : Table),
      (o.elim { g with toTable := t } { g with toTable := t }.capture).roster = t.roster := by
    intro o t
    cases o <;> rfl
  unfold advance
  split_ifs
  · refine (congrArg Array.size (hcapture _ _)).trans ?_
    rw [Table.size_relocate, Table.size_lift]
  · exact (congrArg Array.size (hcapture _ _)).trans (Table.size_relocate _ _ _)

theorem size_brought (g : Game) (s : Step) : (g.brought s).roster.size = g.roster.size :=
  (Table.size_setMoved _ s.man true).trans (g.size_advance s)

theorem size_withdraw_brought (g : Game) (s : Step) :
    ((g.brought s).withdraw s.dst).roster.size = g.roster.size := by
  rw [size_withdraw, size_brought]

theorem hasMoved_brought (hs : g.Admits s) (h : g.Coherent) (y : Man) :
    (g.brought s).hasMoved y = if y.id = s.man.id then true else g.hasMoved y := by
  have hadvance : (g.advance s).2.hasMoved y = g.hasMoved y := by
    rw [advance_eq hs h]
    change ((g.take s.victimSquare).relocate s.src s.dst).2.hasMoved y = _
    rw [Table.hasMoved_relocate, hasMoved_take]
  have hm := h.enrolled_of_occupant hs.source
  rw [← g.size_advance s] at hm
  rw [← hadvance]
  exact Table.hasMoved_setMoved _ hm true y

theorem mem_live_brought (hs : g.Admits s) (h : g.Consistent) {c : Colour} {y : Man} :
    y ∈ (g.brought s).live.get c ↔
      y ∈ g.live.get c ∧ g.board.occupant s.victimSquare ≠ some y := by
  change y ∈ (g.advance s).2.live.get c ↔ _
  rw [advance_eq hs h.toCoherent]
  exact h.mem_live_take

/-! ### The whole step -/

theorem consistent_execute (hs : g.Admits s) (h : g.Consistent) : (g.execute s).2.Consistent := by
  have hbrought := consistent_brought hs h
  rw [execute_snd]
  cases hb : s.becomes with
  | none =>
    rw [promote_of_none hb]
    exact hbrought
  | some k =>
    have hempty : ((g.brought s).withdraw s.dst).board.occupant s.dst = none := by
      rw [occupant_withdraw, if_pos rfl]
    rw [promote_eq hb (occupant_dst_brought hs h.toCoherent)]
    exact ((hbrought.withdraw s.dst).enlist _ hempty).setMoved _ true

theorem occupant_execute (hs : g.Admits s) (h : g.Coherent) (u : Square) :
    (g.execute s).2.board.occupant u =
      if u = s.dst then some (g.arrival s)
      else if u = s.src ∨ u = s.victimSquare then none else g.board.occupant u := by
  rw [execute_snd]
  cases hb : s.becomes with
  | none =>
    rw [promote_of_none hb, arrival_of_none hb]
    exact occupant_brought hs h u
  | some k =>
    rw [promote_eq hb (occupant_dst_brought hs h), arrival_of_some hb]
    change (((g.brought s).withdraw s.dst).enlist _ s.dst).2.board.occupant u = _
    rw [occupant_enlist, occupant_withdraw, occupant_brought hs h, size_withdraw_brought]
    split_ifs <;> rfl

/-- Whoever stands where a step ends counts as moved, and nobody else's mark changes. -/
theorem hasMoved_execute (hs : g.Admits s) (h : g.Coherent) (y : Man) :
    (g.execute s).2.hasMoved y =
      if y.id = (g.arrival s).id ∨ y.id = s.man.id then true else g.hasMoved y := by
  rw [execute_snd]
  cases hb : s.becomes with
  | none =>
    rw [promote_of_none hb, arrival_of_none hb]
    simp only [or_self]
    exact hasMoved_brought hs h y
  | some k =>
    rw [promote_eq hb (occupant_dst_brought hs h), arrival_of_some hb]
    refine (Table.hasMoved_setMoved _ ?_ true y).trans ?_
    · rw [size_enlist, fst_enlist]
      exact Nat.lt_succ_self _
    · rw [hasMoved_enlist, hasMoved_withdraw, hasMoved_brought hs h, fst_enlist,
        size_withdraw_brought]
      split_ifs <;> simp_all

theorem hasMoved_of_stays (hs : g.Admits s) (h : g.Coherent) {u : Square} {y : Man}
    (hu : g.board.occupant u = some y) (hsrc : u ≠ s.src) :
    (g.execute s).2.hasMoved y = g.hasMoved y := by
  have hman : y.id ≠ s.man.id := fun hid => hsrc (h.occupant_unique hu hs.source hid)
  have harrival : y.id ≠ (g.arrival s).id := by
    cases hb : s.becomes with
    | none =>
      rw [arrival_of_none hb]
      exact hman
    | some k =>
      rw [arrival_of_some hb]
      exact h.id_ne_size (h.knows_of_occupant hu)
  rw [hasMoved_execute hs h, if_neg]
  exact not_or.2 ⟨harrival, hman⟩

theorem mem_live_execute (hs : g.Admits s) (h : g.Consistent) {c : Colour} {y : Man} :
    y ∈ (g.execute s).2.live.get c ↔
      (y ∈ g.live.get c ∧ g.board.occupant s.victimSquare ≠ some y ∧
          (s.becomes.isSome = true → y ≠ s.man)) ∨
        (s.becomes.isSome = true ∧ y = g.arrival s ∧ c = s.man.colour) := by
  rw [execute_snd]
  cases hb : s.becomes with
  | none =>
    rw [promote_of_none hb, mem_live_brought hs h]
    simp
  | some k =>
    rw [promote_eq hb (occupant_dst_brought hs h.toCoherent), arrival_of_some hb]
    change y ∈ (((g.brought s).withdraw s.dst).enlist _ s.dst).2.live.get c ↔ _
    rw [Coherent.mem_live_enlist, (consistent_brought hs h).mem_live_withdraw,
      mem_live_brought hs h, occupant_dst_brought hs h.toCoherent,
      size_withdraw_brought]
    simp only [ne_eq, Option.some.injEq, Option.isSome_some, true_and, and_assoc,
      forall_const, eq_comm (a := s.man)]

theorem size_le_promote (g : Game) (s : Step) : g.roster.size ≤ (g.promote s).roster.size := by
  unfold promote
  cases s.becomes with
  | none => exact le_rfl
  | some k =>
    dsimp only
    rw [Table.size_setMoved, size_enlist]
    exact Nat.le_succ_of_le (Table.size_lift g.toTable s.dst).ge

/-- A step may put a new man on the roster, but takes none off it. -/
theorem size_le_execute (g : Game) (s : Step) :
    g.roster.size ≤ (g.execute s).2.roster.size := by
  rw [execute_snd, ← g.size_brought s]
  exact size_le_promote _ s

theorem fst_execute (hs : g.Admits s) (h : g.Coherent) :
    (g.execute s).1 = g.board.occupant s.victimSquare :=
  congrArg Prod.fst (advance_eq hs h)

end Game

end ChessArbiter
