import ChessArbiter.Proofs.Strikes

/-!
# Occupancy

A board is `Faithful` when its three bitboards show exactly the men on its squares. `put` keeps it
so whatever is put where. On a faithful board a clear path is one whose squares are all empty
(`pathClear_iff`), and the attack of a man is what the plain rules give (`attacks_eq_bearsOn`).
-/

namespace ChessArbiter

namespace Board

variable {b : Board}

structure Faithful (b : Board) : Prop where
  side : ∀ c s, (b.sides.get c).has s = (b.occupant s).any (·.colour == c)
  occupied : ∀ s, b.occupied.has s = (b.occupant s).isSome

theorem faithful_empty : empty.Faithful where
  side c s := by
    rw [occupant_empty, empty, Sides.get_both]
    exact Bitboard.has_zero s
  occupied s := by
    rw [occupant_empty]
    exact Bitboard.has_zero s

theorem has_side_vacate (hb : b.Faithful) (s t : Square) (c : Colour) :
    ((b.vacate s).sides.get c).has t = if t = s then false else (b.sides.get c).has t := by
  unfold vacate
  cases hs : b.occupant s with
  | none =>
    split_ifs with h
    · rw [h, hb.side, hs]; rfl
    · rfl
  | some old =>
    simp only [Sides.get_modify]
    split_ifs with hc h h
    · simp [h]
    · simp [h]
    · rw [h, hb.side, hs]
      simpa using fun e => hc e.symm
    · rfl

theorem has_occupied_vacate (hb : b.Faithful) (s t : Square) :
    (b.vacate s).occupied.has t = if t = s then false else b.occupied.has t := by
  unfold vacate
  cases hs : b.occupant s with
  | none =>
    split_ifs with h
    · rw [h, hb.occupied, hs]; rfl
    · rfl
  | some old => split_ifs with h <;> simp [h]

theorem Faithful.put (hb : b.Faithful) (s : Square) (new : Option Man) :
    (b.put s new).Faithful where
  side c t := by
    -- the square is vacated first, for either side, and then taken by the side of the new man
    have hv := has_side_vacate hb s t c
    rw [occupant_put]
    cases new with
    | none =>
      change ((b.vacate s).sides.get c).has t = _
      rw [hv]
      split_ifs with h
      · rfl
      · exact hb.side c t
    | some m =>
      change (((b.vacate s).sides.modify m.colour (·.insert s)).get c).has t = _
      rw [Sides.get_modify]
      split_ifs with hc h h
      · simp [h, hc]
      · simp [h, hv, hb.side]
      · rw [hv, if_pos h]
        simpa using fun e => hc e.symm
      · rw [hv, if_neg h]
        exact hb.side c t
  occupied t := by
    have hv := has_occupied_vacate hb s t
    rw [occupant_put]
    cases new with
    | none =>
      change (b.vacate s).occupied.has t = _
      rw [hv]
      split_ifs with h
      · rfl
      · exact hb.occupied t
    | some m =>
      change ((b.vacate s).occupied.insert s).has t = _
      rw [Bitboard.has_insert, hv]
      split_ifs with h
      · simp [h]
      · simpa [h] using hb.occupied t

theorem ext_views {b' : Board} (h : ∀ s, b.occupant s = b'.occupant s) (hsides : b.sides = b'.sides)
    (hoccupied : b.occupied = b'.occupied) : b = b' := by
  have hsquares : b.squares = b'.squares := by
    apply Vector.ext
    intro i hi
    have hi' := h (.ofIndex ⟨i, hi⟩)
    simpa only [occupant, Square.index_ofIndex, Fin.getElem_fin] using hi'
  cases b
  cases b'
  simp only [Board.mk.injEq]
  exact ⟨hsquares, hsides, hoccupied⟩

/-- The men on its squares make up a faithful board. -/
theorem Faithful.ext {b' : Board} (hb : b.Faithful) (hb' : b'.Faithful)
    (h : ∀ s, b.occupant s = b'.occupant s) : b = b' := by
  apply ext_views h
  · refine Sides.ext_get fun c => Bitboard.ext_has fun s => ?_
    rw [hb.side, hb'.side, h]
  · refine Bitboard.ext_has fun s => ?_
    rw [hb.occupied, hb'.occupied, h]

theorem isEmpty_iff {s : Square} : b.isEmpty s = true ↔ b.occupant s = none :=
  Option.isNone_iff_eq_none

theorem meets_iff (x y : Bitboard) : x &&& y = 0#64 ↔ ∀ u, x.has u = true → y.has u = false := by
  rw [Bitboard.eq_zero_iff]
  simp only [Bitboard.has_and, Bool.and_eq_false_imp]

theorem pathClear_iff (hb : b.Faithful) {s t : Square} :
    b.pathClear s t = true ↔ ∀ u, (Geometry.between s t).has u = true → b.isEmpty u = true := by
  unfold pathClear
  simp only [beq_iff_eq, meets_iff, hb.occupied, isEmpty, Option.isSome_eq_false_iff]

end Board

namespace Piece

open Square ChessArbiter.Geometry

variable {p : Piece} {free : Square → Bool} {src dst : Square}

/-- A sliding piece bears on a square of the right shape when all squares between are free. -/
theorem bearsOn_slider (hp : p.kind.slides = true) (moved : Bool) :
    p.bearsOn free src dst = true ↔ p.reaches moved src dst = true ∧
      ∀ u, (between src dst).has u = true → free u = true := by
  have hbear : p.bearsOn free src dst = (lines p.kind).any (sees free · 7 src dst) := by
    cases hk : p.kind <;> simp [hk, PieceKind.slides] at hp <;> simp only [bearsOn, hk]
  rw [hbear, reaches_slider hp, List.any_eq_true]
  constructor
  · rintro ⟨d, hd, hsees⟩
    obtain ⟨⟨hal, hne, hdir⟩, hfree⟩ := (sees_iff_between (lines_subset _ hd)).1 hsees
    exact ⟨⟨hal, hne, hdir ▸ hd⟩, hfree⟩
  · rintro ⟨⟨hal, hne, hd⟩, hfree⟩
    exact ⟨_, hd, (sees_iff_between (lines_subset _ hd)).2 ⟨⟨hal, hne, rfl⟩, hfree⟩⟩

theorem bearsOn_knight (hp : p.kind = .knight) :
    p.bearsOn free src dst = (knightStrikes src).has dst := by
  rw [Bool.eq_iff_iff, has_knightStrikes]
  simp only [bearsOn, hp, jumps, List.any_cons, List.any_nil, Bool.or_eq_true, beq_iff_eq,
    tryOffset_eq_some, Bool.or_false, files_sub, ranks_sub]
  omega

theorem bearsOn_king (hp : p.kind = .king) :
    p.bearsOn free src dst = (kingStrikes src).has dst := by
  rw [Bool.eq_iff_iff, has_kingStrikes]
  simp only [bearsOn, hp, directions, orthogonals, diagonals, List.cons_append, List.nil_append,
    List.any_cons, List.any_nil, Bool.or_eq_true, beq_iff_eq, tryOffset_eq_some, Bool.or_false,
    files_sub, ranks_sub, ne_eq, eq_iff]
  omega

theorem bearsOn_pawn (hp : p.kind = .pawn) :
    p.bearsOn free src dst = (pawnStrikes p.colour src).has dst := by
  rw [Bool.eq_iff_iff, has_pawnStrikes]
  simp only [bearsOn, hp, List.any_cons, List.any_nil, Bool.or_eq_true, beq_iff_eq,
    tryOffset_eq_some, Bool.or_false, files_sub, ranks_sub]
  omega

theorem bearsOn_congr_of_not_slides {free' : Square → Bool} (hp : ¬p.kind.slides = true) :
    p.bearsOn free src dst = p.bearsOn free' src dst := by
  cases hk : p.kind <;> simp only [hk, PieceKind.slides, not_true_eq_false] at hp <;>
    simp only [bearsOn, hk]

/-- Freeing squares takes no attack away. -/
theorem bearsOn_mono {free' : Square → Bool}
    (h : ∀ u, (between src dst).has u = true → free u = true → free' u = true)
    (hb : p.bearsOn free src dst = true) : p.bearsOn free' src dst = true := by
  by_cases hp : p.kind.slides = true
  · rw [bearsOn_slider hp false] at hb ⊢
    exact ⟨hb.1, fun u hu => h u hu (hb.2 u hu)⟩
  · rwa [← bearsOn_congr_of_not_slides hp]

theorem bearsOn_ne (h : p.bearsOn free src dst = true) : src ≠ dst := by
  rintro rfl
  cases hk : p.kind with
  | pawn =>
    rw [bearsOn_pawn hk, has_pawnStrikes] at h
    simp at h
  | knight =>
    rw [bearsOn_knight hk, has_knightStrikes] at h
    simp at h
  | king =>
    rw [bearsOn_king hk, has_kingStrikes] at h
    simp at h
  | bishop | rook | queen =>
    obtain ⟨hr, _⟩ := (bearsOn_slider (by rw [hk]; rfl) false).1 h
    exact ((reaches_slider (by rw [hk]; rfl) false src src).1 hr).2.1 rfl

end Piece

namespace Table

variable {t : Table} {m : Man} {src dst : Square}

theorem attacks_eq_bearsOn (ht : t.board.Faithful) (hm : t.square? m = some src) :
    t.attacks m dst = m.toPiece.bearsOn t.board.isEmpty src dst := by
  unfold attacks
  rw [hm, Option.any_some]
  cases hk : m.kind with
  | pawn => exact (Piece.bearsOn_pawn hk).symm
  | knight =>
    rw [Piece.bearsOn_knight hk]
    simp only [Piece.reaches, hk]
  | king =>
    rw [Piece.bearsOn_king hk]
    simp only [Piece.reaches, hk]
  | bishop | rook | queen =>
    rw [Bool.eq_iff_iff, Piece.bearsOn_slider (by rw [hk]; rfl) (t.hasMoved m),
      ← Board.pathClear_iff ht]
    exact Bool.and_eq_true_iff

end Table

end ChessArbiter
