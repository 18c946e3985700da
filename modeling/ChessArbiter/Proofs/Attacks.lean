import ChessArbiter.Proofs.Movement

/-!
# Attacks and check as seen on the board

A square is attacked when some man of the other side, wherever he stands, bears on it by the plain
rules (`isAttacked_iff`); with one square counted as empty, when he bears on it over the squares
that are then free (`isAttackedWithout_iff`). A side that has exactly one king in play is in check
when the square of that king is attacked (`inCheck_iff`).
-/

namespace ChessArbiter

namespace Game

variable {g : Game} {m k : Man} {s u v src dst : Square} {c : Colour}

theorem strikes_eq (h : g.Coherent) (hs : g.board.occupant src = some m) :
    g.strikes m s = m.bearsOn g.board.isEmpty src s := by
  have hm := h.square?_of_occupant hs
  unfold strikes
  rw [Table.attacks_eq_bearsOn h.faithful hm, hm, Option.any_some]
  cases hb : m.bearsOn g.board.isEmpty src s with
  | false => exact Bool.and_false _
  | true => simpa using Piece.bearsOn_ne hb

theorem isAttacked_iff (h : g.Coherent) :
    g.isAttacked s c = true ↔ ∃ src m, g.board.occupant src = some m ∧ m.colour = c ∧
      m.bearsOn g.board.isEmpty src s = true := by
  unfold isAttacked
  rw [List.any_eq_true]
  constructor
  · rintro ⟨m, hm, hst⟩
    obtain rfl := h.live_colour c m hm
    -- whoever strikes stands somewhere
    obtain ⟨src, hsrc, _⟩ := (Option.any_eq_true _ _).1 (Bool.and_eq_true_iff.1 hst).1
    have hs := (h.occupant_iff src m).2 ⟨hsrc, hm⟩
    rw [strikes_eq h hs] at hst
    exact ⟨src, m, hs, rfl, hst⟩
  · rintro ⟨src, m, hs, rfl, hb⟩
    refine ⟨m, h.live_of_occupant hs, ?_⟩
    rw [strikes_eq h hs]
    exact hb

/-- What a sliding man sees through a vacated square is what he sees when it is free. -/
theorem slidesThrough_iff (h : g.Coherent) (hs : g.board.occupant src = some m) :
    g.slidesThrough m s v = true ↔ m.kind.slides = true ∧
      m.bearsOn (fun u => g.board.isEmpty u || u == v) src s = true := by
  have hm := h.square?_of_occupant hs
  unfold slidesThrough Table.reaches
  simp only [hm, Option.any_some, Bool.and_eq_true, bne_iff_ne, beq_iff_eq, Board.meets_iff,
    Bitboard.has_erase, and_assoc]
  refine and_congr_right fun hk => ?_
  rw [Piece.bearsOn_slider hk (g.hasMoved m)]
  refine and_congr_right fun hr => ?_
  have hne := ((Piece.reaches_slider hk _ _ _).1 hr).2.1
  simp only [ne_eq, hne, not_false_eq_true, true_and, h.faithful.occupied, Board.isEmpty,
    Bool.and_eq_false_iff, Option.isSome_eq_false_iff, Bool.not_eq_false', decide_eq_true_eq,
    Bool.or_eq_true, beq_iff_eq]

theorem isAttackedWithout_iff (h : g.Consistent) :
    g.isAttackedWithout s c v = true ↔ ∃ src m, g.board.occupant src = some m ∧ m.colour = c ∧
      m.bearsOn (fun u => g.board.isEmpty u || u == v) src s = true := by
  have hman : ∀ {src m}, g.board.occupant src = some m →
      ((g.strikes m s || g.slidesThrough m s v) = true ↔
        m.bearsOn (fun u => g.board.isEmpty u || u == v) src s = true) := by
    intro src m hs
    rw [Bool.or_eq_true, strikes_eq h.toCoherent hs, slidesThrough_iff h.toCoherent hs]
    by_cases hk : m.kind.slides = true
    · simp only [hk, true_and, Piece.bearsOn_slider hk false, Bool.or_eq_true]
      constructor
      · rintro (⟨hr, hfree⟩ | hb)
        · exact ⟨hr, fun u hu => .inl (hfree u hu)⟩
        · exact hb
      · exact .inr
    · have hsame : m.bearsOn g.board.isEmpty src s =
          m.bearsOn (fun u => g.board.isEmpty u || u == v) src s :=
        Piece.bearsOn_congr_of_not_slides hk
      rw [hsame]
      simp [hk]
  unfold isAttackedWithout
  rw [List.any_eq_true]
  constructor
  · rintro ⟨m, hm, hst⟩
    obtain ⟨src, _, hs⟩ := h.exists_occupant hm
    exact ⟨src, m, hs, h.live_colour c m hm, (hman hs).1 hst⟩
  · rintro ⟨src, m, hs, rfl, hb⟩
    exact ⟨m, h.live_of_occupant hs, (hman hs).2 hb⟩

/-! ### Kings -/

/-- Exactly one king of the side is in play. -/
def HasOneKing (g : Game) (c : Colour) : Prop := (g.live.get c).countP (·.kind == .king) = 1

instance (g : Game) (c : Colour) : Decidable (g.HasOneKing c) :=
  inferInstanceAs (Decidable (_ = _))

theorem countP_eq_one_iff {α : Type} {l : List α} (hl : l.Nodup) (p : α → Bool) :
    l.countP p = 1 ↔ ∃ x ∈ l, p x = true ∧ ∀ y ∈ l, p y = true → y = x := by
  rw [List.countP_eq_length_filter, List.length_eq_one_iff]
  constructor
  · rintro ⟨x, hx⟩
    have hmem : ∀ y, y ∈ l ∧ p y = true ↔ y = x := by
      intro y
      rw [← List.mem_filter, hx, List.mem_singleton]
    obtain ⟨hxl, hpx⟩ := (hmem x).2 rfl
    exact ⟨x, hxl, hpx, fun y hy hpy => (hmem y).1 ⟨hy, hpy⟩⟩
  · rintro ⟨x, hxl, hpx, huniq⟩
    refine ⟨x, List.perm_singleton.1 ?_⟩
    rw [List.perm_ext_iff_of_nodup (hl.filter _) (List.nodup_singleton x)]
    intro y
    rw [List.mem_filter, List.mem_singleton]
    constructor
    · exact fun hy => huniq y hy.1 hy.2
    · rintro rfl
      exact ⟨hxl, hpx⟩

theorem hasOneKing_iff (h : g.Coherent) :
    g.HasOneKing c ↔ ∃ k ∈ g.live.get c, k.kind = .king ∧
      ∀ y ∈ g.live.get c, y.kind = .king → y = k := by
  unfold HasOneKing
  simp only [countP_eq_one_iff (h.live_nodup c), beq_iff_eq]

/-- The king that the game looks for is the king there is. -/
theorem king_eq (h : g.Coherent) (hone : g.HasOneKing c) (hlive : k ∈ g.live.get c)
    (hking : k.kind = .king) : g.king c = some k := by
  obtain ⟨k', hlive', hking', huniq⟩ := (hasOneKing_iff h).1 hone
  obtain rfl := huniq k hlive hking
  unfold king
  cases hf : (g.live.get c).find? (·.kind == .king) with
  | none =>
    rw [List.find?_eq_none] at hf
    exact absurd hking (by simpa using hf k hlive)
  | some y =>
    have hy := List.find?_some hf
    rw [huniq y (List.mem_of_find?_eq_some hf) (by simpa using hy)]

theorem inCheck_iff (h : g.Coherent) (hone : g.HasOneKing c)
    (hs : g.board.occupant s = some k) (hk : k.kind = .king) (hc : k.colour = c) :
    g.inCheck c = g.isAttacked s c.opposite := by
  subst hc
  unfold inCheck
  rw [king_eq h hone (h.live_of_occupant hs) hk, Option.any_some, h.square?_of_occupant hs,
    Option.any_some]

end Game

end ChessArbiter
