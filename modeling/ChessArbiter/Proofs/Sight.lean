import ChessArbiter.Proofs.Attacks
import ChessArbiter.Proofs.Setups

/-!
# Rays on the board

`Piece.Hits` is the attack of a piece as it is learnt at the board: a bishop, a rook or a queen goes
along a ray square by square, a knight jumps, a king steps and a pawn strikes diagonally forward. In
every consistent game the words and tables of the board give the same answers: where a sliding man
may go, which squares are attacked, and that to attack an enemy and to be able to take him are one
(`Game.attacks_walk_rays`).
-/

namespace ChessArbiter

namespace Piece

open Square

variable {p : Piece} {free : Square → Bool} {src dst : Square}

inductive Hits (p : Piece) (free : Square → Bool) (src dst : Square) : Prop
  | ray (d : Offset) (hd : d ∈ lines p.kind) (h : Walks free d src dst)
  | jump (d : Offset) (hk : p.kind = .knight) (hd : d ∈ jumps) (h : src.tryOffset d = some dst)
  | step (d : Offset) (hk : p.kind = .king) (hd : d ∈ directions) (h : src.tryOffset d = some dst)
  | strike (files : ℤ) (hk : p.kind = .pawn) (hfiles : files = -1 ∨ files = 1)
    (h : src.tryOffset ⟨files, p.colour.forward⟩ = some dst)

theorem any_sees_iff (k : PieceKind) :
    (lines k).any (sees free · 7 src dst) = true ↔ ∃ d ∈ lines k, Walks free d src dst := by
  rw [List.any_eq_true]
  exact exists_congr fun d => and_congr_right fun hd => sees_iff_walks (lines_subset k hd)

theorem bearsOn_iff_hits : p.bearsOn free src dst = true ↔ p.Hits free src dst := by
  constructor
  · intro h
    cases hk : p.kind with
    | pawn =>
      simp only [bearsOn, hk, List.any_eq_true, List.mem_pair, beq_iff_eq] at h
      obtain ⟨d, rfl | rfl, hdst⟩ := h
      · exact .strike (-1) hk (.inl rfl) hdst
      · exact .strike 1 hk (.inr rfl) hdst
    | knight =>
      simp only [bearsOn, hk, List.any_eq_true, beq_iff_eq] at h
      obtain ⟨d, hd, hdst⟩ := h
      exact .jump d hk hd hdst
    | king =>
      simp only [bearsOn, hk, List.any_eq_true, beq_iff_eq] at h
      obtain ⟨d, hd, hdst⟩ := h
      exact .step d hk hd hdst
    | bishop | rook | queen =>
      simp only [bearsOn, hk, any_sees_iff] at h
      obtain ⟨d, hd, hwalks⟩ := h
      exact .ray d (hk ▸ hd) hwalks
  · rintro (⟨d, hd, h⟩ | ⟨d, hk, hd, h⟩ | ⟨d, hk, hd, h⟩ | ⟨files, hk, hfiles, h⟩)
    · have hany := (any_sees_iff p.kind).2 ⟨d, hd, h⟩
      cases hk : p.kind with
      | pawn | knight | king =>
        rw [hk] at hd
        cases hd
      | bishop | rook | queen =>
        rw [hk] at hany
        simpa only [bearsOn, hk] using hany
    · simp only [bearsOn, hk]
      exact List.any_eq_true.2 ⟨d, hd, beq_iff_eq.2 h⟩
    · simp only [bearsOn, hk]
      exact List.any_eq_true.2 ⟨d, hd, beq_iff_eq.2 h⟩
    · simp only [bearsOn, hk]
      refine List.any_eq_true.2 ⟨_, List.mem_pair.2 ?_, beq_iff_eq.2 h⟩
      rcases hfiles with rfl | rfl
      · exact .inl rfl
      · exact .inr rfl

end Piece

namespace Game

variable {g : Game} {m v : Man} {s src dst : Square} {c : Colour}

theorem canMoveTo_slider (h : g.Coherent) (hm : g.square? m = some src)
    (hk : m.kind = .bishop ∨ m.kind = .rook ∨ m.kind = .queen) :
    g.canMoveTo m dst = true ↔
      ∃ d ∈ Piece.lines m.kind, Square.Walks g.board.isEmpty d src dst := by
  have hbears : m.bearsOn g.board.isEmpty src dst =
      (Piece.lines m.kind).any (Square.sees g.board.isEmpty · 7 src dst) := by
    rcases hk with hk | hk | hk <;> simp only [Piece.bearsOn, hk]
  have hattacks : g.canMoveTo m dst = g.attacks m dst := by
    rcases hk with hk | hk | hk <;> simp only [canMoveTo, hk]
  rw [hattacks, Table.attacks_eq_bearsOn h.faithful hm, hbears, Piece.any_sees_iff]

theorem isAttacked_iff_hits (h : g.Consistent) :
    g.isAttacked s c = true ↔ ∃ m ∈ g.live.get c, ∃ src, g.square? m = some src ∧ src ≠ s ∧
      m.Hits g.board.isEmpty src s := by
  rw [isAttacked_iff h.toCoherent]
  constructor
  · rintro ⟨src, m, hs, rfl, hbears⟩
    obtain ⟨hm, hlive⟩ := (h.occupant_iff src m).1 hs
    exact ⟨m, hlive, src, hm, Piece.bearsOn_ne hbears, Piece.bearsOn_iff_hits.1 hbears⟩
  · rintro ⟨m, hlive, src, hm, -, hhits⟩
    obtain rfl := h.live_colour c m hlive
    exact ⟨src, m, (h.occupant_iff src m).2 ⟨hm, hlive⟩, rfl, Piece.bearsOn_iff_hits.2 hhits⟩

/-- Whoever attacks an enemy can take him; only a king must look ahead. -/
theorem canTake_eq_attacks (hfoe : g.holdsOpponent m s = true) (hk : m.kind ≠ .king) :
    g.canTake m s = g.attacks m s := by
  cases hkind : m.kind with
  | king => exact absurd hkind hk
  | _ => simp only [canTake, canMoveTo, hkind, hfoe, Bool.true_or, Bool.and_true]

theorem attacks_of_canTake_king (hk : m.kind = .king) (h : g.canTake m s = true) :
    g.attacks m s = true := by
  simp only [canTake, canMoveTo, kingSteps, hk, Bool.and_eq_true, Option.any_eq_true] at h
  obtain ⟨⟨src, hm, hreaches, -⟩, -⟩ := h
  rw [Table.reaches, hm, Option.any_some] at hreaches
  simp only [Table.attacks, hm, Option.any_some, hk]
  exact hreaches

/-- In a consistent game a sliding man may go wherever a ray of his leads over free squares, and a
square is attacked when some man of the other side, who does not stand there himself, hits it by the
rules of his kind. Whoever but a king attacks an enemy can take him, and a king attacks whomever he
can take. -/
theorem attacks_walk_rays (g : Game) (h : g.Consistent) :
    (∀ c, ∀ m ∈ g.live.get c, m.kind = .bishop ∨ m.kind = .rook ∨ m.kind = .queen →
      ∃ src, g.square? m = some src ∧ ∀ dst, (g.canMoveTo m dst = true ↔
        ∃ d ∈ Piece.lines m.kind, Square.Walks g.board.isEmpty d src dst)) ∧
    (∀ s c, g.isAttacked s c = true ↔ ∃ m ∈ g.live.get c, ∃ src, g.square? m = some src ∧
      src ≠ s ∧ m.Hits g.board.isEmpty src s) ∧
    (∀ m s v, g.board.occupant s = some v → v.colour ≠ m.colour → m.kind ≠ .king →
      g.attacks m s = g.canTake m s) ∧
    ∀ m s, m.kind = .king → g.canTake m s = true → g.attacks m s = true := by
  refine ⟨fun c m hm hk => ?_, fun s c => isAttacked_iff_hits h, fun m s v hs hfoe hk => ?_,
    fun m s => attacks_of_canTake_king⟩
  · obtain ⟨src, hsrc⟩ := h.placed c m hm
    exact ⟨src, hsrc, fun dst => canMoveTo_slider h.toCoherent hsrc hk⟩
  · have hholds : g.holdsOpponent m s = true := by
      rw [Table.holdsOpponent, hs, Option.any_some, bne_iff_ne]
      exact hfoe
    exact (canTake_eq_attacks hholds hk).symm

/-- White's queen on e3 sees up the file to a rook; her pawn stands before her king, a knight beside
the pawn. -/
def screened : Game :=
  empty.enlistAll [(⟨.rook, .black⟩, ⟨4, 7⟩), (⟨.king, .black⟩, ⟨7, 7⟩), (⟨.queen, .white⟩, ⟨4, 2⟩),
    (⟨.knight, .black⟩, ⟨3, 1⟩), (⟨.pawn, .white⟩, ⟨4, 1⟩), (⟨.king, .white⟩, ⟨4, 0⟩)]

/-- She reaches her own pawn, but not her king behind it. -/
theorem screened_walks_rays :
    (∃ d ∈ Square.directions, Square.Walks screened.board.isEmpty d ⟨4, 2⟩ ⟨4, 1⟩) ∧
      (¬∃ d ∈ Square.directions, Square.Walks screened.board.isEmpty d ⟨4, 2⟩ ⟨4, 0⟩) ∧
      (∃ m ∈ screened.live.black, ∃ src, screened.square? m = some src ∧ src ≠ ⟨4, 2⟩ ∧
        m.Hits screened.board.isEmpty src ⟨4, 2⟩) ∧
      screened.canTake ⟨⟨.queen, .white⟩, 2⟩ ⟨4, 7⟩ = true ∧
      screened.attacks ⟨⟨.king, .white⟩, 5⟩ ⟨3, 1⟩ = true := by
  have hcon : screened.Consistent := consistent_enlistAll_empty (by decide)
  obtain ⟨hslides, hattacked, htakes, hking⟩ := attacks_walk_rays screened hcon
  obtain ⟨src, hsrc, hmoves⟩ := hslides .white ⟨⟨.queen, .white⟩, 2⟩ (by decide +kernel)
    (.inr (.inr rfl))
  obtain rfl : src = ⟨4, 2⟩ := Option.some.inj (hsrc.symm.trans (by decide +kernel))
  refine ⟨(hmoves ⟨4, 1⟩).1 (by decide +kernel), fun h => ?_,
    (hattacked ⟨4, 2⟩ .black).1 (by decide +kernel), ?_, hking _ _ rfl (by decide +kernel)⟩
  · have hreached := (hmoves ⟨4, 0⟩).2 h
    have hbarred : screened.canMoveTo ⟨⟨.queen, .white⟩, 2⟩ ⟨4, 0⟩ = false := by decide +kernel
    rw [hbarred] at hreached
    cases hreached
  · rw [← htakes ⟨⟨.queen, .white⟩, 2⟩ ⟨4, 7⟩ ⟨⟨.rook, .black⟩, 0⟩ (by decide +kernel) (by decide)
      (by decide)]
    decide +kernel

end Game

end ChessArbiter
