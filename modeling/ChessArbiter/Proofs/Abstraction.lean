import ChessArbiter.Proofs.Regularity

/-!
# The position of a game

`Game.position` forgets the men's identities and marks, the lists and the log: what is left is what
the rules of chess speak of. The queries of a game give the same answers as those of its position:
attacked squares (`isAttacked_piece`), check (`inCheck_piece`) and open castles (`mayCastle_eq`).
How a right is lost when men move is shown for steps and for castles.
-/

namespace ChessArbiter

namespace CastlePath

/-- From here the king or the rook sets out. -/
def IsHome (path : CastlePath) (u : Square) : Prop := u = path.kingFrom ∨ u = path.rookFrom

instance (path : CastlePath) (u : Square) : Decidable (path.IsHome u) :=
  inferInstanceAs (Decidable (_ ∨ _))

variable (c d : Colour) (w v : Wing)

theorem heading_mem :
    Square.heading (of c w).kingFrom (of c w).rookFrom ∈ Square.orthogonals ∧
      Geometry.aligned (of c w).kingFrom (of c w).rookFrom = true := by
  cases c <;> cases w <;> decide

theorem squaresBetween_eq :
    Geometry.squaresBetween (of c w).kingFrom (of c w).kingTo = [(of c w).rookTo] := by
  cases c <;> cases w <;> decide

/-- No castle ends on a home square. -/
theorem not_isHome_kingTo : ¬(of d v).IsHome (of c w).kingTo := by
  cases c <;> cases d <;> cases w <;> cases v <;> decide

/-- Kings and rooks of different sides have different home squares. -/
theorem homes_ne (h : (of c w).kingFrom ≠ (of d v).kingFrom) :
    (of d v).kingFrom ≠ (of c w).rookFrom ∧ (of d v).rookFrom ≠ (of c w).kingFrom ∧
      (of d v).rookFrom ≠ (of c w).rookFrom := by
  revert h
  cases c <;> cases d <;> cases w <;> cases v <;> decide

end CastlePath

namespace Game

variable {g : Game} {s : Step} {m k r : Man} {u dst : Square} {c d : Colour} {w v : Wing}

def position (g : Game) : Position :=
  { men := g.board.piece
    active := g.active
    rights := g.hasRight
    passing := g.enPassant
    halfmove := g.halfmove.toInt
    turn := g.turn.toInt }

theorem men_position (g : Game) : g.position.men = g.board.piece := rfl

theorem rights_position (g : Game) : g.position.rights = g.hasRight := rfl

theorem position_start : start.position = .initial := by
  have hmen : ∀ u ∈ Square.all, start.board.piece u = Position.initial.men u := by
    decide +kernel
  have hrights : ∀ c w, start.hasRight c w = true := by
    intro c w
    cases c <;> cases w <;> decide +kernel
  have hbooks : start.active = .white ∧ start.enPassant = none ∧ start.halfmove = 0 ∧
      start.turn = 1 := by
    decide +kernel
  obtain ⟨hactive, htarget, hhalf, hturn⟩ := hbooks
  refine Position.ext ?_ hactive ?_ htarget ?_ ?_
  · rw [men_position]
    exact funext fun u => hmen u (Square.mem_all u)
  · rw [rights_position]
    exact funext fun c => funext fun w => hrights c w
  · exact congrArg Int32.toInt hhalf
  · exact congrArg Int32.toInt hturn

theorem piece_eq_some {x : Piece} :
    g.board.piece u = some x ↔ ∃ m, g.board.occupant u = some m ∧ m.toPiece = x :=
  Option.map_eq_some_iff

theorem free_piece (g : Game) : Placement.free g.board.piece = g.board.isEmpty := by
  funext u
  exact Option.isNone_map

theorem isAttacked_piece (h : g.Consistent) :
    Placement.isAttacked g.board.piece u c = g.isAttacked u c := by
  rw [Bool.eq_iff_iff, isAttacked_iff h.toCoherent]
  unfold Placement.isAttacked
  simp only [List.any_eq_true, Square.mem_all, true_and, Option.any_eq_true, Bool.and_eq_true,
    beq_iff_eq, free_piece, piece_eq_some]
  constructor
  · rintro ⟨src, _, ⟨m, hm, rfl⟩, hc, hb⟩
    exact ⟨src, m, hm, hc, hb⟩
  · rintro ⟨src, m, hm, hc, hb⟩
    exact ⟨src, m.toPiece, ⟨m, hm, rfl⟩, hc, hb⟩

theorem inCheck_piece (h : g.Consistent) (hone : g.HasOneKing c) :
    Placement.inCheck g.board.piece c = g.inCheck c := by
  obtain ⟨k, hlive, hking, huniq⟩ := (hasOneKing_iff h.toCoherent).1 hone
  obtain ⟨s, _, hs⟩ := h.exists_occupant hlive
  have hc := h.live_colour c k hlive
  rw [inCheck_iff h.toCoherent hone hs hking hc, Bool.eq_iff_iff]
  unfold Placement.inCheck
  simp only [List.any_eq_true, Square.mem_all, true_and, Bool.and_eq_true, beq_iff_eq,
    isAttacked_piece h, piece_eq_some]
  constructor
  · rintro ⟨u, ⟨y, hy, hpiece⟩, hatt⟩
    obtain rfl : y = k := by
      refine huniq y ?_ (congrArg Piece.kind hpiece)
      have hcolour : y.colour = c := congrArg Piece.colour hpiece
      exact hcolour ▸ h.live_of_occupant hy
    rwa [h.occupant_unique hs hy rfl]
  · intro hatt
    refine ⟨s, ⟨k, hs, ?_⟩, hatt⟩
    rw [← hking, ← hc]

/-! ### Castling -/

theorem sees_home_iff (h : g.Coherent) :
    Square.orthogonals.any (Square.sees g.board.isEmpty · 7 (CastlePath.of c w).kingFrom
        (CastlePath.of c w).rookFrom) = true ↔
      g.board.pathClear (CastlePath.of c w).kingFrom (CastlePath.of c w).rookFrom = true := by
  have horthogonal : ∀ e ∈ Square.orthogonals, e ∈ Square.directions :=
    fun e he => List.mem_append_left _ he
  obtain ⟨hmem, hal⟩ := CastlePath.heading_mem c w
  rw [Board.pathClear_iff h.faithful, List.any_eq_true]
  constructor
  · rintro ⟨e, he, hsees⟩
    exact ((Geometry.sees_iff_between (horthogonal e he)).1 hsees).2
  · intro hclear
    refine ⟨_, hmem, (Geometry.sees_iff_between (horthogonal _ hmem)).2 ⟨⟨hal, ?_, rfl⟩, hclear⟩⟩
    exact (CastlePath.distinct c w).2.1

theorem mayCastle_eq (h : g.Consistent) :
    g.position.mayCastle w = g.canCastle g.active w := by
  have hsees := sees_home_iff (c := g.active) (w := w) h.toCoherent
  rw [← Bool.eq_iff_iff] at hsees
  unfold Position.mayCastle canCastle
  simp only [position, free_piece, isAttacked_piece h, hsees, CastlePath.squaresBetween_eq,
    List.any_cons, List.any_nil, Bool.or_false, Bool.not_or, Bool.and_assoc]
  congr 3
  exact Bool.and_comm _ _

theorem unmovedAt_executeCastle {kind : PieceKind} (h : g.Consistent)
    (hw : g.canCastle c w = true) :
    (g.executeCastle (CastlePath.of c w)).unmovedAt d kind u = true ↔
      g.unmovedAt d kind u = true ∧ u ≠ (CastlePath.of c w).kingFrom ∧
        u ≠ (CastlePath.of c w).rookFrom := by
  obtain ⟨k, r, hh⟩ := atHome_of_canCastle hw
  have hmoved := hasMoved_executeCastle h hw hh
  have hempty := CastlePath.destinations_between c w
  rw [unmovedAt_iff, unmovedAt_iff]
  simp only [occupant_executeCastle h hw hh]
  by_cases hto : u = (CastlePath.of c w).kingTo
  · subst hto
    rw [if_pos rfl, path_empty_of_canCastle h.toCoherent hw hempty.1]
    simp [hmoved]
  · rw [if_neg hto]
    by_cases hrook : u = (CastlePath.of c w).rookTo
    · subst hrook
      rw [if_pos rfl, path_empty_of_canCastle h.toCoherent hw hempty.2]
      simp [hmoved]
    · rw [if_neg hrook]
      by_cases hhome : u = (CastlePath.of c w).kingFrom ∨ u = (CastlePath.of c w).rookFrom
      · rw [if_pos hhome]
        simp only [reduceCtorEq, false_and, exists_false, false_iff]
        exact fun hand => hhome.elim hand.2.1 hand.2.2
      · rw [if_neg hhome, not_or] at *
        rw [and_iff_left hhome]
        refine exists_congr fun y => and_congr_right fun hy => ?_
        rw [hasMoved_beside_castle h hw hh hy hhome.1 hhome.2]

theorem right_executeCastle (h : g.Consistent) (hw : g.canCastle c w = true) :
    (g.executeCastle (CastlePath.of c w)).hasRight d v = true ↔
      g.hasRight d v = true ∧ ¬(CastlePath.of d v).IsHome (CastlePath.of c w).kingFrom := by
  unfold hasRight CastlePath.IsHome
  rw [Bool.and_eq_true, Bool.and_eq_true, unmovedAt_executeCastle h hw,
    unmovedAt_executeCastle h hw, not_or]
  constructor
  · rintro ⟨⟨hking, hkk, _⟩, hrook, hrk, _⟩
    exact ⟨⟨hking, hrook⟩, Ne.symm hkk, Ne.symm hrk⟩
  · rintro ⟨⟨hking, hrook⟩, hkk, _⟩
    obtain ⟨hkr, hrk, hrr⟩ := CastlePath.homes_ne c d w v hkk
    exact ⟨⟨hking, Ne.symm hkk, hkr⟩, hrook, hrk, hrr⟩

theorem hasRight_executeCastle (h : g.Consistent) (hw : g.canCastle c w = true) :
    (g.executeCastle (CastlePath.of c w)).hasRight d v =
      g.position.rightsAfter (CastlePath.of c w).kingFrom (CastlePath.of c w).kingTo d v := by
  have hto := not_or.1 (CastlePath.not_isHome_kingTo c d w v)
  rw [Bool.eq_iff_iff, right_executeCastle h hw]
  unfold Position.rightsAfter CastlePath.IsHome
  simp only [rights_position, Bool.and_eq_true, bne_iff_ne, ne_eq, not_or, and_assoc, hto.2,
    not_false_eq_true, and_true]

/-! ### Steps -/

theorem unmovedAt_execute {kind : PieceKind} (hs : g.Admits s) (h : g.Coherent) :
    (g.execute s).2.unmovedAt d kind u = true ↔
      g.unmovedAt d kind u = true ∧ u ≠ s.src ∧ u ≠ s.dst ∧ u ≠ s.victimSquare := by
  rw [unmovedAt_iff, unmovedAt_iff]
  simp only [occupant_execute hs h]
  by_cases hdst : u = s.dst
  · simp [hdst, hasMoved_execute hs h]
  · rw [if_neg hdst]
    by_cases hgone : u = s.src ∨ u = s.victimSquare
    · rw [if_pos hgone]
      simp only [reduceCtorEq, false_and, exists_false, false_iff]
      exact fun hand => hgone.elim hand.2.1 hand.2.2.2
    · rw [if_neg hgone]
      rw [not_or] at hgone
      rw [and_iff_left ⟨hgone.1, hdst, hgone.2⟩]
      refine exists_congr fun y => and_congr_right fun hy => ?_
      rw [hasMoved_of_stays hs h hy hgone.1]

/-- Whoever is taken elsewhere than on the destination is a pawn, so no right depends on it. -/
theorem unmovedAt_execute_officer {kind : PieceKind} (hkind : kind ≠ .pawn) (hs : g.Admits s)
    (h : g.Coherent) :
    (g.execute s).2.unmovedAt d kind u = true ↔
      g.unmovedAt d kind u = true ∧ u ≠ s.src ∧ u ≠ s.dst := by
  rw [unmovedAt_execute hs h]
  refine and_congr_right fun hu => and_congr_right fun _ => and_iff_left_of_imp fun hdst => ?_
  rcases hs.victimSquare_cases h with hsame | ⟨_, y, hy, hpawn⟩
  · rwa [hsame]
  · rintro rfl
    obtain ⟨m, hm, hm', _⟩ := unmovedAt_iff.1 hu
    rw [hm, Option.some.injEq] at hy
    exact hkind (by rw [← hm', hy, hpawn])

theorem right_execute (hs : g.Admits s) (h : g.Coherent) :
    (g.execute s).2.hasRight d v = true ↔ g.hasRight d v = true ∧
      ¬(CastlePath.of d v).IsHome s.src ∧ ¬(CastlePath.of d v).IsHome s.dst := by
  have hking : PieceKind.king ≠ .pawn := nofun
  have hrook : PieceKind.rook ≠ .pawn := nofun
  unfold hasRight CastlePath.IsHome
  rw [Bool.and_eq_true, Bool.and_eq_true, unmovedAt_execute_officer hking hs h,
    unmovedAt_execute_officer hrook hs h, not_or, not_or]
  constructor
  · rintro ⟨⟨hking, hksrc, hkdst⟩, hrook, hrsrc, hrdst⟩
    exact ⟨⟨hking, hrook⟩, ⟨Ne.symm hksrc, Ne.symm hrsrc⟩, Ne.symm hkdst, Ne.symm hrdst⟩
  · rintro ⟨⟨hking, hrook⟩, ⟨hksrc, hrsrc⟩, hkdst, hrdst⟩
    exact ⟨⟨hking, Ne.symm hksrc, Ne.symm hkdst⟩, hrook, Ne.symm hrsrc, Ne.symm hrdst⟩

/-- In an orderly game no king is taken, so a right is lost by a step from either home square or by
one that takes the rook. -/
theorem hasRight_execute (hs : g.Admits s) (h : g.Orderly) :
    (g.execute s).2.hasRight d v = g.position.rightsAfter s.src s.dst d v := by
  rw [Bool.eq_iff_iff, right_execute hs h.toCoherent]
  unfold Position.rightsAfter CastlePath.IsHome
  simp only [rights_position, Bool.and_eq_true, bne_iff_ne, ne_eq, not_or, and_assoc]
  refine and_congr_right fun hright => and_congr_right fun _ => and_congr_right fun _ =>
    and_iff_right_of_imp fun _ hdst => ?_
  obtain ⟨k, r, hh, _⟩ := hasRight_iff.1 hright
  have hvictim := hs.victim_not_king h.toConsistent (h.one_king _) h.waiting_safe
  rcases hs.victimSquare_cases h.toCoherent with hsame | ⟨hempty, _⟩
  · rw [hsame, hdst] at hvictim
    exact hvictim k hh.king hh.king_kind
  · rw [hdst, hh.king] at hempty
    cases hempty

end Game

end ChessArbiter
