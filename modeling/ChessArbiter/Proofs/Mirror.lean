import ChessArbiter.Proofs.Occupancy

/-!
# The board upside down

Turning the board upside down takes each rank to the one as far from the other side, and each man
to one of the other colour. The geometry of the board and the shapes of the pieces' steps are the
same upside down, pawns included, since a pawn of the other colour goes the other way. Every way of
changing a board or a table commutes with turning it (`Board.mirror_put`, `Table.mirror_relocate`).
-/

namespace ChessArbiter

/-! ### Squares -/

theorem neg_beq_neg (x y : ℤ) : (-x == -y) = (x == y) := by
  rw [Bool.eq_iff_iff, beq_iff_eq, beq_iff_eq, neg_inj]

def Offset.mirror (d : Offset) : Offset := ⟨d.files, -d.ranks⟩

namespace Square

def mirror (s : Square) : Square := ⟨s.file, s.rank.rev⟩

variable {s t u : Square}

@[simp] theorem file_mirror (s : Square) : s.mirror.file = s.file := rfl

theorem rank_mirror (s : Square) : (s.mirror.rank.val : ℤ) = 7 - s.rank.val := by
  have hs := s.rank.isLt
  rw [mirror, Fin.val_rev]
  omega

@[simp] theorem mirror_mirror (s : Square) : s.mirror.mirror = s := by
  rw [mirror, mirror, Fin.rev_rev]

theorem mirror_inj : s.mirror = t.mirror ↔ s = t :=
  ⟨fun h => by rw [← mirror_mirror s, h, mirror_mirror], congrArg _⟩

theorem mirror_beq (s t : Square) : (s.mirror == t.mirror) = (s == t) := by
  rw [Bool.eq_iff_iff, beq_iff_eq, beq_iff_eq, mirror_inj]

theorem mirror_bne (s t : Square) : (s.mirror != t.mirror) = (s != t) :=
  congrArg (!·) (mirror_beq s t)

theorem mirror_eq_iff : s.mirror = t ↔ s = t.mirror := by
  rw [← mirror_inj, mirror_mirror]

theorem sub_mirror (s t : Square) : t.mirror - s.mirror = (t - s).mirror := by
  have hranks : (t.mirror - s.mirror).ranks = -(t - s).ranks := by
    rw [ranks_sub, ranks_sub, rank_mirror, rank_mirror]
    omega
  exact congrArg (Offset.mk (t - s).files) hranks

theorem stepsTo_mirror {d : Offset} {k : ℕ} :
    s.mirror.StepsTo d.mirror k t.mirror ↔ s.StepsTo d k t := by
  unfold StepsTo Offset.mirror
  rw [rank_mirror, rank_mirror, file_mirror, file_mirror, Int.mul_neg]
  exact and_congr_right fun _ => by omega

theorem tryOffset_mirror (s : Square) (d : Offset) :
    s.mirror.tryOffset d.mirror = (s.tryOffset d).map mirror := by
  refine Option.ext fun t => ?_
  rw [Option.map_eq_some_iff, ← stepsTo_one]
  constructor
  · intro h
    refine ⟨t.mirror, ?_, mirror_mirror t⟩
    rwa [← stepsTo_one, ← stepsTo_mirror, mirror_mirror]
  · rintro ⟨u, hu, rfl⟩
    rwa [stepsTo_mirror, stepsTo_one]

theorem heading_mirror (s t : Square) : heading s.mirror t.mirror = (heading s t).mirror := by
  unfold heading
  rw [sub_mirror]
  exact congrArg (Offset.mk _) (Int.sign_neg _)

theorem distance_mirror (s t : Square) : distance s.mirror t.mirror = distance s t := by
  unfold distance
  rw [sub_mirror]
  exact congrArg (max _) (Int.natAbs_neg _)

theorem aligned_mirror (s t : Square) :
    Geometry.aligned s.mirror t.mirror = Geometry.aligned s t := by
  unfold Geometry.aligned
  rw [sub_mirror]
  simp only [Offset.mirror, Int.natAbs_neg]
  rw [Bool.eq_iff_iff]
  simp only [Bool.or_eq_true, beq_iff_eq, neg_eq_zero]

end Square

/-! ### Bitboards -/

namespace Bitboard

variable {b c : Bitboard}

def mirror (b : Bitboard) : Bitboard := ofPred fun s => has b s.mirror

theorem has_ofPred (p : Square → Bool) (s : Square) : has (ofPred p) s = p s := by
  unfold ofPred
  rw [← List.foldl_filter, Geometry.has_foldl_insert, has_zero, Bool.false_or, Bool.eq_iff_iff,
    decide_eq_true_eq, List.mem_filter]
  exact and_iff_right (Square.mem_all s)

@[simp] theorem has_mirror (b : Bitboard) (s : Square) : has (mirror b) s = has b s.mirror :=
  has_ofPred _ s

theorem mirror_zero : mirror 0#64 = 0#64 := by
  refine ext_has fun s => ?_
  rw [has_mirror, has_zero, has_zero]

theorem mirror_insert (b : Bitboard) (s : Square) :
    mirror (insert b s) = insert (mirror b) s.mirror := by
  refine ext_has fun t => ?_
  rw [has_mirror, has_insert, has_insert, has_mirror]
  simp only [Square.mirror_eq_iff]

theorem mirror_erase (b : Bitboard) (s : Square) :
    mirror (erase b s) = erase (mirror b) s.mirror := by
  refine ext_has fun t => ?_
  rw [has_mirror, has_erase, has_erase, has_mirror]
  simp only [Square.mirror_eq_iff]

theorem mirror_and (b c : Bitboard) : mirror (b &&& c) = mirror b &&& mirror c := by
  refine ext_has fun t => ?_
  simp only [has_mirror, has_and]

theorem mirror_mirror (b : Bitboard) : mirror (mirror b) = b := by
  refine ext_has fun t => ?_
  rw [has_mirror, has_mirror, Square.mirror_mirror]

theorem mirror_eq_zero_iff : mirror b = 0#64 ↔ b = 0#64 := by
  constructor
  · intro h
    rw [← mirror_mirror b, h, mirror_zero]
  · rintro rfl
    exact mirror_zero

end Bitboard

/-! ### Geometry -/

namespace Geometry

open Square Bitboard

theorem has_knightStrikes_mirror (s t : Square) :
    has (knightStrikes s.mirror) t.mirror = has (knightStrikes s) t := by
  rw [Bool.eq_iff_iff, has_knightStrikes, has_knightStrikes, sub_mirror]
  simp only [Offset.mirror, Int.natAbs_neg]

theorem has_kingStrikes_mirror (s t : Square) :
    has (kingStrikes s.mirror) t.mirror = has (kingStrikes s) t := by
  rw [Bool.eq_iff_iff, has_kingStrikes, has_kingStrikes, sub_mirror, ne_eq, mirror_inj]
  simp only [Offset.mirror, Int.natAbs_neg]

theorem forward_opposite (c : Colour) : c.opposite.forward = -c.forward := by
  cases c <;> rfl

theorem has_pawnStrikes_mirror (c : Colour) (s t : Square) :
    has (pawnStrikes c.opposite s.mirror) t.mirror = has (pawnStrikes c s) t := by
  rw [Bool.eq_iff_iff, has_pawnStrikes, has_pawnStrikes, sub_mirror, forward_opposite]
  simp only [Offset.mirror, neg_inj]

theorem between_mirror (s t : Square) : between s.mirror t.mirror = mirror (between s t) := by
  refine ext_has fun u => ?_
  rw [has_mirror, Bool.eq_iff_iff, has_between, has_between, aligned_mirror, heading_mirror,
    distance_mirror]
  refine and_congr_right fun _ => exists_congr fun k => and_congr_right fun _ => ?_
  rw [← stepsTo_mirror (t := u.mirror), Square.mirror_mirror]

end Geometry

/-! ### Men -/

namespace Colour

variable {c d : Colour}

theorem opposite_inj : c.opposite = d.opposite ↔ c = d :=
  ⟨fun h => by rw [← opposite_opposite c, h, opposite_opposite], congrArg _⟩

theorem opposite_beq (c d : Colour) : (c.opposite == d.opposite) = (c == d) := by
  cases c <;> cases d <;> rfl

theorem opposite_bne (c d : Colour) : (c.opposite != d.opposite) = (c != d) :=
  congrArg (!·) (opposite_beq c d)

theorem pawnRank_opposite (c : Colour) : c.opposite.pawnRank = c.pawnRank.rev := by
  cases c <;> rfl

theorem lastRank_opposite (c : Colour) : c.opposite.lastRank = c.lastRank.rev := by
  cases c <;> rfl

end Colour

def Piece.mirror (p : Piece) : Piece := ⟨p.kind, p.colour.opposite⟩

/-- The man in the same place of the other side. -/
def Man.mirror (m : Man) : Man := ⟨m.toPiece.mirror, m.id⟩

namespace Piece

variable (p : Piece) (s t : Square)

theorem mayStepTwice_mirror (moved : Bool) :
    p.mirror.mayStepTwice moved s.mirror = p.mayStepTwice moved s := by
  unfold mayStepTwice
  refine congrArg (!moved && ·) ?_
  change (s.rank.rev == p.colour.opposite.pawnRank) = _
  rw [Colour.pawnRank_opposite, Bool.eq_iff_iff, beq_iff_eq, beq_iff_eq, Fin.rev_inj]

theorem reaches_mirror (moved : Bool) :
    p.mirror.reaches moved s.mirror t.mirror = p.reaches moved s t := by
  have hzero : ∀ x : ℤ, (-x == 0) = (x == 0) := fun x => by
    rw [Bool.eq_iff_iff, beq_iff_eq, beq_iff_eq, neg_eq_zero]
  have hforward : p.mirror.colour.forward = -p.colour.forward :=
    Geometry.forward_opposite p.colour
  have hkind : p.mirror.kind = p.kind := rfl
  unfold reaches
  rw [Square.sub_mirror, hkind, hforward, mayStepTwice_mirror, Geometry.has_knightStrikes_mirror,
    Geometry.has_kingStrikes_mirror]
  simp only [Offset.mirror, Int.mul_neg, Int.natAbs_neg, hzero, neg_beq_neg]

end Piece

namespace Man

variable {m v : Man}

@[simp] theorem kind_mirror (m : Man) : m.mirror.kind = m.kind := rfl

@[simp] theorem colour_mirror (m : Man) : m.mirror.colour = m.colour.opposite := rfl

@[simp] theorem id_mirror (m : Man) : m.mirror.id = m.id := rfl

theorem mirror_inj : m.mirror = v.mirror ↔ m = v := by
  refine ⟨fun h => ?_, congrArg _⟩
  obtain ⟨⟨k, c⟩, i⟩ := m
  obtain ⟨⟨k', c'⟩, i'⟩ := v
  simp only [mirror, Piece.mirror, Man.mk.injEq, Piece.mk.injEq, Colour.opposite_inj] at h ⊢
  exact h

end Man

/-! ### Boards -/

namespace Sides

variable {α β : Type}

/-- Changes what each side has, and gives it to the other one. -/
def flip (f : α → β) (s : Sides α) : Sides β := ⟨f s.black, f s.white⟩

@[simp] theorem get_flip (s : Sides α) (c : Colour) : (s.flip f).get c = f (s.get c.opposite) := by
  cases c <;> rfl

theorem flip_modify (f : α → β) (g : α → α) (g' : β → β) (h : ∀ x, f (g x) = g' (f x))
    (s : Sides α) (c : Colour) :
    (s.modify c g).flip f = (s.flip f).modify c.opposite g' := by
  cases c with
  | white => exact congrArg (Sides.mk _) (h s.white)
  | black => exact congrArg (Sides.mk · _) (h s.black)

end Sides

namespace Board

variable (b : Board)

def mirror : Board where
  squares := Vector.ofFn fun i => (b.occupant (Square.ofIndex i).mirror).map Man.mirror
  sides := b.sides.flip Bitboard.mirror
  occupied := Bitboard.mirror b.occupied

@[simp] theorem occupant_mirror (s : Square) :
    b.mirror.occupant s = (b.occupant s.mirror).map Man.mirror := by
  simp only [occupant, mirror, Fin.getElem_fin, Vector.getElem_ofFn, Fin.eta, Square.ofIndex_index]

theorem occupant_mirror_mirror (s : Square) :
    b.mirror.occupant s.mirror = (b.occupant s).map Man.mirror := by
  rw [occupant_mirror, Square.mirror_mirror]

theorem isEmpty_mirror (s : Square) : b.mirror.isEmpty s.mirror = b.isEmpty s := by
  rw [isEmpty, occupant_mirror_mirror, Option.isNone_map]
  rfl

theorem mirror_vacate (s : Square) : (b.vacate s).mirror = b.mirror.vacate s.mirror := by
  unfold vacate
  rw [occupant_mirror_mirror]
  cases b.occupant s with
  | none => rfl
  | some old =>
    refine ext_views (fun u => ?_) ?_ ?_
    · rw [occupant_mirror]
      exact (occupant_mirror b u).symm
    · exact Sides.flip_modify Bitboard.mirror (Bitboard.erase · s) (Bitboard.erase · s.mirror)
        (fun x => Bitboard.mirror_erase x s) b.sides old.colour
    · exact Bitboard.mirror_erase b.occupied s

theorem sides_put (s : Square) (new : Option Man) :
    (b.put s new).sides = new.elim (b.vacate s).sides fun m =>
      (b.vacate s).sides.modify m.colour (Bitboard.insert · s) := by
  cases new <;> rfl

theorem occupied_put (s : Square) (new : Option Man) :
    (b.put s new).occupied = new.elim (b.vacate s).occupied fun _ =>
      Bitboard.insert (b.vacate s).occupied s := by
  cases new <;> rfl

theorem mirror_put (s : Square) (new : Option Man) :
    (b.put s new).mirror = b.mirror.put s.mirror (new.map Man.mirror) := by
  have hsides : (b.mirror.vacate s.mirror).sides = (b.vacate s).sides.flip Bitboard.mirror := by
    rw [← mirror_vacate]
    rfl
  have hoccupied : (b.mirror.vacate s.mirror).occupied = Bitboard.mirror (b.vacate s).occupied := by
    rw [← mirror_vacate]
    rfl
  refine ext_views (fun u => ?_) ?_ ?_
  · rw [occupant_mirror, occupant_put, occupant_put, occupant_mirror]
    simp only [Square.mirror_eq_iff]
    split_ifs <;> rfl
  · rw [sides_put, hsides]
    change (b.put s new).sides.flip Bitboard.mirror = _
    rw [sides_put]
    cases new with
    | none => rfl
    | some m =>
      exact Sides.flip_modify Bitboard.mirror (Bitboard.insert · s) (Bitboard.insert · s.mirror)
        (fun x => Bitboard.mirror_insert x s) _ _
  · rw [occupied_put, hoccupied]
    change Bitboard.mirror (b.put s new).occupied = _
    rw [occupied_put]
    cases new with
    | none => rfl
    | some m => exact Bitboard.mirror_insert _ s

theorem pathClear_mirror (s t : Square) :
    b.mirror.pathClear s.mirror t.mirror = b.pathClear s t := by
  unfold pathClear
  rw [Geometry.between_mirror, Bool.eq_iff_iff, beq_iff_eq, beq_iff_eq]
  change Bitboard.mirror _ &&& Bitboard.mirror _ = 0#64 ↔ _
  rw [← Bitboard.mirror_and, Bitboard.mirror_eq_zero_iff]

end Board

/-! ### Tables -/

def Status.mirror (st : Status) : Status := ⟨st.square.map Square.mirror, st.moved⟩

namespace Table

variable (t : Table) (m : Man) (s src dst : Square)

def mirror : Table := ⟨t.board.mirror, t.roster.map Status.mirror⟩

theorem getElem?_roster_mirror (i : Nat) :
    t.mirror.roster[i]? = t.roster[i]?.map Status.mirror := Array.getElem?_map

theorem square?_mirror : t.mirror.square? m.mirror = (t.square? m).map Square.mirror := by
  unfold square?
  rw [getElem?_roster_mirror, Man.id_mirror]
  cases t.roster[m.id]? <;> rfl

theorem hasMoved_mirror : t.mirror.hasMoved m.mirror = t.hasMoved m := by
  unfold hasMoved
  rw [getElem?_roster_mirror, Man.id_mirror]
  cases t.roster[m.id]? <;> rfl

theorem map_modify {α β : Type} (f : α → β) (g : α → α) (g' : β → β)
    (h : ∀ x, f (g x) = g' (f x)) (xs : Array α) (i : Nat) :
    (xs.modify i g).map f = (xs.map f).modify i g' := by
  refine Array.ext_getElem? fun j => ?_
  rw [Array.getElem?_map, Array.getElem?_modify, Array.getElem?_modify, Array.getElem?_map]
  split_ifs
  · cases xs[j]? with
    | none => rfl
    | some x => exact congrArg some (h x)
  · rfl

theorem mirror_setSquare (x : Option Square) :
    (t.setSquare m x).mirror = t.mirror.setSquare m.mirror (x.map Square.mirror) :=
  congrArg (Table.mk _) (map_modify Status.mirror (fun st => { st with square := x })
    (fun st => { st with square := x.map Square.mirror }) (fun _ => rfl) t.roster m.id)

theorem mirror_setMoved (x : Bool) : (t.setMoved m x).mirror = t.mirror.setMoved m.mirror x :=
  congrArg (Table.mk _) (map_modify Status.mirror (fun st => { st with moved := x })
    (fun st => { st with moved := x }) (fun _ => rfl) t.roster m.id)

theorem mirror_place : (t.place m s).mirror = t.mirror.place m.mirror s.mirror := by
  unfold place
  rw [mirror_setSquare]
  refine congrArg (fun b => setSquare ⟨b, _⟩ m.mirror (some s.mirror)) ?_
  exact t.board.mirror_put s (some m)

theorem mirror_lift : t.mirror.lift s.mirror =
    ((t.lift s).1.map Man.mirror, (t.lift s).2.mirror) := by
  have hs : t.mirror.board.occupant s.mirror = (t.board.occupant s).map Man.mirror :=
    t.board.occupant_mirror_mirror s
  unfold lift
  rw [hs]
  cases t.board.occupant s with
  | none => rfl
  | some m =>
    refine Prod.ext rfl ?_
    change setSquare ⟨t.board.mirror.put s.mirror none, _⟩ m.mirror none = _
    rw [mirror_setSquare]
    exact congrArg (fun b => setSquare ⟨b, _⟩ m.mirror none) (t.board.mirror_put s none).symm

theorem mirror_relocate : t.mirror.relocate src.mirror dst.mirror =
    ((t.relocate src dst).1.map Man.mirror, (t.relocate src dst).2.mirror) := by
  have hs : ∀ s : Square,
      t.mirror.board.occupant s.mirror = (t.board.occupant s).map Man.mirror :=
    t.board.occupant_mirror_mirror
  unfold relocate
  rw [hs, hs]
  cases t.board.occupant src with
  | none => rfl
  | some m =>
    simp only [Option.map_some, Square.mirror_inj]
    split_ifs
    · rfl
    · have hput : ((t.board.put src none).put dst (some m)).mirror =
          (t.board.mirror.put src.mirror none).put dst.mirror (some m.mirror) := by
        rw [Board.mirror_put, Board.mirror_put]
        rfl
      refine Prod.ext rfl ?_
      rw [mirror_setSquare]
      cases t.board.occupant dst with
      | none => exact congrArg (fun b => setSquare ⟨b, _⟩ m.mirror _) hput.symm
      | some v =>
        have hroster : (t.mirror.setSquare v.mirror none).roster =
            (t.setSquare v none).mirror.roster :=
          congrArg Table.roster (t.mirror_setSquare v none).symm
        change setSquare ⟨_, (t.mirror.setSquare v.mirror none).roster⟩ m.mirror _ =
          setSquare ⟨_, (t.setSquare v none).mirror.roster⟩ m.mirror _
        rw [hroster]
        exact congrArg (fun b => setSquare ⟨b, _⟩ m.mirror _) hput.symm

theorem mirror_make (p : Piece) :
    t.mirror.make p.mirror s.mirror = ((t.make p s).1.mirror, (t.make p s).2.mirror) := by
  have hsize : t.mirror.roster.size = t.roster.size := Array.size_map
  refine Prod.ext (congrArg (Man.mk p.mirror) hsize) ?_
  have hroster : (t.roster.map Status.mirror).push (Status.mirror ⟨some s, false⟩) =
      (t.roster.push ⟨some s, false⟩).map Status.mirror := Array.map_push.symm
  exact congrArg (Table.mk _) hroster

theorem reaches_mirror : t.mirror.reaches m.mirror dst.mirror = t.reaches m dst := by
  unfold reaches
  rw [square?_mirror, Option.any_map, hasMoved_mirror]
  exact congrArg (Option.any · _) (funext fun src => m.reaches_mirror src dst (t.hasMoved m))

theorem attacks_mirror : t.mirror.attacks m.mirror dst.mirror = t.attacks m dst := by
  have hreaches : ∀ src : Square,
      m.mirror.reaches (t.mirror.hasMoved m.mirror) src.mirror dst.mirror =
        m.reaches (t.hasMoved m) src dst := by
    intro src
    rw [hasMoved_mirror]
    exact m.reaches_mirror src dst _
  have hclear : ∀ src : Square,
      t.mirror.board.pathClear src.mirror dst.mirror = t.board.pathClear src dst :=
    fun src => t.board.pathClear_mirror src dst
  unfold attacks
  rw [square?_mirror, Option.any_map]
  refine congrArg (Option.any · _) (funext fun src => ?_)
  simp only [Man.kind_mirror, Man.colour_mirror, hreaches, hclear,
    Geometry.has_pawnStrikes_mirror]

theorem holdsOpponent_mirror : t.mirror.holdsOpponent m.mirror s.mirror = t.holdsOpponent m s := by
  have hs : t.mirror.board.occupant s.mirror = (t.board.occupant s).map Man.mirror :=
    t.board.occupant_mirror_mirror s
  unfold holdsOpponent
  rw [hs, Option.any_map]
  exact congrArg (Option.any · _) (funext fun v => Colour.opposite_bne v.colour m.colour)

end Table

end ChessArbiter
