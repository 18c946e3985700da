import ChessArbiter.Proofs.Records

/-!
# Castling rights

Rights are not kept anywhere: they are read off the men at home and their marks. Still every turn
takes away exactly the rights one of whose home squares it starts from or ends on, and restores
none (`Plays.right_iff`): a man who leaves home is marked, whoever takes his place is marked as
well, and a man taken elsewhere than on the destination is a pawn. So over a run a right is left if
it was there at the start and no answer touched its home squares (`Session.rights_exact`).
-/

namespace ChessArbiter

/-- The move neither starts from nor ends on a home square of a castle. -/
def Move.Spares (m : Move) (c : Colour) (w : Wing) : Prop :=
  ¬(CastlePath.of c w).IsHome m.src ∧ ¬(CastlePath.of c w).IsHome m.dst

instance (m : Move) (c : Colour) (w : Wing) : Decidable (m.Spares c w) :=
  inferInstanceAs (Decidable (_ ∧ _))

namespace Game

variable {g g' : Game} {r : MoveRecord} {c d : Colour} {w v : Wing}

/-- The letter of a right stands in the castling field. -/
def HoldsRight (g : Game) (c : Colour) (w : Wing) : Prop := w.symbol c ∈ g.castlingRights.toList

theorem symbol_inj (h : w.symbol c = v.symbol d) : c = d ∧ w = v := by
  revert h
  cases c <;> cases d <;> cases w <;> cases v <;> decide

theorem symbol_mem_rightsText {rights : List (Colour × Wing)} :
    w.symbol c ∈ Setup.rightsText rights ↔ (c, w) ∈ rights := by
  cases rights with
  | nil => cases c <;> cases w <;> decide
  | cons e rights =>
    change w.symbol c ∈ (e :: rights).map (fun e => e.2.symbol e.1) ↔ _
    rw [List.mem_map]
    constructor
    · rintro ⟨⟨d, v⟩, hmem, heq⟩
      obtain ⟨rfl, rfl⟩ := symbol_inj heq
      exact hmem
    · exact fun hmem => ⟨(c, w), hmem, rfl⟩

theorem holdsRight_iff : g.HoldsRight c w ↔ g.hasRight c w = true := by
  rw [HoldsRight, toList_castlingRights, symbol_mem_rightsText, List.mem_filter]
  exact and_iff_right (mem_castles (c, w))

theorem hasRight_logged (g : Game) (r : MoveRecord) (resetClock : Bool) :
    (g.logged r resetClock).hasRight = g.hasRight := rfl

/-- A turn takes away the rights whose home squares it touches, and restores none. -/
theorem Plays.right_iff (t : g.Plays r g') (h : g.Consistent) :
    g'.HoldsRight c w ↔ g.HoldsRight c w ∧ r.move.Spares c w := by
  rw [holdsRight_iff, holdsRight_iff]
  unfold Move.Spares
  rcases t.cases with ⟨s, hs, rfl, rfl⟩ | ⟨w', hw, rfl, rfl⟩
  · rw [afterStep, hasRight_logged, right_execute hs h.toCoherent]
    unfold entry Step.record
    rw [Move.src_ofParts, Move.dst_ofParts]
  · rw [afterCastle, hasRight_logged, right_executeCastle h hw]
    unfold entry castleRecord
    rw [Move.src_ofParts, Move.dst_ofParts, and_iff_left (CastlePath.not_isHome_kingTo _ c _ w)]

end Game

namespace Arbiter

variable {a b : Arbiter} {r : MoveRecord} {q : Request} {c : Colour} {w : Wing}

theorem right_answer (h : a.Consistent) (hq : a.answer q = (.ok r, b)) :
    b.HoldsRight c w ↔ a.HoldsRight c w ∧ r.move.Spares c w := by
  obtain ⟨g', title, hplays, hb⟩ := answer_plays hq
  rw [hb]
  exact hplays.right_iff h

theorem right_run (h : a.Consistent) (qs : List Request) :
    (a.run qs).HoldsRight c w ↔
      a.HoldsRight c w ∧ ∀ r, .ok r ∈ a.answers qs → r.move.Spares c w := by
  induction qs generalizing a with
  | nil => exact (and_iff_left nofun).symm
  | cons q qs ih =>
    have hnext := ih (consistent_answer h q)
    rw [run_cons]
    rcases hq : a.answer q with ⟨e | r, b⟩
    · rw [hq, (answer_error hq).1] at hnext
      simp only [answers, hq, List.mem_cons, reduceCtorEq, false_or]
      exact hnext
    · rw [hq, right_answer h hq, and_assoc] at hnext
      simp only [answers, hq, List.mem_cons, Except.ok.injEq, forall_eq_or_imp]
      exact hnext

end Arbiter

namespace Session

/-- Whatever has been set up, a granted request keeps just the rights that its two squares spare,
and a run of requests those that all its granted ones spare. -/
theorem rights_exact (x : Session) (hx : x.Reached) (c : Colour) (w : Wing) :
    (∀ q r b, x.arbiter.answer q = (.ok r, b) →
      (b.HoldsRight c w ↔ x.arbiter.HoldsRight c w ∧ r.move.Spares c w)) ∧
    ∀ qs, (x.arbiter.run qs).HoldsRight c w ↔
      x.arbiter.HoldsRight c w ∧ ∀ r, .ok r ∈ x.arbiter.answers qs → r.move.Spares c w :=
  ⟨fun _ _ _ hq => Arbiter.right_answer hx.sound.game hq,
    fun qs => Arbiter.right_run hx.sound.game qs⟩

def outAndBack : List Request :=
  [.move ⟨7, 0⟩ ⟨7, 3⟩ none, .move ⟨3, 4⟩ ⟨3, 3⟩ none, .move ⟨7, 3⟩ ⟨7, 0⟩ none]

theorem arranged_rights_exact :
    arranged.arbiter.HoldsRight .white .king ∧
      (arranged.arbiter.run outAndBack).board.piece ⟨7, 0⟩ = some ⟨.rook, .white⟩ ∧
      ¬(arranged.arbiter.run outAndBack).HoldsRight .white .king := by
  have hright : arranged.arbiter.HoldsRight .white .king := by
    rw [Game.holdsRight_iff]
    decide +kernel
  have hback : (arranged.arbiter.run outAndBack).board.piece ⟨7, 0⟩ = some ⟨.rook, .white⟩ := by
    decide +kernel
  have hleft : ∃ r, .ok r ∈ arranged.arbiter.answers outAndBack ∧ ¬r.move.Spares .white .king := by
    have hfirst : (arranged.arbiter.answer (.move ⟨7, 0⟩ ⟨7, 3⟩ none)).1.toOption.any
        (fun r => decide ¬r.move.Spares .white .king) = true := by
      decide +kernel
    rcases hq : arranged.arbiter.answer (.move ⟨7, 0⟩ ⟨7, 3⟩ none) with ⟨e | r, b⟩
    · rw [hq] at hfirst
      cases hfirst
    · rw [hq] at hfirst
      refine ⟨r, ?_, of_decide_eq_true hfirst⟩
      unfold outAndBack Arbiter.answers
      rw [hq]
      exact List.mem_cons_self
  refine ⟨hright, hback, ?_⟩
  rw [(rights_exact arranged ⟨_, _, rfl⟩ .white .king).2 outAndBack]
  obtain ⟨r, hr, hspares⟩ := hleft
  exact fun h => hspares (h.2 r hr)

end Session

end ChessArbiter
