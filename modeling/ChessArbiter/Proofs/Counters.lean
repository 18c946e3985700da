import ChessArbiter.Proofs.Records

/-!
# Counters

The counters are words of 32 bits, and a position text may set them to anything that fits. Taking a
word of an integer respects sums and products, so the plies, the turn number and the clock are
always the words of the numbers they stand for (`Tallied`, kept by `Plays.tallied`), whatever the
text said. They are read back as those numbers while these have room, and as nothing sensible
afterwards: a text with a large turn number leaves no room for the plies it stands for, and one with
a large clock none for the next quiet move (`Arbiter.counters_exact`).
-/

namespace ChessArbiter

/-- A pawn's move or a capture, after which the half-move clock starts again. -/
def MoveRecord.resets (r : MoveRecord) : Bool := r.piece == .pawn || r.captured.isSome

theorem Step.resets_record (s : Step) (victim : Option Man) :
    (s.record victim).resets = (s.man.kind == .pawn || victim.isSome) := by
  cases victim <;> rfl

namespace Game

variable {g g' : Game} {r : MoveRecord} {start half : Int}

/-- The half-move clock after some moves, as a number without bounds. -/
def clock (half : Int) (rs : List MoveRecord) : Int :=
  rs.foldl (fun k r => if r.resets then 0 else k + 1) half

/-- The number of moves before this one, by the turn number and the side to move. -/
def pliesByTurn (g : Game) : Int :=
  2 * (g.turn.toInt - 1) + (if g.active = .black then 1 else 0)

theorem clock_append (half : Int) (rs : List MoveRecord) (r : MoveRecord) :
    clock half (rs ++ [r]) = if r.resets then 0 else clock half rs + 1 := by
  rw [clock, List.foldl_append]
  rfl

theorem clock_le (half : Int) (hhalf : 0 ≤ half) (rs : List MoveRecord) :
    0 ≤ clock half rs ∧ clock half rs ≤ half + rs.length := by
  induction rs using List.reverseRecOn with
  | nil => exact ⟨hhalf, Int.le_add_of_nonneg_right (Int.natCast_nonneg _)⟩
  | append_singleton rs r ih =>
    rw [clock_append, List.length_append, List.length_singleton]
    split_ifs <;> omega

/-! ### One turn -/

theorem Turn.turn_eq (t : g.Turn g') :
    g'.turn = if g.active = .black then g.turn + 1 else g.turn := by
  have hlogged : ∀ {g₁ : Game}, g.SameBooks g₁ → ∀ r resetClock,
      (g₁.logged r resetClock).turn = if g.active = .black then g.turn + 1 else g.turn := by
    intro g₁ hbooks r resetClock
    rw [← hbooks.active, ← hbooks.turn]
    rfl
  cases t with
  | step => exact hlogged (g.sameBooks_execute _) _ _
  | castle => exact hlogged (g.sameBooks_executeCastle _) _ _

theorem Plays.halfmove_eq (t : g.Plays r g') :
    g'.halfmove = if r.resets then 0 else g.halfmove + 1 := by
  rcases t.cases with ⟨s, -, rfl, rfl⟩ | ⟨w, -, rfl, rfl⟩
  · change _ = if (s.record (g.execute s).1).resets then _ else _
    rw [s.resets_record, ← (g.sameBooks_execute s).halfmove]
    rfl
  · change _ = g.halfmove + 1
    rw [← (g.sameBooks_executeCastle (CastlePath.of g.active w)).halfmove]
    rfl

/-- Each counter holds the word of its number, of those that began at `start` and `half`. -/
structure Tallied (start half : Int) (g : Game) : Prop where
  ply : g.ply = .ofInt (start + g.moves.length)
  turn : g.turn = .ofInt ((start + g.moves.length) / 2 + 1)
  active : g.active = .black ↔ (start + g.moves.length) % 2 = 1
  halfmove : g.halfmove = .ofInt (clock half g.moves)

theorem Plays.tallied (t : g.Plays r g') (h : Tallied start half g) : Tallied start half g' := by
  have hlength : ((g'.moves.length : Nat) : Int) = g.moves.length + 1 := by
    rw [t.2, List.length_append, List.length_singleton]
    rfl
  have hone : (1 : Int32) = .ofInt 1 := rfl
  refine ⟨?_, ?_, ?_, ?_⟩
  · rw [t.1.ply, h.ply, hone, ← Int32.ofInt_add, hlength, Int.add_assoc]
  · rw [t.1.turn_eq, h.turn, hone, ← Int32.ofInt_add, hlength]
    split_ifs with hblack
    · rw [h.active] at hblack
      exact congrArg _ (by omega)
    · rw [h.active] at hblack
      exact congrArg _ (by omega)
  · have hother : g'.active = .black ↔ ¬g.active = .black := by
      rw [t.1.active]
      cases g.active <;> decide
    rw [hother, h.active, hlength]
    omega
  · rw [t.halfmove_eq, h.halfmove, t.2, clock_append, hone, ← Int32.ofInt_add]
    split_ifs <;> rfl

theorem Turn.tallied (t : g.Turn g') (h : Tallied start half g) : Tallied start half g' := by
  obtain ⟨r, hmoves, _⟩ := t.log
  exact Plays.tallied ⟨t, hmoves⟩ h

theorem clock_untitled (half : Int) (rs : List MoveRecord) :
    clock half (rs.map MoveRecord.untitled) = clock half rs :=
  List.foldl_map

theorem Tallied.retitle (h : Tallied start half g) (title : String) :
    Tallied start half (g.retitle title) := by
  have hlength := length_moves_retitle g title
  have hclock : clock half (g.retitle title).moves = clock half g.moves := by
    rw [← clock_untitled, map_untitled_retitle, clock_untitled]
  refine ⟨?_, ?_, ?_, ?_⟩
  · rw [hlength, retitle_eq]
    exact h.ply
  · rw [hlength, retitle_eq]
    exact h.turn
  · rw [hlength, retitle_eq]
    exact h.active
  · rw [hclock, retitle_eq]
    exact h.halfmove

/-- The plies and the turn number lie in their range and tell the same tale. -/
structure InStep (g : Game) : Prop where
  ply : 0 ≤ g.ply.toInt
  turn : 0 ≤ g.turn.toInt
  agree : g.ply.toInt = g.pliesByTurn

theorem Tallied.read (h : Tallied start half g) (hstart : 0 ≤ start)
    (hroom : start + g.moves.length < 2 ^ 31) :
    g.ply.toInt = start + g.moves.length ∧
      g.turn.toInt = (start + g.moves.length) / 2 + 1 ∧ g.InStep := by
  have hply : g.ply.toInt = start + g.moves.length := by
    rw [h.ply]
    exact Int32.toInt_ofInt_of_le (by omega) hroom
  have hturn : g.turn.toInt = (start + g.moves.length) / 2 + 1 := by
    rw [h.turn]
    exact Int32.toInt_ofInt_of_le (by omega) (by omega)
  refine ⟨hply, hturn, ⟨by omega, by omega, ?_⟩⟩
  have hactive := h.active
  rw [hply, pliesByTurn, hturn]
  split_ifs with hblack
  · have hodd := hactive.1 hblack
    omega
  · have heven := mt hactive.2 hblack
    omega

theorem toInt_ofInt_neg {n : Int} (hlow : 2 ^ 31 ≤ n) (hhigh : n < 2 ^ 32) :
    (Int32.ofInt n).toInt < 0 := by
  rw [Int32.toInt_ofInt]
  change n.bmod 4294967296 < 0
  rw [Int.bmod_def]
  omega

/-- Of a number of plies without room either the plies or their turns are read back wrong. -/
theorem Tallied.not_inStep (h : Tallied start half g) (hlow : 2 ^ 31 ≤ start + g.moves.length)
    (hhigh : start + g.moves.length < 2 ^ 32 + 2 ^ 31) : ¬g.InStep := by
  intro hstep
  have hply := hstep.ply
  have hturn := hstep.turn
  rw [h.ply] at hply
  rw [h.turn] at hturn
  by_cases hword : start + g.moves.length < 2 ^ 32
  · have hneg := toInt_ofInt_neg hlow hword
    omega
  · have hneg := toInt_ofInt_neg (n := (start + g.moves.length) / 2 + 1) (by omega) (by omega)
    omega

end Game

namespace Arbiter

variable {a b : Arbiter} {text : String}

theorem tallied_of_loadFen (h : a.loadFen text = (.ok (), b)) :
    Game.Tallied b.pliesByTurn b.halfmove.toInt b.toGame := by
  have hnone := moves_of_loadFen h
  obtain ⟨s, _, hb⟩ := loadFen_ok h
  have hside : b.active = s.active := by rw [hb]; rfl
  have hturn : b.turn = s.turn := by rw [hb]; rfl
  have hply : b.ply = s.ply := by rw [hb]; rfl
  have hzero : ((b.moves.length : Nat) : Int) = 0 := by rw [hnone]; rfl
  unfold Game.pliesByTurn
  refine ⟨?_, ?_, ?_, ?_⟩
  · rw [hzero, hply, hside, hturn, Setup.ply, Int.add_zero, Int32.ofInt_add, Int32.ofInt_mul,
      Int32.ofInt_sub, Int32.ofInt_toInt, Int32.mul_comm]
    split_ifs <;> rfl
  · have hhalf : (2 * (b.turn.toInt - 1) + (if b.active = .black then 1 else 0) + 0) / 2 + 1 =
        b.turn.toInt := by
      split_ifs <;> omega
    rw [hzero, hhalf, Int32.ofInt_toInt]
  · rw [hzero]
    split_ifs with hblack
    · exact iff_of_true hblack (by omega)
    · exact iff_of_false hblack (by omega)
  · rw [hnone]
    exact (Int32.ofInt_toInt _).symm

theorem tallied_run (h : a.loadFen text = (.ok (), b)) (qs : List Request) :
    Game.Tallied b.pliesByTurn b.halfmove.toInt (b.run qs).toGame :=
  run_keeps Game.Turn.tallied (fun title ht => ht.retitle title) (tallied_of_loadFen h) qs

theorem pliesByTurn_of_loadFen (h : a.loadFen text = (.ok (), b)) :
    0 ≤ b.pliesByTurn ∧ b.pliesByTurn + 3 ≤ 2 ^ 32 := by
  have hturn := (counters_nonneg_of_loadFen h).2
  have hlt := b.turn.toInt_lt
  unfold Game.pliesByTurn
  split_ifs <;> omega

/-- After any moves from an accepted text every counter is exact as long as its number has room, and
for the first thousand moves only so long: the plies that the text's turn number stands for, with
the moves made, and the moves since the last capture or pawn's move, with the text's clock. -/
theorem counters_exact (a : Arbiter) (text : String) (b : Arbiter)
    (h : a.loadFen text = (.ok (), b)) (qs : List Request) :
    (b.pliesByTurn + (b.run qs).moves.length < 2 ^ 31 →
      (b.run qs).ply.toInt = b.pliesByTurn + (b.run qs).moves.length ∧
      (b.run qs).turn.toInt = (b.pliesByTurn + (b.run qs).moves.length) / 2 + 1 ∧
      (b.run qs).InStep) ∧
    (Game.clock b.halfmove.toInt (b.run qs).moves < 2 ^ 31 →
      (b.run qs).halfmove.toInt = Game.clock b.halfmove.toInt (b.run qs).moves) ∧
    ((b.run qs).moves.length ≤ 1000 →
      ((b.run qs).InStep ↔ b.pliesByTurn + (b.run qs).moves.length < 2 ^ 31) ∧
      (0 ≤ (b.run qs).halfmove.toInt ↔
        Game.clock b.halfmove.toInt (b.run qs).moves < 2 ^ 31)) := by
  have ht := tallied_run h qs
  have hhalf := (counters_nonneg_of_loadFen h).1
  obtain ⟨hfirst, hlast⟩ := pliesByTurn_of_loadFen h
  obtain ⟨hclock0, hclock1⟩ := Game.clock_le _ hhalf (b.run qs).moves
  have hhalfmove : Game.clock b.halfmove.toInt (b.run qs).moves < 2 ^ 31 →
      (b.run qs).halfmove.toInt = Game.clock b.halfmove.toInt (b.run qs).moves := by
    intro hroom
    rw [ht.halfmove]
    exact Int32.toInt_ofInt_of_le (by omega) hroom
  -- in a thousand moves a counter runs over once at most, so what it shows then is out of step
  refine ⟨ht.read hfirst, hhalfmove, fun hlength => ⟨⟨fun hstep => ?_, fun hroom => ?_⟩, ?_⟩⟩
  · by_contra hfull
    exact ht.not_inStep (by omega) (by omega) hstep
  · exact (ht.read hfirst hroom).2.2
  · constructor
    · intro hread
      by_contra hfull
      have hlt := b.halfmove.toInt_lt
      have hneg := Game.toInt_ofInt_neg (n := Game.clock b.halfmove.toInt (b.run qs).moves)
        (by omega) (by omega)
      rw [← ht.halfmove] at hneg
      omega
    · intro hroom
      rw [hhalfmove hroom]
      exact hclock0

def kingSteps : List Request :=
  [.move ⟨4, 7⟩ ⟨4, 6⟩ none, .move ⟨4, 0⟩ ⟨4, 1⟩ none, .move ⟨4, 6⟩ ⟨4, 7⟩ none]

def loaded (text : String) : Arbiter := ((opening {}).loadFen text).2

/-- Room for two more plies, but not for a third. -/
def crowded : String := "4k3/8/8/8/8/8/8/4K3 b - - 0 1073741823"

theorem crowded_counters_exact :
    (opening {}).loadFen crowded = (.ok (), loaded crowded) ∧
      ((loaded crowded).run (kingSteps.take 2)).ply.toInt = 2147483647 ∧
      ((loaded crowded).run (kingSteps.take 2)).InStep ∧
      ¬((loaded crowded).run kingSteps).InStep ∧
      ((loaded crowded).run kingSteps).halfmove.toInt = 3 := by
  have hload : (opening {}).loadFen crowded = (.ok (), loaded crowded) :=
    loadFen_of_isOk (by decide +kernel)
  have hfacts : (loaded crowded).pliesByTurn = 2147483645 ∧
      (loaded crowded).halfmove.toInt = 0 ∧
      ((loaded crowded).run (kingSteps.take 2)).moves.length = 2 ∧
      ((loaded crowded).run kingSteps).moves.length = 3 ∧
      Game.clock 0 ((loaded crowded).run kingSteps).moves = 3 := by
    decide +kernel
  obtain ⟨hfirst, hhalf, htwo, hthree, hclock⟩ := hfacts
  obtain ⟨hroom, -, -⟩ := counters_exact _ _ _ hload (kingSteps.take 2)
  obtain ⟨-, hquiet, hfull⟩ := counters_exact _ _ _ hload kingSteps
  rw [hfirst, htwo] at hroom
  rw [hfirst, hthree] at hfull
  rw [hhalf, hclock] at hquiet
  obtain ⟨hply, -, hstep⟩ := hroom (by decide)
  refine ⟨hload, hply, hstep, fun hthird => ?_, hquiet (by decide)⟩
  have hno := (hfull (by decide)).1.1 hthird
  exact absurd hno (by decide)

/-- The last turn number and the last value of the clock are accepted in a text, and leave no room
for the plies they stand for and for the next move. -/
theorem counters_run_over :
    (∃ b, (opening {}).loadFen "4k3/8/8/8/8/8/8/4K3 w - - 0 2147483647" = (.ok (), b) ∧
      b.ply.toInt = -4 ∧ ¬b.InStep) ∧
    ∃ b, (opening {}).loadFen "4k3/8/8/8/8/8/8/4K3 w - - 2147483647 1" = (.ok (), b) ∧
      (b.answer (.move ⟨4, 0⟩ ⟨4, 1⟩ none)).1.isOk = true ∧
      (b.run [.move ⟨4, 0⟩ ⟨4, 1⟩ none]).halfmove.toInt = -2147483648 := by
  constructor
  · have hply : (loaded "4k3/8/8/8/8/8/8/4K3 w - - 0 2147483647").ply.toInt = -4 := by
      decide +kernel
    refine ⟨_, loadFen_of_isOk (by decide +kernel), hply, fun hstep => ?_⟩
    have hneg := hstep.ply
    exact absurd (hply ▸ hneg) (by decide)
  · exact ⟨_, loadFen_of_isOk (by decide +kernel), by decide +kernel, by decide +kernel⟩

end Arbiter

end ChessArbiter
