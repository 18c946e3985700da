import ChessArbiter.Proofs.PositionText

/-!
# Play from a text

A text may be accepted although the side that waits is in check, and then its king may be captured
by the first move made (`king_lost_from_text`). If it is not, the game is orderly from then on
(`Turn.survivable`): kings survive, and every position passed through can be written and read again.
For that the counters must not have run over; each turn adds at most one to either of them
(`Turn.counters`), so there is room for as many turns as they are away from their end.
-/

namespace ChessArbiter

namespace Game

variable {g g' : Game} {s : Setup} {half turn : Int}

/-! ### Counters -/

theorem Turn.counters (t : g.Turn g') (hhalf : g.halfmove.toInt + 1 < 2 ^ 31)
    (hturn : g.turn.toInt + 1 < 2 ^ 31) :
    (g'.halfmove.toInt = 0 ∨ g'.halfmove.toInt = g.halfmove.toInt + 1) ∧
      (g'.turn.toInt = g.turn.toInt ∨ g'.turn.toInt = g.turn.toInt + 1) := by
  have hlogged : ∀ {g₁ : Game}, g.SameBooks g₁ → ∀ r resetClock,
      ((g₁.logged r resetClock).halfmove.toInt = 0 ∨
        (g₁.logged r resetClock).halfmove.toInt = g.halfmove.toInt + 1) ∧
      ((g₁.logged r resetClock).turn.toInt = g.turn.toInt ∨
        (g₁.logged r resetClock).turn.toInt = g.turn.toInt + 1) := by
    intro g₁ hbooks r resetClock
    rw [halfmove_logged (by rwa [hbooks.halfmove]), turn_logged (by rwa [hbooks.turn]),
      hbooks.halfmove, hbooks.turn]
    constructor
    · split_ifs
      · exact .inl rfl
      · exact .inr rfl
    · split_ifs
      · exact .inr rfl
      · exact .inl rfl
  cases t with
  | @step _ _ _ s hs _ => exact hlogged (g.sameBooks_execute s) _ _
  | @castle w hw => exact hlogged (g.sameBooks_executeCastle (CastlePath.of g.active w)) _ _

/-- The counters have grown since they were `half` and `turn` by no more than the log. -/
structure Clocked (half turn : Int) (g : Game) : Prop where
  halfmove : 0 ≤ g.halfmove.toInt ∧ g.halfmove.toInt ≤ half + g.moves.length
  turn : 1 ≤ g.turn.toInt ∧ g.turn.toInt ≤ turn + g.moves.length

/-- The counters are as they should be while there is room for them. -/
def WellClocked (half turn : Int) (g : Game) : Prop :=
  half + g.moves.length < 2 ^ 31 → turn + g.moves.length < 2 ^ 31 → g.Clocked half turn

theorem Turn.wellClocked (t : g.Turn g') (h : g.WellClocked half turn) :
    g'.WellClocked half turn := by
  intro hhalf hturn
  obtain ⟨r, hmoves, _⟩ := t.log
  have hlength : g'.moves.length = g.moves.length + 1 := by
    rw [hmoves, List.length_append, List.length_singleton]
  rw [hlength] at hhalf hturn
  obtain ⟨⟨hhalf0, hhalf1⟩, hturn0, hturn1⟩ := h (by omega) (by omega)
  obtain ⟨hhalf', hturn'⟩ := t.counters (by omega) (by omega)
  refine ⟨?_, ?_⟩ <;> rw [hlength] <;> omega

theorem WellClocked.retitle (h : g.WellClocked half turn) (title : String) :
    (g.retitle title).WellClocked half turn := by
  have hlength := length_moves_retitle g title
  intro hhalf hturn
  rw [hlength] at hhalf hturn
  obtain ⟨hhalf', hturn'⟩ := h hhalf hturn
  refine ⟨?_, ?_⟩ <;> rw [hlength, retitle_eq] <;> assumption

theorem WellClocked.in_range (h : g.WellClocked half turn)
    (hhalf : half + g.moves.length < 2 ^ 31) (hturn : turn + g.moves.length < 2 ^ 31) :
    0 ≤ g.halfmove ∧ 1 ≤ g.turn :=
  ⟨Int32.le_iff_toInt_le.2 (h hhalf hturn).halfmove.1,
    Int32.le_iff_toInt_le.2 (h hhalf hturn).turn.1⟩

/-! ### The first move -/

/-- The first move made, if any, took no king. -/
def SparesKing (g : Game) : Prop := ∀ r, g.moves.head? = some r → r.captured ≠ some .king

theorem sparesKing_of_unmoved (h : g.moves = []) : g.SparesKing := by
  intro r hr
  rw [h] at hr
  cases hr

/-- Unless the first move took a king, either the game is orderly or nobody has moved yet. -/
def Survivable (g : Game) : Prop :=
  g.SparesKing → g.Orderly ∨ (g.moves = [] ∧ g.Consistent ∧ ∀ c, g.HasOneKing c)

theorem Turn.survivable (t : g.Turn g') (h : g.Survivable) : g'.Survivable := by
  intro hspares
  obtain ⟨r, hmoves, _⟩ := t.log
  unfold SparesKing at hspares
  rw [hmoves] at hspares
  left
  cases hfirst : g.moves with
  | nil =>
    have hspared : ∀ r' ∈ g'.moves, r'.captured ≠ some .king := by
      rw [hmoves, hfirst, List.nil_append]
      rw [hfirst] at hspares
      exact fun r' hr' => hspares r' (congrArg some (List.mem_singleton.1 hr').symm)
    rcases h (sparesKing_of_unmoved hfirst) with horderly | ⟨_, hcon, hone⟩
    · exact t.orderly horderly
    · exact t.orderly_of_spared hcon hone hspared
  | cons first rest =>
    have hnone : g.SparesKing := by
      unfold SparesKing
      rw [hfirst] at hspares ⊢
      exact hspares
    rcases h hnone with horderly | ⟨hnil, _⟩
    · exact t.orderly horderly
    · rw [hfirst] at hnil
      cases hnil

theorem sparesKing_of_retitle {title : String} (h : (g.retitle title).SparesKing) :
    g.SparesKing := by
  cases hmoves : g.moves using List.reverseRecOn with
  | nil => exact sparesKing_of_unmoved hmoves
  | append_singleton rs last =>
    unfold SparesKing at h ⊢
    rw [moves_retitle, hmoves, List.dropLast_concat, List.getLast?_concat] at h
    rw [hmoves]
    cases rs with
    | nil =>
      intro r hr
      obtain rfl := Option.some.inj hr
      exact h { last with text := title } rfl
    | cons first rs => exact h

theorem Survivable.retitle (h : g.Survivable) (title : String) :
    (g.retitle title).Survivable := by
  intro hspares
  rcases h (sparesKing_of_retitle hspares) with horderly | ⟨hnil, hcon, hone⟩
  · exact .inl (horderly.retitle title)
  · have hsame : g.retitle title = g := by
      unfold Game.retitle
      rw [hnil]
      rfl
    rw [hsame]
    exact .inr ⟨hnil, hcon, hone⟩

/-! ### The game that was read -/

/-- Nothing has been moved and nobody taken. -/
structure Unplayed (g : Game) : Prop where
  moves : g.moves = []
  captured : ∀ c, g.captured.get c = []

theorem unplayed_empty : empty.Unplayed where
  moves := rfl
  captured c := by cases c <;> rfl

theorem Unplayed.enlistAll (h : g.Unplayed) (men : List (Piece × Square)) :
    (g.enlistAll men).Unplayed := by
  induction men generalizing g with
  | nil => exact h
  | cons e men ih => exact ih (g := (g.enlist e.1 e.2).2) ⟨h.moves, h.captured⟩

theorem Unplayed.grantRights (h : g.Unplayed) (rights : List (Colour × Wing)) :
    (rights.foldl (fun g e => g.grantRight e.1 e.2) g).Unplayed := by
  induction rights generalizing g with
  | nil => exact h
  | cons e rights ih =>
    apply ih (g := g.grantRight e.1 e.2)
    unfold grantRight
    dsimp only
    split
    · exact ⟨h.moves, h.captured⟩
    · exact h

theorem unplayed_start : start.Unplayed := unplayed_empty.enlistAll startMen

theorem Unplayed.setDepth (h : g.Unplayed) (n : Nat) : { g with depth := n }.Unplayed :=
  ⟨h.moves, h.captured⟩

theorem unplayed_ofSetup (s : Setup) : (ofSetup s).Unplayed := by
  have hmen := unplayed_empty.enlistAll s.men
  have hspent : (empty.enlistAll s.men).spendRights.Unplayed := ⟨hmen.moves, hmen.captured⟩
  have hgranted := hspent.grantRights s.rights
  exact ⟨hgranted.moves, hgranted.captured⟩

end Game

namespace Arbiter

variable {a b : Arbiter} {text : String}

theorem unplayed_of_loadFen (h : a.loadFen text = (.ok (), b)) : b.Unplayed := by
  obtain ⟨s, _, hb⟩ := loadFen_ok h
  rw [hb]
  exact (Game.unplayed_ofSetup s).setDepth a.depth

theorem moves_of_loadFen (h : a.loadFen text = (.ok (), b)) : b.moves = [] :=
  (unplayed_of_loadFen h).moves

theorem consistent_of_loadFen (h : a.loadFen text = (.ok (), b)) :
    b.toGame.Consistent ∧ ∀ c, b.HasOneKing c := by
  obtain ⟨s, hs, hb⟩ := loadFen_ok h
  obtain ⟨placement, side, rest, _, hdesc⟩ := Setup.ofFields_eq_ok_iff.1 hs
  have hnodup := Setup.nodup_of_readMen hdesc.men
  rw [hb]
  exact ⟨(Game.consistent_ofSetup hnodup).congr rfl rfl rfl,
    Game.hasOneKing_ofSetup hnodup hdesc.kings⟩

theorem survivable_of_loadFen (h : a.loadFen text = (.ok (), b)) : b.Survivable :=
  fun _ => .inr ⟨moves_of_loadFen h, consistent_of_loadFen h⟩

theorem orderly_of_loadFen (h : a.loadFen text = (.ok (), b))
    (hsafe : b.inCheck b.active.opposite = false) : b.toGame.Orderly where
  toConsistent := (consistent_of_loadFen h).1
  one_king := (consistent_of_loadFen h).2
  waiting_safe := hsafe
  no_king_taken := by
    rw [moves_of_loadFen h]
    exact List.forall_mem_nil _

theorem counters_nonneg_of_loadFen (h : a.loadFen text = (.ok (), b)) :
    0 ≤ b.halfmove.toInt ∧ 1 ≤ b.turn.toInt := by
  obtain ⟨s, hs, hb⟩ := loadFen_ok h
  obtain ⟨placement, side, rest, _, hdesc⟩ := Setup.ofFields_eq_ok_iff.1 hs
  rw [hb]
  exact ⟨Int32.le_iff_toInt_le.1 (Setup.readCounter_eq_ok hdesc.halfmove).1,
    Int32.le_iff_toInt_le.1 (Setup.readCounter_eq_ok hdesc.turn).1⟩

theorem wellClocked_of_loadFen (h : a.loadFen text = (.ok (), b)) :
    b.WellClocked b.halfmove.toInt b.turn.toInt := by
  obtain ⟨hhalf, hturn⟩ := counters_nonneg_of_loadFen h
  intro _ _
  exact ⟨⟨hhalf, Int.le_add_of_nonneg_right (Int.natCast_nonneg _)⟩, hturn,
    Int.le_add_of_nonneg_right (Int.natCast_nonneg _)⟩

/-- In all play from an accepted text, unless the first move made takes the king of a side that
was left in check, both kings survive, and every position passed through is accepted again as long
as no counter has run over. There is room for as many turns as the counters are away from their
end. -/
theorem kings_survive (a : Arbiter) (text : String) (b : Arbiter)
    (h : a.loadFen text = (.ok (), b)) (qs : List Request) :
    (b.inCheck b.active.opposite = false → (b.run qs).SparesKing) ∧
    ((b.run qs).SparesKing →
      (∀ c, (b.run qs).HasOneKing c) ∧
      (∀ r ∈ (b.run qs).moves, r.captured ≠ some .king) ∧
      (0 ≤ (b.run qs).halfmove → 1 ≤ (b.run qs).turn →
        ∀ x : Arbiter, (x.loadFen (b.run qs).toFen).1 = .ok ())) ∧
    (b.halfmove.toInt + (b.run qs).moves.length < 2 ^ 31 →
      b.turn.toInt + (b.run qs).moves.length < 2 ^ 31 →
      0 ≤ (b.run qs).halfmove ∧ 1 ≤ (b.run qs).turn) := by
  have hsurvivable : (b.run qs).Survivable :=
    run_keeps Game.Turn.survivable (fun title hg => hg.retitle title) (survivable_of_loadFen h) qs
  have hclocked : (b.run qs).WellClocked b.halfmove.toInt b.turn.toInt :=
    run_keeps Game.Turn.wellClocked (fun title hg => hg.retitle title) (wellClocked_of_loadFen h) qs
  have hreload : (b.run qs).toGame.Consistent → (∀ c, (b.run qs).HasOneKing c) →
      0 ≤ (b.run qs).halfmove → 1 ≤ (b.run qs).turn →
      ∀ x : Arbiter, (x.loadFen (b.run qs).toFen).1 = .ok () := by
    intro hcon hone hhalf hturn x
    obtain ⟨b', hload, _⟩ := loadFen_toFen x hcon hone hhalf hturn
    rw [hload]
  refine ⟨fun hsafe => ?_, fun hspares => ?_, hclocked.in_range⟩
  · have horderly := orderly_run (orderly_of_loadFen h hsafe) qs
    exact fun r hr => horderly.no_king_taken r (List.mem_of_head? hr)
  · rcases hsurvivable hspares with horderly | ⟨hnil, hcon, hone⟩
    · exact ⟨horderly.one_king, horderly.no_king_taken,
        hreload horderly.toConsistent horderly.one_king⟩
    · refine ⟨hone, ?_, hreload hcon hone⟩
      rw [hnil]
      exact List.forall_mem_nil _

/-- Black is in check, but White is to move. -/
def exposed : String := "4k3/4Q3/8/8/8/8/8/4K3 w - - 0 1"

def latest : String := "4k3/8/8/8/8/8/8/4K3 w - - 2147483647 1"

/-- A king may be lost from a text that was accepted, and a counter may run over. -/
theorem king_lost_from_text :
    (((opening {}).loadFen exposed).1 = .ok () ∧
      (let b := ((opening {}).loadFen exposed).2.run [.play "Qxe8"]
       (∃ r ∈ b.moves, r.captured = some .king) ∧ ¬b.HasOneKing .black ∧
         (b.loadFen b.toFen).1 ≠ .ok ())) ∧
    ((opening {}).loadFen latest).1 = .ok () ∧
      (let b := ((opening {}).loadFen latest).2.run [.play "Ke2"]
       b.moves.length = 1 ∧ (b.loadFen b.toFen).1 ≠ .ok ()) := by
  decide +kernel

def declined : List Request := [.play "Kd2", .play "Kxe7"]

theorem exposed_kings_survive :
    ∃ b, (opening {}).loadFen exposed = (.ok (), b) ∧
      (∀ c, (b.run declined).HasOneKing c) ∧
      ∀ x : Arbiter, (x.loadFen (b.run declined).toFen).1 = .ok () := by
  have hloaded : ((opening {}).loadFen exposed).1.isOk = true := by decide +kernel
  have hspared : ∀ r ∈ (((opening {}).loadFen exposed).2.run declined).moves,
      r.captured ≠ some .king := by
    decide +kernel
  have hclock : (((opening {}).loadFen exposed).2.run declined).halfmove = 0 ∧
      (((opening {}).loadFen exposed).2.run declined).turn = 2 := by
    decide +kernel
  rcases h : (opening {}).loadFen exposed with ⟨e | _, b⟩
  · rw [h] at hloaded
    cases hloaded
  · rw [h] at hspared hclock
    obtain ⟨hone, _, hreload⟩ := (kings_survive _ exposed b h declined).2.1
      fun r hr => hspared r (List.mem_of_head? hr)
    refine ⟨b, rfl, hone, hreload ?_ ?_⟩
    · rw [hclock.1]
      decide
    · rw [hclock.2]
      decide

end Arbiter

end ChessArbiter
