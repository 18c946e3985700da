import ChessArbiter.Window
import ChessArbiter.Proofs.Resolving

/-!
# Clicks

A window remembers between events which man is selected, where he may go, and which pawn waits for
an officer, while the game can change under it by a written move or a reset. What it remembers is
always true of the game (`Settled.handle`), so that every move a click asks for is granted. For a
waiting pawn this rests on the fact that a promotion is granted whatever the officer
(`isSome_attempt_officer`): the side that must not be in check afterwards is the pawn's own.
-/

namespace ChessArbiter

namespace Game

variable {g g' : Game} {c : Colour} {m : Man} {s : Step} {src dst : Square} {k k' : PieceKind}

/-- Check is a matter of the king, the other side's men, the roster and what is occupied. -/
theorem inCheck_congr (hking : g.king c = g'.king c)
    (hlive : g.live.get c.opposite = g'.live.get c.opposite) (hroster : g.roster = g'.roster)
    (hoccupied : g.board.occupied = g'.board.occupied) : g.inCheck c = g'.inCheck c := by
  have hsquare : ∀ y, g.square? y = g'.square? y := by
    intro y
    unfold Table.square?
    rw [hroster]
  have hattacks : ∀ y u, g.attacks y u = g'.attacks y u := by
    intro y u
    unfold Table.attacks Table.hasMoved Board.pathClear
    rw [hsquare, hroster, hoccupied]
  have hattacked : ∀ u, g.isAttacked u c.opposite = g'.isAttacked u c.opposite := by
    intro u
    unfold isAttacked strikes
    simp only [hlive, hsquare, hattacks]
  unfold inCheck
  simp only [hking, hsquare, hattacked]

theorem king_enlist (g : Game) (hk : k.isOfficer = true) (c d : Colour) (u : Square) :
    (g.enlist ⟨k, d⟩ u).2.king c = g.king c := by
  have hnew : ([⟨⟨k, d⟩, g.roster.size⟩] : List Man).find? (·.kind == .king) = none := by
    cases k <;> first | rfl | cases hk
  unfold king
  rw [live_enlist, Sides.get_modify]
  split_ifs
  · rw [List.find?_append, hnew, Option.or_none]
  · rfl

theorem live_enlist_of_ne (g : Game) (p : Piece) (u : Square) (hc : c ≠ p.colour) :
    (g.enlist p u).2.live.get c = g.live.get c :=
  Sides.get_modify_of_ne _ _ hc

theorem inCheck_promote (hk : k.isOfficer = true) (hk' : k'.isOfficer = true)
    (hb : s.becomes = some k) :
    (g.promote s).inCheck s.man.colour =
      (g.promote { s with becomes := some k' }).inCheck s.man.colour := by
  let withdrawn : Game := { g with toTable := (g.lift s.dst).2 }.dismiss s.man
  have hother : ∀ k, (withdrawn.enlist ⟨k, s.man.colour⟩ s.dst).2.live.get s.man.colour.opposite =
      withdrawn.live.get s.man.colour.opposite :=
    fun k => withdrawn.live_enlist_of_ne _ _ (Colour.opposite_ne _)
  have hking : ∀ k, k.isOfficer = true →
      (withdrawn.enlist ⟨k, s.man.colour⟩ s.dst).2.king s.man.colour =
        withdrawn.king s.man.colour :=
    fun k hk => withdrawn.king_enlist hk _ _ _
  unfold promote
  rw [hb]
  refine inCheck_congr ?_ ?_ rfl rfl
  · exact (hking k hk).trans (hking k' hk').symm
  · exact (hother k).trans (hother k').symm

theorem inCheck_execute_officer (hk : k.isOfficer = true) (hk' : k'.isOfficer = true)
    (hb : s.becomes = some k) :
    (g.execute s).2.inCheck s.man.colour =
      (g.execute { s with becomes := some k' }).2.inCheck s.man.colour :=
  inCheck_promote hk hk' hb

/-! ### Which moves are granted -/

theorem isSome_attempt_officer (hs : g.board.occupant src = some m) (hm : m.kind = .pawn)
    (hlast : dst.rank = m.colour.lastRank) (hk : k.isOfficer = true)
    (h : (g.attempt src dst none).isSome = true) : (g.attempt src dst (some k)).isSome = true := by
  have hpromotes : m.promotesOn dst = true := by simp [Man.promotesOn, hm, hlast]
  have hcastle : m.castleRequest src dst = none := castleRequest_of_not_king (by simp [hm])
  obtain ⟨g', hg'⟩ := Option.isSome_iff_exists.1 h
  rw [Option.isSome_iff_exists]
  obtain ⟨_, hfoe, hrules, hsafe⟩ := step_of_attempt hs hcastle hg'
  obtain ⟨n, hn, hturn⟩ := mover_of_attempt hg'
  obtain rfl : m = n := Option.some.inj (hs.symm.trans hn)
  have hasked : g.promotionObjection m src dst (some k) = none := by
    rw [promotionObjection_eq_none_iff]
    rintro _ ⟨⟩
    exact ⟨hpromotes, hk⟩
  refine ⟨_, attempt_eq_some_iff.2 (.inl ⟨_,
    assess_step_iff.2 ⟨m, ⟨hs, hturn⟩, hcastle, hasked, hfoe, hrules, rfl⟩, ?_, rfl⟩)⟩
  have hqueen : (g.stepOf m src dst none).becomes = some .queen := if_pos hpromotes
  have hofficer : g.stepOf m src dst (some k) =
      { g.stepOf m src dst none with becomes := some k } := by
    simp [stepOf, hpromotes]
  rw [hofficer, ← hsafe]
  exact (inCheck_execute_officer rfl hk hqueen).symm

end Game

namespace Arbiter

variable {a : Arbiter} {src dst : Square}

theorem fst_legalDestinations_congr {b : Arbiter} (h : a.toGame = b.toGame) (src : Square) :
    (a.legalDestinations src).1 = (b.legalDestinations src).1 := by
  rw [fst_legalDestinations, fst_legalDestinations, h]

theorem isSome_of_mem_legalDestinations (h : dst ∈ (a.legalDestinations src).1) :
    (a.attempt src dst none).isSome = true := by
  rw [fst_legalDestinations] at h
  split_ifs at h
  · exact (List.mem_filter.1 h).2
  · cases h

end Arbiter

namespace Window

variable {w : Window}

def run (w : Window) (events : List WindowEvent) : Window := events.foldl handle w

/-- The move for which a click asks the game, if it asks for any. -/
def asked (w : Window) (x y : Int) : Option (Square × Square × Option PieceKind) :=
  match w.promoting with
  | some (src, dst) => (officerAt x y).map fun k => (src, dst, some k)
  | none => do
    let s ← squareAt x y w.flipped
    let src ← w.selected
    if s ∈ w.destinations ∧ ¬ w.wantsPromotion src s then some (src, s, none) else none

/-- What a window remembers is true of its game. -/
structure Settled (w : Window) : Prop where
  own : ∀ s, w.selected = some s →
    ∃ m, w.arbiter.board.occupant s = some m ∧ m.colour = w.arbiter.active
  legal : ∀ s, w.selected = some s → w.destinations = (w.arbiter.legalDestinations s).1
  waiting : ∀ src dst, w.promoting = some (src, dst) →
    w.selected = some src ∧ dst ∈ w.destinations ∧ w.wantsPromotion src dst = true

theorem toGame_select (w : Window) (s : Square) :
    (w.select s).arbiter.toGame = w.arbiter.toGame := by
  unfold select
  split_ifs
  · exact w.arbiter.toGame_legalDestinations s
  · rfl

theorem lastError_select (w : Window) (s : Square) : (w.select s).lastError = w.lastError := by
  unfold select
  split_ifs <;> rfl

/-- A click that asks for a move makes it, and then nothing is selected. -/
theorem click_of_asked {x y : Int} {src dst : Square} {promotion : Option PieceKind}
    (h : w.asked x y = some (src, dst, promotion)) :
    w.click x y = (w.report (w.arbiter.move src dst promotion)).clearSelection := by
  unfold asked at h
  unfold click
  rcases hwaiting : w.promoting with _ | ⟨src', dst'⟩
  case none =>
    rw [hwaiting] at h
    obtain ⟨s, hsquare, h⟩ := Option.bind_eq_some_iff.1 h
    obtain ⟨src', hselected, h⟩ := Option.bind_eq_some_iff.1 h
    split_ifs at h with hmoves
    cases h
    simp only [hsquare, clickSquare, hselected, if_pos hmoves.1, if_neg hmoves.2]
  case some =>
    rw [hwaiting] at h
    obtain ⟨k, hofficer, h⟩ := Option.map_eq_some_iff.1 h
    cases h
    simp only [hofficer]

theorem click_of_not_asked {x y : Int} (h : w.asked x y = none) :
    (w.click x y).arbiter.toGame = w.arbiter.toGame ∧ (w.click x y).lastError = w.lastError := by
  unfold asked at h
  unfold click
  rcases hwaiting : w.promoting with _ | ⟨src, dst⟩
  case none =>
    rw [hwaiting] at h
    rcases hsquare : squareAt x y w.flipped with _ | s
    · exact ⟨rfl, rfl⟩
    rcases hselected : w.selected with _ | src
    · simp only [clickSquare, hselected]
      exact ⟨w.toGame_select s, w.lastError_select s⟩
    simp only [hsquare, hselected, Option.bind_eq_bind, Option.bind_some] at h
    simp only [clickSquare, hselected]
    split_ifs with hmember hpromotes
    · exact ⟨rfl, rfl⟩
    · exact absurd h (by rw [if_pos ⟨hmember, hpromotes⟩]; nofun)
    · exact ⟨w.toGame_select s, w.lastError_select s⟩
  case some =>
    rw [hwaiting] at h
    have hofficer : officerAt x y = none := Option.map_eq_none_iff.1 h
    simp only [hofficer]
    exact ⟨rfl, rfl⟩

/-! ### What every event keeps -/

theorem settled_clearSelection (w : Window) : w.clearSelection.Settled :=
  ⟨nofun, nofun, nofun⟩

theorem settled_select (w : Window) (hwaiting : w.promoting = none) (s : Square) :
    (w.select s).Settled := by
  unfold select
  split_ifs with hown
  · have hgame := w.arbiter.toGame_legalDestinations s
    refine ⟨?_, ?_, ?_⟩
    · rintro _ ⟨⟩
      obtain ⟨m, hm, hc⟩ := (Option.any_eq_true _ _).1 hown
      exact ⟨m, by rw [hgame]; exact hm, by rw [hgame]; exact eq_of_beq hc⟩
    · rintro _ ⟨⟩
      exact Arbiter.fst_legalDestinations_congr hgame.symm s
    · intro src dst h
      rw [hwaiting] at h
      cases h
  · exact w.settled_clearSelection

theorem Settled.clickSquare (h : w.Settled) (hwaiting : w.promoting = none) (s : Square) :
    (w.clickSquare s).Settled := by
  unfold Window.clickSquare
  rcases hselected : w.selected with _ | src
  · exact w.settled_select hwaiting s
  dsimp only
  split_ifs with hmember hpromotes
  · rw [← hselected]
    refine ⟨h.own, h.legal, ?_⟩
    rintro _ _ ⟨⟩
    exact ⟨hselected, hmember, hpromotes⟩
  · exact settled_clearSelection _
  · exact w.settled_select hwaiting s

theorem Settled.click (h : w.Settled) (x y : Int) : (w.click x y).Settled := by
  unfold Window.click
  rcases hwaiting : w.promoting with _ | ⟨src, dst⟩
  · dsimp only
    split
    · exact h
    · exact h.clickSquare hwaiting _
  · dsimp only
    split
    · exact w.settled_clearSelection
    · exact settled_clearSelection _

theorem Settled.handle (h : w.Settled) (event : WindowEvent) : (w.handle event).Settled := by
  cases event with
  | click x y => exact h.click x y
  | play text =>
    unfold Window.handle Window.play
    dsimp only
    split_ifs
    · exact h
    · exact settled_clearSelection _
  | flip => exact ⟨h.own, h.legal, h.waiting⟩
  | reset => exact settled_clearSelection _

theorem Settled.run (h : w.Settled) (events : List WindowEvent) : (w.run events).Settled := by
  induction events generalizing w with
  | nil => exact h
  | cons event events ih => exact ih (h.handle event)

/-! ### What follows for the moves asked for -/

theorem Settled.pawn_waits (h : w.Settled) {src dst : Square}
    (hwaiting : w.promoting = some (src, dst)) :
    ∃ m, w.arbiter.board.occupant src = some m ∧ m.colour = w.arbiter.active ∧ m.kind = .pawn ∧
      dst.rank = w.arbiter.active.lastRank := by
  obtain ⟨hselected, _, hwants⟩ := h.waiting src dst hwaiting
  obtain ⟨m, hm, hc⟩ := h.own src hselected
  unfold wantsPromotion at hwants
  rw [hm, Bool.and_eq_true] at hwants
  exact ⟨m, hm, hc, eq_of_beq hwants.1, eq_of_beq hwants.2⟩

theorem Settled.isSome_attempt (h : w.Settled) {src dst : Square}
    (hselected : w.selected = some src) (hmember : dst ∈ w.destinations) :
    (w.arbiter.attempt src dst none).isSome = true := by
  rw [h.legal src hselected] at hmember
  exact Arbiter.isSome_of_mem_legalDestinations hmember

theorem Settled.officer_granted (h : w.Settled) {src dst : Square} {k : PieceKind}
    (hwaiting : w.promoting = some (src, dst)) (hk : k.isOfficer = true) :
    (w.arbiter.move src dst (some k)).1.isOk = true := by
  obtain ⟨hselected, hmember, _⟩ := h.waiting src dst hwaiting
  obtain ⟨m, hm, hc, hpawn, hlast⟩ := h.pawn_waits hwaiting
  rw [Arbiter.isOk_move]
  exact Game.isSome_attempt_officer hm hpawn (hc ▸ hlast) hk (h.isSome_attempt hselected hmember)

theorem mem_officers_of_officerAt {x y : Int} {k : PieceKind} (h : officerAt x y = some k) :
    k ∈ officers := by
  obtain ⟨e, he, rfl⟩ := Option.map_eq_some_iff.1 h
  exact List.fst_mem_of_mem_zipIdx (List.mem_of_find?_eq_some he)

theorem isOfficer_of_mem {k : PieceKind} (h : k ∈ officers) : k.isOfficer = true := by
  revert k
  decide

theorem Settled.asked_granted (h : w.Settled) {x y : Int} {src dst : Square}
    {promotion : Option PieceKind} (hasked : w.asked x y = some (src, dst, promotion)) :
    (w.arbiter.move src dst promotion).1.isOk = true := by
  unfold asked at hasked
  rcases hwaiting : w.promoting with _ | ⟨src', dst'⟩
  case none =>
    rw [hwaiting] at hasked
    obtain ⟨s, _, hasked⟩ := Option.bind_eq_some_iff.1 hasked
    obtain ⟨src', hselected, hasked⟩ := Option.bind_eq_some_iff.1 hasked
    split_ifs at hasked with hmoves
    cases hasked
    rw [Arbiter.isOk_move]
    exact h.isSome_attempt hselected hmoves.1
  case some =>
    rw [hwaiting] at hasked
    obtain ⟨k, hofficer, hasked⟩ := Option.map_eq_some_iff.1 hasked
    cases hasked
    exact h.officer_granted hwaiting (isOfficer_of_mem (mem_officers_of_officerAt hofficer))

theorem lastError_report_of_isOk {α : Type} (w : Window) {outcome : Except MoveError α × Arbiter}
    (h : outcome.1.isOk = true) : (w.report outcome).lastError = "" := by
  unfold report
  rcases outcome with ⟨e | r, b⟩
  · cases h
  · rfl

theorem lastError_report {α : Type} (w : Window) (outcome : Except MoveError α × Arbiter) :
    (w.report outcome).lastError = "" ∨
      ∃ e, outcome.1 = .error e ∧ (w.report outcome).lastError = e.describe := by
  rcases outcome with ⟨e | r, b⟩
  · exact .inr ⟨e, rfl, rfl⟩
  · exact .inl rfl

theorem Settled.lastError_click (h : w.Settled) (x y : Int) :
    (w.click x y).lastError = w.lastError ∨ (w.click x y).lastError = "" := by
  rcases hasked : w.asked x y with _ | ⟨src, dst, promotion⟩
  · exact .inl (click_of_not_asked hasked).2
  · rw [click_of_asked hasked]
    exact .inr (w.lastError_report_of_isOk (h.asked_granted hasked))

/-- The error shown is that of a refused text or of a refused reset. -/
theorem Settled.lastError_handle (h : w.Settled) (event : WindowEvent) :
    (w.handle event).lastError = w.lastError ∨ (w.handle event).lastError = "" ∨
      (∃ text e, event = .play text ∧ (w.arbiter.play text).1 = .error e ∧
        (w.handle event).lastError = e.describe) ∨
      ∃ e, event = .reset ∧ (w.arbiter.loadFen w.startFen).1 = .error e ∧
        (w.handle event).lastError = e.describe := by
  cases event with
  | click x y => exact (h.lastError_click x y).imp_right .inl
  | flip => exact .inl rfl
  | play text =>
    unfold Window.handle Window.play
    dsimp only
    split_ifs
    · exact .inl rfl
    rcases w.lastError_report (w.arbiter.play text) with hnone | ⟨e, he, hshown⟩
    · exact .inr (.inl hnone)
    · exact .inr (.inr (.inl ⟨text, e, rfl, he, hshown⟩))
  | reset =>
    unfold Window.handle Window.reset
    dsimp only
    split_ifs
    · exact .inr (.inl rfl)
    rcases w.lastError_report (w.arbiter.loadFen w.startFen) with hnone | ⟨e, he, hshown⟩
    · exact .inr (.inl hnone)
    · exact .inr (.inr (.inr ⟨e, rfl, he, hshown⟩))

/-- After any events, what a window remembers is true of its game, every move that a click then asks
for is granted, and only a refused text or a refused reset shows an error. -/
theorem clicks_sound (a : Arbiter) (startFen : String) (events : List WindowEvent) :
    let w := ({ arbiter := a, startFen } : Window).run events
    (∀ s, w.selected = some s →
      (∃ m, w.arbiter.board.occupant s = some m ∧ m.colour = w.arbiter.active) ∧
      w.destinations = (w.arbiter.legalDestinations s).1) ∧
    (∀ src dst, w.promoting = some (src, dst) →
      w.selected = some src ∧ dst ∈ w.destinations ∧
      (∃ m, w.arbiter.board.occupant src = some m ∧ m.colour = w.arbiter.active ∧
        m.kind = .pawn ∧ dst.rank = w.arbiter.active.lastRank) ∧
      ∀ k ∈ officers, (w.arbiter.move src dst (some k)).1.isOk = true) ∧
    (∀ x y src dst promotion, w.asked x y = some (src, dst, promotion) →
      w.click x y = (w.report (w.arbiter.move src dst promotion)).clearSelection ∧
      (w.arbiter.move src dst promotion).1.isOk = true) ∧
    (∀ x y, w.asked x y = none →
      (w.click x y).arbiter.toGame = w.arbiter.toGame ∧ (w.click x y).lastError = w.lastError) ∧
    ∀ event, (w.handle event).lastError = w.lastError ∨ (w.handle event).lastError = "" ∨
      (∃ text e, event = .play text ∧ (w.arbiter.play text).1 = .error e ∧
        (w.handle event).lastError = e.describe) ∨
      ∃ e, event = .reset ∧ (w.arbiter.loadFen w.startFen).1 = .error e ∧
        (w.handle event).lastError = e.describe := by
  intro w
  have hstart : ({ arbiter := a, startFen } : Window).Settled := ⟨nofun, nofun, nofun⟩
  have h : w.Settled := hstart.run events
  refine ⟨fun s hs => ⟨h.own s hs, h.legal s hs⟩, fun src dst hwaiting => ?_,
    fun x y src dst promotion hasked => ⟨click_of_asked hasked, h.asked_granted hasked⟩,
    fun x y hasked => click_of_not_asked hasked, h.lastError_handle⟩
  obtain ⟨hselected, hmember, _⟩ := h.waiting src dst hwaiting
  exact ⟨hselected, hmember, h.pawn_waits hwaiting,
    fun k hk => h.officer_granted hwaiting (isOfficer_of_mem hk)⟩

/-- A pawn on d7 is clicked and then d8: it waits, and any of the four officers is granted. -/
theorem waiting_clicks_sound :
    let a := ((Arbiter.opening {}).loadFen "4k3/3P4/8/8/8/8/8/4K3 w - - 0 1").2
    let w := ({ arbiter := a, startFen := "" } : Window).run [.click 265 115, .click 265 40]
    w.promoting = some (⟨3, 6⟩, ⟨3, 7⟩) ∧
      ∀ k ∈ officers, (w.arbiter.move ⟨3, 6⟩ ⟨3, 7⟩ (some k)).1.isOk = true := by
  intro a w
  have hwaiting : w.promoting = some (⟨3, 6⟩, ⟨3, 7⟩) := by decide +kernel
  exact ⟨hwaiting, ((clicks_sound a "" [.click 265 115, .click 265 40]).2.1 _ _ hwaiting).2.2.2⟩

end Window

end ChessArbiter
