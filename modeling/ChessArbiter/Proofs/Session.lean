import ChessArbiter.Proofs.Requests
import ChessArbiter.Proofs.Setups

/-!
# Sessions

A `Session` is an arbiter in use: besides answering requests it may be told to set up positions,
to add and remove men, to try things out in scopes and to return to snapshots, innermost first. A
fresh position is taken up only while nothing is open to return to, and whatever else is done the
log and the roster only grow (`Session.extends_act`). Hence every action keeps the game consistent
and all the games there are to return to (`Session.Sound.act`), and so does every run.
-/

namespace ChessArbiter

/-- What there is to return to, and whether a rollback scope is left on the way. -/
structure Scope where
  saved : Snapshot
  rollback : Bool
deriving DecidableEq

structure Session where
  arbiter : Arbiter
  /-- The open scopes and snapshots, innermost first. -/
  scopes : List Scope
deriving DecidableEq

inductive Action where
  | reset
  | clear
  | loadFen (text : String)
  | add (piece : Piece) (square : Square)
  | remove (square : Square)
  | setActive (side : Colour)
  | setTarget (square : Option Square)
  | request (request : Request)
  | resolve (written : Notation)
  | resolveText (text : String)
  | legalDestinations (src : Square)
  | openScope
  | takeSnapshot
  | goBack
deriving DecidableEq

/-- A scope is opened or a snapshot taken. -/
def Action.enters : Action → Bool
  | .openScope => true
  | .takeSnapshot => true
  | _ => false

namespace Session

def opening (journal : Journal) : Session := ⟨.opening journal, []⟩

def onArbiter (x : Session) (f : Arbiter → Arbiter) : Session := { x with arbiter := f x.arbiter }

/-- Takes up a fresh position if nothing is open to return to. -/
def afresh (x : Session) (f : Arbiter → Arbiter) : Session :=
  if x.scopes = [] then x.onArbiter f else x

def enter (x : Session) (rollback : Bool) : Session :=
  { arbiter := if rollback then x.arbiter.openScope.2 else x.arbiter
    scopes := ⟨x.arbiter.snapshot, rollback⟩ :: x.scopes }

def goBack (x : Session) : Session :=
  match x.scopes with
  | [] => x
  | s :: rest =>
    { arbiter := if s.rollback then x.arbiter.closeScope s.saved else x.arbiter.restoreTo s.saved
      scopes := rest }

def act (x : Session) : Action → Session
  | .reset => x.afresh Arbiter.reset
  | .clear => x.afresh Arbiter.clear
  | .loadFen text => x.afresh fun a => (a.loadFen text).2
  | .add p s => x.onArbiter fun a => (a.add p s).2
  | .remove s => x.onArbiter fun a => (a.remove s).2
  | .setActive c => x.onArbiter fun a => { a with active := c }
  | .setTarget s => x.onArbiter fun a => { a with enPassant := s }
  | .request q => x.onArbiter fun a => (a.answer q).2
  | .resolve n => x.onArbiter fun a => (a.resolve n).2
  | .resolveText text => x.onArbiter fun a => (a.resolveText text).2
  | .legalDestinations s => x.onArbiter fun a => (a.legalDestinations s).2
  | .openScope => x.enter true
  | .takeSnapshot => x.enter false
  | .goBack => x.goBack

def run (x : Session) (actions : List Action) : Session := actions.foldl act x

end Session

/-! ### Actions on the arbiter -/

namespace Arbiter

variable {a : Arbiter}

theorem consistent_takeUp {g : Game} (h : g.Consistent) : (a.takeUp g).toGame.Consistent :=
  h.congr rfl rfl rfl

theorem consistent_loadFen (h : a.toGame.Consistent) (text : String) :
    (a.loadFen text).2.toGame.Consistent := by
  unfold loadFen
  split
  case h_1 => exact h
  case h_2 s hs => exact consistent_takeUp (Game.consistent_ofSetup (Setup.nodup_of_ofFen hs))

theorem consistent_add (h : a.toGame.Consistent) (p : Piece) (s : Square) :
    (a.add p s).2.toGame.Consistent := by
  unfold add
  split_ifs with hs
  · exact h.enlist p (Board.isEmpty_iff.1 hs)
  · exact h

theorem toGame_remove (a : Arbiter) (s : Square) :
    (a.remove s).2.toGame = a.toGame.withdraw s := by
  unfold remove Game.withdraw Table.lift
  cases a.board.occupant s with
  | none => rfl
  | some m => rfl

theorem consistent_answer (h : a.toGame.Consistent) (q : Request) :
    (a.answer q).2.toGame.Consistent :=
  answer_keeps Game.Turn.consistent (fun title hg => hg.retitle title) h q

theorem extends_answer (a : Arbiter) (q : Request) : a.Extends (a.answer q).2 := by
  rcases hq : a.answer q with ⟨e | r, b⟩
  · exact extends_of_toGame_eq (answer_error hq).1
  · obtain ⟨g', hturn, hb⟩ := answer_ok hq
    obtain ⟨r', hmoves, hdepth⟩ := hturn.log
    rcases hb with hb | ⟨title, hb⟩
    · exact ⟨hb ▸ hturn.grown, by rw [hb, hdepth]⟩
    · refine ⟨⟨?_, ?_⟩, by rw [hb, Game.retitle_eq, hdepth]⟩
      · -- only the entry just made is given a title
        rw [hb, Game.moves_retitle, hmoves, List.dropLast_concat]
        exact List.prefix_append _ _
      · rw [hb, Game.retitle_eq]
        exact hturn.grown.men

theorem extends_add (a : Arbiter) (p : Piece) (s : Square) : a.Extends (a.add p s).2 := by
  unfold add
  split_ifs
  · refine ⟨⟨List.prefix_rfl, ?_⟩, rfl⟩
    exact (Nat.le_succ _).trans (Game.size_enlist a.toGame p s).ge
  · exact extends_of_toGame_eq (toGame_note _ _ _)

theorem extends_remove (a : Arbiter) (s : Square) : a.Extends (a.remove s).2 := by
  have hsize := Table.size_lift a.toTable s
  unfold remove
  split
  · exact extends_of_toGame_eq rfl
  · next m t hlift =>
    rw [hlift] at hsize
    exact ⟨⟨List.prefix_rfl, hsize.ge⟩, rfl⟩

end Arbiter

/-! ### Runs of sessions -/

namespace Game

/-- Everyone a game knows of: the men in play and the men captured. -/
def roll (g : Game) : List Man :=
  g.live.white ++ g.live.black ++ (g.captured.white ++ g.captured.black)

theorem mem_sides {l : Sides (List Man)} (hcolour : ∀ c, ∀ m ∈ l.get c, m.colour = c) {m : Man} :
    m ∈ l.white ++ l.black ↔ m ∈ l.get m.colour := by
  rw [List.mem_append]
  constructor
  · rintro (hm | hm)
    · exact (hcolour .white m hm) ▸ hm
    · exact (hcolour .black m hm) ▸ hm
  · intro hm
    cases hc : m.colour with
    | white =>
      rw [hc] at hm
      exact .inl hm
    | black =>
      rw [hc] at hm
      exact .inr hm

theorem nodup_sides {l : Sides (List Man)} (hcolour : ∀ c, ∀ m ∈ l.get c, m.colour = c)
    (hnodup : ∀ c, (l.get c).Nodup) : (l.white ++ l.black).Nodup := by
  refine (hnodup .white).append (hnodup .black) fun m hw hb => ?_
  have hcontra := (hcolour .white m hw).symm.trans (hcolour .black m hb)
  cases hcontra

theorem mem_roll {g : Game} (h : g.Coherent) {m : Man} : m ∈ g.roll ↔ g.Knows m := by
  rw [roll, List.mem_append, mem_sides h.live_colour, mem_sides h.captured_colour]
  rfl

theorem nodup_roll {g : Game} (h : g.Coherent) : (g.roll.map Man.id).Nodup := by
  have hroll : g.roll.Nodup := by
    refine (nodup_sides h.live_colour h.live_nodup).append
      (nodup_sides h.captured_colour h.captured_nodup) fun m hl hc => ?_
    rw [mem_sides h.live_colour] at hl
    rw [mem_sides h.captured_colour] at hc
    exact h.live_not_captured _ _ m hl hc
  refine hroll.map_on fun m hm v hv hid => ?_
  exact h.id_inj m v ((mem_roll h).1 hm) ((mem_roll h).1 hv) hid

end Game

namespace Session

variable {x : Session}

theorem scopes_act (x : Session) {action : Action} (henter : action.enters = false)
    (hleave : action ≠ .goBack) : (x.act action).scopes = x.scopes := by
  have hafresh : ∀ f : Arbiter → Arbiter, (x.afresh f).scopes = x.scopes := by
    intro f
    unfold Session.afresh
    split_ifs <;> rfl
  cases action with
  | reset | clear | loadFen => exact hafresh _
  | add | remove | setActive | setTarget | request | resolve | resolveText
  | legalDestinations => rfl
  | openScope | takeSnapshot => cases henter
  | goBack => exact absurd rfl hleave

theorem extends_act {action : Action} (hopen : x.scopes ≠ []) (henter : action.enters = false)
    (hleave : action ≠ .goBack) : x.arbiter.Extends (x.act action).arbiter := by
  have hafresh : ∀ f : Arbiter → Arbiter, x.afresh f = x := fun f => if_neg hopen
  have hsame : x.arbiter.Extends x.arbiter := Arbiter.extends_of_toGame_eq rfl
  cases action with
  | reset | clear | loadFen =>
    -- no fresh position is taken up while something is open
    simp only [Session.act, hafresh]
    exact hsame
  | add p s => exact Arbiter.extends_add _ p s
  | remove s => exact Arbiter.extends_remove _ s
  | setActive c => exact ⟨⟨List.prefix_rfl, le_rfl⟩, rfl⟩
  | setTarget s => exact ⟨⟨List.prefix_rfl, le_rfl⟩, rfl⟩
  | request q => exact Arbiter.extends_answer _ q
  | resolve n => exact Arbiter.extends_of_toGame_eq (Arbiter.toGame_resolve _ n)
  | resolveText text => exact Arbiter.extends_of_toGame_eq (Arbiter.toGame_resolveText _ text)
  | legalDestinations s =>
    exact Arbiter.extends_of_toGame_eq (Arbiter.toGame_legalDestinations _ s)
  | openScope | takeSnapshot => cases henter
  | goBack => exact absurd rfl hleave

theorem consistent_act (h : x.arbiter.toGame.Consistent) {action : Action}
    (hleave : action ≠ .goBack) : (x.act action).arbiter.toGame.Consistent := by
  have hafresh : ∀ {f : Arbiter → Arbiter}, (f x.arbiter).toGame.Consistent →
      (x.afresh f).arbiter.toGame.Consistent := by
    intro f hf
    unfold Session.afresh
    split_ifs
    · exact hf
    · exact h
  cases action with
  | reset => exact hafresh (Arbiter.consistent_takeUp Game.consistent_start)
  | clear => exact hafresh (Arbiter.consistent_takeUp Game.consistent_empty)
  | loadFen text => exact hafresh (Arbiter.consistent_loadFen h text)
  | add p s => exact Arbiter.consistent_add h p s
  | remove s => exact Arbiter.toGame_remove x.arbiter s ▸ h.withdraw s
  | setActive c => exact h.congr rfl rfl rfl
  | setTarget s => exact h.congr rfl rfl rfl
  | request q => exact Arbiter.consistent_answer h q
  | resolve n => exact Arbiter.toGame_resolve x.arbiter n ▸ h
  | resolveText text => exact Arbiter.toGame_resolveText x.arbiter text ▸ h
  | legalDestinations s => exact Arbiter.toGame_legalDestinations x.arbiter s ▸ h
  | openScope => exact h.congr rfl rfl rfl
  | takeSnapshot => exact h
  | goBack => exact absurd rfl hleave

/-- The game is consistent, and so is every game there is to return to. No snapshot knows of more
men than a later one or than the game, so that none of them is missed on going back. -/
structure Sound (x : Session) : Prop where
  game : x.arbiter.toGame.Consistent
  saved : ∀ s ∈ x.scopes, ∀ g : Game, s.saved.roster.size ≤ g.roster.size →
    (g.restore s.saved).Consistent
  grown : (x.arbiter.roster.size :: x.scopes.map (·.saved.roster.size)).Pairwise (· ≥ ·)

theorem Sound.plain (h : x.Sound) {action : Action} (henter : action.enters = false)
    (hleave : action ≠ .goBack) : (x.act action).Sound := by
  have hscopes := x.scopes_act henter hleave
  refine ⟨consistent_act h.game hleave, fun s hs => h.saved s (hscopes ▸ hs), ?_⟩
  rw [hscopes]
  by_cases hopen : x.scopes = []
  · rw [hopen]
    exact List.pairwise_singleton _ _
  · obtain ⟨hmost, hrest⟩ := List.pairwise_cons.1 h.grown
    have hmen := (extends_act hopen henter hleave).grown.men
    exact List.pairwise_cons.2 ⟨fun n hn => (hmost n hn).trans hmen, hrest⟩

theorem Sound.enter (h : x.Sound) (rollback : Bool) : (x.enter rollback).Sound where
  game := by
    cases rollback with
    | true => exact h.game.congr rfl rfl rfl
    | false => exact h.game
  saved s hs g hmen := by
    rcases List.mem_cons.1 hs with rfl | hs
    · exact h.game.congr (Game.toTable_restore hmen) rfl rfl
    · exact h.saved s hs g hmen
  grown := by
    have hsize : (x.enter rollback).arbiter.roster.size = x.arbiter.roster.size := by
      cases rollback <;> rfl
    rw [hsize]
    refine List.pairwise_cons.2 ⟨?_, h.grown⟩
    intro n hn
    rcases List.mem_cons.1 hn with rfl | hn
    · exact le_rfl
    · exact (List.pairwise_cons.1 h.grown).1 n hn

theorem Sound.goBack (h : x.Sound) : x.goBack.Sound := by
  unfold Session.goBack
  cases hscopes : x.scopes with
  | nil => exact h
  | cons s rest =>
    have hgrown := h.grown
    rw [hscopes, List.map_cons] at hgrown
    obtain ⟨hmost, hrest⟩ := List.pairwise_cons.1 hgrown
    -- nobody has left the roster since, so everybody is found again
    have hmen : s.saved.roster.size ≤ x.arbiter.roster.size := hmost _ List.mem_cons_self
    have hback := h.saved s (hscopes ▸ List.mem_cons_self) x.arbiter.toGame hmen
    have hroster : (x.arbiter.restore s.saved).roster = s.saved.roster :=
      congrArg Table.roster (Game.toTable_restore hmen)
    rw [← hroster] at hrest
    refine ⟨?_, fun t ht => h.saved t (hscopes ▸ List.mem_cons_of_mem s ht), ?_⟩
    · dsimp only
      split_ifs
      · exact hback.congr rfl rfl rfl
      · exact hback
    · dsimp only
      split_ifs
      · exact hrest
      · exact hrest

theorem Sound.act (h : x.Sound) (action : Action) : (x.act action).Sound := by
  cases action with
  | openScope => exact h.enter true
  | takeSnapshot => exact h.enter false
  | goBack => exact h.goBack
  | reset | clear | loadFen | add | remove | setActive | setTarget | request | resolve
  | resolveText | legalDestinations => exact h.plain rfl nofun

theorem sound_opening (journal : Journal) : (opening journal).Sound :=
  ⟨Arbiter.consistent_takeUp Game.consistent_start, nofun, List.pairwise_singleton _ _⟩

theorem Sound.run (h : x.Sound) (actions : List Action) : (x.run actions).Sound := by
  induction actions generalizing x with
  | nil => exact h
  | cons action actions ih => exact ih (h.act action)

/-- Some run from a new arbiter leads here. -/
def Reached (x : Session) : Prop := ∃ journal actions, x = (opening journal).run actions

theorem Reached.sound (h : x.Reached) : x.Sound := by
  obtain ⟨journal, actions, rfl⟩ := h
  exact (sound_opening journal).run actions

/-- In every session a man stands on a square exactly if the roster says so and he is in play;
nobody is listed twice; whoever was captured stands nowhere; and the bitboards are the squares of
each side's men and of all men in play. A pawn to be taken in passing is there, an enemy's, and so
are the king and the rook of an open castle. -/
theorem books_agree (h : x.Reached) :
    (∀ s m, x.arbiter.board.occupant s = some m ↔
      x.arbiter.square? m = some s ∧ m ∈ x.arbiter.live.get m.colour) ∧
    (x.arbiter.roll.map Man.id).Nodup ∧
    (∀ c, ∀ m ∈ x.arbiter.captured.get c, x.arbiter.square? m = none) ∧
    (∀ c s, (x.arbiter.board.sides.get c).has s = true ↔
      ∃ m ∈ x.arbiter.live.get c, x.arbiter.square? m = some s) ∧
    (∀ s, x.arbiter.board.occupied.has s = true ↔
      ∃ c, ∃ m ∈ x.arbiter.live.get c, x.arbiter.square? m = some s) ∧
    (∀ src dst promotion s, x.arbiter.assess src dst promotion = .ok (.step s) →
      s.passing = true → ∃ v, x.arbiter.board.occupant s.passed = some v ∧ v.kind = .pawn ∧
        v.colour = s.man.colour.opposite) ∧
    ∀ w, x.arbiter.canCastle x.arbiter.active w = true →
      ∃ k r, x.arbiter.AtHome x.arbiter.active w k r := by
  have hgame := h.sound.game
  have hseen : ∀ c s, (∃ m, x.arbiter.board.occupant s = some m ∧ m.colour = c) ↔
      ∃ m ∈ x.arbiter.live.get c, x.arbiter.square? m = some s := by
    intro c s
    constructor
    · rintro ⟨m, hm, rfl⟩
      exact ⟨m, hgame.live_of_occupant hm, hgame.square?_of_occupant hm⟩
    · rintro ⟨m, hlive, hsq⟩
      obtain rfl := hgame.live_colour c m hlive
      exact ⟨m, (hgame.occupant_iff s m).2 ⟨hsq, hlive⟩, rfl⟩
  refine ⟨hgame.occupant_iff, Game.nodup_roll hgame.toCoherent, hgame.captured_off, ?_, ?_, ?_,
    fun w hw => Game.atHome_of_canCastle hw⟩
  · intro c s
    rw [← hseen, hgame.faithful.side, Option.any_eq_true]
    simp only [beq_iff_eq]
  · intro s
    rw [hgame.faithful.occupied, exists_congr fun c => (hseen c s).symm]
    cases x.arbiter.board.occupant s <;> simp
  · intro src dst promotion s hs hp
    obtain ⟨_, _, _, hvictim⟩ :=
      (Game.admits_of_assess hs).1.victim_of_passing hgame.toCoherent hp
    exact hvictim

/-- A pawn beside a target set by hand, and a king and a rook at home. -/
def arranged : Session :=
  (opening {}).run [.clear, .add ⟨.king, .white⟩ ⟨4, 0⟩, .add ⟨.rook, .white⟩ ⟨7, 0⟩,
    .add ⟨.pawn, .white⟩ ⟨4, 4⟩, .add ⟨.pawn, .black⟩ ⟨3, 4⟩, .openScope, .setTarget (some ⟨3, 5⟩)]

theorem arranged_books_agree :
    (∃ s, arranged.arbiter.assess ⟨4, 4⟩ ⟨3, 5⟩ none = .ok (.step s) ∧ s.passing = true ∧
      ∃ v, arranged.arbiter.board.occupant s.passed = some v ∧ v.kind = .pawn ∧
        v.colour = s.man.colour.opposite) ∧
    arranged.arbiter.canCastle arranged.arbiter.active .king = true ∧
    ∃ k r, arranged.arbiter.AtHome arranged.arbiter.active .king k r := by
  have hagree := books_agree (x := arranged) ⟨_, _, rfl⟩
  obtain ⟨s, hs, hp⟩ : ∃ s, arranged.arbiter.assess ⟨4, 4⟩ ⟨3, 5⟩ none = .ok (.step s) ∧
      s.passing = true := ⟨_, rfl, by decide⟩
  have hw : arranged.arbiter.canCastle arranged.arbiter.active .king = true := by decide
  exact ⟨⟨s, hs, hp, hagree.2.2.2.2.2.1 _ _ _ s hs hp⟩, hw, hagree.2.2.2.2.2.2 _ hw⟩

end Session

end ChessArbiter
