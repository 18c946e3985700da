import ChessArbiter.Proofs.Session

/-!
# Rolling back

A snapshot keeps of the log only its length, and of the men only their status by number, so
returning to it is exact as long as neither has been cut shorter. Nothing that can be done while a
scope is open does that: a completed move adds an entry to the log, a title changes the entry just
made, and whoever is captured or promoted stays on the roster (`extends_act`). Inner scopes cut back
what they have added and no more. Hence the way back from a session leads through the very games at
which the open scopes were entered (`LeadsBack.act`), innermost first, and a scope whose inner
scopes are all left again ends where it began (`act_goBack_nested`).
-/

namespace ChessArbiter

namespace Arbiter

variable {a b : Arbiter}

theorem toGame_restoreTo {o : Game} (hgrown : o.Grown a.toGame) (hdepth : a.depth = o.depth) :
    (a.restoreTo o.snapshot).toGame = o := by
  simp only [restoreTo, hgrown.restore, hdepth]

theorem toGame_closeScope {o : Game} (hgrown : o.Grown a.toGame)
    (hdepth : a.depth = o.depth + 1) : (a.closeScope o.snapshot).toGame = o := by
  simp only [closeScope, restoreTo, hgrown.restore, hdepth, Nat.add_sub_cancel]

end Arbiter

/-! ### Entering and leaving -/

namespace Action

/-- Whatever is entered on the way is also left again. A snapshot that is returned to more than once
is taken anew each time, and one that is never returned to might as well not be taken. -/
inductive Nested : List Action → Prop
  | nil : Nested []
  | plain {action : Action} {rest : List Action} (henter : action.enters = false)
      (hleave : action ≠ .goBack) (hrest : Nested rest) : Nested (action :: rest)
  | entered {enter : Action} {inner rest : List Action} (henter : enter.enters = true)
      (hinner : Nested inner) (hrest : Nested rest) :
      Nested (enter :: (inner ++ .goBack :: rest))

end Action

namespace Session

variable {x : Session} {g o : Game} {games : List Game} {scopes : List Scope} {s : Scope}
  {action enter : Action} {actions inner : List Action}

theorem run_append (x : Session) (before after : List Action) :
    x.run (before ++ after) = (x.run before).run after := List.foldl_append

theorem goBack_eq (hscopes : x.scopes = s :: scopes) (hsaved : s.saved = o.snapshot)
    (hgrown : o.Grown x.arbiter.toGame) (hdepth : x.arbiter.depth = o.depth + s.rollback.toNat) :
    x.goBack.arbiter.toGame = o ∧ x.goBack.scopes = scopes := by
  unfold Session.goBack
  rw [hscopes]
  refine ⟨?_, rfl⟩
  dsimp only
  rw [hsaved]
  split_ifs with hrollback
  · rw [hrollback] at hdepth
    exact Arbiter.toGame_closeScope hgrown hdepth
  · rw [Bool.not_eq_true] at hrollback
    rw [hrollback] at hdepth
    exact Arbiter.toGame_restoreTo hgrown hdepth

theorem act_of_enters (henter : enter.enters = true) (x : Session) :
    ∃ s, (x.act enter).scopes = s :: x.scopes ∧ s.saved = x.arbiter.snapshot ∧
      x.arbiter.Grown (x.act enter).arbiter.toGame ∧
      (x.act enter).arbiter.depth = x.arbiter.depth + s.rollback.toNat := by
  cases enter with
  | openScope =>
    exact ⟨⟨x.arbiter.snapshot, true⟩, rfl, rfl, ⟨List.prefix_rfl, le_rfl⟩, rfl⟩
  | takeSnapshot => exact ⟨⟨x.arbiter.snapshot, false⟩, rfl, rfl, .refl _, rfl⟩
  | reset | clear | loadFen | add | remove | setActive | setTarget | request | resolve
  | resolveText | legalDestinations | goBack => cases henter

theorem scopes_ne_nil_of_enters (henter : enter.enters = true) (x : Session) :
    (x.act enter).scopes ≠ [] := by
  obtain ⟨s, htop, _⟩ := act_of_enters henter x
  rw [htop]
  exact List.cons_ne_nil _ _

theorem goBack_of_extends (henter : enter.enters = true) {y : Session}
    (hscopes : y.scopes = (x.act enter).scopes)
    (hext : (x.act enter).arbiter.Extends y.arbiter) :
    y.goBack.arbiter.toGame = x.arbiter.toGame ∧ y.goBack.scopes = x.scopes := by
  obtain ⟨s, htop, hsaved, hgrown, hdepth⟩ := act_of_enters henter x
  refine goBack_eq (hscopes.trans htop) hsaved (hgrown.trans hext.grown) ?_
  rw [hext.depth, hdepth]

theorem extends_run_nested (hnested : Action.Nested inner) (hopen : x.scopes ≠ []) :
    (x.run inner).scopes = x.scopes ∧ x.arbiter.Extends (x.run inner).arbiter := by
  induction hnested generalizing x with
  | nil => exact ⟨rfl, Arbiter.extends_of_toGame_eq rfl⟩
  | @plain action rest henter hleave _ ih =>
    have hscopes := x.scopes_act henter hleave
    have hopen' : (x.act action).scopes ≠ [] := by rwa [hscopes]
    obtain ⟨hscopes', hext⟩ := ih hopen'
    exact ⟨hscopes'.trans hscopes, (extends_act hopen henter hleave).trans hext⟩
  | @entered enter inner rest henter _ _ ihinner ihrest =>
    obtain ⟨hscopes, hext⟩ := ihinner (scopes_ne_nil_of_enters henter x)
    obtain ⟨hgame, hbase⟩ := goBack_of_extends henter hscopes hext
    have hrest := ihrest (x := ((x.act enter).run inner).goBack) (by rwa [hbase])
    have hrun : x.run (enter :: (inner ++ .goBack :: rest)) =
        (((x.act enter).run inner).goBack).run rest := run_append (x.act enter) inner _
    rw [hrun]
    -- on leaving the inner scope the game is what it was before
    exact ⟨hrest.1.trans hbase, (Arbiter.extends_of_toGame_eq hgame).trans hrest.2⟩

theorem act_goBack_nested (henter : enter.enters = true) (hnested : Action.Nested inner) :
    ((x.act enter).run inner).goBack.arbiter.toGame = x.arbiter.toGame ∧
      ((x.act enter).run inner).goBack.scopes = x.scopes := by
  obtain ⟨hscopes, hext⟩ := extends_run_nested hnested (scopes_ne_nil_of_enters henter x)
  exact goBack_of_extends henter hscopes hext

/-! ### The way back -/

/-- The games at which what is still open was entered, innermost first. -/
def entered : List Action → Session → List Game → List Game
  | [], _, games => games
  | action :: rest, x, games =>
    entered rest (x.act action)
      (if action.enters then x.arbiter.toGame :: games
        else if action = .goBack then games.tail else games)

/-- The games come back to on leaving all that is open, innermost first. -/
def wayBack (x : Session) : List Game :=
  (List.range x.scopes.length).map fun k =>
    (x.run (List.replicate (k + 1) .goBack)).arbiter.toGame

/-- From a game with these scopes open the way back leads through the given games. -/
inductive LeadsBack : List Scope → Game → List Game → Prop
  | nil {g : Game} : LeadsBack [] g []
  | cons {s : Scope} {scopes : List Scope} {g o : Game} {games : List Game}
      (hsaved : s.saved = o.snapshot) (hgrown : o.Grown g)
      (hdepth : g.depth = o.depth + s.rollback.toNat) (hrest : LeadsBack scopes o games) :
      LeadsBack (s :: scopes) g (o :: games)

theorem LeadsBack.wayBack_eq (h : LeadsBack scopes g games) (hscopes : x.scopes = scopes)
    (hg : x.arbiter.toGame = g) : x.wayBack = games := by
  induction h generalizing x with
  | nil =>
    unfold wayBack
    rw [hscopes]
    rfl
  | cons hsaved hgrown hdepth _ ih =>
    rw [← hg] at hgrown hdepth
    obtain ⟨hgame, hbase⟩ := goBack_eq hscopes hsaved hgrown hdepth
    rw [← ih hbase hgame]
    unfold wayBack
    rw [hscopes, hbase, List.length_cons, List.range_succ_eq_map, List.map_cons, List.map_map]
    exact congrArg (· :: _) hgame

theorem LeadsBack.extend {g' : Game} (h : LeadsBack scopes g games) (hgrown : g.Grown g')
    (hdepth : g'.depth = g.depth) : LeadsBack scopes g' games := by
  cases h with
  | nil => exact .nil
  | cons hsaved hgrown' hdepth' hrest =>
    exact .cons hsaved (hgrown'.trans hgrown) (hdepth.trans hdepth') hrest

theorem LeadsBack.act (h : LeadsBack x.scopes x.arbiter.toGame games) (action : Action) :
    LeadsBack (x.act action).scopes (x.act action).arbiter.toGame
      (if action.enters then x.arbiter.toGame :: games
        else if action = .goBack then games.tail else games) := by
  split_ifs with henter hleave
  · obtain ⟨s, htop, hsaved, hgrown, hdepth⟩ := act_of_enters henter x
    rw [htop]
    exact .cons hsaved hgrown hdepth h
  · subst hleave
    change LeadsBack x.goBack.scopes x.goBack.arbiter.toGame games.tail
    generalize hscopes : x.scopes = scopes at h
    cases h with
    | nil =>
      have hstay : x.goBack = x := by
        unfold Session.goBack
        rw [hscopes]
      rw [hstay, hscopes]
      exact .nil
    | cons hsaved hgrown hdepth hrest =>
      obtain ⟨hgame, hbase⟩ := goBack_eq hscopes hsaved hgrown hdepth
      rw [hgame, hbase]
      exact hrest
  · rw [Bool.not_eq_true] at henter
    rw [x.scopes_act henter hleave]
    by_cases hopen : x.scopes = []
    · rw [hopen] at h ⊢
      cases h
      exact .nil
    -- something is open, so the game can only have grown since it was entered
    · obtain ⟨hgrown, hdepth⟩ := extends_act hopen henter hleave
      exact h.extend hgrown hdepth

theorem LeadsBack.run (h : LeadsBack x.scopes x.arbiter.toGame games) (actions : List Action) :
    LeadsBack (x.run actions).scopes (x.run actions).arbiter.toGame
      (entered actions x games) := by
  induction actions generalizing x games with
  | nil => exact h
  | cons action actions ih => exact ih (h.act action)

/-- Leaving a scope or returning to a snapshot gives back the game at which it was entered, board,
roster, lists, log, counters and all, whatever was done meanwhile; and after any run at all, leaving
what is still open leads back through the games at which it was entered, innermost first. Looking
for the destinations of a man and resolving a written move leave the game as it is. -/
theorem rollback_exact :
    (∀ (x : Session) (enter : Action) (inner : List Action), enter.enters = true →
      Action.Nested inner →
      (x.run (enter :: (inner ++ [.goBack]))).arbiter.toGame = x.arbiter.toGame ∧
      (x.run (enter :: (inner ++ [.goBack]))).scopes = x.scopes) ∧
    (∀ (journal : Journal) (actions : List Action),
      ((opening journal).run actions).wayBack = entered actions (opening journal) []) ∧
    ∀ a : Arbiter, (∀ src, (a.legalDestinations src).2.toGame = a.toGame) ∧
      (∀ n, (a.resolve n).2.toGame = a.toGame) ∧
      ∀ text, (a.resolveText text).2.toGame = a.toGame := by
  refine ⟨fun x enter inner henter hnested => ?_, fun journal actions => ?_, fun a => ?_⟩
  · have hrun : x.run (enter :: (inner ++ [.goBack])) = ((x.act enter).run inner).goBack :=
      run_append (x.act enter) inner [.goBack]
    rw [hrun]
    exact act_goBack_nested henter hnested
  · have hstart : LeadsBack (opening journal).scopes (opening journal).arbiter.toGame [] := .nil
    exact (hstart.run actions).wayBack_eq rfl rfl
  · exact ⟨a.toGame_legalDestinations, a.toGame_resolve, a.toGame_resolveText⟩

/-- A pawn is taken in passing, a rook is removed and put back, and Black is given a queen from
which White's king steps away and back. -/
def detour : List Action :=
  [.request (.move ⟨4, 4⟩ ⟨3, 5⟩ none), .openScope, .remove ⟨7, 0⟩, .goBack,
    .add ⟨.queen, .black⟩ ⟨0, 0⟩, .takeSnapshot, .setActive .white, .request (.play "Kd2"), .goBack]

theorem nested_detour : Action.Nested detour := by
  have hremove : Action.Nested [.remove ⟨7, 0⟩] := .plain rfl nofun .nil
  have hflight : Action.Nested [.setActive .white, .request (.play "Kd2")] :=
    .plain rfl nofun (.plain rfl nofun .nil)
  exact .plain rfl nofun (.entered rfl hremove (.plain rfl nofun (.entered rfl hflight .nil)))

theorem arranged_rollback_exact :
    Action.openScope.enters = true ∧ Action.Nested detour ∧
      (arranged.run (.openScope :: detour)).arbiter.toGame ≠ arranged.arbiter.toGame ∧
      (arranged.run (.openScope :: (detour ++ [.goBack]))).arbiter.toGame =
        arranged.arbiter.toGame := by
  have hdiffers : (arranged.run (.openScope :: detour)).arbiter.moves.length ≠
      arranged.arbiter.moves.length := by decide +kernel
  refine ⟨rfl, nested_detour, fun hsame => hdiffers (by rw [hsame]), ?_⟩
  exact (rollback_exact.1 arranged .openScope detour rfl nested_detour).1

end Session

end ChessArbiter
