import Mathlib.Data.List.Basic
import ChessArbiter.Replay
import ChessArbiter.Proofs.PositionText

/-!
# What a report says

`Arbiter.after?` plays a list of moves and gives the arbiter where they lead, if each of them is
granted. A report names the longest beginning of the recorded moves for which that is so: its number
is their count, its position is the one they lead to, and the refusal it quotes is the answer given
there to the next move (`Report.Follows`). The moves behind that one are not looked at.
-/

namespace ChessArbiter

namespace Arbiter

variable {a b c : Arbiter} {text : String} {moves : List String} {k : Nat}

/-- Where the moves lead if all of them are granted. -/
def after? (a : Arbiter) : List String → Option Arbiter
  | [] => some a
  | text :: rest =>
    match a.play text with
    | (.ok _, b) => b.after? rest
    | (.error _, _) => none

theorem after?_cons_ok {r : MoveRecord} (h : a.play text = (.ok r, b)) (rest : List String) :
    a.after? (text :: rest) = b.after? rest := by
  rw [after?, h]

theorem after?_cons_error {e : MoveError} (h : a.play text = (.error e, b)) (rest : List String) :
    a.after? (text :: rest) = none := by
  rw [after?, h]

theorem after?_append (a : Arbiter) (moves rest : List String) :
    a.after? (moves ++ rest) = (a.after? moves).bind (·.after? rest) := by
  induction moves generalizing a with
  | nil => rfl
  | cons text moves ih =>
    rcases h : a.play text with ⟨e | r, b⟩
    · rw [List.cons_append, after?_cons_error h, after?_cons_error h]
      rfl
    · rw [List.cons_append, after?_cons_ok h, after?_cons_ok h]
      exact ih b

theorem isSome_after?_of_prefix {l l' : List String} (h : l <+: l')
    (hsome : (a.after? l').isSome = true) : (a.after? l).isSome = true := by
  obtain ⟨rest, rfl⟩ := h
  rw [after?_append] at hsome
  exact Option.isSome_of_isSome_bind hsome

/-- The moves up to one that is refused lead to `b`, and so no more of them can be played. -/
theorem le_of_refused {e : MoveError} (h : a.after? (moves.take k) = some b)
    (htext : moves[k]? = some text) (hrefused : b.play text = (.error e, c)) {j : Nat}
    (hj : (a.after? (moves.take j)).isSome = true) : j ≤ k := by
  by_contra hlt
  obtain ⟨hk, htext⟩ := List.getElem?_eq_some_iff.1 htext
  have hnext : moves.take (k + 1) = moves.take k ++ [text] := by
    rw [← htext, List.take_append_getElem]
  have hplayed : (a.after? (moves.take (k + 1))).isSome = true :=
    isSome_after?_of_prefix (List.take_prefix_take_left (Nat.lt_of_not_le hlt)) hj
  rw [hnext, after?_append, h, Option.bind_some, after?_cons_error hrefused] at hplayed
  cases hplayed

theorem playAll_cases (a : Arbiter) (played : Nat) (moves : List String) :
    ∃ k b, k ≤ moves.length ∧ a.after? (moves.take k) = some b ∧
      ((k = moves.length ∧ a.playAll played moves = ((played + k, none), b)) ∨
        ∃ text e c, moves[k]? = some text ∧ b.play text = (.error e, c) ∧
          ∀ later, a.playAll played (moves.take (k + 1) ++ later) =
            ((played + k, some (text, e)), c)) := by
  induction moves generalizing a played with
  | nil => exact ⟨0, a, le_rfl, rfl, .inl ⟨rfl, rfl⟩⟩
  | cons text rest ih =>
    rcases h : a.play text with ⟨e | r, b⟩
    -- refused at once, whatever the rest may be
    · refine ⟨0, a, Nat.zero_le _, rfl, .inr ⟨text, e, b, rfl, h, fun later => ?_⟩⟩
      change a.playAll played (text :: later) = _
      rw [playAll, h]
      rfl
    · obtain ⟨k, c, hk, hafter, hcases⟩ := ih b (played + 1)
      have hplayed : played + 1 + k = played + (k + 1) := by omega
      refine ⟨k + 1, c, Nat.succ_le_succ hk, ?_, ?_⟩
      · rw [List.take_succ_cons, after?_cons_ok h]
        exact hafter
      · rw [hplayed] at hcases
        rcases hcases with ⟨hlength, hall⟩ | ⟨text', e, d, htext, hrefused, hall⟩
        · left
          refine ⟨congrArg Nat.succ hlength, ?_⟩
          rw [playAll, h]
          exact hall
        · right
          refine ⟨text', e, d, htext, hrefused, fun later => ?_⟩
          rw [List.take_succ_cons, List.cons_append, playAll, h]
          exact hall later

end Arbiter

/-- The report is that of `moves` played from `a` on, which end or are refused at `b`. -/
structure Report.Follows (r : Report) (a b : Arbiter) (moves : List String) : Prop where
  le_length : r.movesPlayed ≤ moves.length
  played : a.after? (moves.take r.movesPlayed) = some b
  longest : ∀ j ≤ moves.length, (a.after? (moves.take j)).isSome = true → j ≤ r.movesPlayed
  finalFen_eq : r.finalFen = b.toFen
  finalBoard_eq : r.finalBoard = b.board.render [] .glyphs
  passed_iff : r.passed = true ↔ r.movesPlayed = moves.length
  refused : r.passed = false → ∃ text e, moves[r.movesPlayed]? = some text ∧
    r.failedMove = some text ∧ (b.play text).1 = .error e ∧ r.error = some e ∧ e.fen = r.finalFen

/-! ### Replaying a game -/

/-- The text of the position in which a game begins that names no other. -/
def startText : String := "rnbqkbnr/pppppppp/8/8/8/8/PPPPPPPP/RNBQKBNR w KQkq - 0 1"

theorem toFen_start : Game.start.toFen = startText := by decide +kernel

theorem toGame_takeUp (a : Arbiter) (g : Game) :
    (a.takeUp g).toGame = { g with depth := a.depth } :=
  rfl

theorem toFen_setDepth (g : Game) (n : Nat) : { g with depth := n }.toFen = g.toFen :=
  Game.toFen_congr rfl rfl rfl rfl rfl

theorem toFen_opening (journal : Journal) : (Arbiter.opening journal).toFen = startText := by
  rw [Arbiter.opening, Arbiter.reset, Arbiter.toGame_note, toGame_takeUp, toFen_setDepth,
    toFen_start]

variable {level : Option LogLevel} {game : PgnGame} {a b : Arbiter} {e : MoveError}

theorem PgnGame.tag_congr {name name' : String} (h : Text.lower name = Text.lower name')
    (game : PgnGame) : game.tag name = game.tag name' := by
  rw [tag, tag, h]

theorem replay_of_refused
    (h : (Arbiter.opening { threshold := level }).setUpFor game = (.error e, a)) :
    (replay level game).1 = .ofGame game.title a.toGame 0 (some (none, e)) := by
  rw [replay, h]

theorem replay_of_setUp {played : Nat} {failure : Option (String × MoveError)}
    (h : (Arbiter.opening { threshold := level }).setUpFor game = (.ok (), a))
    (hplay : a.playAll 0 game.moves = ((played, failure), b)) :
    (replay level game).1 = .ofGame game.title b.toGame played
      (failure.map fun (text, e) => (some text, e)) := by
  rw [replay, h]
  dsimp only
  rw [hplay]

theorem replay_congr {moves : List String}
    (h : (Arbiter.opening { threshold := level }).setUpFor game = (.ok (), a))
    (hplay : a.playAll 0 moves = a.playAll 0 game.moves) :
    replay level { game with moves } = replay level game := by
  have h' : (Arbiter.opening { threshold := level }).setUpFor { game with moves } = (.ok (), a) := h
  rw [replay, replay, h, h']
  dsimp only
  rw [hplay]
  rfl

theorem follows_replay (h : (Arbiter.opening { threshold := level }).setUpFor game = (.ok (), a)) :
    ∃ b, (replay level game).1.Follows a b game.moves ∧
      ((replay level game).1.passed = false → ∀ later,
        replay level { game with
          moves := game.moves.take ((replay level game).1.movesPlayed + 1) ++ later } =
            replay level game) := by
  obtain ⟨k, b, hk, hafter, ⟨hlength, hplay⟩ | ⟨text, e, c, htext, hrefused, hplay⟩⟩ :=
    a.playAll_cases 0 game.moves
  · rw [Nat.zero_add] at hplay
    refine ⟨b, ?_, ?_⟩
    · rw [replay_of_setUp h hplay]
      exact ⟨hk, hafter, fun j hj _ => hlength ▸ hj, rfl, rfl, iff_of_true rfl hlength, nofun⟩
    · rw [replay_of_setUp h hplay]
      nofun
  · rw [Nat.zero_add] at hplay
    have hlt : k < game.moves.length := (List.getElem?_eq_some_iff.1 htext).1
    -- the moves after the one refused were never looked at, so any others will do
    have hall : a.playAll 0 game.moves = ((k, some (text, e)), c) := by
      have hwhole := hplay (game.moves.drop (k + 1))
      rwa [List.take_append_drop] at hwhole
    obtain ⟨hgame, hfen⟩ := Arbiter.play_error hrefused
    have hreport := replay_of_setUp h hall
    refine ⟨b, ?_, fun _ later => ?_⟩
    · rw [hreport]
      refine ⟨hk, hafter, ?_, ?_, ?_, ?_, ?_⟩
      · exact fun j _ hj => Arbiter.le_of_refused hafter htext hrefused hj
      · exact congrArg Game.toFen hgame
      · exact congrArg (·.board.render [] .glyphs) hgame
      · exact iff_of_false nofun hlt.ne
      · intro _
        refine ⟨text, e, htext, rfl, congrArg Prod.fst hrefused, rfl, hfen.trans ?_⟩
        exact congrArg Game.toFen hgame.symm
    · rw [hreport]
      exact replay_congr h ((hplay later).trans hall.symm)

/-- A game whose starting position is refused is reported as failed before its first move. Any other
report follows the game's moves as far as they can be played, and would be the same if others came
after the one refused. -/
theorem replay_reports (level : Option LogLevel) (game : PgnGame) {name : String}
    (hname : Text.lower name = "fen") :
    let report := (replay level game).1
    let start := Arbiter.opening { threshold := level }
    (∀ fen e a, game.tag name = some fen → start.loadFen fen = (.error e, a) →
      report.passed = false ∧ report.movesPlayed = 0 ∧ report.failedMove = none ∧
        report.error = some e ∧ e.fen = startText ∧ report.finalFen = startText) ∧
    start.toFen = startText ∧
    ∀ a, (game.tag name = none ∧ a = start ∨
        ∃ fen, game.tag name = some fen ∧ start.loadFen fen = (.ok (), a)) →
      ∃ b, report.Follows a b game.moves ∧
        (report.passed = false → ∀ later,
          replay level { game with
            moves := game.moves.take (report.movesPlayed + 1) ++ later } = replay level game) := by
  intro report start
  have htag : game.tag name = game.tag "fen" := PgnGame.tag_congr hname game
  rw [htag]
  refine ⟨?_, toFen_opening _, ?_⟩
  · intro fen e a hfen hload
    obtain ⟨hgame, herror⟩ := Arbiter.loadFen_error hload
    have hset : start.setUpFor game = (.error e, a) := by
      rw [Arbiter.setUpFor, hfen]
      exact hload
    have hreport : report = .ofGame game.title a.toGame 0 (some (none, e)) :=
      replay_of_refused hset
    rw [hreport]
    refine ⟨rfl, rfl, rfl, rfl, herror.trans (toFen_opening _), ?_⟩
    exact (congrArg Game.toFen hgame).trans (toFen_opening _)
  · intro a ha
    apply follows_replay
    rcases ha with ⟨hnone, rfl⟩ | ⟨fen, hfen, hload⟩
    · rw [Arbiter.setUpFor, hnone]
    · rw [Arbiter.setUpFor, hfen]
      exact hload

def straying : PgnGame :=
  { tags := [("fen", "4k3/8/8/8/8/8/4P3/4K3 w - - 0 1")], moves := ["e4", "Kd7", "Ke5", "Kd2"] }

theorem straying_replay_reports :
    (∃ a b, (Arbiter.opening {}).loadFen "4k3/8/8/8/8/8/4P3/4K3 w - - 0 1" = (.ok (), a) ∧
      (replay none straying).1.Follows a b straying.moves) ∧
    (replay none straying).1.movesPlayed = 2 ∧
    replay none { straying with moves := ["e4", "Kd7", "Ke5"] } = replay none straying ∧
    (replay none { straying with tags := [("fen", "e4")] }).1.finalFen = startText := by
  have hcount : (replay none straying).1.movesPlayed = 2 := by decide +kernel
  have hfailed : (replay none straying).1.passed = false := by decide +kernel
  have hloaded :
      ((Arbiter.opening {}).loadFen "4k3/8/8/8/8/8/4P3/4K3 w - - 0 1").1.isOk = true := by
    decide +kernel
  have hrefused : ((Arbiter.opening {}).loadFen "e4").1.isOk = false := by decide +kernel
  obtain ⟨-, -, hfollows⟩ := @replay_reports none straying "FEN" (by decide)
  obtain ⟨hstays, -⟩ := @replay_reports none { straying with tags := [("fen", "e4")] }
    "FEN" (by decide)
  rcases hload : (Arbiter.opening {}).loadFen "4k3/8/8/8/8/8/4P3/4K3 w - - 0 1" with ⟨e | _, a⟩
  · rw [hload] at hloaded
    cases hloaded
  · obtain ⟨b, hb, hlater⟩ := hfollows a (.inr ⟨_, rfl, hload⟩)
    have hsame := hlater hfailed []
    rw [hcount] at hsame
    refine ⟨⟨a, b, rfl, hb⟩, hcount, hsame, ?_⟩
    rcases htext : (Arbiter.opening {}).loadFen "e4" with ⟨e | _, c⟩
    · obtain ⟨-, -, -, -, -, hfen⟩ := hstays "e4" e c rfl htext
      exact hfen
    · rw [htext] at hrefused
      cases hrefused

end ChessArbiter
