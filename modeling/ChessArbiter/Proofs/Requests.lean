import ChessArbiter.Resolution
import ChessArbiter.Proofs.Turns

/-!
# Requests

A `Request` is what a player may ask of the arbiter. Reading a written move tries out moves in
scopes that are closed again, so that it leaves the game alone (`toGame_resolve`). A granted
request is one turn, after which a written move may retitle its entry (`answer_granted`); a refused
one leaves the game as it was and reports its position (`answer_error`). A run is a list of requests
answered in order, refusals included; it keeps what turns and titles keep (`run_keeps`).
-/

namespace ChessArbiter

inductive Request where
  | move (src dst : Square) (promotion : Option PieceKind)
  | moveByName (src dst : String)
  | castle (wing : Wing)
  | play (text : String)
deriving DecidableEq

namespace Arbiter

def answer (a : Arbiter) : Request → Except MoveError MoveRecord × Arbiter
  | .move src dst promotion => a.move src dst promotion
  | .moveByName src dst => a.moveByName src dst
  | .castle w => a.castle w
  | .play text => a.play text

def run (a : Arbiter) (requests : List Request) : Arbiter :=
  requests.foldl (fun b q => (b.answer q).2) a

theorem run_cons (a : Arbiter) (q : Request) (qs : List Request) :
    a.run (q :: qs) = (a.answer q).2.run qs := rfl

end Arbiter

/-! ### What reading keeps -/

namespace Notation

variable {n n' : Notation} {cs : List Char} {text : String}

theorem dst_readMiddle (h : readMiddle n cs = .ok n') : n'.dst = n.dst := by
  induction cs generalizing n with
  | nil =>
    obtain rfl := Except.ok.inj h
    rfl
  | cons c cs ih =>
    unfold readMiddle at h
    split_ifs at h
    · exact (ih h :)
    · exact (ih h :)
    · exact (ih h :)
    · exact (ih h :)

theorem dst_readSquares (h : readSquares n cs = .ok n') : n'.dst.isSome := by
  unfold readSquares at h
  split at h
  · split at h
    · rw [dst_readMiddle h]
      rfl
    · cases h
  · cases h

theorem dst_readBody (h : readBody n cs = .ok n') : n'.dst.isSome := by
  unfold readBody at h
  split at h
  · exact dst_readSquares h
  · split at h
    · cases h
    · split_ifs at h
      exact dst_readSquares h

theorem dst_readMove (h : readMove n cs = .ok n') (hcastle : n'.castle = none) :
    n'.dst.isSome := by
  unfold readMove at h
  split at h
  · obtain rfl := Except.ok.inj h
    cases hcastle
  · split at h
    · cases h
    · split_ifs at h
      · split at h
        · exact dst_readBody h
        · cases h
      · exact dst_readBody h

/-- A written move that is no castle names its destination. -/
theorem dst_parse (h : parse text = .ok n) (hcastle : n.castle = none) : n.dst.isSome := by
  unfold parse read at h
  dsimp only at h
  split at h
  case h_2 => cases h
  case h_1 n' hn =>
    obtain rfl := Except.ok.inj h
    split_ifs at hn
    exact dst_readMove hn hcastle

end Notation

namespace Game

variable {g : Game}

/-- The title of an entry changes nothing but the text of the last entry. -/
theorem retitle_eq (g : Game) (text : String) :
    g.retitle text = { g with moves := (g.retitle text).moves } := by
  unfold retitle
  cases g.moves.getLast? with
  | none => rfl
  | some r => rfl

theorem Consistent.retitle (h : g.Consistent) (text : String) : (g.retitle text).Consistent := by
  rw [retitle_eq]
  exact h.congr rfl rfl rfl

theorem moves_retitle (g : Game) (text : String) :
    (g.retitle text).moves =
      g.moves.dropLast ++ g.moves.getLast?.toList.map fun r => { r with text := text } := by
  unfold retitle
  cases hlast : g.moves.getLast? with
  | none =>
    rw [List.getLast?_eq_none_iff] at hlast
    simp [hlast]
  | some r => rfl

/-- One turn leads from `g` to `g'`, and its entry is `r`. -/
def Plays (g : Game) (r : MoveRecord) (g' : Game) : Prop :=
  g.Turn g' ∧ g'.moves = g.moves ++ [r]

theorem retitle_of_plays {r : MoveRecord} {g' : Game} (h : g.Plays r g') (text : String) :
    g'.retitle text = { g' with moves := g.moves ++ [{ r with text := text }] } := by
  rw [retitle_eq, moves_retitle, h.2, List.dropLast_concat, List.getLast?_concat]
  rfl

end Game

namespace Arbiter

variable {a b : Arbiter} {r : MoveRecord} {e : MoveError} {n : Notation}

/-! ### Trying moves out -/

/-- The game has only grown and the scope is the same. -/
structure Extends (a b : Arbiter) : Prop where
  grown : a.toGame.Grown b.toGame
  depth : b.depth = a.depth

theorem extends_of_toGame_eq (h : b.toGame = a.toGame) : a.Extends b := by
  refine ⟨?_, by rw [h]⟩
  rw [h]
  exact .refl _

theorem Extends.trans {c : Arbiter} (h : a.Extends b) (h' : b.Extends c) : a.Extends c :=
  ⟨h.grown.trans h'.grown, h'.depth.trans h.depth⟩

theorem extends_move (a : Arbiter) (src dst : Square) (promotion : Option PieceKind) :
    a.Extends (a.move src dst promotion).2 := by
  rcases h : a.move src dst promotion with ⟨e | r, b⟩
  · obtain ⟨-, hb, -⟩ := move_error h
    exact extends_of_toGame_eq hb
  · have hturn := Game.turn_of_attempt (move_ok h).1
    obtain ⟨_, -, hdepth⟩ := hturn.log
    exact ⟨hturn.grown, hdepth⟩

theorem extends_tryCandidate (dst : Square) (promotion : Option PieceKind) (c : Man × Square)
    (a : Arbiter) : a.Extends (tryCandidate dst promotion c a).2 := by
  have hmove := a.extends_move c.2 dst promotion
  unfold tryCandidate
  split
  case h_1 b h =>
    rw [h] at hmove
    exact hmove
  case h_2 e b h =>
    rw [h] at hmove
    exact hmove.trans (extends_of_toGame_eq (toGame_note _ _ _))

theorem toGame_speculate_of_extends {α : Type} (act : Arbiter → α × Arbiter)
    (hact : ∀ b : Arbiter, b.Extends (act b).2) (a : Arbiter) :
    (a.speculate act).2.toGame = a.toGame := by
  obtain ⟨hgrown, hdepth⟩ := hact a.openScope.2
  exact toGame_speculate a act ⟨hgrown.log, hgrown.men⟩ hdepth

theorem toGame_keep {β : Type} (attempt : β → Arbiter → Bool × Arbiter)
    (hattempt : ∀ x (b : Arbiter), b.Extends (attempt x b).2) (xs : List β) (a : Arbiter) :
    (keep attempt xs a).2.toGame = a.toGame := by
  induction xs generalizing a with
  | nil => rfl
  | cons x xs ih =>
    unfold keep
    exact (ih _).trans (toGame_speculate_of_extends _ (hattempt x) a)

/-- What is kept is what an attempt from the game at hand would grant. -/
theorem fst_keep {β : Type} {attempt : β → Arbiter → Bool × Arbiter}
    (hattempt : ∀ x (b : Arbiter), b.Extends (attempt x b).2) {good : β → Bool}
    (hgood : ∀ x (b : Arbiter), b.toGame = { a.toGame with depth := a.depth + 1 } →
      (attempt x b).1 = good x) (xs : List β) : (keep attempt xs a).1 = xs.filter good := by
  induction xs generalizing a with
  | nil => rfl
  | cons x xs ih =>
    have hback := toGame_speculate_of_extends _ (hattempt x) a
    have hhead : (a.speculate (attempt x)).1 = good x := hgood x a.openScope.2 rfl
    -- the scope is closed again, so the rest is tried on the same game
    have htail : (keep attempt xs (a.speculate (attempt x)).2).1 = xs.filter good := by
      apply ih
      rw [hback]
      exact hgood
    unfold keep
    dsimp only
    rw [hhead, htail, List.filter_cons]

theorem toGame_legalDestinations (a : Arbiter) (src : Square) :
    (a.legalDestinations src).2.toGame = a.toGame := by
  unfold legalDestinations
  split_ifs
  · exact toGame_keep _ (fun dst b => extends_move b src dst none) _ a
  · rfl

theorem toGame_choose (a : Arbiter) (n : Notation) (dst : Square) (men : List (Man × Square)) :
    (a.choose n dst men).2.toGame = a.toGame := by
  unfold choose
  split <;> rfl

theorem fen_choose {dst : Square} {men : List (Man × Square)}
    (h : (a.choose n dst men).1 = .error e) : e.fen = a.toFen := by
  unfold choose at h
  split at h
  · exact Game.fen_of_error h rfl
  · cases h
  · exact Game.fen_of_error h rfl

theorem toGame_resolveTo (a : Arbiter) (n : Notation) (dst : Square) :
    (a.resolveTo n dst).2.toGame = a.toGame := by
  unfold resolveTo
  dsimp only
  split_ifs
  · rfl
  · rfl
  · rw [toGame_choose, toGame_keep _ (fun c b => extends_tryCandidate dst n.promotion c b),
      toGame_note]

theorem fen_resolveTo {dst : Square} (h : (a.resolveTo n dst).1 = .error e) : e.fen = a.toFen := by
  unfold resolveTo at h
  dsimp only at h
  split_ifs at h
  · exact Game.fen_of_error h rfl
  · exact Game.fen_of_error h rfl
  · rw [fen_choose h, toGame_keep _ (fun c b => extends_tryCandidate dst n.promotion c b),
      toGame_note]

/-- Resolving a written move leaves the game alone, whatever it answers. -/
theorem toGame_resolve (a : Arbiter) (n : Notation) : (a.resolve n).2.toGame = a.toGame := by
  unfold resolve
  split
  · dsimp only
    split_ifs <;> rfl
  · rfl
  · exact toGame_resolveTo a n _

theorem fen_resolve (hn : n.castle = none → n.dst.isSome) (h : (a.resolve n).1 = .error e) :
    e.fen = a.toFen := by
  unfold resolve at h
  split at h
  · dsimp only at h
    split_ifs at h
    exact Game.fen_of_error h rfl
  · rename_i hcastle hdst
    have hsome := hn hcastle
    rw [hdst] at hsome
    cases hsome
  · exact fen_resolveTo h

theorem toGame_resolveText (a : Arbiter) (text : String) :
    (a.resolveText text).2.toGame = a.toGame := by
  unfold resolveText
  split
  · rfl
  · exact toGame_resolve a _

/-! ### Answers -/

theorem castle_plays {w : Wing} (h : a.castle w = (.ok r, b)) : a.toGame.Plays r b.toGame := by
  obtain ⟨hopen, hb, hmoves⟩ := castle_ok h
  refine ⟨?_, hmoves⟩
  rw [hb]
  exact .castle hopen

theorem move_plays {src dst : Square} {promotion : Option PieceKind}
    (h : a.move src dst promotion = (.ok r, b)) : a.toGame.Plays r b.toGame := by
  obtain ⟨hb, hmoves⟩ := move_ok h
  exact ⟨Game.turn_of_attempt hb, hmoves⟩

theorem moveByName_plays {src dst : String} (h : a.moveByName src dst = (.ok r, b)) :
    a.toGame.Plays r b.toGame := by
  unfold moveByName at h
  split at h
  · exact castle_plays h
  · split at h
    · exact move_plays h
    · cases h
    · cases h

theorem moveByName_error {src dst : String} (h : a.moveByName src dst = (.error e, b)) :
    b.toGame = a.toGame ∧ e.fen = a.toFen := by
  unfold moveByName at h
  split at h
  · exact (castle_error h).2
  · split at h
    · exact (move_error h).2
    · obtain ⟨he, rfl⟩ := Prod.mk.inj h
      exact ⟨rfl, Game.fen_of_error he rfl⟩
    · obtain ⟨he, rfl⟩ := Prod.mk.inj h
      exact ⟨rfl, Game.fen_of_error he rfl⟩

theorem playNotation_plays (h : a.playNotation n = (.ok r, b)) : a.toGame.Plays r b.toGame := by
  unfold playNotation at h
  split at h
  · exact castle_plays h
  · split at h
    case h_1 => cases h
    case h_2 m a' hm =>
      have ha' : a'.toGame = a.toGame := by rw [← toGame_resolve a n, hm]
      rw [← ha']
      exact move_plays h

theorem playNotation_error (hn : n.castle = none → n.dst.isSome)
    (h : a.playNotation n = (.error e, b)) : b.toGame = a.toGame ∧ e.fen = a.toFen := by
  unfold playNotation at h
  split at h
  · exact (castle_error h).2
  · split at h
    case h_1 e' a' hm =>
      have hgame := toGame_resolve a n
      obtain ⟨he, rfl⟩ := Prod.mk.inj h
      obtain rfl := Except.error.inj he
      rw [hm] at hgame
      exact ⟨hgame, fen_resolve hn (congrArg Prod.fst hm)⟩
    case h_2 m a' hm =>
      have hgame : a'.toGame = a.toGame := by rw [← toGame_resolve a n, hm]
      rw [← hgame]
      exact (move_error h).2

theorem play_plays {text : String} (h : a.play text = (.ok r, b)) :
    ∃ g' r' title, a.toGame.Plays r' g' ∧ r = { r' with text := title } ∧
      b.toGame = g'.retitle title := by
  unfold play at h
  split at h
  case h_1 => cases h
  case h_2 n hn =>
    dsimp only at h
    split at h
    case h_1 => cases h
    case h_2 r' a' hm =>
      obtain ⟨hr, rfl⟩ := Prod.mk.inj h
      have hplays := playNotation_plays hm
      exact ⟨_, r', _, hplays, (Except.ok.inj hr).symm, rfl⟩

theorem play_error {text : String} (h : a.play text = (.error e, b)) :
    b.toGame = a.toGame ∧ e.fen = a.toFen := by
  unfold play at h
  split at h
  case h_1 e' he =>
    obtain ⟨he, rfl⟩ := Prod.mk.inj h
    exact ⟨rfl, Game.fen_of_error he rfl⟩
  case h_2 n hn =>
    dsimp only at h
    split at h
    case h_1 e' a' hm =>
      obtain ⟨he, rfl⟩ := Prod.mk.inj h
      obtain rfl := Except.error.inj he
      have hkept := playNotation_error (Notation.dst_parse hn) hm
      exact hkept
    case h_2 => cases h

/-- A granted request is a turn that enters the answer, after which a written move gives the entry
its title. -/
theorem answer_granted {q : Request} (h : a.answer q = (.ok r, b)) :
    ∃ g' r', a.toGame.Plays r' g' ∧ (r = r' ∧ b.toGame = g' ∨
      ∃ title, r = { r' with text := title } ∧ b.toGame = g'.retitle title) := by
  cases q with
  | move src dst promotion => exact ⟨_, r, move_plays h, .inl ⟨rfl, rfl⟩⟩
  | moveByName src dst => exact ⟨_, r, moveByName_plays h, .inl ⟨rfl, rfl⟩⟩
  | castle w => exact ⟨_, r, castle_plays h, .inl ⟨rfl, rfl⟩⟩
  | play text =>
    obtain ⟨g', r', title, hplays, hr, hb⟩ := play_plays h
    exact ⟨g', r', hplays, .inr ⟨title, hr, hb⟩⟩

theorem answer_ok {q : Request} (h : a.answer q = (.ok r, b)) :
    ∃ g', a.toGame.Turn g' ∧ (b.toGame = g' ∨ ∃ title, b.toGame = g'.retitle title) := by
  obtain ⟨g', _, ⟨hturn, -⟩, ⟨-, hb⟩ | ⟨title, -, hb⟩⟩ := answer_granted h
  · exact ⟨g', hturn, .inl hb⟩
  · exact ⟨g', hturn, .inr ⟨title, hb⟩⟩

/-- But for its title, the answer to a granted request is the entry of a turn. -/
theorem answer_plays {q : Request} (h : a.answer q = (.ok r, b)) :
    ∃ g' title, a.toGame.Plays { r with text := title } g' ∧
      b.toGame = { g' with moves := a.moves ++ [r] } := by
  obtain ⟨g', r', hplays, ⟨rfl, hb⟩ | ⟨title, rfl, hb⟩⟩ := answer_granted h
  · refine ⟨g', r.text, hplays, ?_⟩
    rw [hb, ← hplays.2]
  · refine ⟨g', r'.text, hplays, ?_⟩
    rw [hb, Game.retitle_of_plays hplays]

theorem answer_error {q : Request} (h : a.answer q = (.error e, b)) :
    b.toGame = a.toGame ∧ e.fen = a.toFen := by
  cases q with
  | move src dst promotion => exact (move_error h).2
  | moveByName src dst => exact moveByName_error h
  | castle w => exact (castle_error h).2
  | play text => exact play_error h

section runs

variable {P : Game → Prop} (hturn : ∀ {g g' : Game}, g.Turn g' → P g → P g')
  (htitle : ∀ {g : Game} (title : String), P g → P (g.retitle title))

include hturn htitle

/-- What turns and titles keep is kept by every answer, a refusal included. -/
theorem answer_keeps (h : P a.toGame) (q : Request) : P (a.answer q).2.toGame := by
  rcases hq : a.answer q with ⟨e | r, b⟩
  · rw [(answer_error hq).1]
    exact h
  · obtain ⟨g', ht, hb | ⟨title, hb⟩⟩ := answer_ok hq
    · rw [hb]
      exact hturn ht h
    · rw [hb]
      exact htitle title (hturn ht h)

theorem run_keeps (h : P a.toGame) (qs : List Request) : P (a.run qs).toGame := by
  induction qs generalizing a with
  | nil => exact h
  | cons q qs ih => exact ih (answer_keeps hturn htitle h q)

end runs

theorem loadFen_error {text : String} (h : a.loadFen text = (.error e, b)) :
    b.toGame = a.toGame ∧ e.fen = a.toFen := by
  unfold loadFen at h
  split at h
  case h_1 fault _ =>
    obtain ⟨he, rfl⟩ := Prod.mk.inj h
    exact ⟨rfl, Game.fen_of_error he rfl⟩
  case h_2 => cases h

/-- A refused request and a refused position text leave every part of the game as it was, and
report the position of that game. -/
theorem unchanged_of_refused (a : Arbiter) :
    (∀ q e b, a.answer q = (.error e, b) → b.toGame = a.toGame ∧ e.fen = a.toFen) ∧
    ∀ text e b, a.loadFen text = (.error e, b) → b.toGame = a.toGame ∧ e.fen = a.toFen :=
  ⟨fun _ _ _ h => answer_error h, fun _ _ _ h => loadFen_error h⟩

/-- A bishop that shields its king from a rook, and a knight for it to take. -/
def pinned : Arbiter :=
  { toGame := Game.empty.enlistAll [(⟨.king, .white⟩, ⟨4, 0⟩), (⟨.bishop, .white⟩, ⟨4, 1⟩),
      (⟨.rook, .black⟩, ⟨4, 7⟩), (⟨.knight, .black⟩, ⟨3, 2⟩)]
    journal := {} }

theorem pinned_unchanged_of_refused :
    (∃ e b, pinned.answer (.move ⟨4, 1⟩ ⟨3, 2⟩ none) = (.error e, b) ∧
      b.toGame = pinned.toGame ∧ e.fen = pinned.toFen) ∧
    ∃ e b, pinned.loadFen "8/8" = (.error e, b) ∧ b.toGame = pinned.toGame ∧
      e.fen = pinned.toFen := by
  have hmove : (pinned.answer (.move ⟨4, 1⟩ ⟨3, 2⟩ none)).1.isOk = false := by decide
  have htext : (pinned.loadFen "8/8").1.isOk = false := by decide
  constructor
  · rcases h : pinned.answer (.move ⟨4, 1⟩ ⟨3, 2⟩ none) with ⟨e | r, b⟩
    · exact ⟨e, b, rfl, (unchanged_of_refused pinned).1 _ e b h⟩
    · rw [h] at hmove
      cases hmove
  · rcases h : pinned.loadFen "8/8" with ⟨e | r, b⟩
    · exact ⟨e, b, rfl, (unchanged_of_refused pinned).2 _ e b h⟩
    · rw [h] at htext
      cases htext

end Arbiter

end ChessArbiter
