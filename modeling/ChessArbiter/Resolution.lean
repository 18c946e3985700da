import ChessArbiter.Execution

/-!
# From written moves to moves

`Game.candidates` lists the men that a written move may mean. `Arbiter.resolve` tries each of them
in a scope of its own and answers with the one move that survives, and `Arbiter.play` resolves a
text and carries the move out.
-/

namespace ChessArbiter

namespace Game

/-- The file and the rank that a source must have. A king's move that gives neither means the
first live king. -/
def sourceFilter (g : Game) (n : Notation) : Option Int × Option Int :=
  if n.piece = .king ∧ n.srcFile.isNone ∧ n.srcRank.isNone then
    match (g.king g.active).bind g.square? with
    | some s => (some s.file.val, some s.rank.val)
    | none => (none, none)
  else (n.srcFile, n.srcRank)

/-- The man's rules let it make the written move to `dst`, a capture if it says so. -/
def answers (g : Game) (n : Notation) (m : Man) (dst : Square) : Bool :=
  if !n.capture then g.canMoveTo m dst
  else if g.board.isEmpty dst then g.isPassing m dst
  else g.canTake m dst

/-- The men of the side to move that a written move may mean, its own king's safety aside. -/
def candidates (g : Game) (n : Notation) : List Man :=
  match n.dst with
  | none => []
  | some dst =>
    let (file, rank) := g.sourceFilter n
    (g.live.get g.active).filter fun m =>
      m.kind == n.piece
        && (g.square? m).any (fun s => file.all (· == s.file.val) && rank.all (· == s.rank.val))
        && g.answers n m dst

def located (g : Game) (men : List Man) : List (Man × Square) :=
  men.filterMap fun m => (g.square? m).map (m, ·)

def flagOf (g : Game) (m : Man) (src dst : Square) (promotion : Option PieceKind) : MoveFlag :=
  let capture := !g.board.isEmpty dst
  let plain := if capture then MoveFlag.capture else .quiet
  if m.kind = .pawn then
    if !capture ∧ src.file ≠ dst.file then .enPassant
    else if dst.rank = g.active.lastRank then .promotion (promotion.getD .queen) capture
    else if (dst - src).ranks.natAbs = 2 then .doublePush
    else plain
  else plain

end Game

namespace Arbiter

def tryCandidate (dst : Square) (promotion : Option PieceKind) (c : Man × Square) (a : Arbiter) :
    Bool × Arbiter :=
  match a.move c.2 dst promotion with
  | (.ok _, b) => (true, b)
  | (.error e, b) =>
    (false, b.note .trace (c.1.label ++ " at " ++ c.2.name ++ " eliminated: " ++ e.describe))

def choose (a : Arbiter) (n : Notation) (dst : Square) :
    List (Man × Square) → Except MoveError Move × Arbiter
  | [] =>
    (.error (a.failure .noLegalCandidate ("No " ++ a.active.label ++ " " ++ n.piece.label
      ++ " can legally move to " ++ dst.name) none dst), a)
  | [(m, src)] =>
    (.ok (.ofParts src dst (a.flagOf m src dst n.promotion)),
      a.note .debug ("Resolved '" ++ n.text ++ "' to " ++ src.name ++ dst.name))
  | men =>
    let sources := men.map fun c => " " ++ c.2.name
    (.error (a.failure .ambiguousMove
      ("'" ++ n.text ++ "' matches " ++ n.piece.plural ++ " on" ++ String.join sources)
      none dst), a)

def resolveTo (a : Arbiter) (n : Notation) (dst : Square) : Except MoveError Move × Arbiter :=
  let side := a.active
  if n.promotion.isSome ∧ dst.rank ≠ side.lastRank then
    (.error (a.failure .promotionError ("Pawn cannot promote on " ++ dst.name) none dst), a)
  else
    let found := a.candidates n
    let a := a.note .debug ("Found " ++ toString found.length ++ " possible " ++ n.piece.plural
      ++ " for '" ++ n.text ++ "'")
    if found.isEmpty then
      (.error (a.failure .noLegalCandidate ("None of " ++ side.label ++ "'s " ++ n.piece.plural
        ++ " can reach " ++ dst.name) none dst), a)
    else
      let (survivors, a) := keep (tryCandidate dst n.promotion) (a.located found) a
      a.choose n dst survivors

def resolve (a : Arbiter) (n : Notation) : Except MoveError Move × Arbiter :=
  match n.castle, n.dst with
  | some w, _ =>
    let path := CastlePath.of a.active w
    if a.canCastle a.active w then
      (.ok (.ofParts path.kingFrom path.kingTo (MoveFlag.castle w)), a)
    else
      (.error (a.failure .illegalCastle (a.active.label ++ " cannot play " ++ n.text)), a)
  | none, none => (.error (NotationFault.noDestination.refusal n.text), a)
  | none, some dst => a.resolveTo n dst

def resolveText (a : Arbiter) (text : String) : Except MoveError Move × Arbiter :=
  match Notation.parse text with
  | .error e => (.error e, a)
  | .ok n => a.resolve n

def playNotation (a : Arbiter) (n : Notation) : Except MoveError MoveRecord × Arbiter :=
  match n.castle with
  | some w => a.castle w
  | none =>
    match a.resolve n with
    | (.error e, a) => (.error e, a)
    | (.ok m, a) => a.move m.src m.dst n.promotion

def play (a : Arbiter) (text : String) : Except MoveError MoveRecord × Arbiter :=
  match Notation.parse text with
  | .error e =>
    let e := { e with fen := a.toFen }
    (.error e, a.note .error e.describe)
  | .ok n =>
    let a := a.note .debug ("=== Turn " ++ toString a.turn.toInt ++ ": expanding "
      ++ a.active.label ++ "'s move '" ++ text ++ "'")
    match a.playNotation n with
    | (.error e, a) => (.error e, a.note .error e.describe)
    | (.ok r, a) => (.ok { r with text := n.text }, { a with toGame := a.retitle n.text })

end Arbiter

end ChessArbiter
