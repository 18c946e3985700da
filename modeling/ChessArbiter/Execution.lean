import ChessArbiter.Arbiter
import ChessArbiter.Legality
import ChessArbiter.Notation

/-!
# Carrying out moves

A step is made on the board first and taken back, by restoring a snapshot, if it turns out to
leave the mover's king attacked. A castle is only made once it is known to be open. Either way a
completed move passes the turn, looks for check and mate, and is entered in the move log.
-/

namespace ChessArbiter

namespace Step

def passed (s : Step) : Square := ⟨s.dst.file, s.src.rank⟩

def isDoublePush (s : Step) : Bool :=
  s.man.kind == .pawn && (s.dst - s.src).ranks.natAbs == 2

def flag (s : Step) (victim : Option Man) : MoveFlag :=
  match s.becomes with
  | some k => .promotion k victim.isSome
  | none =>
    if s.passing then .enPassant
    else if victim.isSome then .capture
    else if s.isDoublePush then .doublePush
    else .quiet

def headlines (s : Step) (victim : Option Man) : List String :=
  let taken := match victim with
    | none => []
    | some v =>
      if s.passing then
        [s.man.label ++ " captures " ++ v.label ++ " en passant on " ++ s.passed.name]
      else [s.man.label ++ " captures " ++ v.label ++ " on " ++ s.dst.name]
  let promoted := match s.becomes with
    | none => []
    | some k => [s.man.colour.label ++ " Pawn promoted to " ++ k.label ++ " on " ++ s.dst.name]
  taken ++ promoted

def record (s : Step) (victim : Option Man) : MoveRecord :=
  { move := .ofParts s.src s.dst (s.flag victim)
    piece := s.man.kind
    colour := s.man.colour
    captured := victim.map (·.kind)
    text := s.src.name ++ " " ++ s.dst.name }

end Step

namespace Game

/-- Brings the man to its square. Gives back the man taken. -/
def advance (g : Game) (s : Step) : Option Man × Game :=
  let (victim, t) :=
    if s.passing then
      let (v, t) := g.lift s.passed
      (v, (t.relocate s.src s.dst).2)
    else g.relocate s.src s.dst
  let g := { g with toTable := t }
  (victim, victim.elim g g.capture)

/-- Marks the man as moved; a pawn's double step leaves a target behind it. -/
def settle (g : Game) (s : Step) : Game :=
  let d := s.dst - s.src
  { g with
    toTable := g.setMoved s.man true
    enPassant :=
      if s.man.kind = .pawn ∧ d.files = 0 ∧ d.ranks.natAbs = 2 then
        s.src.tryOffset ⟨0, s.man.colour.forward⟩
      else none }

def promote (g : Game) (s : Step) : Game :=
  match s.becomes with
  | none => g
  | some k =>
    let g := { g with toTable := (g.lift s.dst).2 }.dismiss s.man
    let (m, g) := g.enlist ⟨k, s.man.colour⟩ s.dst
    { g with toTable := g.setMoved m true }

def execute (g : Game) (s : Step) : Option Man × Game :=
  let (victim, g) := g.advance s
  (victim, (g.settle s).promote s)

def wear (g : Game) (s : Square) : Game :=
  match g.board.occupant s with
  | none => g
  | some m => { g with toTable := g.setMoved m true }

def executeCastle (g : Game) (path : CastlePath) : Game :=
  let g := { g with toTable := (g.relocate path.kingFrom path.kingTo).2 }
  let g := { g with toTable := (g.relocate path.rookFrom path.rookTo).2 }
  { (g.wear path.kingTo).wear path.rookTo with enPassant := none }

end Game

namespace Arbiter

def turnHeading (a : Arbiter) (c : Colour) : String :=
  "Turn " ++ toString a.turn.toInt ++ "-" ++ c.label ++ ": "

def finalize (a : Arbiter) (r : MoveRecord) (resetClock : Bool) :
    Except MoveError MoveRecord × Arbiter :=
  let g := a.passTurn resetClock
  let r := { r with check := g.inCheck g.active, mate := g.isCheckmate g.active }
  let b : Arbiter := { a with toGame := { g with moves := g.moves ++ [r] } }
  (.ok r, b.announce
    (if r.mate then ["Checkmate: the " ++ g.active.label ++ " King has no escape square"]
      else if r.check then [g.active.label ++ " is in check"]
      else []))

def castle (a : Arbiter) (w : Wing) : Except MoveError MoveRecord × Arbiter :=
  let c := a.active
  let path := CastlePath.of c w
  if a.canCastle c w then
    let b : Arbiter := { a with toGame := a.executeCastle path }
    let b := b.note .info (b.turnHeading c ++ "Castles " ++ w.label)
    b.finalize
      { move := .ofParts path.kingFrom path.kingTo
          (MoveFlag.castle w)
        piece := .king, colour := c, captured := none, text := w.text }
      false
  else
    a.refuse (a.failure .illegalCastle (c.label ++ " cannot castle " ++ w.label)
      path.kingFrom path.kingTo)

def carryOut (a : Arbiter) (s : Step) : Except MoveError MoveRecord × Arbiter :=
  let before := a.snapshot
  let c := s.man.colour
  let (victim, g) := a.execute s
  let b := { a with toGame := g }.announce (s.headlines victim)
  if g.inCheck c then
    let b := b.restoreTo before
    b.refuse (b.failure .selfCheck ("Moving " ++ s.man.kind.label ++ " from " ++ s.src.name
      ++ " to " ++ s.dst.name ++ " would leave the " ++ c.label ++ " King in check") s.src s.dst)
  else
    let b := b.note .info (b.turnHeading c ++ s.src.name ++ " to " ++ s.dst.name)
    b.finalize (s.record victim) (s.man.kind == .pawn || victim.isSome)

def move (a : Arbiter) (src dst : Square) (promotion : Option PieceKind) :
    Except MoveError MoveRecord × Arbiter :=
  match a.assess src dst promotion with
  | .error e => a.refuse e
  | .ok (.castle w) => a.castle w
  | .ok (.step s) => a.carryOut s

/-- Moves between squares given by name; a castle may be written in place of the source. -/
def moveByName (a : Arbiter) (src dst : String) : Except MoveError MoveRecord × Arbiter :=
  match Wing.ofText? src with
  | some w => a.castle w
  | none =>
    match Square.parse src, Square.parse dst with
    | .ok s, .ok t => a.move s t none
    | .error e, _ => (.error { e with fen := a.toFen }, a)
    | .ok _, .error e => (.error { e with fen := a.toFen }, a)

/-- The members of a list whose attempt succeeds, each tried in a scope of its own. -/
def keep {β : Type} (attempt : β → Arbiter → Bool × Arbiter) :
    List β → Arbiter → List β × Arbiter
  | [], a => ([], a)
  | x :: xs, a =>
    let (good, a) := a.speculate (attempt x)
    let (rest, a) := keep attempt xs a
    (if good then x :: rest else rest, a)

/-- Every square to which a man of the side to move may go, found by trying them all. -/
def legalDestinations (a : Arbiter) (src : Square) : List Square × Arbiter :=
  if (a.board.occupant src).any (·.colour == a.active) then
    keep (fun dst b => let (r, b) := b.move src dst none; (r.isOk, b))
      (Square.all.filter (· != src)) a
  else ([], a)

end Arbiter

end ChessArbiter
