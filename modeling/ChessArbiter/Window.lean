import ChessArbiter.Resolution

/-!
# The window

A `Window` shows a game and takes clicks, written moves and resets. A first click selects a man of
the side to move and a second one on one of its destinations moves it; a pawn about to be promoted
waits for a third click on one of four officers. The board is drawn from pixel (30, 30) in tiles
of 75 pixels, the officers in tiles half as large again across the middle.
-/

namespace ChessArbiter

structure Window where
  arbiter : Arbiter
  /-- The position to which a reset returns; the starting position if empty. -/
  startFen : String
  selected : Option Square := none
  destinations : List Square := []
  /-- The move of a pawn that waits for the choice of an officer. -/
  promoting : Option (Square × Square) := none
  flipped : Bool := false
  lastError : String := ""

inductive WindowEvent where
  | click (x y : Int)
  | play (text : String)
  | flip
  | reset

namespace Window

def tile : Int := 75
def margin : Int := 30

/-- The square drawn at a pixel; on a flipped board h1 is at the upper left. -/
def squareAt (x y : Int) (flipped : Bool) : Option Square :=
  let x := x - margin
  let y := y - margin
  if (0 ≤ x ∧ x < 8 * tile) ∧ 0 ≤ y ∧ y < 8 * tile then
    let col := x / tile
    let row := y / tile
    if flipped then Square.ofCoords? (7 - col) row else Square.ofCoords? col (7 - row)
  else none

def officers : List PieceKind := [.queen, .rook, .bishop, .knight]

/-- The pixel is inside the tile of the officer at the given place, its border left out. -/
def inOfficerTile (x y : Int) (place : Nat) : Bool :=
  let centre := margin + 4 * tile
  let left := 2 * centre + 3 * tile * (place - 2)
  decide (left < 2 * x ∧ 2 * x < left + 3 * tile)
    && decide (4 * centre - 3 * tile < 4 * y ∧ 4 * y < 4 * centre + 3 * tile)

def officerAt (x y : Int) : Option PieceKind :=
  (officers.zipIdx.find? fun e => inOfficerTile x y e.2).map (·.1)

def clearSelection (w : Window) : Window :=
  { w with selected := none, destinations := [], promoting := none }

def report {α : Type} (w : Window) (outcome : Except MoveError α × Arbiter) : Window :=
  { w with
    arbiter := outcome.2
    lastError := match outcome.1 with
      | .ok _ => ""
      | .error e => e.describe }

def reset (w : Window) : Window :=
  (if w.startFen.isEmpty then w.report (.ok (), w.arbiter.reset)
    else w.report (w.arbiter.loadFen w.startFen)).clearSelection

/-- The man on a square is a pawn of the side to move and `dst` is on its last rank. -/
def wantsPromotion (w : Window) (src dst : Square) : Bool :=
  (w.arbiter.board.occupant src).any (·.kind == .pawn)
    && dst.rank == w.arbiter.active.lastRank

def select (w : Window) (s : Square) : Window :=
  if (w.arbiter.board.occupant s).any (·.colour == w.arbiter.active) then
    let (destinations, arbiter) := w.arbiter.legalDestinations s
    { w with arbiter, selected := some s, destinations }
  else w.clearSelection

def clickSquare (w : Window) (s : Square) : Window :=
  match w.selected with
  | none => w.select s
  | some src =>
    if s ∈ w.destinations then
      if w.wantsPromotion src s then { w with promoting := some (src, s) }
      else (w.report (w.arbiter.move src s none)).clearSelection
    else w.select s

def click (w : Window) (x y : Int) : Window :=
  match w.promoting with
  | some (src, dst) =>
    match officerAt x y with
    | none => w.clearSelection
    | some k => (w.report (w.arbiter.move src dst (some k))).clearSelection
  | none =>
    match squareAt x y w.flipped with
    | none => w
    | some s => w.clickSquare s

def play (w : Window) (text : String) : Window :=
  if text.isEmpty then w else (w.report (w.arbiter.play text)).clearSelection

def handle (w : Window) : WindowEvent → Window
  | .click x y => w.click x y
  | .play text => w.play text
  | .flip => { w with flipped := !w.flipped }
  | .reset => w.reset

/-! ### What the side panel shows -/

/-- A field of a position text; a dash if there are not so many. -/
def fenField (fen : String) (index : Int) : String :=
  if index < 0 then ""
  else ((Text.words fen.toList)[index.toNat]?).elim "-" String.ofList

/-- The letters of the men that a side has taken, each followed by a blank. -/
def takenBy (w : Window) (c : Colour) : String :=
  String.ofList ((w.arbiter.moves.filter (·.colour == c)).filterMap (·.captured)
    |>.flatMap fun k => [k.letter, ' '])

def rows (number : Nat) : List MoveRecord → List String
  | [] => []
  | [r] => [toString number ++ ". " ++ r.text]
  | r :: s :: rest =>
    (toString number ++ ". " ++ r.text ++ "   " ++ s.text) :: rows (number + 1) rest

def showsMate (w : Window) : Bool := w.arbiter.moves.getLast?.any (·.mate)

/-- One to six for a White piece from pawn to king, the negative for a Black one. -/
def pieceId (p : Piece) : Int :=
  match p.colour with
  | .white => p.kind.code.val + 1
  | .black => -(p.kind.code.val + 1)

end Window

end ChessArbiter
