import ChessArbiter.Attack
import ChessArbiter.MoveError
import ChessArbiter.Text

/-!
# Position texts

`Game.toFen` writes a position as six fields: placement, side to move, castling rights, the en
passant field, the half-move clock and the turn number. The en passant field is always written
as a dash. `Setup.ofFen` reads such a text, of which only the first two fields are required, and
`Game.ofSetup` builds the game that it describes; a castling right is granted only where king and
rook stand on their home squares.
-/

namespace ChessArbiter

namespace Board

/-- The digit for a run of empty squares, and nothing for an empty run. -/
def runDigit (n : Nat) : List Char := if n = 0 then [] else [Char.ofNat ('0'.toNat + n)]

/-- One rank as text, after a run of `n` empty squares. -/
def rankText (n : Nat) : List (Option Piece) → List Char
  | [] => runDigit n
  | none :: row => rankText (n + 1) row
  | some p :: row => runDigit n ++ p.symbol :: rankText 0 row

def placementText (b : Board) : String :=
  String.intercalate "/" ((List.finRange 8).reverse.map fun rank =>
    String.ofList (rankText 0 ((Square.ofRank rank).map b.piece)))

end Board

namespace Game

def castlingRights (g : Game) : String :=
  match (castles.filter fun r => g.hasRight r.1 r.2).map fun r => r.2.symbol r.1 with
  | [] => "-"
  | letters => String.ofList letters

def toFen (g : Game) : String :=
  g.board.placementText ++ (if g.active = .white then " w " else " b ") ++ g.castlingRights
    ++ " - " ++ toString g.halfmove.toInt ++ " " ++ toString g.turn.toInt

def failure (g : Game) (kind : ErrorKind) (message : String) (src dst : Option Square := none) :
    MoveError :=
  { kind, message, src, dst, fen := g.toFen }

end Game

/-- What can be wrong with a position text, in the order in which it is noticed. -/
inductive FenFault where
  | missingField
  | malformedRank
  | rankOverflow
  | unexpected (c : Char)
  | uncovered
  | kings
  | side
  | castling
  | enPassant
  | halfmove
  | turn
deriving DecidableEq

def FenFault.reason : FenFault → String
  | missingField => "Missing placement or side to move"
  | malformedRank => "Malformed rank"
  | rankOverflow => "Rank overflows eight files"
  | unexpected c => "Unexpected '" ++ c.toString ++ "'"
  | uncovered => "Placement does not cover the board"
  | kings => "Each side needs exactly one king"
  | side => "Side to move must be 'w' or 'b'"
  | castling => "Bad castling field"
  | enPassant => "Bad en passant square"
  | halfmove => "Bad halfmove clock"
  | turn => "Bad fullmove number"

structure Setup where
  men : List (Piece × Square)
  active : Colour
  rights : List (Colour × Wing)
  enPassant : Option Square
  halfmove : Int32
  turn : Int32
deriving DecidableEq

namespace Setup

def readMen (rank : Fin 8) (file : Nat) : List Char → Except FenFault (List (Piece × Square))
  | [] => if rank = 0 ∧ file = 8 then .ok [] else .error .uncovered
  | c :: cs =>
    if c = '/' then
      if file ≠ 8 ∨ rank = 0 then .error .malformedRank else readMen (rank - 1) 0 cs
    else if '1' ≤ c ∧ c ≤ '8' then
      let file := file + (c.toNat - '0'.toNat)
      if 8 < file then .error .rankOverflow else readMen rank file cs
    else
      match Piece.ofSymbol? c with
      | none => .error (.unexpected c)
      | some p =>
        if h : file < 8 then
          match readMen rank (file + 1) cs with
          | .ok men => .ok ((p, ⟨⟨file, h⟩, rank⟩) :: men)
          | .error e => .error e
        else .error (.unexpected c)

def oneKingEach (men : List (Piece × Square)) : Bool :=
  men.countP (·.1 == ⟨.king, .white⟩) == 1 && men.countP (·.1 == ⟨.king, .black⟩) == 1

def readSide : List Char → Except FenFault Colour
  | ['w'] => .ok .white
  | ['b'] => .ok .black
  | _ => .error .side

def readRight? (c : Char) : Option (Colour × Wing) := castles.find? fun r => r.2.symbol r.1 == c

/-- The granted rights, in the order of their letters; none for an absent field or a dash. -/
def readRights : List Char → Except FenFault (List (Colour × Wing))
  | [] => .ok []
  | ['-'] => .ok []
  | cs => match cs.mapM readRight? with
    | some rights => .ok rights
    | none => .error .castling

def readTarget : List Char → Except FenFault (Option Square)
  | [] => .ok none
  | ['-'] => .ok none
  | [f, r] => match Square.ofChars? f r with
    | some s => .ok (some s)
    | none => .error .enPassant
  | _ => .error .enPassant

/-- A counter of at least `least`, which is also its value when the field is absent. -/
def readCounter (least : Int32) (fault : FenFault) : List Char → Except FenFault Int32
  | [] => .ok least
  | cs => match Text.readInt? cs with
    | some n => if least ≤ n then .ok n else .error fault
    | none => .error fault

def ofFields : List (List Char) → Except FenFault Setup
  | placement :: side :: rest => do
    let men ← readMen 7 0 placement
    if !oneKingEach men then throw .kings
    let active ← readSide side
    let rights ← readRights (rest.getD 0 [])
    let enPassant ← readTarget (rest.getD 1 [])
    let halfmove ← readCounter 0 .halfmove (rest.getD 2 [])
    let turn ← readCounter 1 .turn (rest.getD 3 [])
    return { men, active, rights, enPassant, halfmove, turn }
  | _ => .error .missingField

def ofFen (fen : String) : Except FenFault Setup := ofFields (Text.words fen.toList)

/-- The number of moves made when this position arises in a game from the start. -/
def ply (s : Setup) : Int32 := (s.turn - 1) * 2 + (if s.active = .black then 1 else 0)

end Setup

namespace Game

def spendRights (g : Game) : Game :=
  let men := (g.live.white ++ g.live.black).filter fun m => m.kind == .king || m.kind == .rook
  { g with toTable := men.foldl (fun t m => t.setMoved m true) g.toTable }

def homeMan (g : Game) (c : Colour) (kind : PieceKind) (s : Square) : Option Man :=
  (g.board.occupant s).filter fun m => m.kind == kind && m.colour == c

def grantRight (g : Game) (c : Colour) (w : Wing) : Game :=
  let path := CastlePath.of c w
  match g.homeMan c .king path.kingFrom, g.homeMan c .rook path.rookFrom with
  | some k, some r => { g with toTable := (g.setMoved k false).setMoved r false }
  | _, _ => g

def ofSetup (s : Setup) : Game :=
  let g := s.rights.foldl (fun g r => g.grantRight r.1 r.2) (empty.enlistAll s.men).spendRights
  { g with
    active := s.active
    enPassant := s.enPassant
    halfmove := s.halfmove
    turn := s.turn
    ply := s.ply }

end Game

end ChessArbiter
