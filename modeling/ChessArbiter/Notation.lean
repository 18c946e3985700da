import ChessArbiter.Castling
import ChessArbiter.MoveError
import ChessArbiter.Text

/-!
# Written moves

`Notation.parse` reads a move such as `Nf3`, `exd5`, `R1e2`, `e8=Q+` or `O-O`: the piece letter,
what is said about the source, the destination, and a promotion. Blanks around the move are
dropped, annotations (`!`, `?`) are ignored, and the marks `+` and `#` are kept as claims of check
and mate.
-/

namespace ChessArbiter

structure Notation where
  /-- The move as given, without the blanks around it. -/
  text : String := ""
  piece : PieceKind := .pawn
  /-- The file of the source, counted from zero, if it is given. -/
  srcFile : Option Int := none
  /-- The rank of the source, counted from zero, if it is given. -/
  srcRank : Option Int := none
  capture : Bool := false
  /-- The destination; a castle has none. -/
  dst : Option Square := none
  promotion : Option PieceKind := none
  check : Bool := false
  mate : Bool := false
  castle : Option Wing := none
deriving DecidableEq

inductive NotationFault where
  | empty
  | annotationsOnly
  | unknownPiece
  | unknownPromotion
  | onlyPawnsPromote
  | badPromotion (kind : PieceKind)
  | noDestination
  | badDestination
  | repeatedCapture
  | afterCapture
  | unexpected (c : Char)
deriving DecidableEq

namespace NotationFault

def unreadable (text why : String) : MoveError :=
  { kind := .invalidNotation, message := "Cannot read move '" ++ text ++ "': " ++ why }

def refusal (text : String) : NotationFault → MoveError
  | empty => unreadable text "empty"
  | annotationsOnly => unreadable text "nothing but annotations"
  | unknownPiece => unreadable text "unknown piece letter"
  | unknownPromotion => unreadable text "unknown promotion piece"
  | onlyPawnsPromote => unreadable text "only pawns promote"
  | badPromotion k => { kind := .promotionError, message := "Cannot promote to " ++ k.label }
  | noDestination => unreadable text "no destination square"
  | badDestination => unreadable text "bad destination square"
  | repeatedCapture => unreadable text "repeated capture marker"
  | afterCapture => unreadable text "unexpected text after the capture marker"
  | unexpected c => unreadable text ("unexpected '" ++ c.toString ++ "'")

end NotationFault

/-- The castle that a text asks for, written with letters or with zeros. -/
def Wing.ofText? (text : String) : Option Wing :=
  if text = "O-O" ∨ text = "0-0" then some .king
  else if text = "O-O-O" ∨ text = "0-0-0" then some .queen
  else none

namespace Notation

def isAnnotation (c : Char) : Bool := c == '!' || c == '?'

def isMark (c : Char) : Bool := c == '+' || c == '#'

def readMiddle (n : Notation) : List Char → Except NotationFault Notation
  | [] => .ok n
  | c :: cs =>
    if c = 'x' ∨ c = ':' then
      if n.capture then .error .repeatedCapture else readMiddle { n with capture := true } cs
    else if c = '-' then readMiddle n cs
    else if n.capture then .error .afterCapture
    else if ('a' ≤ c ∧ c ≤ 'h') ∧ n.srcFile.isNone ∧ n.srcRank.isNone then
      readMiddle { n with srcFile := some (c.toNat - 'a'.toNat) } cs
    else if ('1' ≤ c ∧ c ≤ '8') ∧ n.srcRank.isNone then
      readMiddle { n with srcRank := some (c.toNat - '1'.toNat) } cs
    else .error (.unexpected c)

/-- Reads the rest of a move once the promotion is cut off: the destination comes last. -/
def readSquares (n : Notation) (body : List Char) : Except NotationFault Notation :=
  match body.reverse with
  | r :: f :: middle =>
    match Square.ofChars? f r with
    | some s => readMiddle { n with dst := some s } middle.reverse
    | none => .error .badDestination
  | _ => .error .noDestination

/-- Cuts off the letter of a promotion, with or without an equals sign before it. At least a
square's worth of text stays. -/
def cutPromotion (body : List Char) : Option (Char × List Char) :=
  match body.reverse with
  | p :: '=' :: y :: z :: rest => some (p, (y :: z :: rest).reverse)
  | p :: y :: z :: rest => if p.isUpper then some (p, (y :: z :: rest).reverse) else none
  | _ => none

def readBody (n : Notation) (body : List Char) : Except NotationFault Notation :=
  match cutPromotion body with
  | none => readSquares n body
  | some (letter, rest) =>
    match PieceKind.ofLetter? letter with
    | none => .error .unknownPromotion
    | some k =>
      if n.piece ≠ .pawn then .error .onlyPawnsPromote
      else if k.isOfficer then readSquares { n with promotion := some k } rest
      else .error (.badPromotion k)

def readMove (n : Notation) (core : List Char) : Except NotationFault Notation :=
  match Wing.ofText? (String.ofList core) with
  | some w => .ok { n with castle := some w, piece := .king }
  | none =>
    match core with
    | [] => .error .annotationsOnly
    | c :: rest =>
      if c.isUpper then
        match PieceKind.ofLetter? c with
        | some k => readBody { n with piece := k } rest
        | none => .error .unknownPiece
      else readBody n (c :: rest)

def read (text : String) : Except NotationFault Notation :=
  let given := Text.trim text.toList
  if given.isEmpty then .error .empty
  else
    let marked := Text.dropTrailing isAnnotation given
    let marks := Text.takeTrailing isMark marked
    readMove
      { text := String.ofList given, check := marks.contains '+', mate := marks.contains '#' }
      (Text.dropTrailing isMark marked)

def parse (text : String) : Except MoveError Notation :=
  match read text with
  | .ok n => .ok n
  | .error fault => .error (fault.refusal text)

end Notation

end ChessArbiter
