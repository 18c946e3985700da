import ChessArbiter.Square

/-!
# Refusals

A refused operation answers with a `MoveError`: the kind of fault, a sentence, the squares
involved and, where a game was involved, the position at that moment. `describe` puts them on one
line. `Square.parse` and `Square.offset` are the two readers of squares that explain a refusal.
-/

namespace ChessArbiter

inductive ErrorKind where
  | invalidSquare
  | emptySource
  | wrongTurnOwner
  | blockedPath
  | illegalGeometry
  | illegalCapture
  | selfCheck
  | ambiguousMove
  | noLegalCandidate
  | illegalCastle
  | promotionError
  | invalidNotation
  | invalidFen
deriving DecidableEq

namespace ErrorKind

def all : List ErrorKind :=
  [invalidSquare, emptySource, wrongTurnOwner, blockedPath, illegalGeometry, illegalCapture,
    selfCheck, ambiguousMove, noLegalCandidate, illegalCastle, promotionError, invalidNotation,
    invalidFen]

def label : ErrorKind → String
  | invalidSquare => "InvalidSquare"
  | emptySource => "EmptySource"
  | wrongTurnOwner => "WrongTurnOwner"
  | blockedPath => "BlockedPath"
  | illegalGeometry => "IllegalGeometry"
  | illegalCapture => "IllegalCapture"
  | selfCheck => "SelfCheck"
  | ambiguousMove => "AmbiguousMove"
  | noLegalCandidate => "NoLegalCandidate"
  | illegalCastle => "IllegalCastle"
  | promotionError => "PromotionError"
  | invalidNotation => "InvalidNotation"
  | invalidFen => "InvalidFen"

def ofLabel? (name : String) : Option ErrorKind := all.find? (·.label == name)

end ErrorKind

structure MoveError where
  kind : ErrorKind
  message : String
  src : Option Square := none
  dst : Option Square := none
  /-- The position when the error arose; empty if no game was involved. -/
  fen : String := ""
deriving DecidableEq

namespace MoveError

/-- The squares involved, as `[e2->e4]`, with either end left out when unknown. -/
def route (e : MoveError) : String :=
  if e.src.isNone && e.dst.isNone then ""
  else " [" ++ (e.src.elim "" Square.name) ++ "->" ++ (e.dst.elim "" Square.name) ++ "]"

def describe (e : MoveError) : String :=
  e.kind.label ++ ": " ++ e.message ++ e.route
    ++ (if e.fen.isEmpty then "" else " (" ++ e.fen ++ ")")

end MoveError

namespace Square

def parse (text : String) : Except MoveError Square :=
  match text.toList with
  | [f, r] =>
    match ofChars? f r with
    | some s => .ok s
    | none => .error { kind := .invalidSquare, message := "Invalid location: " ++ text }
  | _ =>
    .error { kind := .invalidSquare
             message := "Location must be a file and a rank, not '" ++ text ++ "'" }

def offset (s : Square) (d : Offset) : Except MoveError Square :=
  match s.tryOffset d with
  | some t => .ok t
  | none =>
    .error { kind := .invalidSquare
             message := s.name ++ " offset by (" ++ toString d.files ++ ", " ++ toString d.ranks
               ++ ") leaves the board"
             src := some s }

end Square

end ChessArbiter
