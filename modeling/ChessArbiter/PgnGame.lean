import ChessArbiter.PgnToken

/-!
# Games as texts

A `PgnGame` holds the tags and the written moves of one game together with the text it was read
from. `PgnGame.parse` reads the tags and the moves off the tokens of a text, and `splitGames` cuts
a file into texts of one game each: tag lines, a blank line and move lines.
-/

namespace ChessArbiter

structure PgnGame where
  /-- Values by tag name in lower case, each name once. -/
  tags : List (String × String) := []
  moves : List String := []
  text : String := ""
deriving DecidableEq

namespace PgnGame

/-- The value of a tag whose name is given in any letter case. -/
def tag (g : PgnGame) (name : String) : Option String := g.tags.lookup (Text.lower name)

def setTag (g : PgnGame) (name value : String) : PgnGame :=
  let key := Text.lower name
  { g with tags := g.tags.filter (·.1 != key) ++ [(key, value)] }

def title (g : PgnGame) : String := (g.tag "white").getD "?" ++ " v. " ++ (g.tag "black").getD "?"

def result (g : PgnGame) : String := (g.tag "result").getD "*"

def isResult (s : List Char) : Bool :=
  [['1', '-', '0'], ['0', '-', '1'], ['1', '/', '2', '-', '1', '/', '2']].contains s

/-- A symbol that is not a move: an annotation glyph, a move number or a result. -/
def isAside (s : List Char) : Bool := s.head? == some '$' || s.all Char.isDigit || isResult s

inductive Item where
  | tag (name value : String)
  | move (text : String)
deriving DecidableEq

def Item.move? : Item → Option String
  | .tag _ _ => none
  | .move text => some text

inductive Place where
  | movetext
  | tagName
  | tagValue (name : Token)
  | tagRest
deriving DecidableEq

/-- Where reading goes on after a token inside a tag's brackets. -/
def Place.after (t : Token) : Place := if t = .mark ']' then .movetext else .tagRest

/-- Reads a token. The first two tokens of a tag are its name and its value, whatever they are; if
they are not a symbol and a string there is no tag. -/
def Place.read : Place → Token → Option Item × Place
  | .movetext, .mark c => (none, if c = '[' then .tagName else .movetext)
  | .movetext, .quoted _ => (none, .movetext)
  | .movetext, .symbol s => (if isAside s then none else some (.move (String.ofList s)), .movetext)
  | .tagName, t => (none, .tagValue t)
  | .tagValue (.symbol name), .quoted value =>
    (some (.tag (String.ofList name) (String.ofList value)), .tagRest)
  | .tagValue _, t => (none, .after t)
  | .tagRest, t => (none, .after t)

def itemsFrom (place : Place) : List Token → List Item
  | [] => []
  | t :: ts =>
    match place.read t with
    | (none, next) => itemsFrom next ts
    | (some item, next) => item :: itemsFrom next ts

def addItem (g : PgnGame) : Item → PgnGame
  | .tag name value => g.setTag name value
  | .move _ => g

def parse (text : String) : PgnGame :=
  let items := itemsFrom .movetext (Token.scan text.toList)
  { items.foldl addItem {} with moves := items.filterMap Item.move?, text }

/-! ### Cutting a file into games -/

/-- The state of cutting: the games that are complete, the lines of the game at hand, and whether
its moves have begun. -/
structure Cutting where
  games : List String := []
  current : List (List Char) := []
  inMoves : Bool := false
deriving DecidableEq

namespace Cutting

def textOf (lines : List (List Char)) : String := String.ofList (lines.flatMap (· ++ ['\n']))

def flush (c : Cutting) : Cutting :=
  { games := if c.current.all List.isEmpty then c.games else c.games ++ [textOf c.current] }

/-- Takes in a line without the blanks around it. A blank line or a tag after the moves ends a
game; blank lines before a game are dropped. -/
def takeLine (c : Cutting) (line : List Char) : Cutting :=
  if line.head? = some '[' then
    let c := if c.inMoves then c.flush else c
    { c with current := c.current ++ [line] }
  else if line = [] then
    if c.inMoves then c.flush
    else if c.current = [] then c
    else { c with current := c.current ++ [[]] }
  else { c with inMoves := true, current := c.current ++ [line] }

end Cutting

def splitGames (text : String) : List String :=
  (((Text.lines text.toList).map Text.trim).foldl Cutting.takeLine {}).flush.games

def readGames (text : String) : List PgnGame := (splitGames text).map parse

end PgnGame

end ChessArbiter
