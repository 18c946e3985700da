/-!
# Reading plain text

Text is read character by character, one character for each byte of the input; only ASCII letters
and digits count as such. `words` cuts at white space, `lines` at line feeds, and `trim` takes
blanks away from both ends. `readInt?` reads a whole decimal number that fits 32 bits.
-/

namespace ChessArbiter.Text

/-- White space between words: blank, tab, line feed, vertical tab, form feed, carriage return. -/
def isSpace (c : Char) : Bool :=
  c == ' ' || c == '\t' || c == '\n' || c == '\x0b' || c == '\x0c' || c == '\r'

/-- What `trim` removes: blank, tab, line feed, carriage return. -/
def isBlank (c : Char) : Bool := c == ' ' || c == '\t' || c == '\n' || c == '\r'

def dropTrailing (p : Char → Bool) (cs : List Char) : List Char := (cs.reverse.dropWhile p).reverse

def takeTrailing (p : Char → Bool) (cs : List Char) : List Char := (cs.reverse.takeWhile p).reverse

def trim (cs : List Char) : List Char := dropTrailing isBlank (cs.dropWhile isBlank)

/-- Puts a character at the head of the first of several pieces. -/
def consFirst (c : Char) : List (List Char) → List (List Char)
  | [] => [[c]]
  | w :: ws => (c :: w) :: ws

def words : List Char → List (List Char)
  | [] => []
  | c :: cs =>
    if isSpace c then words cs
    else match cs with
      | [] => [[c]]
      | d :: _ => if isSpace d then [c] :: words cs else consFirst c (words cs)

/-- The lines of a text; a line feed ends a line and starts no further one. -/
def lines : List Char → List (List Char)
  | [] => []
  | c :: cs => if c = '\n' then [] :: lines cs else consFirst c (lines cs)

def lower (s : String) : String := String.ofList (s.toList.map Char.toLower)

def upper (s : String) : String := String.ofList (s.toList.map Char.toUpper)

def readNat? (cs : List Char) : Option Nat :=
  if cs ≠ [] ∧ cs.all Char.isDigit then
    some (cs.foldl (fun n c => 10 * n + (c.toNat - '0'.toNat)) 0)
  else none

/-- A decimal number, with a minus sign or none, from -2147483648 to 2147483647. -/
def readInt? : List Char → Option Int32
  | '-' :: ds => (readNat? ds).bind fun n => if n ≤ 1 <<< 31 then some (Int32.ofInt (-n)) else none
  | ds => (readNat? ds).bind fun n => if n < 1 <<< 31 then some (Int32.ofInt n) else none

def occursIn (part : List Char) : List Char → Bool
  | [] => part.isEmpty
  | c :: cs => part.isPrefixOf (c :: cs) || occursIn part cs

theorem dropTrailing_append_takeTrailing (p : Char → Bool) (cs : List Char) :
    dropTrailing p cs ++ takeTrailing p cs = cs := by
  rw [dropTrailing, takeTrailing, ← List.reverse_append, List.takeWhile_append_dropWhile,
    List.reverse_reverse]

end ChessArbiter.Text
