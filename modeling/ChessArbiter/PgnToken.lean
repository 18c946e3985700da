import ChessArbiter.Text

/-!
# Tokens of game texts

`Token.scan` reads a game text one character at a time; a `Scanning` state says what the next
character belongs to. Comments and variations leave no tokens: a comment runs to its closing brace
or to the end of its line, a variation to the parenthesis that matches its first, counting every
parenthesis on the way. Text that ends early closes whatever is open.
-/

namespace ChessArbiter

inductive Token where
  | symbol (s : List Char)
  | quoted (s : List Char)
  | mark (c : Char)
deriving DecidableEq

inductive Scanning where
  | between
  | comment
  | lineComment
  /-- Inside a variation that is nested in `outer` others. -/
  | variation (outer : Nat)
  /-- Inside a string, the characters read so far being given last first. -/
  | quoted (read : List Char) (escaped : Bool)
  /-- Inside a symbol, the characters read so far being given last first. -/
  | symbol (read : List Char)
deriving DecidableEq

namespace Token

def isSymbolChar (c : Char) : Bool :=
  c.isAlphanum || c == '_' || c == '+' || c == '#' || c == '=' || c == ':' || c == '-' || c == '/'
    || c == '$'

/-- Reads a character at which nothing is open. -/
def first (c : Char) : List Token × Scanning :=
  if Text.isSpace c then ([], .between)
  else if c = ';' then ([], .lineComment)
  else if c = '\x7b' then ([], .comment)
  else if c = '(' then ([], .variation 0)
  else if c = '"' then ([], .quoted [] false)
  else if isSymbolChar c then ([], .symbol [c])
  else ([.mark c], .between)

def next : Scanning → Char → List Token × Scanning
  | .between, c => first c
  | .comment, c => ([], if c = '\x7d' then .between else .comment)
  | .lineComment, c => ([], if c = '\n' then .between else .lineComment)
  | .variation outer, c =>
    if c = '(' then ([], .variation (outer + 1))
    else if c = ')' then
      match outer with
      | 0 => ([], .between)
      | n + 1 => ([], .variation n)
    else ([], .variation outer)
  | .quoted read true, c => ([], .quoted (c :: read) false)
  | .quoted read false, c =>
    if c = '\\' then ([], .quoted read true)
    else if c = '"' then ([.quoted read.reverse], .between)
    else ([], .quoted (c :: read) false)
  | .symbol read, c =>
    if isSymbolChar c then ([], .symbol (c :: read))
    else (.symbol read.reverse :: (first c).1, (first c).2)

def last : Scanning → List Token
  | .quoted read _ => [.quoted read.reverse]
  | .symbol read => [.symbol read.reverse]
  | _ => []

def scanFrom (state : Scanning) : List Char → List Token
  | [] => last state
  | c :: cs => (next state c).1 ++ scanFrom (next state c).2 cs

def scan (cs : List Char) : List Token := scanFrom .between cs

def stateAfter (state : Scanning) (cs : List Char) : Scanning :=
  cs.foldl (fun state c => (next state c).2) state

def completed (state : Scanning) : List Char → List Token
  | [] => []
  | c :: cs => (next state c).1 ++ completed (next state c).2 cs

theorem scanFrom_append (state : Scanning) (s t : List Char) :
    scanFrom state (s ++ t) = completed state s ++ scanFrom (stateAfter state s) t := by
  induction s generalizing state with
  | nil => rfl
  | cons c s ih => simp only [List.cons_append, scanFrom, completed, ih, List.append_assoc,
      stateAfter, List.foldl_cons]

end Token

end ChessArbiter
