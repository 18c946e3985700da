import ChessArbiter.Proofs.GameText

/-!
# Variations with comments in them

Inside a variation every parenthesis counts, those of comments too. So reading goes on behind the
parenthesis that matches the first one in this way (`PgnGame.moves_after_opening`), and a variation
is passed over as a whole if the parentheses of each comment match among themselves
(`PgnGame.sideline_passed_over`). A comment with a single parenthesis ends the variation early or
keeps it open, and then words of the comment are read as moves, or moves after the variation are
lost (`PgnGame.sideline_torn`).
-/

namespace ChessArbiter

/-- The moves of a variation, in whose comments stands what `allowed` says. Parentheses match, those
in comments left out. -/
inductive Sideline (allowed : List Char → Prop) : List Char → Prop
  | nil : Sideline allowed []
  | other {c : Char} {cs : List Char} (h : c ∉ ['(', ')', '\x7b', '\x7d', ';'])
    (hrest : Sideline allowed cs) : Sideline allowed (c :: cs)
  | comment {body cs : List Char} (h : '\x7d' ∉ body) (hallowed : allowed body)
    (hrest : Sideline allowed cs) : Sideline allowed ('\x7b' :: (body ++ '\x7d' :: cs))
  | lineComment {body cs : List Char} (h : '\n' ∉ body) (hallowed : allowed body)
    (hrest : Sideline allowed cs) : Sideline allowed (';' :: (body ++ '\n' :: cs))
  | nest {cs ds : List Char} (hinner : Sideline allowed cs) (hrest : Sideline allowed ds) :
    Sideline allowed ('(' :: (cs ++ ')' :: ds))

variable {V cs ds rest : List Char}

theorem Balanced.append (h : Balanced cs) (h' : Balanced ds) : Balanced (cs ++ ds) := by
  induction h with
  | nil => exact h'
  | other hopen hclose _ ih => exact .other hopen hclose ih
  | @nest inner outer hinner _ _ ih =>
    rw [List.cons_append, List.append_assoc]
    exact .nest hinner ih

theorem Sideline.balanced (h : Sideline Balanced V) : Balanced V := by
  induction h with
  | nil => exact .nil
  | @other c cs h _ ih =>
    have hopen : c ≠ '(' := by
      rintro rfl
      exact h (by decide)
    have hclose : c ≠ ')' := by
      rintro rfl
      exact h (by decide)
    exact .other hopen hclose ih
  -- braces and semicolons are characters like any other once parentheses are counted
  | comment _ hallowed _ ih =>
    exact .other (by decide) (by decide) (hallowed.append (.other (by decide) (by decide) ih))
  | lineComment _ hallowed _ ih =>
    exact .other (by decide) (by decide) (hallowed.append (.other (by decide) (by decide) ih))
  | nest _ _ hinner hrest => exact .nest hinner hrest

/-- What is left of a text behind the parenthesis that closes a variation, in which `n` others are
open. -/
def afterClosing : ℕ → List Char → List Char
  | _, [] => []
  | n, c :: cs =>
    if c = '(' then afterClosing (n + 1) cs
    else if c = ')' then if n = 0 then cs else afterClosing (n - 1) cs
    else afterClosing n cs

theorem Token.scanFrom_variation (n : ℕ) (cs : List Char) :
    scanFrom (.variation n) cs = scan (afterClosing n cs) := by
  induction cs generalizing n with
  | nil => rfl
  | cons c cs ih =>
    by_cases hopen : c = '('
    · subst hopen
      exact ih (n + 1)
    by_cases hclose : c = ')'
    · subst hclose
      cases n with
      | zero => rfl
      | succ n => exact ih n
    · rw [scanFrom, next_variation n hopen hclose, afterClosing, if_neg hopen, if_neg hclose]
      exact ih n

namespace PgnGame

variable {A B : List Written}

/-- The moves of a text, and then those of what follows it, or of another text that is read as that
is. -/
theorem moves_append (h : Apart (A.flatMap Written.lexemes)) {rest' : List Char}
    (hrest : rest.head?.any Token.isSymbolChar = false)
    (hscan : Token.scan rest = Token.scan rest') :
    (parse (String.ofList (Written.text A ++ rest))).moves =
      A.filterMap Written.move? ++ (parse (String.ofList rest')).moves := by
  have hread : Token.scan (Written.text A ++ rest) =
      (A.flatMap Written.lexemes).filterMap Lexeme.token? ++ Token.scan rest' := by
    rw [Written.text, Token.scan_lexemes_append _ h hrest, hscan]
  rw [moves_parse, moves_parse, hread, itemsFrom_written_append, List.filterMap_append,
    filterMap_move]

theorem moves_after_opening (h : Apart (A.flatMap Written.lexemes)) (rest : List Char) :
    (parse (String.ofList (Written.text A ++ '(' :: rest))).moves =
      A.filterMap Written.move? ++ (parse (String.ofList (afterClosing 0 rest))).moves :=
  moves_append h rfl (Token.scanFrom_variation 0 rest)

theorem moves_written (h : Apart (B.flatMap Written.lexemes)) :
    (parse (String.ofList (Written.text B))).moves = B.filterMap Written.move? :=
  (recovers_of_scan h (by rw [String.toList_ofList])).moves

/-- Between two texts a variation adds no move and loses none if the parentheses in it match, as
they do when those of each comment match among themselves. Whatever stands in it, reading goes on
behind the parenthesis that matches the first one, parentheses in comments counted. -/
theorem sideline_passed_over (A B : List Written) (hA : Apart (A.flatMap Written.lexemes))
    (hB : Apart (B.flatMap Written.lexemes)) :
    (∀ V, Sideline Balanced V →
      (parse (String.ofList (Written.text A ++ '(' :: (V ++ ')' :: Written.text B)))).moves =
        A.filterMap Written.move? ++ B.filterMap Written.move?) ∧
    (∀ V, Balanced V →
      (parse (String.ofList (Written.text A ++ '(' :: (V ++ ')' :: Written.text B)))).moves =
        A.filterMap Written.move? ++ B.filterMap Written.move?) ∧
    ∀ rest, (parse (String.ofList (Written.text A ++ '(' :: rest))).moves =
      A.filterMap Written.move? ++ (parse (String.ofList (afterClosing 0 rest))).moves := by
  have hpassed : ∀ V, Balanced V →
      (parse (String.ofList (Written.text A ++ '(' :: (V ++ ')' :: Written.text B)))).moves =
        A.filterMap Written.move? ++ B.filterMap Written.move? := by
    intro V hV
    have hscan := Token.scan_filler (.variation V hV) (Written.text B)
    rw [Filler.text, List.cons_append, List.append_assoc] at hscan
    rw [← moves_written hB]
    exact moves_append hA rfl hscan
  exact ⟨fun V hV => hpassed V hV.balanced, hpassed, moves_after_opening hA⟩

def mainline : List Written :=
  [.move ⟨⟨['N', 'f', '3'], List.cons_ne_nil _ _, rfl⟩, by decide, rfl, by decide⟩,
    .ornament (.filler .space)]

def mainlineRest : List Written :=
  [.ornament (.filler .space),
    .move ⟨⟨['N', 'f', '6'], List.cons_ne_nil _ _, rfl⟩, by decide, rfl, by decide⟩]

def matched : List Char := ['d', '4', '\x7b', 'a', '(', 'b', ')', '\x7d', 'd', '5']

theorem matched_passed_over :
    (parse (String.ofList
      (Written.text mainline ++ '(' :: (matched ++ ')' :: Written.text mainlineRest)))).moves =
        ["Nf3", "Nf6"] := by
  have hbody : Balanced ['a', '(', 'b', ')'] :=
    .other (by decide) (by decide) (.nest (.other (by decide) (by decide) .nil) .nil)
  have hmatched : Sideline Balanced matched :=
    .other (by decide) (.other (by decide) (.comment (by decide) hbody
      (.other (by decide) (.other (by decide) .nil))))
  exact ((sideline_passed_over mainline mainlineRest (by decide) (by decide)).1 matched
    hmatched).trans (by decide)

/-- A comment with a parenthesis that closes, and one with a parenthesis that opens. -/
def unmatched : List (List Char) :=
  [['d', '4', '\x7b', 'a', ')', 'b', '\x7d', 'd', '5'], ['d', '4', '\x7b', '(', '\x7d']]

/-- The one lets a word of the comment and a move of the variation in, the other swallows the rest
of the game. -/
theorem sideline_torn :
    (∀ V ∈ unmatched, Sideline (fun _ => True) V) ∧
      Apart (mainline.flatMap Written.lexemes) ∧ Apart (mainlineRest.flatMap Written.lexemes) ∧
      mainline.filterMap Written.move? ++ mainlineRest.filterMap Written.move? = ["Nf3", "Nf6"] ∧
      (unmatched.map fun V => (parse (String.ofList
        (Written.text mainline ++ '(' :: (V ++ ')' :: Written.text mainlineRest)))).moves) =
          [["Nf3", "b", "d5", "Nf6"], ["Nf3"]] := by
  have hcloses : '\x7d' ∉ ['a', ')', 'b'] := by decide
  have hopens : '\x7d' ∉ ['('] := by decide
  refine ⟨?_, by decide, by decide, by decide, by decide +kernel⟩
  rw [unmatched, List.forall_mem_cons, List.forall_mem_singleton]
  constructor
  · exact .other (by decide) (.other (by decide) (.comment hcloses trivial
      (.other (by decide) (.other (by decide) .nil))))
  · exact .other (by decide) (.other (by decide) (.comment hopens trivial .nil))

end PgnGame

end ChessArbiter
