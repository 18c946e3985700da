import Mathlib.Data.List.Chain
import ChessArbiter.PgnGame

/-!
# Game texts

A game text is written as tag pairs and moves with comments, variations, move numbers, glyphs,
marks and results between them (`Written`), the runs of symbol characters kept apart (`Apart`).
Whatever stands between leaves no tokens or tokens that are passed over, so that reading recovers
the moves and the tags, in whatever letter case they are asked for (`PgnGame.parse_written`). Inside
a tag only what leaves no token may stand before the value: anything else would be taken for the
name or the value.
-/

namespace ChessArbiter

/-- Every parenthesis has its match. -/
inductive Balanced : List Char → Prop
  | nil : Balanced []
  | other {c : Char} {cs : List Char} (hopen : c ≠ '(') (hclose : c ≠ ')') (h : Balanced cs) :
    Balanced (c :: cs)
  | nest {cs ds : List Char} (h : Balanced cs) (h' : Balanced ds) :
    Balanced ('(' :: (cs ++ ')' :: ds))

/-- Symbol characters, at least one. -/
structure Run where
  chars : List Char
  nonempty : chars ≠ []
  symbol : chars.all Token.isSymbolChar = true

/-- A run that may be a move. -/
structure MoveText extends Run where
  not_glyph : chars.head? ≠ some '$'
  not_number : chars.all Char.isDigit = false
  not_result : chars ∉ [['1', '-', '0'], ['0', '-', '1'], ['1', '/', '2', '-', '1', '/', '2']]

/-- What leaves no token. -/
inductive Filler where
  | blank (c : Char) (h : Text.isSpace c = true)
  | comment (body : List Char) (h : '\x7d' ∉ body)
  | lineComment (body : List Char) (h : '\n' ∉ body)
  | variation (body : List Char) (h : Balanced body)

/-- What is neither a tag nor a move. The mark of an undecided game is among its results, and a
move number is followed by marks. -/
inductive Ornament where
  | filler (f : Filler)
  | number (digits : List Char) (nonempty : digits ≠ []) (h : digits.all Char.isDigit = true)
  | glyph (digits : List Char) (h : digits.all Char.isDigit = true)
  | result (s : List Char)
      (h : s ∈ [['1', '-', '0'], ['0', '-', '1'], ['1', '/', '2', '-', '1', '/', '2']])
  | mark (c : Char) (h : c ∈ ['.', '!', '?', '*'])

structure TagText where
  before : List Filler
  name : Run
  between : List Filler
  value : List Char
  after : List Ornament

inductive Written where
  | tag (t : TagText)
  | move (m : MoveText)
  | ornament (o : Ornament)

/-- The least pieces of a text, none of which is read in part. -/
inductive Lexeme where
  | filler (f : Filler)
  | run (r : Run)
  | value (v : List Char)
  | mark (c : Char) (h : Token.first c = ([.mark c], .between))

def Filler.space : Filler := .blank ' ' rfl

def Filler.feed : Filler := .blank '\n' rfl

def Ornament.dot : Ornament := .mark '.' (by decide)

def Filler.text : Filler → List Char
  | blank c _ => [c]
  | comment body _ => '\x7b' :: (body ++ ['\x7d'])
  | lineComment body _ => ';' :: (body ++ ['\n'])
  | variation body _ => '(' :: (body ++ [')'])

def escape (v : List Char) : List Char :=
  v.flatMap fun c => if c = '"' ∨ c = '\\' then ['\\', c] else [c]

namespace Lexeme

def text : Lexeme → List Char
  | filler f => f.text
  | run r => r.chars
  | value v => '"' :: (escape v ++ ['"'])
  | mark c _ => [c]

def token? : Lexeme → Option Token
  | filler _ => none
  | run r => some (.symbol r.chars)
  | value v => some (.quoted v)
  | mark c _ => some (.mark c)

def isRun : Lexeme → Bool
  | run _ => true
  | _ => false

end Lexeme

/-- No two runs touch. -/
def Apart (ls : List Lexeme) : Prop := ls.IsChain fun l l' => ¬(l.isRun = true ∧ l'.isRun = true)

instance (ls : List Lexeme) : Decidable (Apart ls) :=
  inferInstanceAs (Decidable (ls.IsChain fun l l' => ¬(l.isRun = true ∧ l'.isRun = true)))

theorem all_isSymbolChar_of_digits {digits : List Char} (h : digits.all Char.isDigit = true) :
    digits.all Token.isSymbolChar = true := by
  rw [List.all_eq_true] at h ⊢
  intro c hc
  simp [Token.isSymbolChar, Char.isAlphanum, h c hc]

theorem all_isSymbolChar_glyph {digits : List Char} (h : digits.all Char.isDigit = true) :
    ('$' :: digits).all Token.isSymbolChar = true := by
  rw [List.all_cons, all_isSymbolChar_of_digits h]
  rfl

namespace Ornament

theorem symbol_of_mem_results {s : List Char}
    (h : s ∈ [['1', '-', '0'], ['0', '-', '1'], ['1', '/', '2', '-', '1', '/', '2']]) :
    s ≠ [] ∧ s.all Token.isSymbolChar = true := by
  simp only [List.mem_cons, List.not_mem_nil, or_false] at h
  rcases h with rfl | rfl | rfl <;> exact ⟨nofun, rfl⟩

theorem first_of_mem_marks {c : Char} (h : c ∈ ['.', '!', '?', '*']) :
    Token.first c = ([.mark c], .between) := by
  simp only [List.mem_cons, List.not_mem_nil, or_false] at h
  rcases h with rfl | rfl | rfl | rfl <;> rfl

def lexeme : Ornament → Lexeme
  | filler f => .filler f
  | number digits nonempty h => .run ⟨digits, nonempty, all_isSymbolChar_of_digits h⟩
  | glyph digits h => .run ⟨'$' :: digits, List.cons_ne_nil _ _, all_isSymbolChar_glyph h⟩
  | result s h => .run ⟨s, (symbol_of_mem_results h).1, (symbol_of_mem_results h).2⟩
  | mark c h => .mark c (first_of_mem_marks h)

end Ornament

def TagText.lexemes (t : TagText) : List Lexeme :=
  .mark '[' rfl :: (t.before.map .filler ++ .run t.name :: (t.between.map .filler ++
    .value t.value :: (t.after.map Ornament.lexeme ++ [.mark ']' rfl])))

namespace Written

def lexemes : Written → List Lexeme
  | tag t => t.lexemes
  | move m => [.run m.toRun]
  | ornament o => [o.lexeme]

def move? : Written → Option String
  | move m => some (String.ofList m.chars)
  | _ => none

def tag? : Written → Option (String × String)
  | tag t => some (String.ofList t.name.chars, String.ofList t.value)
  | _ => none

def text (ws : List Written) : List Char := (ws.flatMap lexemes).flatMap Lexeme.text

end Written

/-- The value that the last pair of some name gives it, letter case left out. -/
def valueOf (pairs : List (String × String)) (name : String) : Option String :=
  ((pairs.filter fun e => Text.lower e.1 == Text.lower name).getLast?).map (·.2)

/-! ### Tokens -/

namespace Token

variable {s body rest : List Char}

theorem scanFrom_comment (h : '\x7d' ∉ body) :
    scanFrom .comment (body ++ '\x7d' :: rest) = scan rest := by
  induction body with
  | nil => rfl
  | cons c body ih =>
    rw [List.mem_cons, not_or] at h
    rw [List.cons_append, scanFrom, next, if_neg (Ne.symm h.1)]
    exact ih h.2

theorem scanFrom_lineComment (h : '\n' ∉ body) :
    scanFrom .lineComment (body ++ '\n' :: rest) = scan rest := by
  induction body with
  | nil => rfl
  | cons c body ih =>
    rw [List.mem_cons, not_or] at h
    rw [List.cons_append, scanFrom, next, if_neg (Ne.symm h.1)]
    exact ih h.2

theorem next_variation (outer : Nat) {c : Char} (hopen : c ≠ '(') (hclose : c ≠ ')') :
    next (.variation outer) c = ([], .variation outer) :=
  (if_neg hopen).trans (if_neg hclose)

/-- Balanced text neither opens nor closes a variation. -/
theorem scanFrom_balanced (h : Balanced body) (outer : Nat) (rest : List Char) :
    scanFrom (.variation outer) (body ++ rest) = scanFrom (.variation outer) rest := by
  induction h generalizing outer rest with
  | nil => rfl
  | @other c cs hopen hclose _ ih =>
    rw [List.cons_append, scanFrom, next_variation outer hopen hclose]
    exact ih outer rest
  | @nest cs ds _ _ hinner houter =>
    change scanFrom (.variation (outer + 1)) ((cs ++ ')' :: ds) ++ rest) = _
    rw [List.append_assoc, hinner]
    exact houter outer rest

theorem scanFrom_escape (v read rest : List Char) :
    scanFrom (.quoted read false) (escape v ++ '"' :: rest) =
      .quoted (read.reverse ++ v) :: scan rest := by
  induction v generalizing read with
  | nil =>
    rw [List.append_nil]
    rfl
  | cons c v ih =>
    have hrest := ih (c :: read)
    rw [List.reverse_cons, List.append_assoc] at hrest
    unfold escape
    rw [List.flatMap_cons]
    by_cases hc : c = '"' ∨ c = '\\'
    · rw [if_pos hc]
      exact hrest
    · rw [if_neg hc]
      rw [not_or] at hc
      have hnext : next (.quoted read false) c = ([], .quoted (c :: read) false) :=
        (if_neg hc.2).trans (if_neg hc.1)
      rw [List.singleton_append, List.cons_append, scanFrom, hnext]
      exact hrest

theorem scanFrom_run (h : s.all isSymbolChar = true)
    (hrest : rest.head?.any isSymbolChar = false) (read : List Char) :
    scanFrom (.symbol read) (s ++ rest) = .symbol (read.reverse ++ s) :: scan rest := by
  induction s generalizing read with
  | nil =>
    rw [List.append_nil, List.nil_append]
    cases rest with
    | nil => rfl
    | cons c cs =>
      have hc : isSymbolChar c = false := hrest
      rw [scanFrom, next, hc]
      rfl
  | cons c s ih =>
    rw [List.all_cons, Bool.and_eq_true] at h
    rw [List.cons_append, scanFrom, next, if_pos h.1]
    have htail := ih h.2 (c :: read)
    rw [List.reverse_cons, List.append_assoc] at htail
    exact htail

theorem isSymbolChar_of_isSpace {c : Char} (h : Text.isSpace c = true) :
    isSymbolChar c = false := by
  simp only [Text.isSpace, Bool.or_eq_true, beq_iff_eq] at h
  rcases h with ((((rfl | rfl) | rfl) | rfl) | rfl) | rfl <;> rfl

theorem first_of_isSymbolChar {c : Char} (h : isSymbolChar c = true) :
    first c = ([], .symbol [c]) := by
  have hne : ∀ d, isSymbolChar d = false → c ≠ d := by
    rintro d hd rfl
    rw [h] at hd
    cases hd
  have hspace : ¬Text.isSpace c = true := by
    intro hspace
    rw [isSymbolChar_of_isSpace hspace] at h
    cases h
  rw [first, if_neg hspace, if_neg (hne ';' rfl), if_neg (hne '\x7b' rfl), if_neg (hne '(' rfl),
    if_neg (hne '"' rfl), if_pos h]

theorem scan_run (r : Run) (hrest : rest.head?.any isSymbolChar = false) :
    scan (r.chars ++ rest) = .symbol r.chars :: scan rest := by
  obtain ⟨chars, hne, h⟩ := r
  cases chars with
  | nil => exact absurd rfl hne
  | cons c s =>
    rw [List.all_cons, Bool.and_eq_true] at h
    rw [scan, List.cons_append, scanFrom, next, first_of_isSymbolChar h.1]
    exact scanFrom_run h.2 hrest [c]

theorem scan_filler (f : Filler) (rest : List Char) : scan (f.text ++ rest) = scan rest := by
  cases f with
  | blank c h =>
    rw [scan, Filler.text, List.singleton_append, scanFrom, next, first, if_pos h]
    rfl
  | comment body h =>
    rw [Filler.text, List.cons_append, List.append_assoc]
    exact scanFrom_comment h
  | lineComment body h =>
    rw [Filler.text, List.cons_append, List.append_assoc]
    exact scanFrom_lineComment h
  | variation body h =>
    rw [Filler.text, List.cons_append, List.append_assoc]
    exact scanFrom_balanced h 0 _

/-- A piece of a text is read apart from what follows, unless it is a run that goes on. -/
theorem scan_lexeme (l : Lexeme) (hrest : l.isRun = true → rest.head?.any isSymbolChar = false) :
    scan (l.text ++ rest) = l.token?.toList ++ scan rest := by
  cases l with
  | filler f => exact scan_filler f rest
  | run r => exact scan_run r (hrest rfl)
  | value v =>
    rw [Lexeme.text, List.cons_append, List.append_assoc]
    exact scanFrom_escape v [] rest
  | mark c h =>
    rw [scan, Lexeme.text, List.singleton_append, scanFrom, next, h]
    rfl

theorem head_of_not_run (l : Lexeme) (h : l.isRun = false) (rest : List Char) :
    (l.text ++ rest).head?.any isSymbolChar = false := by
  cases l with
  | filler f =>
    cases f with
    | blank c hc => exact isSymbolChar_of_isSpace hc
    | comment _ _ => rfl
    | lineComment _ _ => rfl
    | variation _ _ => rfl
  | run r => cases h
  | value v => rfl
  | mark c hc =>
    change isSymbolChar c = false
    by_contra hsymbol
    rw [first_of_isSymbolChar (by simpa using hsymbol)] at hc
    cases hc

theorem scan_lexemes_append (ls : List Lexeme) (h : Apart ls)
    (hrest : rest.head?.any isSymbolChar = false) :
    scan (ls.flatMap Lexeme.text ++ rest) = ls.filterMap Lexeme.token? ++ scan rest := by
  induction ls with
  | nil => rfl
  | cons l ls ih =>
    -- only a run is read on by what follows it, and no run follows a run
    have hnext : l.isRun = true →
        (ls.flatMap Lexeme.text ++ rest).head?.any isSymbolChar = false := by
      intro hrun
      cases ls with
      | nil => exact hrest
      | cons l' ls =>
        rw [List.flatMap_cons, List.append_assoc]
        apply head_of_not_run
        have hpair := (List.isChain_cons_cons.1 h).1
        simpa [hrun] using hpair
    rw [List.flatMap_cons, List.append_assoc, scan_lexeme l hnext, ih h.tail, List.filterMap_cons]
    cases l.token? <;> rfl

theorem scan_lexemes (ls : List Lexeme) (h : Apart ls) :
    scan (ls.flatMap Lexeme.text) = ls.filterMap Lexeme.token? := by
  have hend : ([] : List Char).head?.any isSymbolChar = false := rfl
  have hwhole := scan_lexemes_append ls h hend
  rw [List.append_nil] at hwhole
  exact hwhole.trans (List.append_nil _)

end Token

/-! ### Tags and moves -/

namespace PgnGame

theorem read_ornament {o : Ornament} {t : Token} (h : o.lexeme.token? = some t) :
    Place.read .movetext t = (none, .movetext) ∧ t ≠ .mark ']' := by
  have haside : ∀ s, isAside s = true →
      Place.read .movetext (.symbol s) = (none, .movetext) ∧ Token.symbol s ≠ .mark ']' := by
    intro s hs
    rw [Place.read, if_pos hs]
    exact ⟨rfl, nofun⟩
  cases o with
  | filler f => cases h
  | number digits _ hdigits =>
    obtain rfl := Option.some.inj h
    apply haside
    simp only [isAside, hdigits, Bool.or_true, Bool.true_or]
  | glyph digits _ =>
    obtain rfl := Option.some.inj h
    exact haside _ rfl
  | result s hs =>
    obtain rfl := Option.some.inj h
    apply haside
    simp only [isAside, isResult, List.contains_iff_mem.2 hs, Bool.or_true]
  | mark c hc =>
    obtain rfl := Option.some.inj h
    simp only [List.mem_cons, List.not_mem_nil, or_false] at hc
    rcases hc with rfl | rfl | rfl | rfl <;> exact ⟨rfl, by decide⟩

theorem itemsFrom_ornament (o : Ornament) (ts : List Token) :
    itemsFrom .movetext (o.lexeme.token?.toList ++ ts) = itemsFrom .movetext ts := by
  cases h : o.lexeme.token? with
  | none => rfl
  | some t =>
    rw [Option.toList_some, List.singleton_append, itemsFrom, (read_ornament h).1]

theorem itemsFrom_cons (place : Place) (t : Token) (ts : List Token) :
    itemsFrom place (t :: ts) = (place.read t).1.toList ++ itemsFrom (place.read t).2 ts := by
  rw [itemsFrom]
  rcases place.read t with ⟨_ | item, next⟩ <;> rfl

theorem itemsFrom_tagRest {ts : List Token} (h : .mark ']' ∉ ts) (us : List Token) :
    itemsFrom .tagRest (ts ++ us) = itemsFrom .tagRest us := by
  induction ts with
  | nil => rfl
  | cons t ts ih =>
    rw [List.mem_cons, not_or] at h
    have hread : Place.read .tagRest t = (none, .tagRest) := by
      rw [Place.read, Place.after, if_neg (Ne.symm h.1)]
    rw [List.cons_append, itemsFrom_cons, hread]
    exact ih h.2

theorem itemsFrom_after (os : List Ornament) (ts : List Token) :
    itemsFrom .tagRest ((os.map Ornament.lexeme).filterMap Lexeme.token? ++ .mark ']' :: ts) =
      itemsFrom .movetext ts := by
  have hopen : .mark ']' ∉ (os.map Ornament.lexeme).filterMap Lexeme.token? := by
    rw [List.filterMap_map, List.mem_filterMap]
    rintro ⟨o, -, ho⟩
    exact (read_ornament ho).2 rfl
  exact itemsFrom_tagRest hopen _

theorem itemsFrom_tag (t : TagText) (ts : List Token) :
    itemsFrom .movetext (t.lexemes.filterMap Lexeme.token? ++ ts) =
      .tag (String.ofList t.name.chars) (String.ofList t.value) :: itemsFrom .movetext ts := by
  have hsilent : ∀ fs : List Filler, (fs.map Lexeme.filler).filterMap Lexeme.token? = [] := by
    intro fs
    induction fs with
    | nil => rfl
    | cons f fs ih => exact ih
  have htokens : t.lexemes.filterMap Lexeme.token? = .mark '[' :: .symbol t.name.chars ::
      .quoted t.value :: ((t.after.map Ornament.lexeme).filterMap Lexeme.token? ++ [.mark ']']) := by
    simp [TagText.lexemes, hsilent, Lexeme.token?]
  rw [htokens]
  change _ :: itemsFrom .tagRest (_ ++ [Token.mark ']'] ++ ts) = _
  rw [List.append_assoc, List.singleton_append, itemsFrom_after]

theorem isAside_of_move (m : MoveText) : isAside m.chars = false := by
  have hresult : isResult m.chars = false := by
    have hno := m.not_result
    rw [isResult, ← Bool.not_eq_true, List.contains_iff_mem]
    exact hno
  rw [isAside, m.not_number, hresult, beq_false_of_ne m.not_glyph]
  rfl

def itemOf : Written → Option Item
  | .tag t => some (.tag (String.ofList t.name.chars) (String.ofList t.value))
  | .move m => some (.move (String.ofList m.chars))
  | .ornament _ => none

theorem itemsFrom_written_append (ws : List Written) (ts : List Token) :
    itemsFrom .movetext ((ws.flatMap Written.lexemes).filterMap Lexeme.token? ++ ts) =
      ws.filterMap itemOf ++ itemsFrom .movetext ts := by
  induction ws with
  | nil => rfl
  | cons w ws ih =>
    rw [List.flatMap_cons, List.filterMap_append, List.append_assoc]
    cases w with
    | tag t => exact (itemsFrom_tag t _).trans (congrArg _ ih)
    | move m =>
      change itemsFrom .movetext (.symbol m.chars :: _) = .move _ :: _
      rw [itemsFrom, Place.read, isAside_of_move]
      exact congrArg _ ih
    | ornament o =>
      have hone : [o.lexeme].filterMap Lexeme.token? = o.lexeme.token?.toList := by
        rw [List.filterMap_cons]
        cases o.lexeme.token? <;> rfl
      change itemsFrom .movetext ([o.lexeme].filterMap _ ++ _) = ws.filterMap itemOf ++ _
      rw [hone, itemsFrom_ornament, ih]

theorem itemsFrom_written (ws : List Written) :
    itemsFrom .movetext ((ws.flatMap Written.lexemes).filterMap Lexeme.token?) =
      ws.filterMap itemOf := by
  have hwhole := itemsFrom_written_append ws []
  rw [List.append_nil] at hwhole
  exact hwhole.trans (List.append_nil _)

theorem filterMap_move (ws : List Written) :
    (ws.filterMap itemOf).filterMap Item.move? = ws.filterMap Written.move? := by
  rw [List.filterMap_filterMap]
  apply List.filterMap_congr
  intro w _
  cases w <;> rfl

/-! ### Looking up a tag -/

theorem lookup_filter_ne (es : List (String × String)) {key name : String} (h : name ≠ key) :
    (es.filter (·.1 != key)).lookup name = es.lookup name := by
  induction es with
  | nil => rfl
  | cons e es ih =>
    by_cases he : e.1 = key
    · have hname : (name == e.1) = false := beq_false_of_ne (he ▸ h)
      rw [List.filter_cons_of_neg (by simp [he]), ih, List.lookup_cons, hname]
    · rw [List.filter_cons_of_pos (by simp [he]), List.lookup_cons, List.lookup_cons, ih]

theorem lookup_setTag (g : PgnGame) (name value key : String) :
    (g.setTag name value).tags.lookup key =
      if Text.lower name = key then some value else g.tags.lookup key := by
  unfold setTag
  rw [List.lookup_append]
  split_ifs with h
  · have hnone : (g.tags.filter (·.1 != Text.lower name)).lookup key = none := by
      apply List.lookup_eq_none_iff.2
      intro e he
      rw [← h, bne_comm]
      exact (List.mem_filter.1 he).2
    rw [hnone, h, Option.none_or, List.lookup_cons, beq_self_eq_true]
  · have hnone : [(Text.lower name, value)].lookup key = none := by
      rw [List.lookup_cons, beq_false_of_ne (Ne.symm h)]
      rfl
    rw [lookup_filter_ne _ (Ne.symm h), hnone, Option.or_none]

theorem tag_setTag (g : PgnGame) (key value name : String) :
    (g.setTag key value).tag name =
      if Text.lower key = Text.lower name then some value else g.tag name :=
  lookup_setTag g key value (Text.lower name)

theorem valueOf_concat (es : List (String × String)) (e : String × String) (name : String) :
    valueOf (es ++ [e]) name =
      if Text.lower e.1 = Text.lower name then some e.2 else valueOf es name := by
  unfold valueOf
  rw [List.filter_append]
  split_ifs with h
  · have hkept : ([e].filter fun e => Text.lower e.1 == Text.lower name) = [e] := by simp [h]
    rw [hkept, List.getLast?_concat]
    rfl
  · have hleft : ([e].filter fun e => Text.lower e.1 == Text.lower name) = [] := by simp [h]
    rw [hleft, List.append_nil]

theorem tag_foldl (ws : List Written) (name : String) :
    ((ws.filterMap itemOf).foldl addItem {}).tag name =
      valueOf (ws.filterMap Written.tag?) name := by
  induction ws using List.reverseRecOn with
  | nil => rfl
  | append_singleton ws w ih =>
    rw [List.filterMap_append, List.filterMap_append, List.foldl_append]
    cases w with
    | tag t =>
      change (setTag _ (String.ofList t.name.chars) (String.ofList t.value)).tag name =
        valueOf (_ ++ [(String.ofList t.name.chars, String.ofList t.value)]) name
      rw [tag_setTag, valueOf_concat, ih]
    | move m =>
      change PgnGame.tag _ name = valueOf (_ ++ []) name
      rw [List.append_nil]
      exact ih
    | ornament o =>
      change PgnGame.tag _ name = valueOf (_ ++ []) name
      rw [List.append_nil]
      exact ih

/-- The game has the moves written, in order, and gives to each name, in any letter case, the value
of the last tag of that name. -/
structure Recovers (g : PgnGame) (ws : List Written) : Prop where
  moves : g.moves = ws.filterMap Written.move?
  tag : ∀ name, g.tag name = valueOf (ws.filterMap Written.tag?) name

theorem moves_parse (cs : List Char) : (parse (String.ofList cs)).moves =
    (itemsFrom .movetext (Token.scan cs)).filterMap Item.move? := by
  unfold parse
  rw [String.toList_ofList]

theorem tags_parse (cs : List Char) : (parse (String.ofList cs)).tags =
    ((itemsFrom .movetext (Token.scan cs)).foldl addItem {}).tags := by
  unfold parse
  rw [String.toList_ofList]

theorem recovers_of_scan {ws : List Written} (h : Apart (ws.flatMap Written.lexemes))
    {text : String} (htext : Token.scan text.toList = Token.scan (Written.text ws)) :
    (parse text).Recovers ws := by
  have hitems : itemsFrom .movetext (Token.scan text.toList) = ws.filterMap itemOf := by
    rw [htext, Written.text, Token.scan_lexemes _ h, itemsFrom_written]
  unfold parse
  rw [hitems]
  exact ⟨filterMap_move ws, tag_foldl ws⟩

/-- Reading recovers what is written, whatever stands between the moves and the tags. -/
theorem parse_written (ws : List Written) (h : Apart (ws.flatMap Written.lexemes)) :
    (parse (String.ofList (Written.text ws))).Recovers ws := by
  apply recovers_of_scan h
  rw [String.toList_ofList]

/-- Two tags of one name, of which the second has a quote and a backslash in its value and a comment
before its name, and two moves with a number, marks, a nested variation, a glyph and a result. -/
def annotated : List Written :=
  [.tag ⟨[], ⟨['R', 'o', 'u', 'n', 'd'], List.cons_ne_nil _ _, rfl⟩, [.space], ['1'], []⟩,
    .ornament (.filler (.lineComment ['1', '.', 'a', '3'] (by decide))),
    .tag ⟨[.comment ['\n', ']'] (by decide)], ⟨['r', 'o', 'U', 'N', 'D'], List.cons_ne_nil _ _, rfl⟩,
      [.feed], ['"', '\\'], [.mark '?' (by decide), .number ['2'] (List.cons_ne_nil _ _) rfl]⟩,
    .ornament (.number ['1'] (List.cons_ne_nil _ _) rfl), .ornament .dot,
    .move ⟨⟨['e', '4'], List.cons_ne_nil _ _, rfl⟩, by decide, rfl, by decide⟩,
    .ornament (.mark '!' (by decide)),
    .ornament (.filler (.variation ['d', '(', 'c', ')'] (.other (by decide) (by decide)
      (.nest (.other (by decide) (by decide) .nil) .nil)))),
    .move ⟨⟨['O', '-', 'O'], List.cons_ne_nil _ _, rfl⟩, by decide, rfl, by decide⟩,
    .ornament (.filler (.blank '\t' rfl)), .ornament (.glyph ['1', '4'] rfl),
    .ornament (.filler .space), .ornament (.result ['1', '-', '0'] (by decide))]

theorem parse_annotated :
    Apart (annotated.flatMap Written.lexemes) ∧
      (parse (String.ofList (Written.text annotated))).moves = ["e4", "O-O"] ∧
      (parse (String.ofList (Written.text annotated))).tag "ROUND" = some "\"\\" := by
  have hapart : Apart (annotated.flatMap Written.lexemes) := by decide
  obtain ⟨hmoves, htag⟩ := parse_written annotated hapart
  exact ⟨hapart, hmoves.trans (by decide), (htag "ROUND").trans (by decide)⟩

end PgnGame

end ChessArbiter
