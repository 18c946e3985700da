import Mathlib.Data.List.TakeWhile
import ChessArbiter.Proofs.GameText

/-!
# Cutting a file into games

A file is cut line by line, and what a line is in the middle of does not matter for that: a comment
with a blank line in it, or with a line that begins like a tag, is torn in two, and its words are
read as moves (`comment_torn`). A game is kept whole if all its move lines, those inside comments as
well, are neither blank nor begin like a tag (`Score`). Taking the blanks off both ends of each line
changes no token as long as no string goes on over the end of a line (`Token.scanFrom_trim`), so the
games of such a file are read one by one (`PgnGame.readGames_scores`).
-/

namespace ChessArbiter

/-! ### Lines -/

namespace Text

variable {l tail : List Char} {ls : List (List Char)}

def unlines (ls : List (List Char)) : List Char := ls.flatMap (· ++ ['\n'])

theorem unlines_cons (l : List Char) (ls : List (List Char)) :
    unlines (l :: ls) = l ++ ['\n'] ++ unlines ls := List.flatMap_cons

theorem lines_feed (h : '\n' ∉ l) (tail : List Char) :
    lines (l ++ '\n' :: tail) = l :: lines tail := by
  induction l with
  | nil => rfl
  | cons c l ih =>
    rw [List.mem_cons, not_or] at h
    rw [List.cons_append, lines, if_neg (Ne.symm h.1), ih h.2]
    rfl

theorem lines_of_no_feed (h : '\n' ∉ l) (hne : l ≠ []) : lines l = [l] := by
  induction l with
  | nil => exact absurd rfl hne
  | cons c l ih =>
    rw [List.mem_cons, not_or] at h
    rw [lines, if_neg (Ne.symm h.1)]
    cases l with
    | nil => rfl
    | cons d l =>
      rw [ih h.2 nofun]
      rfl

theorem lines_unlines_append (h : ∀ l ∈ ls, '\n' ∉ l) (tail : List Char) :
    lines (unlines ls ++ tail) = ls ++ lines tail := by
  induction ls with
  | nil => rfl
  | cons l ls ih =>
    rw [List.forall_mem_cons] at h
    rw [unlines_cons, List.append_assoc, List.append_assoc, List.singleton_append, lines_feed h.1,
      ih h.2]
    rfl

/-- The lines make up the text; the last one may lack its line feed. -/
def MadeOf (text : String) (ls : List (List Char)) : Prop :=
  text.toList = unlines ls ∨
    ∃ rest last, ls = rest ++ [last] ∧ last ≠ [] ∧ text.toList = unlines rest ++ last

theorem MadeOf.lines_eq {text : String} (h : MadeOf text ls) (hls : ∀ l ∈ ls, '\n' ∉ l) :
    lines text.toList = ls := by
  rcases h with htext | ⟨rest, last, rfl, hne, htext⟩
  · rw [htext, ← List.append_nil (unlines ls), lines_unlines_append hls]
    exact List.append_nil ls
  · rw [List.forall_mem_append, List.forall_mem_singleton] at hls
    rw [htext, lines_unlines_append hls.1, lines_of_no_feed hls.2 hne]

theorem trim_spec (l : List Char) : ∃ lead trail, l = lead ++ trim l ++ trail ∧
    (∀ c ∈ lead, isBlank c = true) ∧ ∀ c ∈ trail, isBlank c = true := by
  refine ⟨l.takeWhile isBlank, takeTrailing isBlank (l.dropWhile isBlank), ?_, ?_, ?_⟩
  · rw [List.append_assoc, trim, dropTrailing_append_takeTrailing, List.takeWhile_append_dropWhile]
  · intro c hc
    exact List.mem_takeWhile_imp hc
  · intro c hc
    rw [takeTrailing, List.mem_reverse] at hc
    exact List.mem_takeWhile_imp hc

theorem isSpace_of_isBlank {c : Char} (h : isBlank c = true) : isSpace c = true := by
  simp only [isBlank, Bool.or_eq_true, beq_iff_eq] at h
  rcases h with ((rfl | rfl) | rfl) | rfl <;> rfl

end Text

/-! ### Tokens of trimmed lines -/

def Scanning.isString : Scanning → Bool
  | .quoted _ _ => true
  | _ => false

namespace Token

variable {st : Scanning} {s t bs l : List Char} {ls : List (List Char)}

theorem completed_append (st : Scanning) (s t : List Char) :
    completed st (s ++ t) = completed st s ++ completed (stateAfter st s) t := by
  induction s generalizing st with
  | nil => rfl
  | cons c s ih =>
    rw [List.cons_append, completed, ih, completed, List.append_assoc]
    rfl

theorem stateAfter_append (st : Scanning) (s t : List Char) :
    stateAfter st (s ++ t) = stateAfter (stateAfter st s) t := List.foldl_append

/-- Two texts complete the same tokens and leave the same open. -/
def Alike (st : Scanning) (s t : List Char) : Prop :=
  completed st s = completed st t ∧ stateAfter st s = stateAfter st t

theorem Alike.append_right (h : Alike st s t) (u : List Char) : Alike st (s ++ u) (t ++ u) := by
  unfold Alike
  rw [completed_append, completed_append, stateAfter_append, stateAfter_append, h.1, h.2]
  exact ⟨rfl, rfl⟩

theorem Alike.append_left (h : Alike (stateAfter st s) t u) : Alike st (s ++ t) (s ++ u) := by
  unfold Alike
  rw [completed_append, completed_append, stateAfter_append, stateAfter_append, h.1, h.2]
  exact ⟨rfl, rfl⟩

theorem Alike.trans {u : List Char} (h : Alike st s t) (h' : Alike st t u) : Alike st s u :=
  ⟨h.1.trans h'.1, h.2.trans h'.2⟩

theorem Alike.scanFrom_eq (h : Alike st s t) (rest : List Char) :
    scanFrom st (s ++ rest) = scanFrom st (t ++ rest) := by
  rw [scanFrom_append, scanFrom_append, h.1, h.2]

theorem alike_nil (h : ∀ c ∈ bs, next st c = ([], st)) : Alike st bs [] := by
  induction bs with
  | nil => exact ⟨rfl, rfl⟩
  | cons c bs ih =>
    rw [List.forall_mem_cons] at h
    obtain ⟨hcompleted, hstate⟩ := ih h.2
    constructor
    · change (next st c).1 ++ completed (next st c).2 bs = _
      rw [h.1]
      exact hcompleted
    · rw [stateAfter, List.foldl_cons, h.1]
      exact hstate

/-- Blanks change nothing. -/
def Skips (st : Scanning) : Prop := ∀ c, Text.isBlank c = true → next st c = ([], st)

theorem Skips.alike (h : Skips st) (hbs : ∀ c ∈ bs, Text.isBlank c = true) : Alike st bs [] :=
  alike_nil fun c hc => h c (hbs c hc)

theorem skips_between : Skips .between := by
  intro c hc
  rw [next, first, if_pos (Text.isSpace_of_isBlank hc)]

theorem skips_comment : Skips .comment := by
  intro c hc
  have hne : c ≠ '\x7d' := by
    rintro rfl
    cases hc
  rw [next, if_neg hne]

theorem skips_variation (outer : Nat) : Skips (.variation outer) := by
  intro c hc
  have hopen : c ≠ '(' := by
    rintro rfl
    cases hc
  have hclose : c ≠ ')' := by
    rintro rfl
    cases hc
  exact next_variation outer hopen hclose

theorem skips_after_feed (h : st.isString = false) : Skips (next st '\n').2 := by
  cases st with
  | between => exact skips_between
  | comment => exact skips_comment
  | lineComment => exact skips_between
  | variation outer => exact skips_variation outer
  | quoted read escaped => cases h
  | symbol read => exact skips_between

theorem isString_blanks (h : st.isString = true) (hbs : ∀ c ∈ bs, Text.isBlank c = true) :
    (stateAfter st bs).isString = true := by
  induction bs generalizing st with
  | nil => exact h
  | cons c bs ih =>
    rw [List.forall_mem_cons] at hbs
    have hnext : (next st c).2.isString = true := by
      cases st with
      | quoted read escaped =>
        cases escaped with
        | true => rfl
        | false =>
          have hslash : c ≠ '\\' := by
            rintro rfl
            cases hbs.1
          have hquote : c ≠ '"' := by
            rintro rfl
            cases hbs.1
          rw [next, if_neg hslash, if_neg hquote]
          rfl
      | _ => cases h
    exact ih hnext hbs.2

theorem alike_symbol (read : List Char) (hne : bs ≠ [])
    (hbs : ∀ c ∈ bs, Text.isBlank c = true) : Alike (.symbol read) bs ['\n'] := by
  cases bs with
  | nil => exact absurd rfl hne
  | cons c bs =>
    rw [List.forall_mem_cons] at hbs
    obtain ⟨hcompleted, hstate⟩ := skips_between.alike hbs.2
    have hspace := Text.isSpace_of_isBlank hbs.1
    have hnext : next (.symbol read) c = ([.symbol read.reverse], .between) := by
      rw [next, isSymbolChar_of_isSpace hspace, first, if_pos hspace]
      rfl
    constructor
    · rw [completed, hnext, hcompleted]
      rfl
    · rw [stateAfter, List.foldl_cons, hnext]
      exact hstate

theorem alike_trailing (h : st.isString = false) (hbs : ∀ c ∈ bs, Text.isBlank c = true)
    (hfeed : '\n' ∉ bs) : Alike st (bs ++ ['\n']) ['\n'] := by
  cases st with
  | between => exact (skips_between.alike hbs).append_right _
  | comment => exact (skips_comment.alike hbs).append_right _
  | lineComment =>
    apply Alike.append_right (t := [])
    apply alike_nil
    intro c hc
    have hne : c ≠ '\n' := ne_of_mem_of_not_mem hc hfeed
    rw [next, if_neg hne]
  | variation outer => exact ((skips_variation outer).alike hbs).append_right _
  | quoted read escaped => cases h
  | symbol read =>
    apply alike_symbol read (by simp)
    rw [List.forall_mem_append]
    exact ⟨hbs, List.forall_mem_singleton.2 rfl⟩

theorem alike_trim (hst : Skips st) (h : (stateAfter st l).isString = false) (hfeed : '\n' ∉ l) :
    Alike st (l ++ ['\n']) (Text.trim l ++ ['\n']) := by
  obtain ⟨lead, trail, hl, hlead, htrail⟩ := Text.trim_spec l
  generalize Text.trim l = mid at hl ⊢
  subst hl
  have hskipped := hst.alike hlead
  have hmid : (stateAfter st mid).isString = false := by
    by_contra hopen
    -- a string open before the trailing blanks would still be open after them
    have hstill := isString_blanks (by simpa using hopen) htrail
    rw [stateAfter_append, stateAfter_append, hskipped.2] at h
    change (stateAfter (stateAfter st mid) trail).isString = false at h
    rw [hstill] at h
    cases h
  have htrailing : Alike (stateAfter st mid) (trail ++ ['\n']) ['\n'] := by
    apply alike_trailing hmid htrail
    exact fun hc => hfeed (List.mem_append_right _ hc)
  have hfront := hskipped.append_right (mid ++ (trail ++ ['\n']))
  rw [List.append_assoc, List.append_assoc]
  exact hfront.trans htrailing.append_left

theorem exists_quoted (read : List Char) (escaped : Bool) (s : List Char) :
    ∃ v, .quoted v ∈ scanFrom (.quoted read escaped) s ∧ ∀ c ∈ read, c ∈ v := by
  induction s generalizing read escaped with
  | nil => exact ⟨read.reverse, List.mem_singleton_self _, fun c hc => List.mem_reverse.2 hc⟩
  | cons c s ih =>
    have hread : ∃ v, .quoted v ∈ scanFrom (.quoted (c :: read) false) s ∧ ∀ c ∈ read, c ∈ v := by
      obtain ⟨v, hv, hmem⟩ := ih (c :: read) false
      exact ⟨v, hv, (List.forall_mem_cons.1 hmem).2⟩
    cases escaped with
    | true => exact hread
    | false =>
      rw [scanFrom, next]
      split_ifs with hslash hquote
      · exact ih read true
      · exact ⟨read.reverse, List.mem_cons_self, fun c hc => List.mem_reverse.2 hc⟩
      · exact hread

theorem exists_quoted_feed (h : (stateAfter st l).isString = true) (rest : List Char) :
    ∃ v, .quoted v ∈ scanFrom st (l ++ '\n' :: rest) ∧ '\n' ∈ v := by
  rw [scanFrom_append]
  cases hst : stateAfter st l with
  | quoted read escaped =>
    have hnext : next (.quoted read escaped) '\n' = ([], .quoted ('\n' :: read) false) := by
      cases escaped <;> rfl
    obtain ⟨v, hv, hmem⟩ := exists_quoted ('\n' :: read) false rest
    refine ⟨v, List.mem_append_right _ ?_, hmem _ List.mem_cons_self⟩
    rw [scanFrom, hnext]
    exact hv
  | _ =>
    rw [hst] at h
    cases h

/-- If no string holds a line feed, the blanks at both ends of the lines may be left out. -/
theorem scanFrom_trim (hst : Skips st) (hfeed : ∀ l ∈ ls, '\n' ∉ l)
    (h : ∀ v, .quoted v ∈ scanFrom st (Text.unlines ls) → '\n' ∉ v) :
    scanFrom st (Text.unlines (ls.map Text.trim)) = scanFrom st (Text.unlines ls) := by
  induction ls generalizing st with
  | nil => rfl
  | cons l ls ih =>
    rw [List.forall_mem_cons] at hfeed
    rw [Text.unlines_cons] at h
    -- a line that ended inside a string would leave its line feed in the value
    have hoff : (stateAfter st l).isString = false := by
      by_contra hopen
      obtain ⟨v, hv, hmem⟩ := exists_quoted_feed (by simpa using hopen) (Text.unlines ls)
      rw [List.append_assoc] at h
      exact h v hv hmem
    have hskips : Skips (stateAfter st (l ++ ['\n'])) := by
      rw [stateAfter_append]
      exact skips_after_feed hoff
    rw [List.map_cons, Text.unlines_cons, Text.unlines_cons,
      ← (alike_trim hst hoff hfeed.1).scanFrom_eq, scanFrom_append, scanFrom_append]
    rw [scanFrom_append] at h
    exact congrArg _ (ih hskips hfeed.2 fun v hv => h v (List.mem_append_right _ hv))

end Token

/-! ### Games in a file -/

namespace PgnGame

/-- A game in a file: blank lines, tag lines, blank lines and move lines, of which none is blank or
begins like a tag, whatever it is in the middle of. -/
structure Score where
  before : List (List Char)
  header : List (List Char)
  gap : List (List Char)
  body : List (List Char)
  written : List Written
  blank : ∀ l ∈ before ++ gap, Text.trim l = []
  tags : ∀ l ∈ header, (Text.trim l).head? = some '['
  after_header : header = [] → gap = []
  plain : ∀ l ∈ body, Text.trim l ≠ [] ∧ (Text.trim l).head? ≠ some '['
  nonempty : body ≠ []
  feedless : ∀ l ∈ before ++ (header ++ gap ++ body), '\n' ∉ l
  text_eq : Text.unlines (header ++ gap ++ body) = Written.text written
  apart : Apart (written.flatMap Written.lexemes)
  one_line : ∀ t, .tag t ∈ written → '\n' ∉ t.value

namespace Score

def kept (s : Score) : List (List Char) := s.header ++ s.gap ++ s.body

def lines (s : Score) : List (List Char) := s.before ++ s.kept

/-- A blank line or a tag line sets the game off from what comes before it. -/
def SetOff (s : Score) : Prop := s.before ≠ [] ∨ s.header ≠ []

end Score

namespace Cutting

variable {c : Cutting} {l : List Char} {ls : List (List Char)}

/-- Nothing has been kept unless the moves of a game have begun. -/
def Clear (c : Cutting) : Prop := c.inMoves = false → c.current = []

theorem flush_of_clear (h : c.Clear) (hmoves : c.inMoves = false) : c.flush = c := by
  obtain ⟨games, current, inMoves⟩ := c
  obtain rfl : inMoves = false := hmoves
  obtain rfl : current = [] := h rfl
  rfl

theorem flush_flush (c : Cutting) : c.flush.flush = c.flush := rfl

theorem clear_flush (c : Cutting) : c.flush.Clear := fun _ => rfl

theorem takeLine_blank (h : c.Clear) : c.takeLine [] = c.flush := by
  obtain ⟨games, current, inMoves⟩ := c
  cases inMoves with
  | true => rfl
  | false =>
    obtain rfl : current = [] := h rfl
    rfl

theorem take_blanks (h : c.Clear) (hls : ∀ l ∈ ls, l = []) :
    ls.foldl takeLine c = if ls = [] then c else c.flush := by
  induction ls generalizing c with
  | nil => rfl
  | cons l ls ih =>
    rw [List.forall_mem_cons] at hls
    rw [List.foldl_cons, hls.1, takeLine_blank h, ih (clear_flush c) hls.2, flush_flush, ite_self,
      if_neg nofun]

theorem takeLine_tag (h : c.Clear) (hl : l.head? = some '[') :
    c.takeLine l = { c.flush with current := [l] } := by
  obtain ⟨games, current, inMoves⟩ := c
  rw [takeLine, if_pos hl]
  cases inMoves with
  | true => rfl
  | false =>
    obtain rfl : current = [] := h rfl
    rfl

theorem take_opened (hmoves : c.inMoves = false) (hne : c.current ≠ [])
    (hls : ∀ l ∈ ls, l = [] ∨ l.head? = some '[') :
    ls.foldl takeLine c = { c with current := c.current ++ ls } := by
  induction ls generalizing c with
  | nil => simp
  | cons l ls ih =>
    rw [List.forall_mem_cons] at hls
    have hkept : c.takeLine l = { c with current := c.current ++ [l] } := by
      rcases hls.1 with rfl | hl
      · simp [takeLine, hmoves, hne]
      · simp [takeLine, hmoves, hl]
    have hrest := ih (c := { c with current := c.current ++ [l] }) hmoves (by simp) hls.2
    rw [List.foldl_cons, hkept, hrest, List.append_assoc]
    rfl

theorem take_body (hne : ls ≠ []) (hls : ∀ l ∈ ls, l ≠ [] ∧ l.head? ≠ some '[') :
    ls.foldl takeLine c = { c with current := c.current ++ ls, inMoves := true } := by
  induction ls generalizing c with
  | nil => exact absurd rfl hne
  | cons l ls ih =>
    rw [List.forall_mem_cons] at hls
    have hkept : c.takeLine l = { c with current := c.current ++ [l], inMoves := true } := by
      rw [takeLine, if_neg hls.1.2, if_neg hls.1.1]
    rw [List.foldl_cons, hkept]
    cases ls with
    | nil => rfl
    | cons l' ls =>
      rw [ih nofun hls.2, List.append_assoc]
      rfl

theorem take_kept (s : Score) (h : c.Clear) (hset : s.header = [] → c.flush = c) :
    (s.kept.map Text.trim).foldl takeLine c =
      { games := c.flush.games, current := s.kept.map Text.trim, inMoves := true } := by
  have hbody : ∀ l ∈ s.body.map Text.trim, l ≠ [] ∧ l.head? ≠ some '[' :=
    List.forall_mem_map.2 s.plain
  have hbodyne : s.body.map Text.trim ≠ [] := by
    rw [ne_eq, List.map_eq_nil_iff]
    exact s.nonempty
  rw [Score.kept, List.map_append, List.foldl_append, take_body hbodyne hbody]
  cases hheader : s.header with
  | nil =>
    rw [s.after_header hheader, ← hset hheader]
    rfl
  | cons l ls =>
    have htags := s.tags
    have hgap := (List.forall_mem_append.1 s.blank).2
    rw [hheader, List.forall_mem_cons] at htags
    have hrest : ∀ l ∈ (ls ++ s.gap).map Text.trim, l = [] ∨ l.head? = some '[' := by
      rw [List.forall_mem_map]
      intro l hl
      rcases List.mem_append.1 hl with hl | hl
      · exact .inr (htags.2 l hl)
      · exact .inl (hgap l hl)
    have hopened := take_opened (c := { c.flush with current := [Text.trim l] }) rfl nofun hrest
    rw [List.cons_append, List.map_cons, List.foldl_cons, takeLine_tag h htags.1, hopened]
    rfl

theorem take_score (s : Score) (h : c.Clear) (hset : c.inMoves = true → s.SetOff) :
    (s.lines.map Text.trim).foldl takeLine c =
      { games := c.flush.games, current := s.kept.map Text.trim, inMoves := true } := by
  have hbefore : ∀ l ∈ s.before.map Text.trim, l = [] :=
    List.forall_mem_map.2 (List.forall_mem_append.1 s.blank).1
  rw [Score.lines, List.map_append, List.foldl_append, take_blanks h hbefore]
  split_ifs with hnone
  · -- with no blank line before it, a game without a header must be the first
    apply take_kept s h
    intro hheader
    apply flush_of_clear h
    by_contra hmoves
    rcases hset (by simpa using hmoves) with hoff | hoff
    · exact hoff (List.map_eq_nil_iff.1 hnone)
    · exact hoff hheader
  · exact take_kept s (clear_flush c) fun _ => rfl

theorem textOf_flush (s : Score) (games : List String) :
    (flush { games, current := s.kept.map Text.trim, inMoves := true }).games =
      games ++ [textOf (s.kept.map Text.trim)] := by
  have hfull : (s.kept.map Text.trim).all List.isEmpty = false := by
    obtain ⟨l, hl⟩ := List.exists_mem_of_ne_nil _ s.nonempty
    apply List.all_eq_false.2
    refine ⟨Text.trim l, List.mem_map_of_mem (List.mem_append_right _ hl), ?_⟩
    simpa using (s.plain l hl).1
  rw [flush, if_neg (by simp [hfull])]

theorem take_scores (scores : List Score) (h : c.Clear)
    (hset : c.inMoves = true → ∀ s ∈ scores, s.SetOff) (htail : ∀ s ∈ scores.tail, s.SetOff) :
    (((scores.flatMap Score.lines).map Text.trim).foldl takeLine c).Clear ∧
      (((scores.flatMap Score.lines).map Text.trim).foldl takeLine c).flush.games =
        c.flush.games ++ scores.map fun s => textOf (s.kept.map Text.trim) := by
  induction scores generalizing c with
  | nil => exact ⟨h, (List.append_nil _).symm⟩
  | cons s scores ih =>
    rw [List.flatMap_cons, List.map_append, List.foldl_append,
      take_score s h fun hmoves => hset hmoves s List.mem_cons_self]
    obtain ⟨hclear, hgames⟩ := ih (c := ⟨c.flush.games, s.kept.map Text.trim, true⟩) nofun
      (fun _ => htail) fun s' hs' => htail s' (List.mem_of_mem_tail hs')
    refine ⟨hclear, ?_⟩
    rw [hgames, textOf_flush, List.map_cons, List.append_assoc]
    rfl

end Cutting

theorem splitGames_scores (scores : List Score) (after : List (List Char)) {text : String}
    (hset : ∀ s ∈ scores.tail, s.SetOff)
    (hafter : ∀ l ∈ after, Text.trim l = [] ∧ '\n' ∉ l)
    (htext : Text.MadeOf text (scores.flatMap Score.lines ++ after)) :
    splitGames text = scores.map fun s => Cutting.textOf (s.kept.map Text.trim) := by
  have hfeed : ∀ l ∈ scores.flatMap Score.lines ++ after, '\n' ∉ l := by
    intro l hl
    rcases List.mem_append.1 hl with hl | hl
    · obtain ⟨s, _, hs⟩ := List.mem_flatMap.1 hl
      exact s.feedless l hs
    · exact (hafter l hl).2
  have hblank : ∀ l ∈ after.map Text.trim, l = [] :=
    List.forall_mem_map.2 fun l hl => (hafter l hl).1
  obtain ⟨hclear, hgames⟩ := Cutting.take_scores (c := {}) scores (fun _ => rfl) nofun hset
  rw [splitGames, htext.lines_eq hfeed, List.map_append, List.foldl_append,
    Cutting.take_blanks hclear hblank]
  split_ifs
  · exact hgames
  · rw [Cutting.flush_flush]
    exact hgames

theorem exists_tag_of_quoted {ws : List Written} {v : List Char}
    (h : Token.quoted v ∈ (ws.flatMap Written.lexemes).filterMap Lexeme.token?) :
    ∃ t, .tag t ∈ ws ∧ t.value = v := by
  obtain ⟨l, hl, htoken⟩ := List.mem_filterMap.1 h
  obtain ⟨w, hw, hlw⟩ := List.mem_flatMap.1 hl
  cases l with
  | value v' =>
    obtain rfl : v' = v := Token.quoted.inj (Option.some.inj htoken)
    cases w with
    | tag t =>
      have hmem : v' = t.value ∨ ∃ o, o ∈ t.after ∧ o.lexeme = .value v' := by
        simpa [Written.lexemes, TagText.lexemes] using hlw
      rcases hmem with hvalue | ⟨o, _, ho⟩
      · exact ⟨t, hw, hvalue.symm⟩
      · cases o <;> cases ho
    | move m => simp [Written.lexemes] at hlw
    | ornament o => cases o <;> simp [Written.lexemes, Ornament.lexeme] at hlw
  | _ => cases htoken

/-- The blanks left out of the lines of a game are no part of its tokens. -/
theorem scan_kept (s : Score) :
    Token.scan (Text.unlines (s.kept.map Text.trim)) = Token.scan (Written.text s.written) := by
  rw [← s.text_eq]
  apply Token.scanFrom_trim Token.skips_between (List.forall_mem_append.1 s.feedless).2
  intro v hv
  rw [s.text_eq] at hv
  change .quoted v ∈ Token.scan (Written.text s.written) at hv
  rw [Written.text, Token.scan_lexemes _ s.apart] at hv
  obtain ⟨t, ht, rfl⟩ := exists_tag_of_quoted hv
  exact s.one_line t ht

/-- Of a file of games, each set off from the one before it and with no move line that is blank or
begins like a tag, one game is read for each, in order, with its tags and its moves. -/
theorem readGames_scores (scores : List Score) (after : List (List Char)) (text : String)
    (hset : ∀ s ∈ scores.tail, s.SetOff)
    (hafter : ∀ l ∈ after, Text.trim l = [] ∧ '\n' ∉ l)
    (htext : Text.MadeOf text (scores.flatMap Score.lines ++ after)) :
    List.Forall₂ (fun g s => g.Recovers s.written) (readGames text) scores := by
  rw [readGames, splitGames_scores scores after hset hafter htext, List.map_map,
    List.forall₂_map_left_iff, List.forall₂_same]
  intro s _
  apply recovers_of_scan s.apart
  change Token.scan (String.ofList _).toList = _
  rw [String.toList_ofList]
  exact scan_kept s

def spread : Score where
  before := []
  header := ["[Event \"a\"]".toList]
  gap := [[]]
  body := ["  3. c4 \x7bover".toList, "two\x7d c5".toList]
  written :=
    [.tag ⟨[], ⟨"Event".toList, by decide, by decide⟩, [.space], ['a'], []⟩,
      .ornament (.filler .feed), .ornament (.filler .feed),
      .ornament (.filler .space), .ornament (.filler .space),
      .ornament (.number ['3'] (List.cons_ne_nil _ _) rfl), .ornament .dot,
      .ornament (.filler .space),
      .move ⟨⟨['c', '4'], List.cons_ne_nil _ _, rfl⟩, by decide, rfl, by decide⟩,
      .ornament (.filler .space),
      .ornament (.filler (.comment "over\ntwo".toList (by decide))),
      .ornament (.filler .space),
      .move ⟨⟨['c', '5'], List.cons_ne_nil _ _, rfl⟩, by decide, rfl, by decide⟩,
      .ornament (.filler .feed)]
  blank := by decide
  tags := by decide
  after_header := fun h => absurd h (List.cons_ne_nil _ _)
  plain := by decide
  nonempty := List.cons_ne_nil _ _
  feedless := by decide
  text_eq := by decide
  apart := by decide
  one_line := by simp

def untagged : Score where
  before := [['\t']]
  header := []
  gap := []
  body := [['d', '4']]
  written :=
    [.move ⟨⟨['d', '4'], List.cons_ne_nil _ _, rfl⟩, by decide, rfl, by decide⟩,
      .ornament (.filler .feed)]
  blank := by decide
  tags := List.forall_mem_nil _
  after_header := fun _ => rfl
  plain := by decide
  nonempty := List.cons_ne_nil _ _
  feedless := by decide
  text_eq := by decide
  apart := by decide
  one_line := by simp

theorem readGames_spread :
    List.Forall₂ (fun g s => g.Recovers s.written)
      (readGames "[Event \"a\"]\n\n  3. c4 \x7bover\ntwo\x7d c5\n\t\nd4") [spread, untagged] ∧
    [spread, untagged].map (fun s => s.written.filterMap Written.move?) =
      [["c4", "c5"], ["d4"]] := by
  refine ⟨readGames_scores [spread, untagged] [] _ ?_ (List.forall_mem_nil _) ?_, by decide⟩
  · exact List.forall_mem_singleton.2 (.inl (List.cons_ne_nil _ _))
  · exact .inr ⟨spread.lines ++ untagged.before, ['d', '4'], rfl, List.cons_ne_nil _ _, by decide⟩

/-- Games written as they should be, the one with a blank line inside a comment, the other with a
line there that begins like a tag. -/
def interrupted : List String :=
  ["[Event \"a\"]\n\n1. e4 \x7blong\n\ncomment\x7d e5\n",
    "[Event \"a\"]\n\n1. e4 \x7b\n[%clk 0:01:00]\x7d e5\n"]

/-- Either is torn in two, and of the first a word of the comment is read as a move. -/
theorem comment_torn :
    interrupted.map (fun text => (readGames text).map (·.moves)) =
        [[["e4"], ["comment", "e5"]], [["e4"], ["e5"]]] ∧
      interrupted.map (fun text => (parse text).moves) = [["e4", "e5"], ["e4", "e5"]] := by
  decide +kernel

end PgnGame

end ChessArbiter
