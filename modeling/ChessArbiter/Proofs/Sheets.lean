import Mathlib.Data.List.DropRight
import ChessArbiter.Replay
import ChessArbiter.Proofs.Cutting

/-!
# What a file is cut into

Every text that is cut out of a file is a sheet: tag lines with blank lines among them, a tag line
first, and then move lines, with no blanks around them. Only the last can lack move lines, and
together they hold every line of the file that is not blank (`splitGames_sheets`), each once and in
its place (`splitGames_keeps_lines`). Sheets with move lines that are written one after the other,
each with a blank line behind it, are cut apart at the same places, so that the games that failed
are read again as they were (`readGames_failedGames`).
-/

namespace ChessArbiter

namespace Text

variable {l cs : List Char}

theorem trim_trim (l : List Char) : trim (trim l) = trim l := by
  have hfront : (trim l).dropWhile isBlank = trim l := by
    rw [List.dropWhile_eq_self_iff]
    intro hlength
    have hstart : trim l <+: l.dropWhile isBlank := List.rdropWhile_prefix isBlank _
    have hrest : 0 < (l.dropWhile isBlank).length := hlength.trans_le hstart.length_le
    have hhead := List.dropWhile_get_zero_not isBlank l hrest
    rw [hstart.getElem hlength]
    exact hhead
  rw [trim, hfront]
  exact List.rdropWhile_idempotent isBlank _

theorem feed_not_mem_of_mem_lines (h : l ∈ lines cs) : '\n' ∉ l := by
  induction cs generalizing l with
  | nil => cases h
  | cons c cs ih =>
    rw [lines] at h
    split_ifs at h with hc
    · rcases List.mem_cons.1 h with rfl | h
      · exact List.not_mem_nil
      · exact ih h
    · cases hrest : lines cs with
      | nil =>
        rw [hrest, consFirst, List.mem_singleton] at h
        rw [h, List.mem_singleton]
        exact Ne.symm hc
      | cons first rest =>
        rw [hrest] at h ih
        rcases List.mem_cons.1 h with rfl | h
        · rw [List.mem_cons, not_or]
          exact ⟨Ne.symm hc, ih List.mem_cons_self⟩
        · exact ih (List.mem_cons_of_mem _ h)

theorem mem_of_mem_trim {c : Char} (h : c ∈ trim l) : c ∈ l := by
  obtain ⟨lead, trail, hl, -, -⟩ := trim_spec l
  rw [hl]
  exact List.mem_append_left _ (List.mem_append_right _ h)

structure Clean (l : List Char) : Prop where
  trim_eq : trim l = l
  feedless : '\n' ∉ l

theorem clean_nil : Clean [] := ⟨rfl, List.not_mem_nil⟩

theorem clean_of_mem_lines (h : l ∈ (lines cs).map trim) : Clean l := by
  obtain ⟨l', hl', rfl⟩ := List.mem_map.1 h
  exact ⟨trim_trim l', fun hfeed => feed_not_mem_of_mem_lines hl' (mem_of_mem_trim hfeed)⟩

end Text

namespace PgnGame

/-- The lines kept of one game. -/
structure Sheet where
  header : List (List Char)
  body : List (List Char)
deriving DecidableEq

namespace Sheet

variable {s : Sheet} {l : List Char}

def lines (s : Sheet) : List (List Char) := s.header ++ s.body

def text (s : Sheet) : String := Cutting.textOf s.lines

/-- The lines that are not blank. -/
def inked (ls : List (List Char)) : List (List Char) := ls.filter (!·.isEmpty)

/-- What the cutting leaves of a game: a header, which begins with a tag, and then moves. -/
structure Laid (s : Sheet) : Prop where
  header_line : ∀ l ∈ s.header, l = [] ∨ l.head? = some '['
  header_first : s.header.head? ≠ some []
  body_line : ∀ l ∈ s.body, l ≠ [] ∧ l.head? ≠ some '['
  clean : ∀ l ∈ s.lines, Text.Clean l

theorem laid_empty : Laid ⟨[], []⟩ :=
  ⟨List.forall_mem_nil _, nofun, List.forall_mem_nil _, List.forall_mem_nil _⟩

/-- A header goes on with a tag, or with a blank line unless nothing has come before. -/
theorem Laid.addHeader (h : s.Laid) (hbody : s.body = [])
    (hl : l.head? = some '[' ∨ l = [] ∧ s.header ≠ []) (hclean : Text.Clean l) :
    Laid ⟨s.header ++ [l], []⟩ where
  header_line := by
    rw [List.forall_mem_append, List.forall_mem_singleton]
    exact ⟨h.header_line, hl.elim .inr fun hblank => .inl hblank.1⟩
  header_first := by
    cases hheader : s.header with
    | nil =>
      rcases hl with htag | ⟨-, hne⟩
      · intro hfirst
        obtain rfl : l = [] := Option.some.inj hfirst
        cases htag
      · exact absurd hheader hne
    | cons first rest =>
      have hfirst := h.header_first
      rw [hheader] at hfirst
      exact hfirst
  body_line := List.forall_mem_nil _
  clean := by
    have hheader := h.clean
    rw [lines, hbody, List.append_nil] at hheader
    rw [lines, List.append_nil, List.forall_mem_append, List.forall_mem_singleton]
    exact ⟨hheader, hclean⟩

theorem Laid.addBody (h : s.Laid) (hl : l ≠ [] ∧ l.head? ≠ some '[') (hclean : Text.Clean l) :
    Laid ⟨s.header, s.body ++ [l]⟩ where
  header_line := h.header_line
  header_first := h.header_first
  body_line := List.forall_mem_append.2 ⟨h.body_line, List.forall_mem_singleton.2 hl⟩
  clean := by
    rw [lines, ← List.append_assoc, List.forall_mem_append, List.forall_mem_singleton]
    exact ⟨h.clean, hclean⟩

theorem Laid.lines_eq_nil (h : s.Laid) (hblank : s.lines.all List.isEmpty = true) :
    s.lines = [] := by
  have hall : ∀ l ∈ s.lines, l = [] := by simpa using hblank
  rw [lines, List.forall_mem_append] at hall
  obtain ⟨hheader, hbody⟩ := hall
  rw [lines, List.append_eq_nil_iff]
  constructor
  · cases hcases : s.header with
    | nil => rfl
    | cons first rest =>
      rw [hcases, List.forall_mem_cons] at hheader
      exact absurd (by rw [hcases, hheader.1]; rfl) h.header_first
  · cases hcases : s.body with
    | nil => rfl
    | cons first rest =>
      have hfirst : first ∈ s.body := by
        rw [hcases]
        exact List.mem_cons_self
      exact absurd (hbody first hfirst) (h.body_line first hfirst).1

end Sheet

namespace Cutting

open Sheet (inked)

/-- The lines seen are those of whole sheets, which are the games cut so far, and of the last
sheet, to which further lines may come. -/
structure Holds (c : Cutting) (seen : List (List Char)) (done : List Sheet) (last : Sheet) :
    Prop where
  games : c.games = done.map Sheet.text
  current : c.current = last.lines
  inMoves : c.inMoves = true ↔ last.body ≠ []
  whole : ∀ s ∈ done, s.Laid ∧ s.body ≠ []
  last_laid : last.Laid
  kept : done.flatMap (inked ·.lines) ++ inked last.lines = inked seen

variable {c : Cutting} {seen : List (List Char)} {done : List Sheet} {last : Sheet}
  {l : List Char}

theorem holds_start : Holds {} [] [] ⟨[], []⟩ :=
  ⟨rfl, rfl, iff_of_false nofun nofun, List.forall_mem_nil _, Sheet.laid_empty, rfl⟩

theorem inked_snoc (ls : List (List Char)) (l : List Char) :
    inked (ls ++ [l]) = inked ls ++ inked [l] := List.filter_append _ _

theorem Holds.flush (h : c.Holds seen done last) (hmoves : c.inMoves = true) :
    c.flush.Holds seen (done ++ [last]) ⟨[], []⟩ := by
  have hbody : last.body ≠ [] := h.inMoves.1 hmoves
  have hfull : c.current.all List.isEmpty = false := by
    rw [h.current, ← Bool.not_eq_true]
    intro hblank
    have hnil := h.last_laid.lines_eq_nil hblank
    exact hbody (List.append_eq_nil_iff.1 hnil).2
  refine ⟨?_, rfl, iff_of_false nofun nofun, ?_, Sheet.laid_empty, ?_⟩
  · rw [Cutting.flush, if_neg (by simp [hfull]), h.games, h.current, List.map_append]
    rfl
  · rw [List.forall_mem_append, List.forall_mem_singleton]
    exact ⟨h.whole, h.last_laid, hbody⟩
  · rw [List.flatMap_append, List.flatMap_singleton, ← h.kept]
    exact List.append_nil _

theorem Holds.body_eq_nil (h : c.Holds seen done last) (hmoves : c.inMoves = false) :
    last.body = [] := by
  by_contra hne
  rw [h.inMoves.2 hne] at hmoves
  cases hmoves

theorem Holds.addHeader (h : c.Holds seen done last) (hmoves : c.inMoves = false)
    (hl : l.head? = some '[' ∨ l = [] ∧ last.header ≠ []) (hclean : Text.Clean l) :
    Holds { c with current := c.current ++ [l] } (seen ++ [l]) done ⟨last.header ++ [l], []⟩ := by
  have hbody := h.body_eq_nil hmoves
  have hlines : last.lines = last.header := by rw [Sheet.lines, hbody, List.append_nil]
  refine ⟨h.games, ?_, ?_, h.whole, h.last_laid.addHeader hbody hl hclean, ?_⟩
  · rw [h.current, hlines, Sheet.lines, List.append_nil]
  · exact iff_of_false (by simp [hmoves]) (fun hne => hne rfl)
  · rw [inked_snoc, ← h.kept, hlines, Sheet.lines, List.append_nil, inked_snoc, List.append_assoc]

theorem Holds.addBody (h : c.Holds seen done last) (hl : l ≠ [] ∧ l.head? ≠ some '[')
    (hclean : Text.Clean l) :
    Holds { c with inMoves := true, current := c.current ++ [l] } (seen ++ [l]) done
      ⟨last.header, last.body ++ [l]⟩ := by
  refine ⟨h.games, ?_, iff_of_true rfl (by simp), h.whole, h.last_laid.addBody hl hclean, ?_⟩
  · rw [h.current, Sheet.lines, Sheet.lines, List.append_assoc]
  · rw [inked_snoc, ← h.kept, Sheet.lines, ← List.append_assoc, inked_snoc, List.append_assoc]
    rfl

theorem Holds.seeBlank (h : c.Holds seen done last) : c.Holds (seen ++ [[]]) done last := by
  have hkept : inked (seen ++ [[]]) = inked seen := by
    rw [inked_snoc]
    exact List.append_nil _
  exact ⟨h.games, h.current, h.inMoves, h.whole, h.last_laid, h.kept.trans hkept.symm⟩

theorem Holds.takeLine (h : c.Holds seen done last) (hclean : Text.Clean l) :
    ∃ done' last', (c.takeLine l).Holds (seen ++ [l]) done' last' := by
  unfold Cutting.takeLine
  dsimp only
  by_cases htag : l.head? = some '['
  · rw [if_pos htag]
    by_cases hmoves : c.inMoves = true
    · rw [if_pos hmoves]
      exact ⟨_, _, (h.flush hmoves).addHeader rfl (.inl htag) hclean⟩
    · rw [if_neg hmoves]
      exact ⟨_, _, h.addHeader (by simpa using hmoves) (.inl htag) hclean⟩
  · rw [if_neg htag]
    by_cases hblank : l = []
    · subst hblank
      rw [if_pos rfl]
      by_cases hmoves : c.inMoves = true
      · rw [if_pos hmoves]
        exact ⟨_, _, (h.flush hmoves).seeBlank⟩
      · rw [if_neg hmoves]
        by_cases hcurrent : c.current = []
        · rw [if_pos hcurrent]
          exact ⟨_, _, h.seeBlank⟩
        · rw [if_neg hcurrent]
          -- what has been kept so far are tags, for no move has been seen
          have hheader : last.header ≠ [] := by
            intro hnil
            apply hcurrent
            rw [h.current, Sheet.lines, hnil, h.body_eq_nil (by simpa using hmoves)]
            rfl
          exact ⟨_, _, h.addHeader (by simpa using hmoves) (.inr ⟨rfl, hheader⟩) hclean⟩
    · rw [if_neg hblank]
      exact ⟨_, _, h.addBody ⟨hblank, htag⟩ hclean⟩

theorem Holds.take {ls : List (List Char)} (h : c.Holds seen done last)
    (hclean : ∀ l ∈ ls, Text.Clean l) :
    ∃ done' last', (ls.foldl Cutting.takeLine c).Holds (seen ++ ls) done' last' := by
  induction ls generalizing c seen done last with
  | nil =>
    rw [List.append_nil]
    exact ⟨done, last, h⟩
  | cons l ls ih =>
    rw [List.forall_mem_cons] at hclean
    obtain ⟨done', last', hnext⟩ := h.takeLine hclean.1
    obtain ⟨done'', last'', hall⟩ := ih hnext hclean.2
    rw [List.append_assoc] at hall
    exact ⟨done'', last'', hall⟩

end Cutting

open Sheet (inked) in
/-- A file is cut into sheets, of which none is blank and all but the last have move lines, and
which hold all of its lines that are not blank. -/
theorem splitGames_sheets (text : String) : ∃ sheets : List Sheet,
    splitGames text = sheets.map Sheet.text ∧ (∀ s ∈ sheets, s.Laid ∧ s.lines ≠ []) ∧
      (∀ s ∈ sheets.dropLast, s.body ≠ []) ∧
      sheets.flatMap (inked ·.lines) = inked ((Text.lines text.toList).map Text.trim) := by
  have hclean : ∀ l ∈ (Text.lines text.toList).map Text.trim, Text.Clean l :=
    fun l hl => Text.clean_of_mem_lines hl
  obtain ⟨done, last, h⟩ := Cutting.holds_start.take hclean
  have hwhole : ∀ s ∈ done, s.Laid ∧ s.lines ≠ [] := by
    intro s hs
    obtain ⟨hlaid, hbody⟩ := h.whole s hs
    exact ⟨hlaid, fun hnil => hbody (List.append_eq_nil_iff.1 hnil).2⟩
  have hkept := h.kept
  rw [List.nil_append] at hkept
  unfold splitGames Cutting.flush
  dsimp only
  rw [h.current, h.games]
  -- the last sheet is handed out at the end, unless it is blank
  split_ifs with hblank
  · have hnil := h.last_laid.lines_eq_nil hblank
    refine ⟨done, rfl, hwhole, ?_, ?_⟩
    · exact fun s hs => (h.whole s (List.dropLast_subset _ hs)).2
    · rw [← hkept, hnil]
      exact (List.append_nil _).symm
  · refine ⟨done ++ [last], by rw [List.map_append]; rfl, ?_, ?_, ?_⟩
    · rw [List.forall_mem_append, List.forall_mem_singleton]
      refine ⟨hwhole, h.last_laid, ?_⟩
      intro hnil
      rw [hnil] at hblank
      exact hblank rfl
    · rw [List.dropLast_concat]
      exact fun s hs => (h.whole s hs).2
    · rw [List.flatMap_append, List.flatMap_singleton, ← hkept]

/-! ### Reading sheets again -/

def IsWhole (t : String) : Prop := ∃ s : Sheet, s.Laid ∧ s.body ≠ [] ∧ t = s.text

theorem Sheet.toList_text (s : Sheet) : s.text.toList = Text.unlines s.lines :=
  String.toList_ofList

theorem Sheet.lines_text {s : Sheet} (h : s.Laid) : Text.lines s.text.toList = s.lines := by
  rw [s.toList_text, ← List.append_nil (Text.unlines s.lines),
    Text.lines_unlines_append fun l hl => (h.clean l hl).feedless]
  exact List.append_nil _

namespace Cutting

theorem take_sheet {s : Sheet} (h : s.Laid) (hbody : s.body ≠ []) (games : List String) :
    (s.lines ++ [[]]).foldl Cutting.takeLine { games } = { games := games ++ [s.text] } := by
  have hheader : s.header.foldl Cutting.takeLine { games } = { games, current := s.header } := by
    cases hcases : s.header with
    | nil => rfl
    | cons first rest =>
      have hlines := h.header_line
      have hfirst := h.header_first
      rw [hcases, List.forall_mem_cons] at hlines
      rw [hcases] at hfirst
      have htag : first.head? = some '[' :=
        hlines.1.resolve_left fun hnil => hfirst (congrArg some hnil)
      rw [List.foldl_cons, takeLine_tag (fun _ => rfl) htag]
      exact take_opened (c := { games, current := [first] }) rfl nofun hlines.2
  have hkept : s.lines.foldl Cutting.takeLine { games } =
      { games, current := s.lines, inMoves := true } := by
    rw [Sheet.lines, List.foldl_append, hheader, take_body hbody h.body_line]
  have hfull : s.lines.all List.isEmpty = false := by
    rw [← Bool.not_eq_true]
    intro hblank
    exact hbody (List.append_eq_nil_iff.1 (h.lines_eq_nil hblank)).2
  have hclear : Clear { games, current := s.lines, inMoves := true } := nofun
  rw [List.foldl_append, hkept, List.foldl_cons, List.foldl_nil, takeLine_blank hclear,
    Cutting.flush, if_neg (by simp [hfull])]
  rfl

theorem take_written {texts : List String} (h : ∀ t ∈ texts, IsWhole t) (games : List String) :
    ((Text.lines (String.join (texts.map (· ++ "\n"))).toList).map Text.trim).foldl
      Cutting.takeLine { games } = { games := games ++ texts } := by
  induction texts generalizing games with
  | nil =>
    rw [List.append_nil]
    rfl
  | cons t texts ih =>
    rw [List.forall_mem_cons] at h
    obtain ⟨⟨s, hlaid, hbody, rfl⟩, hrest⟩ := h
    have hclean : ∀ l ∈ s.lines ++ [[]], Text.Clean l := by
      rw [List.forall_mem_append, List.forall_mem_singleton]
      exact ⟨hlaid.clean, Text.clean_nil⟩
    have htext : (String.join ((s.text :: texts).map (· ++ "\n"))).toList =
        Text.unlines (s.lines ++ [[]]) ++ (String.join (texts.map (· ++ "\n"))).toList := by
      rw [List.map_cons, String.join_cons, String.toList_append, String.toList_append,
        s.toList_text]
      simp [Text.unlines]
    have htrim : (s.lines ++ [[]]).map Text.trim = s.lines ++ [[]] :=
      (List.map_congr_left fun l hl => (hclean l hl).trim_eq).trans (List.map_id _)
    rw [htext, Text.lines_unlines_append fun l hl => (hclean l hl).feedless, List.map_append, htrim,
      List.foldl_append, take_sheet hlaid hbody, ih hrest, List.append_assoc]
    rfl

end Cutting

theorem splitGames_written {texts : List String} (h : ∀ t ∈ texts, IsWhole t) :
    splitGames (String.join (texts.map (· ++ "\n"))) = texts := by
  rw [splitGames, Cutting.take_written h]
  rfl

/-- A line that is neither blank nor begins like a tag. -/
def IsMoveLine (l : List Char) : Prop := Text.trim l ≠ [] ∧ (Text.trim l).head? ≠ some '['

instance decidableIsMoveLine (l : List Char) : Decidable (IsMoveLine l) :=
  inferInstanceAs (Decidable (_ ∧ _))

/-! ### The lines of the texts -/

/-- The lines of a text that are not blank. -/
def fullLines (text : String) : List (List Char) :=
  (Text.lines text.toList).filter fun l => !(Text.trim l).isEmpty

theorem map_trim_fullLines (text : String) :
    (fullLines text).map Text.trim = Sheet.inked ((Text.lines text.toList).map Text.trim) := by
  rw [fullLines, Sheet.inked, List.filter_map]
  rfl

theorem Sheet.fullLines_text {s : Sheet} (h : s.Laid) : fullLines s.text = inked s.lines := by
  rw [fullLines, Sheet.lines_text h, inked]
  apply List.filter_congr
  intro l hl
  rw [(h.clean l hl).trim_eq]

theorem Sheet.Laid.inked_ne_nil {s : Sheet} (h : s.Laid) (hne : s.lines ≠ []) :
    inked s.lines ≠ [] := by
  intro hnone
  apply hne
  apply h.lines_eq_nil
  simpa [inked] using hnone

theorem Sheet.Laid.first_ne_nil {s : Sheet} {l : List Char} (h : s.Laid)
    (hl : s.lines.head? = some l) : l ≠ [] := by
  rintro rfl
  cases hheader : s.header with
  | nil =>
    have hbody : s.body.head? = some [] := by
      rw [← hl, Sheet.lines, hheader, List.nil_append]
    exact (h.body_line [] (List.mem_of_mem_head? hbody)).1 rfl
  | cons first rest =>
    apply h.header_first
    rw [← hl, Sheet.lines, hheader]
    rfl

/-- Of the lines of a file that are not blank, none is lost, none comes twice and none changes its
place; only the blanks around them are left out. Every text cut out has such a line and begins with
one, and all but the last are tags with blank lines and then moves, with nothing else among them or
after them. -/
theorem splitGames_keeps_lines (text : String) :
    (splitGames text).flatMap fullLines = (fullLines text).map Text.trim ∧
    (∀ t ∈ splitGames text, fullLines t ≠ []) ∧
    (∀ t ∈ (splitGames text).dropLast, ∃ header body, Text.lines t.toList = header ++ body ∧
      (∀ l ∈ header, Text.trim l = [] ∨ (Text.trim l).head? = some '[') ∧
      body ≠ [] ∧ ∀ l ∈ body, IsMoveLine l) ∧
    ∀ t ∈ splitGames text, ∀ l, (Text.lines t.toList).head? = some l → Text.trim l ≠ [] := by
  obtain ⟨sheets, hsheets, hlaid, hwhole, hkept⟩ := splitGames_sheets text
  have hlast : (splitGames text).dropLast = sheets.dropLast.map Sheet.text := by
    rw [hsheets, List.map_dropLast]
  rw [hlast, hsheets]
  refine ⟨?_, ?_, ?_, ?_⟩
  · rw [map_trim_fullLines, ← hkept, List.flatMap_map]
    exact List.flatMap_congr fun s hs => Sheet.fullLines_text (hlaid s hs).1
  · rw [List.forall_mem_map]
    intro s hs
    obtain ⟨hs, hne⟩ := hlaid s hs
    rw [Sheet.fullLines_text hs]
    exact hs.inked_ne_nil hne
  · rw [List.forall_mem_map]
    intro s hs
    obtain ⟨hlaid, -⟩ := hlaid s (List.dropLast_subset _ hs)
    have hclean := List.forall_mem_append.1 hlaid.clean
    refine ⟨s.header, s.body, Sheet.lines_text hlaid, fun l hl => ?_, hwhole s hs, fun l hl => ?_⟩
    · rw [(hclean.1 l hl).trim_eq]
      exact hlaid.header_line l hl
    · rw [IsMoveLine, (hclean.2 l hl).trim_eq]
      exact hlaid.body_line l hl
  · rw [List.forall_mem_map]
    intro s hs l hl
    obtain ⟨hlaid, -⟩ := hlaid s hs
    rw [Sheet.lines_text hlaid] at hl
    rw [(hlaid.clean l (List.mem_of_mem_head? hl)).trim_eq]
    exact hlaid.first_ne_nil hl

/-! ### Games read from sheets -/

theorem whole_of_mem_readGames {text : String} {g : PgnGame} (h : g ∈ readGames text) :
    parse g.text = g ∧ ((∃ l ∈ Text.lines g.text.toList, IsMoveLine l) → IsWhole g.text) := by
  obtain ⟨t, ht, rfl⟩ := List.mem_map.1 h
  refine ⟨rfl, ?_⟩
  rintro ⟨l, hl, hne, htag⟩
  obtain ⟨sheets, hsheets, hlaid, -⟩ := splitGames_sheets text
  rw [hsheets] at ht
  obtain ⟨s, hs, rfl⟩ := List.mem_map.1 ht
  obtain ⟨hs, -⟩ := hlaid s hs
  change l ∈ Text.lines s.text.toList at hl
  rw [Sheet.lines_text hs] at hl
  rw [(hs.clean l hl).trim_eq] at hne htag
  refine ⟨s, hs, ?_, rfl⟩
  -- of a header no line is a line of moves
  rcases List.mem_append.1 hl with hheader | hbody
  · exact absurd (hs.header_line l hheader) (not_or.2 ⟨hne, htag⟩)
  · exact List.ne_nil_of_mem hbody

theorem readGames_written {games : List PgnGame}
    (h : ∀ g ∈ games, parse g.text = g ∧ IsWhole g.text) :
    readGames (String.join (games.map (·.text ++ "\n"))) = games := by
  have hwhole : ∀ t ∈ games.map PgnGame.text, IsWhole t :=
    List.forall_mem_map.2 fun g hg => (h g hg).2
  have hsplit := splitGames_written hwhole
  rw [List.map_map] at hsplit
  change splitGames (String.join (games.map (·.text ++ "\n"))) = _ at hsplit
  rw [readGames, hsplit, List.map_map]
  exact (List.map_congr_left fun g hg => (h g hg).1).trans (List.map_id _)

end PgnGame

def failures (reports : List Report) (games : List PgnGame) : List PgnGame :=
  ((reports.zip games).filter (!·.1.passed)).map (·.2)

theorem failedGames_eq (reports : List Report) (games : List PgnGame) :
    failedGames reports games = String.join ((failures reports games).map (·.text ++ "\n")) := by
  rw [failedGames, failures, List.map_map]
  rfl

theorem failures_of_all_failed {reports : List Report} {games : List PgnGame}
    (hlength : reports.length = games.length) (h : ∀ r ∈ reports, r.passed = false) :
    failures reports games = games := by
  have hall : (reports.zip games).filter (!·.1.passed) = reports.zip games := by
    rw [List.filter_eq_self]
    intro e he
    rw [h e.1 (List.of_mem_zip he).1]
    rfl
  rw [failures, hall]
  exact List.map_snd_zip hlength.ge

/-- The failed games of a file, if each has a line of moves, are read again just as they were, and
to write them out once more and read them changes nothing. -/
theorem readGames_failedGames (text : String) (reports : List Report)
    (hmoves : ∀ e ∈ reports.zip (PgnGame.readGames text), e.1.passed = false →
      ∃ l ∈ Text.lines e.2.text.toList, PgnGame.IsMoveLine l) :
    let written := failedGames reports (PgnGame.readGames text)
    let failed := failures reports (PgnGame.readGames text)
    PgnGame.readGames written = failed ∧
      ∀ again : List Report, again.length = failed.length → (∀ r ∈ again, r.passed = false) →
        failedGames again (PgnGame.readGames written) = written ∧
          PgnGame.readGames (failedGames again (PgnGame.readGames written)) = failed := by
  intro written failed
  have hwritten : written = String.join (failed.map (·.text ++ "\n")) := failedGames_eq _ _
  have hwhole : ∀ g ∈ failed, PgnGame.parse g.text = g ∧ PgnGame.IsWhole g.text := by
    intro g hg
    obtain ⟨e, he, rfl⟩ := List.mem_map.1 hg
    obtain ⟨hzip, hfailed⟩ := List.mem_filter.1 he
    obtain ⟨hparse, hcut⟩ := PgnGame.whole_of_mem_readGames (List.of_mem_zip hzip).2
    exact ⟨hparse, hcut (hmoves e hzip (by simpa using hfailed))⟩
  have hread : PgnGame.readGames written = failed := by
    rw [hwritten]
    exact PgnGame.readGames_written hwhole
  refine ⟨hread, fun again hlength hagain => ?_⟩
  have hsame : failedGames again failed = written := by
    rw [failedGames_eq, failures_of_all_failed hlength hagain, hwritten]
  rw [hread, hsame]
  exact ⟨rfl, hread⟩

def unfinished : String := "[A \"1\"]\n\n[B \"2\"]\n\n 1. e4\ne5 \n\n\n1. d4\n[C \"3\"]\n"

def twoFailed : List Report :=
  [{ title := "", error := some ⟨.noLegalCandidate, "", none, none, ""⟩
     finalFen := "", finalBoard := "" },
    { title := "", error := some ⟨.noLegalCandidate, "", none, none, ""⟩
      finalFen := "", finalBoard := "" },
    { title := "", finalFen := "", finalBoard := "" }]

theorem readGames_twoFailed :
    (∀ e ∈ twoFailed.zip (PgnGame.readGames unfinished), e.1.passed = false →
      ∃ l ∈ Text.lines e.2.text.toList, PgnGame.IsMoveLine l) ∧
    failedGames twoFailed (PgnGame.readGames unfinished) =
      "[A \"1\"]\n\n[B \"2\"]\n\n1. e4\ne5\n\n1. d4\n\n" ∧
    PgnGame.readGames "[A \"1\"]\n\n[B \"2\"]\n\n1. e4\ne5\n\n1. d4\n\n" =
      failures twoFailed (PgnGame.readGames unfinished) := by
  have hmoves : ∀ e ∈ twoFailed.zip (PgnGame.readGames unfinished), e.1.passed = false →
      ∃ l ∈ Text.lines e.2.text.toList, PgnGame.IsMoveLine l := by decide +kernel
  have hwritten : failedGames twoFailed (PgnGame.readGames unfinished) =
      "[A \"1\"]\n\n[B \"2\"]\n\n1. e4\ne5\n\n1. d4\n\n" := by decide +kernel
  refine ⟨hmoves, hwritten, ?_⟩
  obtain ⟨hread, -⟩ := readGames_failedGames unfinished twoFailed hmoves
  rw [hwritten] at hread
  exact hread

end ChessArbiter
