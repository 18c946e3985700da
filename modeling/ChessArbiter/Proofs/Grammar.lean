import ChessArbiter.Proofs.LoadedPlay
import ChessArbiter.Proofs.Spelling

/-!
# The grammar of position texts

A position text is accepted if and only if it is one: at least two words, of which the first shows a
piece or nothing on each of the sixty-four squares, with one king on each side, and the next five,
as far as they are there, are a side to move, castling letters, a target square and two counters
that are large enough (`Setup.Tells`). The reader goes through a placement character by character;
what it accepts are eight rows with slashes between them, each of eight squares
(`Setup.showsMen_iff`). The game that comes of an accepted text is the one that it tells of, and its
men are listed in the order in which they are read (`Arbiter.loadFen_grammar`).
-/

namespace ChessArbiter

namespace Text

variable {cs ds : List Char}

theorem words_eq_splitOnP (cs : List Char) :
    words cs = (cs.splitOnP isSpace).filter (!·.isEmpty) := by
  induction cs with
  | nil => rfl
  | cons c cs ih =>
    rw [List.splitOnP_cons_eq_if_modifyHead]
    cases cs with
    | nil =>
      rw [words]
      split_ifs <;> rfl
    | cons d ds =>
      rw [words, ih]
      split_ifs with hc hd
      · rfl
      · rw [List.splitOnP_cons_eq_if_modifyHead, if_pos hd]
        rfl
      · obtain ⟨w, ws, hw⟩ := List.exists_cons_of_ne_nil (List.splitOnP_ne_nil isSpace ds)
        rw [List.splitOnP_cons_eq_if_modifyHead, if_neg hd, hw]
        rfl

/-- A decimal number: digits, after a minus sign or none. -/
def Decimal (cs : List Char) (i : ℤ) : Prop :=
  ∃ ds, ds ≠ [] ∧ ds.all Char.isDigit = true ∧
    (cs = ds ∧ i = Nat.ofDigitChars 10 ds 0 ∨ cs = '-' :: ds ∧ i = -Nat.ofDigitChars 10 ds 0)

theorem readNat?_eq_some {n : ℕ} : readNat? cs = some n ↔
    cs ≠ [] ∧ cs.all Char.isDigit = true ∧ n = Nat.ofDigitChars 10 cs 0 := by
  unfold readNat?
  split_ifs with h
  · rw [Option.some.injEq, and_iff_right h.1, and_iff_right h.2, eq_comm]
    rfl
  · exact iff_of_false nofun fun ⟨hne, hdigits, _⟩ => h ⟨hne, hdigits⟩

theorem decimal_minus_iff {i : ℤ} : Decimal ('-' :: ds) i ↔
    ds ≠ [] ∧ ds.all Char.isDigit = true ∧ i = -Nat.ofDigitChars 10 ds 0 := by
  constructor
  · rintro ⟨ds', hne, hdigits, ⟨rfl, _⟩ | ⟨hds, hi⟩⟩
    · cases hdigits
    · obtain rfl := (List.cons.inj hds).2
      exact ⟨hne, hdigits, hi⟩
  · rintro ⟨hne, hdigits, hi⟩
    exact ⟨ds, hne, hdigits, .inr ⟨rfl, hi⟩⟩

theorem decimal_iff_of_unsigned {i : ℤ} (h : ∀ ds, cs ≠ '-' :: ds) : Decimal cs i ↔
    cs ≠ [] ∧ cs.all Char.isDigit = true ∧ i = Nat.ofDigitChars 10 cs 0 := by
  constructor
  · rintro ⟨ds, hne, hdigits, ⟨rfl, hi⟩ | ⟨hds, _⟩⟩
    · exact ⟨hne, hdigits, hi⟩
    · exact absurd hds (h ds)
  · rintro ⟨hne, hdigits, hi⟩
    exact ⟨cs, hne, hdigits, .inl ⟨rfl, hi⟩⟩

theorem ofInt_eq_iff {n : Int32} {i : ℤ} (hlow : -2 ^ 31 ≤ i) (hhigh : i < 2 ^ 31) :
    Int32.ofInt i = n ↔ n.toInt = i := by
  rw [← Int32.toInt_inj, Int32.toInt_ofInt_of_le hlow hhigh, eq_comm]

theorem readInt?_eq_some {n : Int32} : readInt? cs = some n ↔ Decimal cs n.toInt := by
  have hlow := n.le_toInt
  have hhigh := n.toInt_lt
  unfold readInt?
  split
  case h_1 ds =>
    rw [Option.bind_eq_some_iff, decimal_minus_iff]
    simp only [readNat?_eq_some, and_assoc, exists_and_left, exists_eq_left]
    refine and_congr_right fun _ => and_congr_right fun _ => ?_
    split_ifs with hfit
    · rw [Option.some.injEq, ofInt_eq_iff (by omega) (by omega)]
    · refine iff_of_false nofun fun hn => hfit ?_
      change _ ≤ 2 ^ 31
      omega
  case h_2 hsign =>
    rw [Option.bind_eq_some_iff, decimal_iff_of_unsigned hsign]
    simp only [readNat?_eq_some, and_assoc, exists_and_left, exists_eq_left]
    refine and_congr_right fun _ => and_congr_right fun _ => ?_
    split_ifs with hfit
    · rw [Option.some.injEq, ofInt_eq_iff (by omega) (by omega)]
    · refine iff_of_false nofun fun hn => hfit ?_
      change _ < 2 ^ 31
      omega

end Text

namespace Setup

/-! ### Placements -/

/-- A row of a placement and what it shows from left to right: pieces, and runs of empty squares. -/
inductive RowShows : List Char → List (Option Piece) → Prop
  | nil : RowShows [] []
  | gap {c : Char} {cs : List Char} {cells : List (Option Piece)} (hc : CountsEmpty c)
      (h : RowShows cs cells) :
      RowShows (c :: cs) (List.replicate (c.toNat - '0'.toNat) none ++ cells)
  | man {cs : List Char} {cells : List (Option Piece)} (p : Piece) (h : RowShows cs cells) :
      RowShows (p.symbol :: cs) (some p :: cells)

/-- Eight rows with slashes between them show the eight ranks, the last rank first. -/
def ShowsMen (placement : List Char) (f : Square → Option Piece) : Prop :=
  ∃ rows, placement = ['/'].intercalate rows ∧
    List.Forall₂ (fun row rank => RowShows row ((Square.ofRank rank).map f)) rows
      (List.finRange 8).reverse

variable {cs : List Char} {cells : List (Option Piece)} {f : Square → Option Piece}
  {placement : List Char} {rank : Fin 8} {file : ℕ} {men : List (Piece × Square)}

theorem cellText_eq_one_iff {o : Option Piece} : cellText o = '1' ↔ o = none := by
  cases o with
  | none => exact iff_of_true rfl rfl
  | some p =>
    refine iff_of_false (fun h => ?_) nofun
    have hdigit : CountsEmpty p.symbol := by
      rw [show p.symbol = '1' from h]
      decide
    exact p.not_countsEmpty_symbol hdigit

theorem rowShows_iff : RowShows cs cells ↔ inFull cs = cells.map cellText := by
  constructor
  · intro h
    induction h with
    | nil => rfl
    | gap hc _ ih =>
      rw [inFull_cons_of_digit hc, ih, List.map_append, List.map_replicate]
      rfl
    | man p _ ih =>
      rw [inFull_cons_of_not_digit p.not_countsEmpty_symbol, ih]
      rfl
  · intro h
    induction cs generalizing cells with
    | nil =>
      obtain rfl := List.map_eq_nil_iff.1 h.symm
      exact .nil
    | cons c cs ih =>
      by_cases hc : CountsEmpty c
      -- a digit stands for as many cells of text, and all of them are empty
      · rw [inFull_cons_of_digit hc] at h
        obtain ⟨gap, rest, rfl, hgap, hrest⟩ := List.map_eq_append_iff.1 h.symm
        have hlength : gap.length = c.toNat - '0'.toNat := by
          rw [← List.length_map cellText, hgap, List.length_replicate]
        have hempty : gap = List.replicate (c.toNat - '0'.toNat) none := by
          refine List.eq_replicate_iff.2 ⟨hlength, fun o ho => cellText_eq_one_iff.1 ?_⟩
          exact List.eq_of_mem_replicate (hgap ▸ List.mem_map_of_mem ho)
        rw [hempty]
        exact .gap hc (ih hrest.symm)
      · rw [inFull_cons_of_not_digit hc] at h
        obtain ⟨o, rest, rfl, rfl, hrest⟩ := List.map_eq_cons_iff.1 h.symm
        cases o with
        | none => exact absurd (by decide) hc
        | some p => exact .man p (ih hrest.symm)

theorem not_mem_of_mem_splitOn {α : Type} [DecidableEq α] {x : α} {l w : List α}
    (hw : w ∈ l.splitOn x) : x ∉ w := by
  induction l generalizing w with
  | nil =>
    obtain rfl := List.mem_singleton.1 hw
    exact List.not_mem_nil
  | cons y l ih =>
    rw [List.splitOn_cons_eq_if_modifyHead] at hw
    split_ifs at hw with hy
    · rcases List.mem_cons.1 hw with rfl | hw
      · exact List.not_mem_nil
      · exact ih hw
    · obtain ⟨v, vs, hv⟩ := List.exists_cons_of_ne_nil (List.splitOn_ne_nil x l)
      rw [hv, List.modifyHead_cons] at hw
      have hrest : ∀ w ∈ v :: vs, x ∉ w := by
        rw [← hv]
        exact fun w hw => ih hw
      rcases List.mem_cons.1 hw with rfl | hw
      · rw [List.mem_cons, not_or]
        exact ⟨fun hxy => hy (beq_iff_eq.2 hxy.symm), hrest v List.mem_cons_self⟩
      · exact hrest w (List.mem_cons_of_mem v hw)

theorem diagram_eq_intercalate (f : Square → Option Piece) :
    diagram f = ['/'].intercalate ((List.finRange 8).reverse.map (rowText f)) := rfl

theorem slash_not_mem_inFull (h : '/' ∉ cs) : '/' ∉ inFull cs := by
  intro hmem
  obtain ⟨c, hc, hslash⟩ := List.mem_flatMap.1 hmem
  split_ifs at hslash
  · exact absurd (List.eq_of_mem_replicate hslash) (by decide)
  · exact h (List.mem_singleton.1 hslash ▸ hc)

theorem slash_not_mem_rowText : '/' ∉ rowText f rank := by
  intro hmem
  obtain ⟨s, _, hs⟩ := List.mem_map.1 hmem
  cases hcell : f s with
  | none =>
    rw [hcell] at hs
    exact absurd hs (by decide)
  | some p =>
    rw [hcell] at hs
    exact p.symbol_ne_slash hs

theorem showsMen_iff : ShowsMen placement f ↔ inFull placement = diagram f := by
  have hrows : ∀ rows : List (List Char),
      List.Forall₂ (fun row rank => RowShows row ((Square.ofRank rank).map f)) rows
        (List.finRange 8).reverse ↔
      rows.map inFull = (List.finRange 8).reverse.map (rowText f) := by
    intro rows
    have heq : ∀ l l' : List (List Char), List.Forall₂ (· = ·) l l' ↔ l = l' := by
      rw [List.forall₂_eq_eq_eq]
      exact fun _ _ => Iff.rfl
    simp only [rowShows_iff, List.map_map]
    rw [← heq, List.forall₂_map_left_iff, List.forall₂_map_right_iff]
    rfl
  unfold ShowsMen
  simp only [hrows, diagram_eq_intercalate]
  constructor
  · rintro ⟨rows, rfl, h⟩
    rw [inFull_intercalate, h]
  · intro h
    -- no rank is written with a slash, so there is one way only to cut the text into ranks
    have hcut : ['/'].intercalate (placement.splitOn '/') = placement :=
      List.intercalate_splitOn '/'
    refine ⟨placement.splitOn '/', hcut.symm, ?_⟩
    rw [← hcut, inFull_intercalate] at h
    have hsplit := congrArg (List.splitOn '/') h
    rw [List.splitOn_intercalate, List.splitOn_intercalate] at hsplit
    · exact hsplit
    · intro row hrow
      obtain ⟨rank, _, rfl⟩ := List.mem_map.1 hrow
      exact slash_not_mem_rowText
    · exact List.map_eq_nil_iff.not.2 (by decide)
    · intro row hrow
      obtain ⟨row', hrow', rfl⟩ := List.mem_map.1 hrow
      exact slash_not_mem_inFull (not_mem_of_mem_splitOn hrow')
    · exact List.map_eq_nil_iff.not.2 (List.splitOn_ne_nil _ _)

theorem count_symbol (p : Piece) (h : readMen rank file cs = .ok men) :
    cs.count p.symbol = men.countP (·.1 == p) := by
  induction cs generalizing rank file men with
  | nil =>
    rw [(readMen_nil h).1]
    rfl
  | cons c cs ih =>
    rcases readMen_cons h with ⟨rfl, _, _, hnext⟩ | ⟨hdigit, _, hskip⟩ |
      ⟨p', hfile, rest, hp', hrest, rfl⟩
    · rw [List.count_cons_of_ne p.symbol_ne_slash.symm, ih hnext]
    · have hne : c ≠ p.symbol := by
        rintro rfl
        exact p.not_countsEmpty_symbol hdigit
      rw [List.count_cons_of_ne hne, ih hskip]
    · have hsame : (c == p.symbol) = (p' == p) := by
        rw [Bool.eq_iff_iff, beq_iff_eq, beq_iff_eq, ← Piece.symbol_of_ofSymbol? hp']
        refine ⟨fun heq => ?_, congrArg _⟩
        have hread := congrArg Piece.ofSymbol? heq
        rw [Piece.ofSymbol?_symbol, Piece.ofSymbol?_symbol] at hread
        exact Option.some.inj hread
      rw [List.count_cons, List.countP_cons, ih hrest, hsame]

/-! ### The other fields -/

variable {field : List Char} {least n : Int32} {fault : FenFault} {target : Option Square}

/-- The castling field: a dash, or letters only, none if the field is left out. -/
def TellsRights (field : List Char) : Prop :=
  field = ['-'] ∨ ∀ c ∈ field, c = 'K' ∨ c = 'Q' ∨ c = 'k' ∨ c = 'q'

/-- The field of the en passant target: left out, a dash, or a square's name, in which the letter
may be a capital. -/
def TellsTarget (field : List Char) (target : Option Square) : Prop :=
  (field = [] ∨ field = ['-']) ∧ target = none ∨
    ∃ s capital, field = s.nameWith capital ∧ target = some s

/-- The field of a counter: the least number if it is left out, or one that is not less. -/
def TellsCounter (least : ℤ) (field : List Char) (n : Int32) : Prop :=
  least ≤ n.toInt ∧ (field = [] ∧ n.toInt = least ∨ Text.Decimal field n.toInt)

theorem isSome_readRight?_iff {c : Char} :
    (readRight? c).isSome = true ↔ c = 'K' ∨ c = 'Q' ∨ c = 'k' ∨ c = 'q' := by
  rw [Option.isSome_iff_exists]
  simp only [readRight?_eq_some, Prod.exists]
  constructor
  · rintro ⟨c, w, rfl⟩
    cases c <;> cases w <;> decide
  · rintro (rfl | rfl | rfl | rfl)
    · exact ⟨.white, .king, rfl⟩
    · exact ⟨.white, .queen, rfl⟩
    · exact ⟨.black, .king, rfl⟩
    · exact ⟨.black, .queen, rfl⟩

theorem isSome_mapM_iff {α β : Type} {f : α → Option β} {l : List α} :
    (l.mapM f).isSome = true ↔ ∀ x ∈ l, (f x).isSome = true := by
  induction l with
  | nil => exact iff_of_true rfl (List.forall_mem_nil _)
  | cons x l ih =>
    rw [List.mapM_cons, List.forall_mem_cons, ← ih]
    cases f x with
    | none => exact iff_of_false nofun (fun h => nomatch h.1)
    | some y =>
      cases l.mapM f with
      | none => exact iff_of_false nofun (fun h => nomatch h.2)
      | some ys => exact iff_of_true rfl ⟨rfl, rfl⟩

theorem exists_readRights_iff : (∃ rights, readRights field = .ok rights) ↔ TellsRights field := by
  unfold TellsRights
  simp only [← isSome_readRight?_iff]
  rw [← isSome_mapM_iff]
  unfold readRights
  split
  case h_1 => exact iff_of_true ⟨_, rfl⟩ (.inr rfl)
  case h_2 => exact iff_of_true ⟨_, rfl⟩ (.inl rfl)
  case h_3 hne hdash =>
    rw [or_iff_right hdash]
    cases field.mapM readRight? with
    | none => exact iff_of_false (fun ⟨_, h⟩ => nomatch h) nofun
    | some rights => exact iff_of_true ⟨_, rfl⟩ rfl

theorem readTarget_eq_ok_iff : readTarget field = .ok target ↔ TellsTarget field target := by
  constructor
  · intro h
    unfold readTarget at h
    split at h
    · exact .inl ⟨.inl rfl, (Except.ok.inj h).symm⟩
    · exact .inl ⟨.inr rfl, (Except.ok.inj h).symm⟩
    · split at h
      case h_1 s hs =>
        obtain ⟨capital, hname⟩ := Square.exists_nameWith hs
        exact .inr ⟨s, capital, hname.symm, (Except.ok.inj h).symm⟩
      case h_2 => cases h
    · cases h
  · rintro (⟨rfl | rfl, rfl⟩ | ⟨s, capital, rfl, rfl⟩)
    · rfl
    · rfl
    · rw [Square.nameWith, readTarget, s.ofChars?_nameWith]

theorem readCounter_eq_ok_iff :
    readCounter least fault field = .ok n ↔ TellsCounter least.toInt field n := by
  unfold TellsCounter
  rw [← Text.readInt?_eq_some, Int32.toInt_inj]
  constructor
  · intro h
    obtain ⟨hle, hread⟩ := readCounter_eq_ok h
    exact ⟨Int32.le_iff_toInt_le.1 hle, hread⟩
  · rintro ⟨hle, ⟨rfl, rfl⟩ | hread⟩
    · rfl
    · unfold readCounter
      split
      · cases hread
      · rw [hread]
        exact if_pos (Int32.le_iff_toInt_le.2 hle)

theorem readSide_eq_ok_iff {c : Colour} : readSide field = .ok c ↔ field = c.fenText := by
  refine ⟨eq_fenText_of_readSide, ?_⟩
  rintro rfl
  exact readSide_fenText c

/-! ### Whole texts -/

/-- What a position text tells. -/
structure Contents where
  men : Square → Option Piece
  active : Colour
  /-- The letters of the castling field, or a dash. -/
  rights : List Char
  target : Option Square
  halfmove : Int32
  turn : Int32

/-- The fields of a text, and what they tell; further fields tell nothing. -/
structure FieldsTell (placement side : List Char) (rest : List (List Char)) (x : Contents) :
    Prop where
  men : ShowsMen placement x.men
  kings : placement.count 'K' = 1 ∧ placement.count 'k' = 1
  active : side = x.active.fenText
  rights : x.rights = rest.getD 0 [] ∧ TellsRights x.rights
  target : TellsTarget (rest.getD 1 []) x.target
  halfmove : TellsCounter 0 (rest.getD 2 []) x.halfmove
  turn : TellsCounter 1 (rest.getD 3 []) x.turn

/-- Cut at its white space, a text has at least two fields. -/
def Tells (text : String) (x : Contents) : Prop :=
  ∃ placement side rest, (text.toList.splitOnP Text.isSpace).filter (!·.isEmpty) =
    placement :: side :: rest ∧ FieldsTell placement side rest x

variable {side : List Char} {rest : List (List Char)} {s : Setup} {x : Contents}

theorem oneKingEach_iff_count (h : readMen rank file placement = .ok men) :
    oneKingEach men = true ↔ placement.count 'K' = 1 ∧ placement.count 'k' = 1 := by
  have hwhite := count_symbol ⟨.king, .white⟩ h
  have hblack := count_symbol ⟨.king, .black⟩ h
  unfold oneKingEach
  rw [Bool.and_eq_true, beq_iff_eq, beq_iff_eq, ← hwhite, ← hblack]
  rfl

theorem fieldsTell_of_describes (h : Describes placement side rest s) :
    FieldsTell placement side rest
      { men := (Game.ofSetup s).board.piece, active := s.active, rights := rest.getD 0 []
        target := s.enPassant, halfmove := s.halfmove, turn := s.turn } where
  men := showsMen_iff.2 (Game.inFull_of_describes h)
  kings := (oneKingEach_iff_count h.men).1 h.kings
  active := readSide_eq_ok_iff.1 h.active
  rights := ⟨rfl, exists_readRights_iff.1 ⟨_, h.rights⟩⟩
  target := readTarget_eq_ok_iff.1 h.enPassant
  halfmove := readCounter_eq_ok_iff.1 h.halfmove
  turn := readCounter_eq_ok_iff.1 h.turn

def Contents.setup (x : Contents) (rights : List (Colour × Wing)) : Setup :=
  { men := menAhead x.men 7 0, active := x.active, rights, enPassant := x.target
    halfmove := x.halfmove, turn := x.turn }

theorem describes_of_fieldsTell (h : FieldsTell placement side rest x)
    {rights : List (Colour × Wing)} (hrights : readRights x.rights = .ok rights) :
    Describes placement side rest (x.setup rights) := by
  have hmen : readMen 7 0 placement = .ok (menAhead x.men 7 0) := by
    rw [← readMen_inFull, showsMen_iff.1 h.men]
    exact readMen_ahead x.men 7 (Nat.zero_le 8)
  refine ⟨hmen, (oneKingEach_iff_count hmen).2 h.kings, readSide_eq_ok_iff.2 h.active, ?_,
    readTarget_eq_ok_iff.2 h.target, readCounter_eq_ok_iff.2 h.halfmove,
    readCounter_eq_ok_iff.2 h.turn⟩
  rw [← h.rights.1]
  exact hrights

end Setup

namespace Game

open Setup

variable {g : Game} {s : Setup} {x : Contents} {men : List (Piece × Square)} {u : Square}
  {c : Colour} {w : Wing} {placement side : List Char} {rest : List (List Char)}

/-- The position that a text tells of. The men of a side are listed in reading order. -/
structure Shows (g : Game) (x : Contents) : Prop where
  men : g.board.piece = x.men
  live : ∀ c, g.live.get c = (readingOrder.filterMap g.board.occupant).filter (·.colour == c)
  captured : ∀ c, g.captured.get c = []
  moves : g.moves = []
  active : g.active = x.active
  rights : ∀ c w, g.hasRight c w = true ↔ w.symbol c ∈ x.rights ∧
    x.men (CastlePath.of c w).kingFrom = some ⟨.king, c⟩ ∧
      x.men (CastlePath.of c w).rookFrom = some ⟨.rook, c⟩
  target : g.enPassant = x.target
  halfmove : g.halfmove = x.halfmove
  turn : g.turn = x.turn

theorem Shows.setDepth (h : g.Shows x) (n : Nat) : { g with depth := n }.Shows x :=
  ⟨h.men, h.live, h.captured, h.moves, h.active, h.rights, h.target, h.halfmove, h.turn⟩

theorem occupant_enlistAll_of_not_mem (hu : u ∉ men.map Prod.snd) :
    (g.enlistAll men).board.occupant u = g.board.occupant u := by
  induction men generalizing g with
  | nil => rfl
  | cons e men ih =>
    rw [List.map_cons, List.mem_cons, not_or] at hu
    exact (ih hu.2).trans ((occupant_enlist g e.1 e.2 u).trans (if_neg hu.1))

theorem live_enlistAll (hnodup : (men.map Prod.snd).Nodup) (c : Colour) :
    (g.enlistAll men).live.get c = g.live.get c ++
      (men.filterMap fun e => (g.enlistAll men).board.occupant e.2).filter (·.colour == c) := by
  induction men generalizing g with
  | nil => exact (List.append_nil _).symm
  | cons e men ih =>
    rw [List.map_cons, List.nodup_cons] at hnodup
    have hfirst : (g.enlistAll (e :: men)).board.occupant e.2 = some ⟨e.1, g.roster.size⟩ :=
      (occupant_enlistAll_of_not_mem hnodup.1).trans ((occupant_enlist g e.1 e.2 e.2).trans
        (if_pos rfl))
    rw [List.filterMap_cons, hfirst]
    refine (ih hnodup.2).trans ?_
    rw [live_enlist, Sides.get_modify, List.filter_cons]
    by_cases hc : c = e.1.colour
    · rw [if_pos hc, if_pos (beq_iff_eq.2 hc.symm), List.append_assoc]
      rfl
    · rw [if_neg hc, if_neg fun h => hc (beq_iff_eq.1 h).symm]
      rfl

theorem live_grantRight (g : Game) (c : Colour) (w : Wing) : (g.grantRight c w).live = g.live := by
  unfold grantRight
  dsimp only
  split <;> rfl

theorem live_grantRights (g : Game) (rights : List (Colour × Wing)) :
    (rights.foldl (fun g e => g.grantRight e.1 e.2) g).live = g.live := by
  induction rights generalizing g with
  | nil => rfl
  | cons e rights ih => exact (ih (g.grantRight e.1 e.2)).trans (live_grantRight g e.1 e.2)

theorem live_ofSetup (hnodup : (s.men.map Prod.snd).Nodup) (c : Colour) :
    (ofSetup s).live.get c =
      (s.men.filterMap fun e => (ofSetup s).board.occupant e.2).filter (·.colour == c) := by
  have hlive : (ofSetup s).live = (empty.enlistAll s.men).live := live_grantRights _ s.rights
  have hnobody : empty.live.get c = [] := by cases c <;> rfl
  rw [hlive, board_ofSetup, live_enlistAll hnodup, hnobody, List.nil_append]

theorem filterMap_menAhead {b : Board} :
    ((menAhead b.piece 7 0).filterMap fun e => b.occupant e.2) =
      readingOrder.filterMap b.occupant := by
  unfold menAhead
  rw [List.filterMap_filterMap]
  refine List.filterMap_congr fun u _ => ?_
  rw [Board.piece]
  cases hu : b.occupant u with
  | none => rfl
  | some m => exact hu

theorem shows_setup {rights : List (Colour × Wing)} (hrights : readRights x.rights = .ok rights)
    (hnodup : ((x.setup rights).men.map Prod.snd).Nodup) : (ofSetup (x.setup rights)).Shows x := by
  have hunplayed := unplayed_ofSetup (x.setup rights)
  have hmen : (ofSetup (x.setup rights)).board.piece = x.men := by
    funext u
    refine Option.ext fun p => ?_
    rw [piece_ofSetup hnodup]
    exact mem_menAhead_all
  refine ⟨hmen, fun c => ?_, hunplayed.captured, hunplayed.moves, rfl, fun c w => ?_, rfl, rfl, rfl⟩
  · have hlist : (x.setup rights).men = menAhead (ofSetup (x.setup rights)).board.piece 7 0 := by
      rw [hmen]
      rfl
    rw [live_ofSetup hnodup, hlist, filterMap_menAhead]
  · rw [hasRight_ofSetup hnodup, exists_atHome_iff, hmen]
    exact and_congr_left fun _ => mem_of_readRights hrights (c, w)

end Game

namespace Arbiter

variable {a b : Arbiter} {text : String} {x : Setup.Contents}

theorem loadFen_of_tells (a : Arbiter) (h : Setup.Tells text x) :
    ∃ b, a.loadFen text = (.ok (), b) ∧ b.Shows x := by
  obtain ⟨placement, side, rest, hfields, htell⟩ := h
  rw [← Text.words_eq_splitOnP] at hfields
  obtain ⟨rights, hrights⟩ := Setup.exists_readRights_iff.2 htell.rights.2
  have hdesc := Setup.describes_of_fieldsTell htell hrights
  have hread : Setup.ofFen text = .ok (x.setup rights) := by
    rw [Setup.ofFen, hfields]
    exact Setup.ofFields_eq_ok_iff.2 ⟨placement, side, rest, rfl, hdesc⟩
  obtain ⟨b, hload, hb⟩ := loadFen_of_ofFen a hread
  refine ⟨b, hload, ?_⟩
  rw [hb]
  exact (Game.shows_setup hrights (Setup.nodup_of_readMen hdesc.men)).setDepth a.depth

theorem exists_tells_of_loadFen (h : a.loadFen text = (.ok (), b)) : ∃ x, Setup.Tells text x := by
  obtain ⟨s, hs, _⟩ := loadFen_ok h
  obtain ⟨placement, side, rest, hfields, hdesc⟩ := Setup.ofFields_eq_ok_iff.1 hs
  rw [Text.words_eq_splitOnP] at hfields
  exact ⟨_, placement, side, rest, hfields, Setup.fieldsTell_of_describes hdesc⟩

/-- Texts are accepted just if they are position texts, and the game then shows what the text tells:
each piece on its square and nothing else, the men of each side listed in reading order, nobody
captured and nothing moved, the side to move, the rights whose king and rook are at home, the target
and the counters. -/
theorem loadFen_grammar (a : Arbiter) (text : String) :
    ((a.loadFen text).1.isOk = true ↔ ∃ x, Setup.Tells text x) ∧
      ∀ x, Setup.Tells text x → ∃ b, a.loadFen text = (.ok (), b) ∧ b.Shows x := by
  refine ⟨⟨fun h => exists_tells_of_loadFen (loadFen_of_isOk h), ?_⟩,
    fun x htells => loadFen_of_tells a htells⟩
  rintro ⟨x, htells⟩
  obtain ⟨b, hload, _⟩ := loadFen_of_tells a htells
  rw [hload]
  rfl

/-- Two digits may meet in a row, but a row of seven squares is none. -/
theorem scattered_grammar :
    (∃ x b, Setup.Tells scattered x ∧ (opening {}).loadFen scattered = (.ok (), b) ∧ b.Shows x) ∧
      ¬∃ x, Setup.Tells "4k2r/8/8/8/8/8/8/R3K2 b" x := by
  have hread : ((opening {}).loadFen scattered).1.isOk = true := by decide +kernel
  have hshort : ((opening {}).loadFen "4k2r/8/8/8/8/8/8/R3K2 b").1.isOk = false := by
    decide +kernel
  constructor
  · obtain ⟨x, htells⟩ := (loadFen_grammar (opening {}) scattered).1.1 hread
    obtain ⟨b, hload, hshows⟩ := (loadFen_grammar (opening {}) scattered).2 x htells
    exact ⟨x, b, htells, hload, hshows⟩
  · rw [← (loadFen_grammar (opening {}) _).1, hshort]
    decide

end Arbiter

end ChessArbiter
