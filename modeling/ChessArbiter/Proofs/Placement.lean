import ChessArbiter.Proofs.Setups

/-!
# Placements in full

A run of empty squares may be shared out among several digits, so a placement can be written in
many ways. Written in full, with a `1` for each empty square, it has one form, and reading does not
see the difference (`readMen_inFull`). A diagram of who stands where is such a full form: reading
it gives the men on their squares (`readMen_ahead`), and it is the only full form that reads
as these men (`eq_ahead_of_readMen`). What a board writes is a way of writing its diagram
(`inFull_placementText`), and the one in which no two digits meet (`terse_placementText`,
`Terse.eq_of_inFull_eq`).
-/

namespace ChessArbiter

/-- A digit stands for that many empty squares. -/
abbrev CountsEmpty (c : Char) : Prop := '1' ≤ c ∧ c ≤ '8'

/-- A placement with its runs of empty squares written square by square. -/
def inFull (cs : List Char) : List Char :=
  cs.flatMap fun c => if CountsEmpty c then List.replicate (c.toNat - '0'.toNat) '1' else [c]

theorem inFull_append (cs ds : List Char) : inFull (cs ++ ds) = inFull cs ++ inFull ds :=
  List.flatMap_append

theorem inFull_cons_of_digit {c : Char} (hc : CountsEmpty c) (cs : List Char) :
    inFull (c :: cs) = List.replicate (c.toNat - '0'.toNat) '1' ++ inFull cs := by
  rw [inFull, List.flatMap_cons, if_pos hc]
  rfl

theorem inFull_cons_of_not_digit {c : Char} (hc : ¬CountsEmpty c) (cs : List Char) :
    inFull (c :: cs) = c :: inFull cs := by
  rw [inFull, List.flatMap_cons, if_neg hc]
  rfl

/-- The only digit left in a full placement is `1`. -/
theorem eq_one_of_mem_inFull {c : Char} {cs : List Char} (h : c ∈ inFull cs)
    (hc : CountsEmpty c) : c = '1' := by
  obtain ⟨d, _, hd⟩ := List.mem_flatMap.1 h
  split_ifs at hd with hdigit
  · exact List.eq_of_mem_replicate hd
  · rw [List.mem_singleton] at hd
    exact absurd (hd ▸ hc) hdigit

theorem le_toNat_of_countsEmpty {c : Char} (hc : CountsEmpty c) : 49 ≤ c.toNat :=
  UInt32.le_iff_toNat_le.1 hc.1

theorem exists_count {c : Char} (hc : CountsEmpty c) : ∃ n, c.toNat - '0'.toNat = n + 1 := by
  have hle := le_toNat_of_countsEmpty hc
  exact ⟨c.toNat - 49, by change c.toNat - 48 = _; omega⟩

theorem digit_eq_of_count {c d : Char} (hc : CountsEmpty c) (hd : CountsEmpty d)
    (h : c.toNat - '0'.toNat = d.toNat - '0'.toNat) : c = d := by
  have hcle := le_toNat_of_countsEmpty hc
  have hdle := le_toNat_of_countsEmpty hd
  change c.toNat - 48 = d.toNat - 48 at h
  exact Char.toNat_inj.1 (by omega)

theorem Text.isSpace_of_blank_lt {c : Char} (h : 32 < c.toNat) : isSpace c = false := by
  rw [Bool.eq_false_iff]
  intro hspace
  simp only [isSpace, Bool.or_eq_true, beq_iff_eq] at hspace
  rcases hspace with ((((rfl | rfl) | rfl) | rfl) | rfl) | rfl <;> exact absurd h (by decide)

theorem isSpace_of_countsEmpty {c : Char} (hc : CountsEmpty c) : Text.isSpace c = false :=
  Text.isSpace_of_blank_lt (Nat.lt_of_lt_of_le (by decide) (le_toNat_of_countsEmpty hc))

namespace Text

/-! ### Capitals and small letters -/

variable {c d : Char}

theorem small_iff : 'a' ≤ c ∧ c ≤ 'z' ↔ 97 ≤ c.toNat ∧ c.toNat ≤ 122 := Iff.rfl

theorem capital_iff : 'A' ≤ c ∧ c ≤ 'Z' ↔ 65 ≤ c.toNat ∧ c.toNat ≤ 90 := Iff.rfl

theorem toNat_toUpper (hc : 'a' ≤ c ∧ c ≤ 'z') : c.toUpper.toNat = c.toNat - 32 := by
  have hupper : c.toUpper = ⟨c.val + ('A'.val - 'a'.val), _⟩ := dif_pos hc
  have hgap : ('A'.val - 'a'.val).toNat = 2 ^ 32 - 32 := by decide
  have hrange : 97 ≤ c.val.toNat ∧ c.val.toNat ≤ 122 := hc
  rw [hupper]
  change (c.val + ('A'.val - 'a'.val)).toNat = c.val.toNat - 32
  rw [UInt32.toNat_add, hgap]
  omega

theorem toNat_toLower (hc : 'A' ≤ c ∧ c ≤ 'Z') : c.toLower.toNat = c.toNat + 32 := by
  have hlower : c.toLower = ⟨c.val + ('a'.val - 'A'.val), _⟩ := dif_pos hc
  have hgap : ('a'.val - 'A'.val).toNat = 32 := by decide
  have hrange : 65 ≤ c.val.toNat ∧ c.val.toNat ≤ 90 := hc
  rw [hlower]
  change (c.val + ('a'.val - 'A'.val)).toNat = c.val.toNat + 32
  rw [UInt32.toNat_add, hgap]
  omega

/-- Only a capital itself and its small letter have that capital. -/
theorem eq_or_eq_toLower (h : c.toUpper = d) : c = d ∨ c = d.toLower := by
  by_cases hc : 'a' ≤ c ∧ c ≤ 'z'
  · right
    have hshift := toNat_toUpper hc
    have hrange := small_iff.1 hc
    rw [h] at hshift
    have hd : 'A' ≤ d ∧ d ≤ 'Z' := capital_iff.2 (by omega)
    rw [← Char.toNat_inj, toNat_toLower hd]
    omega
  · exact .inl ((dif_neg hc).symm.trans h)

theorem eq_or_eq_toUpper (h : c.toLower = d) : c = d ∨ c = d.toUpper := by
  by_cases hc : 'A' ≤ c ∧ c ≤ 'Z'
  · right
    have hshift := toNat_toLower hc
    have hrange := capital_iff.1 hc
    rw [h] at hshift
    have hd : 'a' ≤ d ∧ d ≤ 'z' := small_iff.2 (by omega)
    rw [← Char.toNat_inj, toNat_toUpper hd]
    omega
  · exact .inl ((dif_neg hc).symm.trans h)

end Text

theorem PieceKind.ofLetter?_iff {c : Char} {k : PieceKind} :
    ofLetter? c = some k ↔ c = k.letter ∨ c = k.letter.toLower := by
  constructor
  · intro h
    have hletter : k.letter = c.toUpper := by simpa using List.find?_some h
    exact Text.eq_or_eq_toLower hletter.symm
  · rintro (rfl | rfl) <;> cases k <;> rfl

namespace Piece

theorem not_countsEmpty_symbol (p : Piece) : ¬CountsEmpty p.symbol := by
  obtain ⟨k, c⟩ := p
  cases k <;> cases c <;> decide

theorem symbol_ne_slash (p : Piece) : p.symbol ≠ '/' := by
  obtain ⟨k, c⟩ := p
  cases k <;> cases c <;> decide

theorem symbol_of_ofSymbol? {c : Char} {p : Piece} (h : ofSymbol? c = some p) : p.symbol = c := by
  obtain ⟨k, hk, rfl⟩ := Option.map_eq_some_iff.1 h
  rcases PieceKind.ofLetter?_iff.1 hk with rfl | rfl <;> cases k <;> rfl

end Piece

namespace Setup

variable {rank : Fin 8} {file : Nat} {cs : List Char} {men : List (Piece × Square)}

theorem readMen_one (rank : Fin 8) (file : Nat) (cs : List Char) :
    readMen rank file ('1' :: cs) =
      if 8 < file + 1 then .error .rankOverflow else readMen rank (file + 1) cs := rfl

theorem readMen_ones (rank : Fin 8) (file n : Nat) (cs : List Char) :
    readMen rank file (List.replicate (n + 1) '1' ++ cs) =
      if 8 < file + (n + 1) then .error .rankOverflow else readMen rank (file + (n + 1)) cs := by
  induction n generalizing file with
  | zero => exact readMen_one rank file cs
  | succ n ih =>
    have hsum : file + 1 + (n + 1) = file + (n + 1 + 1) := by omega
    rw [List.replicate_succ, List.cons_append, readMen_one, ih, hsum]
    by_cases hfit : 8 < file + 1
    · rw [if_pos hfit, if_pos (by omega)]
    · rw [if_neg hfit]

theorem readMen_digit {c : Char} (hc : CountsEmpty c) (rank : Fin 8) (file : Nat)
    (cs : List Char) :
    readMen rank file (c :: cs) =
      if 8 < file + (c.toNat - '0'.toNat) then .error .rankOverflow
      else readMen rank (file + (c.toNat - '0'.toNat)) cs := by
  have hslash : c ≠ '/' := by
    rintro rfl
    revert hc
    decide
  rw [readMen, if_neg hslash, if_pos hc]

theorem readMen_symbol (p : Piece) (rank : Fin 8) (hfile : file < 8) (cs : List Char) :
    readMen rank file (p.symbol :: cs) =
      (readMen rank (file + 1) cs).map ((p, ⟨⟨file, hfile⟩, rank⟩) :: ·) := by
  rw [readMen, if_neg p.symbol_ne_slash, if_neg p.not_countsEmpty_symbol, Piece.ofSymbol?_symbol]
  dsimp only
  rw [dif_pos hfile]
  cases readMen rank (file + 1) cs <;> rfl

/-- Reading sees no difference between a digit and as many single steps. -/
theorem readMen_inFull (rank : Fin 8) (file : Nat) (cs : List Char) :
    readMen rank file (inFull cs) = readMen rank file cs := by
  induction cs generalizing rank file with
  | nil => rfl
  | cons c cs ih =>
    by_cases hc : CountsEmpty c
    · obtain ⟨n, hn⟩ := exists_count hc
      rw [inFull_cons_of_digit hc, readMen_digit hc, hn, readMen_ones, ih]
    · rw [inFull_cons_of_not_digit hc]
      simp only [readMen, ih]

/-! ### Diagrams -/

def cellText (o : Option Piece) : Char := o.elim '1' Piece.symbol

def rowText (f : Square → Option Piece) (rank : Fin 8) : List Char :=
  (Square.ofRank rank).map fun s => cellText (f s)

/-- The ranks below a rank, the nearest first. -/
def below (f : Square → Option Piece) : Nat → List Char
  | 0 => []
  | r + 1 => '/' :: (rowText f (Fin.ofNat 8 r) ++ below f r)

/-- What a reader who has come to `file` on `rank` has ahead of him. -/
def ahead (f : Square → Option Piece) (rank : Fin 8) (file : Nat) : List Char :=
  (rowText f rank).drop file ++ below f rank.val

def diagram (f : Square → Option Piece) : List Char := ahead f 7 0

variable {f : Square → Option Piece} {s : Square}

theorem ahead_end_of_rank (f : Square → Option Piece) (hrank : rank ≠ 0) :
    ahead f rank 8 = '/' :: ahead f (rank - 1) 0 := by
  revert hrank
  fin_cases rank <;> first | exact absurd rfl | exact fun _ => rfl

theorem ahead_square (f : Square → Option Piece) (rank : Fin 8) (hfile : file < 8) :
    ahead f rank file = cellText (f ⟨⟨file, hfile⟩, rank⟩) :: ahead f rank (file + 1) := by
  have hlength : file < (rowText f rank).length := by
    simpa [rowText, Square.ofRank] using hfile
  rw [ahead, List.drop_eq_getElem_cons hlength]
  simp [rowText, Square.ofRank, ahead]

theorem not_ahead_last : ¬Ahead 0 8 s := by
  unfold Ahead
  omega

theorem ahead_end_of_rank_iff (hrank : rank ≠ 0) : Ahead rank 8 s ↔ Ahead (rank - 1) 0 s := by
  unfold Ahead
  omega

theorem ahead_square_iff (hfile : file < 8) :
    Ahead rank file s ↔ s = ⟨⟨file, hfile⟩, rank⟩ ∨ Ahead rank (file + 1) s := by
  unfold Ahead
  rw [Square.eq_iff]
  dsimp only
  omega

/-- The places of a reader: the end of the board, the end of another rank, or a square. -/
theorem place_induction {motive : (rank : Fin 8) → (file : Nat) → file ≤ 8 → Prop}
    (last : motive 0 8 le_rfl)
    (end_of_rank : ∀ rank ≠ 0, motive (rank - 1) 0 (Nat.zero_le 8) → motive rank 8 le_rfl)
    (square : ∀ rank file, (h : file < 8) → motive rank (file + 1) h → motive rank file h.le)
    (rank : Fin 8) (file : Nat) (hfile : file ≤ 8) : motive rank file hfile := by
  have hrow : ∀ rank, motive rank 8 le_rfl → ∀ file, (h : file ≤ 8) → motive rank file h := by
    intro rank hend file hfile
    induction hfile using Nat.decreasingInduction with
    | self => exact hend
    | of_succ file hlt ih => exact square rank file hlt ih
  have hend : ∀ rank, motive rank 8 le_rfl := by
    intro rank
    induction rank using Fin.induction with
    | zero => exact last
    | succ r ih =>
      have hbelow : ∀ r : Fin 7, r.succ - 1 = r.castSucc := by decide
      refine end_of_rank r.succ (Fin.succ_ne_zero r) ?_
      rw [hbelow]
      exact hrow _ ih 0 (Nat.zero_le 8)
  exact hrow rank (hend rank) file hfile

/-- The squares in the order in which a position text names them. -/
def readingOrder : List Square := (List.finRange 8).reverse.flatMap Square.ofRank

def squaresAhead (rank : Fin 8) (file : Nat) : List Square :=
  readingOrder.drop (8 * (7 - rank.val) + file)

theorem squaresAhead_end_of_rank (hrank : rank ≠ 0) :
    squaresAhead rank 8 = squaresAhead (rank - 1) 0 := by
  have hnext : 8 * (7 - rank.val) + 8 = 8 * (7 - (rank - 1).val) + 0 := by omega
  rw [squaresAhead, hnext]
  rfl

theorem squaresAhead_square (rank : Fin 8) (hfile : file < 8) :
    squaresAhead rank file = ⟨⟨file, hfile⟩, rank⟩ :: squaresAhead rank (file + 1) := by
  have hnext : ∀ r f : Fin 8, squaresAhead r f.val = ⟨f, r⟩ :: squaresAhead r (f.val + 1) := by
    decide +kernel
  exact hnext rank ⟨file, hfile⟩

theorem mem_squaresAhead (rank : Fin 8) (hfile : file ≤ 8) :
    s ∈ squaresAhead rank file ↔ Ahead rank file s := by
  induction rank, file, hfile using place_induction with
  | last => exact iff_of_false List.not_mem_nil not_ahead_last
  | end_of_rank rank hrank ih =>
    rw [squaresAhead_end_of_rank hrank, ih, ahead_end_of_rank_iff hrank]
  | square rank file hlt ih =>
    rw [squaresAhead_square rank hlt, List.mem_cons, ih, ahead_square_iff hlt]

def menAhead (f : Square → Option Piece) (rank : Fin 8) (file : Nat) : List (Piece × Square) :=
  (squaresAhead rank file).filterMap fun s => (f s).map (·, s)

theorem mem_menAhead (rank : Fin 8) (hfile : file ≤ 8) {p : Piece} :
    (p, s) ∈ menAhead f rank file ↔ Ahead rank file s ∧ f s = some p := by
  rw [← mem_squaresAhead rank hfile, menAhead, List.mem_filterMap]
  constructor
  · rintro ⟨u, hu, hp⟩
    obtain ⟨p', hp', heq⟩ := Option.map_eq_some_iff.1 hp
    obtain ⟨rfl, rfl⟩ := Prod.mk.inj heq
    exact ⟨hu, hp'⟩
  · rintro ⟨hs, hp⟩
    exact ⟨s, hs, Option.map_eq_some_iff.2 ⟨p, hp, rfl⟩⟩

theorem mem_menAhead_all {p : Piece} : (p, s) ∈ menAhead f 7 0 ↔ f s = some p := by
  have hahead : Ahead 7 0 s := by
    unfold Ahead
    omega
  rw [mem_menAhead 7 (Nat.zero_le 8), and_iff_right hahead]

/-- Reading a diagram gives the men that it shows. -/
theorem readMen_ahead (f : Square → Option Piece) (rank : Fin 8) (hfile : file ≤ 8) :
    readMen rank file (ahead f rank file) = .ok (menAhead f rank file) := by
  unfold menAhead
  induction rank, file, hfile using place_induction with
  | last => rfl
  | end_of_rank rank hrank ih =>
    rw [ahead_end_of_rank f hrank, readMen, if_pos rfl, if_neg (by simp [hrank]), ih,
      squaresAhead_end_of_rank hrank]
  | square rank file hlt ih =>
    rw [ahead_square f rank hlt, squaresAhead_square rank hlt, List.filterMap_cons]
    cases f ⟨⟨file, hlt⟩, rank⟩ with
    | none =>
      rw [show cellText none = '1' from rfl, readMen_one, if_neg (Nat.not_lt.2 hlt), ih]
      rfl
    | some p =>
      rw [show cellText (some p) = p.symbol from rfl, readMen_symbol p rank hlt, ih]
      rfl

/-- A full placement is the diagram of the men it is read as. -/
theorem eq_ahead_of_readMen (hfull : ∀ c ∈ cs, CountsEmpty c → c = '1')
    (h : readMen rank file cs = .ok men)
    (hf : ∀ s, Ahead rank file s → ∀ p, f s = some p ↔ (p, s) ∈ men) : cs = ahead f rank file := by
  induction cs generalizing rank file men with
  | nil =>
    obtain ⟨_, rfl, rfl⟩ := readMen_nil h
    rfl
  | cons c cs ih =>
    have hfull' : ∀ c ∈ cs, CountsEmpty c → c = '1' :=
      fun d hd => hfull d (List.mem_cons_of_mem c hd)
    rcases readMen_cons h with ⟨rfl, rfl, hrank, hnext⟩ | ⟨hdigit, hroom, hskip⟩ |
      ⟨p, hfile, rest, hp, hrest, rfl⟩
    · rw [ahead_end_of_rank f hrank, ← ih hfull' hnext]
      exact fun s hs => hf s ((ahead_end_of_rank_iff hrank).2 hs)
    · obtain rfl := hfull c List.mem_cons_self hdigit
      have hone : '1'.toNat - '0'.toNat = 1 := rfl
      rw [hone] at hroom hskip
      -- nobody is read on the square skipped
      have hcell : f ⟨⟨file, hroom⟩, rank⟩ = none := by
        rw [Option.eq_none_iff_forall_ne_some]
        intro p hp
        have hmem := (hf _ ((ahead_square_iff hroom).2 (.inl rfl)) p).1 hp
        have hahead := ahead_of_readMen hskip _ hmem
        unfold Ahead at hahead
        dsimp only at hahead
        omega
      rw [ahead_square f rank hroom, hcell, ← ih hfull' hskip]
      · rfl
      · exact fun s hs => hf s ((ahead_square_iff hroom).2 (.inr hs))
    · have hcell : f ⟨⟨file, hfile⟩, rank⟩ = some p :=
        (hf _ ((ahead_square_iff hfile).2 (.inl rfl)) p).2 List.mem_cons_self
      rw [ahead_square f rank hfile, hcell, ← ih hfull' hrest]
      · rw [← Piece.symbol_of_ofSymbol? hp]
        rfl
      · intro s hs p'
        rw [hf s ((ahead_square_iff hfile).2 (.inr hs)), List.mem_cons, or_iff_right]
        rintro he
        obtain ⟨_, rfl⟩ := Prod.mk.inj he
        unfold Ahead at hs
        dsimp only at hs
        omega

theorem isSpace_cellText (o : Option Piece) : Text.isSpace (cellText o) = false := by
  cases o with
  | none => rfl
  | some p =>
    obtain ⟨k, c⟩ := p
    cases k <;> cases c <;> rfl

theorem mem_ahead {c : Char} (h : c ∈ ahead f rank file) : c = '/' ∨ ∃ s, c = cellText (f s) := by
  have hrow : ∀ {rank}, c ∈ rowText f rank → ∃ s, c = cellText (f s) := by
    intro rank hc
    obtain ⟨s, _, hs⟩ := List.mem_map.1 hc
    exact ⟨s, hs.symm⟩
  have hbelow : ∀ {r}, c ∈ below f r → c = '/' ∨ ∃ s, c = cellText (f s) := by
    intro r hc
    induction r with
    | zero => cases hc
    | succ r ih =>
      rcases List.mem_cons.1 hc with hc | hc
      · exact .inl hc
      · rcases List.mem_append.1 hc with hc | hc
        · exact .inr (hrow hc)
        · exact ih hc
  rcases List.mem_append.1 h with h | h
  · exact .inr (hrow (List.mem_of_mem_drop h))
  · exact hbelow h

end Setup

/-! ### What a board writes -/

/-- No two digits meet: the runs of empty squares are as long as they can be. -/
abbrev Terse (cs : List Char) : Prop := cs.IsChain fun c d => ¬(CountsEmpty c ∧ CountsEmpty d)

theorem Terse.append_cons {c : Char} {cs ds : List Char} (hcs : Terse cs) (hc : ¬CountsEmpty c)
    (hds : Terse ds) : Terse (cs ++ c :: ds) := by
  refine List.isChain_append.2 ⟨hcs, List.isChain_cons.2 ⟨fun d _ h => hc h.1, hds⟩, ?_⟩
  intro b _ d hd
  rw [List.head?_cons, Option.mem_some] at hd
  exact fun h => hc (hd ▸ h.2)

theorem inFull_eq_nil_iff {cs : List Char} : inFull cs = [] ↔ cs = [] := by
  refine ⟨fun h => ?_, fun h => by rw [h]; rfl⟩
  cases cs with
  | nil => rfl
  | cons c cs =>
    by_cases hc : CountsEmpty c
    · obtain ⟨n, hn⟩ := exists_count hc
      rw [inFull_cons_of_digit hc, hn] at h
      cases h
    · rw [inFull_cons_of_not_digit hc] at h
      cases h

theorem Terse.head_inFull_ne {c : Char} {cs : List Char} (h : Terse (c :: cs))
    (hc : CountsEmpty c) : (inFull cs).head? ≠ some '1' := by
  cases cs with
  | nil => exact nofun
  | cons d cs =>
    have hd : ¬CountsEmpty d := fun hd => (List.isChain_cons.1 h).1 d rfl ⟨hc, hd⟩
    rw [inFull_cons_of_not_digit hd, List.head?_cons]
    rintro h1
    exact hd (Option.some.inj h1 ▸ by decide)

theorem replicate_append_inj {α : Type} {x : α} {n m : Nat} {l l' : List α}
    (hl : l.head? ≠ some x) (hl' : l'.head? ≠ some x)
    (h : List.replicate n x ++ l = List.replicate m x ++ l') : n = m ∧ l = l' := by
  induction n generalizing m with
  | zero =>
    cases m with
    | zero => exact ⟨rfl, h⟩
    | succ m => exact absurd (congrArg List.head? h) hl
  | succ n ih =>
    cases m with
    | zero => exact absurd (congrArg List.head? h.symm) hl'
    | succ m =>
      obtain ⟨rfl, hrest⟩ := ih (List.cons.inj h).2
      exact ⟨rfl, hrest⟩

/-- There is one terse way of writing a placement. -/
theorem Terse.eq_of_inFull_eq {cs ds : List Char} (hcs : Terse cs) (hds : Terse ds)
    (h : inFull cs = inFull ds) : cs = ds := by
  induction cs generalizing ds with
  | nil => exact (inFull_eq_nil_iff.1 h.symm).symm
  | cons c cs ih =>
    cases ds with
    | nil => exact inFull_eq_nil_iff.1 h
    | cons d ds =>
      have htail := ih (List.isChain_cons.1 hcs).2 (List.isChain_cons.1 hds).2
      by_cases hc : CountsEmpty c <;> by_cases hd : CountsEmpty d
      · rw [inFull_cons_of_digit hc, inFull_cons_of_digit hd] at h
        obtain ⟨hcount, hrest⟩ :=
          replicate_append_inj (hcs.head_inFull_ne hc) (hds.head_inFull_ne hd) h
        rw [digit_eq_of_count hc hd hcount, htail hrest]
      · obtain ⟨n, hn⟩ := exists_count hc
        rw [inFull_cons_of_digit hc, hn, inFull_cons_of_not_digit hd] at h
        exact absurd ((List.cons.inj h).1 ▸ by decide) hd
      · obtain ⟨n, hn⟩ := exists_count hd
        rw [inFull_cons_of_digit hd, hn, inFull_cons_of_not_digit hc] at h
        exact absurd ((List.cons.inj h).1 ▸ by decide) hc
      · rw [inFull_cons_of_not_digit hc, inFull_cons_of_not_digit hd] at h
        obtain ⟨rfl, hrest⟩ := List.cons.inj h
        rw [htail hrest]

theorem not_countsEmpty_slash : ¬CountsEmpty '/' := by decide

theorem inFull_intercalate (rows : List (List Char)) :
    inFull (['/'].intercalate rows) = ['/'].intercalate (rows.map inFull) := by
  induction rows with
  | nil => rfl
  | cons row rows ih =>
    cases rows with
    | nil => rw [List.intercalate_singleton, List.map_singleton, List.intercalate_singleton]
    | cons next rows =>
      rw [List.intercalate_cons_cons, inFull_append, inFull_append, ih,
        inFull_cons_of_not_digit not_countsEmpty_slash]
      exact List.intercalate_cons_cons.symm

theorem terse_intercalate {rows : List (List Char)} (h : ∀ row ∈ rows, Terse row) :
    Terse (['/'].intercalate rows) := by
  induction rows with
  | nil => exact .nil
  | cons row rows ih =>
    have hrow := h row List.mem_cons_self
    cases rows with
    | nil =>
      rw [List.intercalate_singleton]
      exact hrow
    | cons next rows =>
      rw [List.intercalate_cons_cons, List.append_assoc]
      exact hrow.append_cons not_countsEmpty_slash
        (ih fun row hr => h row (List.mem_cons_of_mem _ hr))

namespace Board

theorem inFull_runDigit {n : Nat} (hn : n ≤ 8) : inFull (runDigit n) = List.replicate n '1' := by
  interval_cases n <;> rfl

theorem terse_runDigit (n : Nat) : Terse (runDigit n) := by
  unfold runDigit
  split_ifs
  · exact .nil
  · exact .singleton _

theorem inFull_rankText {n : Nat} {row : List (Option Piece)} (hn : n + row.length ≤ 8) :
    inFull (rankText n row) = List.replicate n '1' ++ row.map Setup.cellText := by
  induction row generalizing n with
  | nil =>
    rw [rankText, List.map_nil, List.append_nil]
    exact inFull_runDigit hn
  | cons cell row ih =>
    rw [List.length_cons] at hn
    cases cell with
    | none =>
      rw [rankText, ih (by omega), List.replicate_succ', List.append_assoc]
      rfl
    | some p =>
      rw [rankText, inFull_append, inFull_runDigit (by omega),
        inFull_cons_of_not_digit p.not_countsEmpty_symbol, ih (by omega)]
      rfl

theorem terse_rankText (n : Nat) (row : List (Option Piece)) : Terse (rankText n row) := by
  induction row generalizing n with
  | nil => exact terse_runDigit n
  | cons cell row ih =>
    cases cell with
    | none => exact ih (n + 1)
    | some p => exact (terse_runDigit n).append_cons p.not_countsEmpty_symbol (ih 0)

variable (b : Board)

theorem toList_placementText : b.placementText.toList =
    ['/'].intercalate ((List.finRange 8).reverse.map fun rank =>
      rankText 0 ((Square.ofRank rank).map b.piece)) := by
  rw [placementText, String.toList_intercalate, List.map_map]
  simp only [Function.comp_def, String.toList_ofList]
  rfl

theorem inFull_placementText : inFull b.placementText.toList = Setup.diagram b.piece := by
  have hrow : ∀ rank, inFull (rankText 0 ((Square.ofRank rank).map b.piece)) =
      Setup.rowText b.piece rank := by
    intro rank
    rw [inFull_rankText, List.map_map]
    · rfl
    · simp [Square.ofRank]
  rw [toList_placementText, inFull_intercalate, List.map_map]
  simp only [Function.comp_def, hrow]
  rfl

theorem terse_placementText : Terse b.placementText.toList := by
  rw [toList_placementText]
  refine terse_intercalate fun row hr => ?_
  obtain ⟨rank, _, rfl⟩ := List.mem_map.1 hr
  exact terse_rankText 0 _

theorem placementText_ne_nil : b.placementText.toList ≠ [] := by
  intro hnil
  have hfull := b.inFull_placementText
  rw [hnil, Setup.diagram, Setup.ahead_square _ _ (by decide)] at hfull
  cases hfull

theorem isSpace_of_mem_placementText {c : Char} (hc : c ∈ b.placementText.toList) :
    Text.isSpace c = false := by
  by_cases hdigit : CountsEmpty c
  · exact isSpace_of_countsEmpty hdigit
  · have hfull : c ∈ inFull b.placementText.toList :=
      List.mem_flatMap.2 ⟨c, hc, by rw [if_neg hdigit]; exact List.mem_singleton_self c⟩
    rw [inFull_placementText] at hfull
    rcases Setup.mem_ahead hfull with rfl | ⟨s, rfl⟩
    · rfl
    · exact Setup.isSpace_cellText _

end Board

end ChessArbiter
