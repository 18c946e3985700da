import ChessArbiter.Proofs.Disambiguation

/-!
# How moves are spelled

A written move that is no castle is a piece letter, what is said about the source, the destination
and a promotion, where all but the destination may be missing and dashes stand freely before the
destination (`Spelling`). The reader goes by the letters from both ends of the text and accepts just
these spellings: each part of it accepts what is spelled and nothing else (`readSquares_iff`,
`readBody_iff`, `readMove_iff`), and no text is spelled in two ways (`Spelling.chars_inj`).
-/

namespace ChessArbiter

namespace Square

variable {s t : Square} {f r : Char}

def fileWith (capital : Bool) (s : Square) : Char :=
  if capital then s.fileLetter.toUpper else s.fileLetter

def nameWith (capital : Bool) (s : Square) : List Char := [s.fileWith capital, s.rankDigit]

theorem fileWith_facts (capital : Bool) (s : Square) :
    (s.fileWith capital).toLower = s.fileLetter ∧ (s.fileWith capital).isUpper = capital ∧
      s.fileWith capital ≠ '=' := by
  obtain ⟨f, r⟩ := s
  revert f r
  cases capital <;> decide

theorem rankDigit_ne (s : Square) : s.rankDigit ≠ 'O' ∧ s.rankDigit ≠ '0' := by
  obtain ⟨f, r⟩ := s
  revert f r
  decide

theorem ofChars?_eq_some : ofChars? f r = some s ↔ f.toLower = s.fileLetter ∧ r = s.rankDigit := by
  obtain ⟨hfile, hrank⟩ := s.toNat_name
  rw [← Char.toNat_inj, ← Char.toNat_inj, hfile, hrank]
  unfold ofChars? ofCoords?
  have hf := s.file.isLt
  have hr := s.rank.isLt
  constructor
  · intro h
    split_ifs at h
    obtain rfl := Option.some.inj h
    dsimp only
    omega
  · rintro ⟨hf', hr'⟩
    rw [dif_pos (by omega), Option.some.injEq, eq_iff]
    dsimp only
    omega

theorem eq_fileWith_of_toLower (hf : f.toLower = s.fileLetter) :
    ∃ capital, f = s.fileWith capital := by
  rcases Text.eq_or_eq_toUpper hf with rfl | rfl
  · exact ⟨false, rfl⟩
  · exact ⟨true, rfl⟩

theorem ofChars?_nameWith (capital : Bool) (s : Square) :
    ofChars? (s.fileWith capital) s.rankDigit = some s :=
  ofChars?_eq_some.2 ⟨(s.fileWith_facts capital).1, rfl⟩

theorem exists_nameWith (h : ofChars? f r = some s) : ∃ capital, s.nameWith capital = [f, r] := by
  obtain ⟨hf, rfl⟩ := ofChars?_eq_some.1 h
  obtain ⟨capital, rfl⟩ := eq_fileWith_of_toLower hf
  exact ⟨capital, rfl⟩

theorem nameWith_inj {capital capital' : Bool} (h : s.nameWith capital = t.nameWith capital') :
    capital = capital' ∧ s = t := by
  obtain ⟨hfile, hrank⟩ := List.cons.inj h
  have ht := t.ofChars?_nameWith capital'
  rw [← hfile, ← (List.cons.inj hrank).1, s.ofChars?_nameWith] at ht
  obtain rfl := Option.some.inj ht
  rw [← (s.fileWith_facts capital).2.1, hfile, (s.fileWith_facts capital').2.1]
  exact ⟨rfl, rfl⟩

end Square

namespace Wing

variable {w : Wing} {cs : List Char}

/-- How a castle is written, with letters or with zeros. -/
def signs : Wing → List (List Char)
  | king => [['O', '-', 'O'], ['0', '-', '0']]
  | queen => [['O', '-', 'O', '-', 'O'], ['0', '-', '0', '-', '0']]

theorem ofText?_iff : ofText? (String.ofList cs) = some w ↔ cs ∈ w.signs := by
  have htext : ofText? (String.ofList cs) =
      if String.ofList cs = String.ofList ['O', '-', 'O'] ∨
          String.ofList cs = String.ofList ['0', '-', '0'] then some .king
      else if String.ofList cs = String.ofList ['O', '-', 'O', '-', 'O'] ∨
          String.ofList cs = String.ofList ['0', '-', '0', '-', '0'] then some .queen
      else none := rfl
  rw [htext]
  simp only [String.ofList_inj]
  split_ifs with hking hqueen
  · rcases hking with rfl | rfl <;> cases w <;> decide
  · rcases hqueen with rfl | rfl <;> cases w <;> decide
  · rw [not_or] at hking hqueen
    cases w <;> simp [signs, hking, hqueen]

end Wing

namespace Notation

variable {n n' : Notation} {cs ds : List Char}

/-! ### The destination -/

theorem readSquares_append (f r : Char) : readSquares n (cs ++ [f, r]) =
    match Square.ofChars? f r with
    | some s => readMiddle { n with dst := some s } cs
    | none => .error .badDestination := by
  unfold readSquares
  rw [List.reverse_append]
  change (match Square.ofChars? f r with
    | some s => readMiddle { n with dst := some s } cs.reverse.reverse
    | none => .error .badDestination) = _
  rw [List.reverse_reverse]

theorem exists_last_two (h : readSquares n cs = .ok n') : ∃ ds f r, cs = ds ++ [f, r] := by
  rcases hcs : cs.reverse with _ | ⟨r, _ | ⟨f, ds⟩⟩
  · simp [readSquares, hcs] at h
  · simp [readSquares, hcs] at h
  · refine ⟨ds.reverse, f, r, ?_⟩
    rw [← List.reverse_reverse cs, hcs]
    simp

theorem readSquares_iff (hn : n.Unread) : readSquares n cs = .ok n' ↔
    ∃ (m : Middle) (capital : Bool) (s : Square), m.chars ++ s.nameWith capital = cs ∧
      n' = m.reading { n with dst := some s } := by
  have hstill : ∀ s : Square, ({ n with dst := some s } : Notation).Unread :=
    fun s => ⟨hn.srcFile, hn.srcRank, hn.capture⟩
  constructor
  · intro h
    obtain ⟨ds, f, r, rfl⟩ := exists_last_two h
    rw [readSquares_append] at h
    cases hs : Square.ofChars? f r with
    | none =>
      rw [hs] at h
      cases h
    | some s =>
      rw [hs] at h
      obtain ⟨m, rfl, rfl⟩ := (readMiddle_iff (hstill s)).1 h
      obtain ⟨capital, hname⟩ := Square.exists_nameWith hs
      exact ⟨m, capital, s, by rw [hname], rfl⟩
  · rintro ⟨m, capital, s, rfl, rfl⟩
    rw [Square.nameWith, readSquares_append, s.ofChars?_nameWith]
    exact readMiddle_chars (hstill s) m

/-! ### The promotion -/

/-- How the letter of a promotion is written: on its own, or after an equals sign, small or not. -/
inductive PromotionSign where
  | bare
  | equals
  | small
deriving DecidableEq

def promotionChars : Option (PieceKind × PromotionSign) → List Char
  | none => []
  | some (k, .bare) => [k.letter]
  | some (k, .equals) => ['=', k.letter]
  | some (k, .small) => ['=', k.letter.toLower]

theorem letter_facts (k : PieceKind) :
    k.letter.isUpper = true ∧ k.letter.toLower.isUpper = false := by
  cases k <;> decide

def promotionLetter : PieceKind × PromotionSign → Char
  | (k, .small) => k.letter.toLower
  | (k, _) => k.letter

theorem ofLetter?_promotionLetter (e : PieceKind × PromotionSign) :
    PieceKind.ofLetter? (promotionLetter e) = some e.1 := by
  obtain ⟨k, _ | _ | _⟩ := e
  · exact PieceKind.ofLetter?_iff.2 (.inl rfl)
  · exact PieceKind.ofLetter?_iff.2 (.inl rfl)
  · exact PieceKind.ofLetter?_iff.2 (.inr rfl)

theorem promotionSign_inj {k : PieceKind} {sign sign' : PromotionSign}
    (h : promotionChars (some (k, sign)) = promotionChars (some (k, sign'))) : sign = sign' := by
  revert h
  cases k <;> cases sign <;> cases sign' <;> decide

theorem cutPromotion_nameWith (cs : List Char) (capital : Bool) (s : Square) :
    cutPromotion (cs ++ s.nameWith capital) = none := by
  obtain ⟨_, _, hequals⟩ := s.fileWith_facts capital
  obtain ⟨_, _, hupper, _⟩ := rankDigit_facts s
  have hreverse : (cs ++ s.nameWith capital).reverse =
      s.rankDigit :: s.fileWith capital :: cs.reverse := by
    rw [List.reverse_append]
    rfl
  unfold cutPromotion
  rw [hreverse]
  split
  case h_1 heq => exact absurd (List.cons.inj (List.cons.inj heq).2).1 hequals
  case h_2 heq => rw [← (List.cons.inj heq).1, if_neg (by simp [hupper])]
  case h_3 => rfl

theorem cutPromotion_equals (cs : List Char) (capital : Bool) (s : Square) (p : Char) :
    cutPromotion (cs ++ s.nameWith capital ++ ['=', p]) = some (p, cs ++ s.nameWith capital) := by
  unfold cutPromotion
  rw [List.reverse_append, List.reverse_append]
  change some (p, (s.rankDigit :: s.fileWith capital :: cs.reverse).reverse) = _
  simp [Square.nameWith]

theorem cutPromotion_bare (cs : List Char) (capital : Bool) (s : Square) {p : Char}
    (hp : p.isUpper = true) :
    cutPromotion (cs ++ s.nameWith capital ++ [p]) = some (p, cs ++ s.nameWith capital) := by
  have hreverse : (cs ++ s.nameWith capital ++ [p]).reverse =
      p :: s.rankDigit :: s.fileWith capital :: cs.reverse := by
    rw [List.reverse_append, List.reverse_append]
    rfl
  unfold cutPromotion
  rw [hreverse]
  split
  case h_1 heq =>
    have hdigit := (rankDigit_facts s).2.2.2.2.1
    rw [(List.cons.inj (List.cons.inj heq).2).1] at hdigit
    exact absurd hdigit (by decide)
  case h_2 heq =>
    simp only [List.cons.injEq] at heq
    obtain ⟨rfl, rfl, rfl, rfl⟩ := heq
    rw [if_pos hp]
    simp [Square.nameWith]
  case h_3 hne => exact absurd rfl (hne _ _ _ _)

theorem cutPromotion_chars (cs : List Char) (capital : Bool) (s : Square)
    (p : Option (PieceKind × PromotionSign)) :
    cutPromotion (cs ++ s.nameWith capital ++ promotionChars p) =
      p.map fun e => (promotionLetter e, cs ++ s.nameWith capital) := by
  rcases p with _ | ⟨k, _ | _ | _⟩
  · rw [promotionChars, List.append_nil]
    exact cutPromotion_nameWith cs capital s
  · exact cutPromotion_bare cs capital s (letter_facts k).1
  · exact cutPromotion_equals cs capital s k.letter
  · exact cutPromotion_equals cs capital s k.letter.toLower

theorem cutPromotion_eq_some {p : Char} (h : cutPromotion cs = some (p, ds)) :
    cs = ds ++ ['=', p] ∨ cs = ds ++ [p] ∧ p.isUpper = true := by
  have hback : ∀ {es : List Char}, cs.reverse = es → cs = es.reverse := by
    rintro _ rfl
    exact (List.reverse_reverse cs).symm
  unfold cutPromotion at h
  split at h
  case h_1 hcs =>
    obtain ⟨rfl, rfl⟩ := Prod.mk.inj (Option.some.inj h)
    left
    rw [hback hcs]
    simp
  case h_2 hcs =>
    split_ifs at h with hupper
    obtain ⟨rfl, rfl⟩ := Prod.mk.inj (Option.some.inj h)
    right
    refine ⟨?_, hupper⟩
    rw [hback hcs]
    simp
  case h_3 => cases h

theorem exists_promotionChars {p : Char} {k : PieceKind} (h : cutPromotion cs = some (p, ds))
    (hk : PieceKind.ofLetter? p = some k) :
    ∃ sign, cs = ds ++ promotionChars (some (k, sign)) := by
  have hsmall := (letter_facts k).2
  rcases cutPromotion_eq_some h with rfl | ⟨rfl, hupper⟩ <;>
    rcases PieceKind.ofLetter?_iff.1 hk with rfl | rfl
  · exact ⟨.equals, rfl⟩
  · exact ⟨.small, rfl⟩
  · exact ⟨.bare, rfl⟩
  · rw [hsmall] at hupper
    cases hupper

/-! ### After the piece letter -/

/-- What stands after the piece letter. -/
structure Body where
  middle : Middle
  /-- The letter of the destination's file is a capital. -/
  capital : Bool
  dst : Square
  promotion : Option (PieceKind × PromotionSign)
deriving DecidableEq

namespace Body

variable {b b' : Body}

def chars (b : Body) : List Char :=
  b.middle.chars ++ b.dst.nameWith b.capital ++ promotionChars b.promotion

def reading (b : Body) (n : Notation) : Notation :=
  b.middle.reading { n with dst := some b.dst, promotion := b.promotion.map Prod.fst }

/-- Only a pawn becomes another piece, and only an officer. -/
def Promotes (b : Body) (k : PieceKind) : Prop :=
  ∀ e, b.promotion = some e → e.1.isOfficer = true ∧ k = .pawn

theorem chars_inj (h : b.chars = b'.chars) : b = b' := by
  obtain ⟨m, capital, s, p⟩ := b
  obtain ⟨m', capital', s', p'⟩ := b'
  have hcut := congrArg cutPromotion h
  unfold chars at h hcut
  rw [cutPromotion_chars, cutPromotion_chars] at hcut
  have hsame : m.chars ++ s.nameWith capital = m'.chars ++ s'.nameWith capital' ∧ p = p' := by
    rcases p with _ | e <;> rcases p' with _ | e'
    · exact ⟨List.append_cancel_right h, rfl⟩
    · cases hcut
    · cases hcut
    · obtain ⟨hletter, hbefore⟩ := Prod.mk.inj (Option.some.inj hcut)
      have hkind := congrArg PieceKind.ofLetter? hletter
      rw [ofLetter?_promotionLetter, ofLetter?_promotionLetter] at hkind
      obtain ⟨k, sign⟩ := e
      obtain ⟨k', sign'⟩ := e'
      obtain rfl : k = k' := Option.some.inj hkind
      dsimp only at h
      rw [hbefore] at h
      rw [promotionSign_inj (List.append_cancel_left h)]
      exact ⟨hbefore, rfl⟩
  obtain ⟨hbefore, rfl⟩ := hsame
  obtain ⟨hmiddle, hname⟩ := List.append_inj' hbefore rfl
  obtain rfl := Middle.chars_inj hmiddle
  obtain ⟨rfl, rfl⟩ := Square.nameWith_inj hname
  rfl

theorem exists_last (b : Body) : ∃ cs c, b.chars = cs ++ [c] ∧ c ≠ 'O' ∧ c ≠ '0' := by
  obtain ⟨m, capital, s, _ | e⟩ := b
  · exact ⟨m.chars ++ [s.fileWith capital], s.rankDigit,
      by simp [chars, Square.nameWith, promotionChars], s.rankDigit_ne⟩
  · obtain ⟨k, sign⟩ := e
    have hlast : ∃ cs, promotionChars (some (k, sign)) = cs ++ [promotionLetter (k, sign)] := by
      cases sign
      · exact ⟨[], rfl⟩
      · exact ⟨['='], rfl⟩
      · exact ⟨['='], rfl⟩
    obtain ⟨cs, hcs⟩ := hlast
    refine ⟨m.chars ++ s.nameWith capital ++ cs, promotionLetter (k, sign), ?_, ?_⟩
    · rw [chars, hcs]
      exact (List.append_assoc _ _ _).symm
    · cases k <;> cases sign <;> decide

theorem chars_ne_nil (b : Body) : b.chars ≠ [] := by
  obtain ⟨cs, c, hchars, _⟩ := b.exists_last
  rw [hchars]
  exact List.append_ne_nil_of_right_ne_nil _ (List.cons_ne_nil _ _)

end Body

theorem readBody_chars (hn : n.Unread) (hnone : n.promotion = none) {b : Body}
    (hb : b.Promotes n.piece) : readBody n b.chars = .ok (b.reading n) := by
  obtain ⟨m, capital, s, p⟩ := b
  have hsquares : ∀ q, readSquares { n with promotion := q } (m.chars ++ s.nameWith capital) =
      .ok (m.reading { n with dst := some s, promotion := q }) := fun q =>
    (readSquares_iff (n := { n with promotion := q }) ⟨hn.srcFile, hn.srcRank, hn.capture⟩).2
      ⟨m, capital, s, rfl, rfl⟩
  unfold readBody Body.chars Body.reading
  rw [cutPromotion_chars]
  cases p with
  | none =>
    dsimp only [Option.map_none]
    rw [promotionChars, List.append_nil]
    have h := hsquares none
    rw [← hnone] at h ⊢
    exact h
  | some e =>
    obtain ⟨hofficer, hpawn⟩ := hb e rfl
    dsimp only [Option.map_some]
    rw [ofLetter?_promotionLetter]
    dsimp only
    rw [if_neg (not_not.2 hpawn), if_pos hofficer]
    exact hsquares (some e.1)

theorem readBody_iff (hn : n.Unread) (hnone : n.promotion = none) : readBody n cs = .ok n' ↔
    ∃ b : Body, b.Promotes n.piece ∧ b.chars = cs ∧ n' = b.reading n := by
  constructor
  · intro h
    unfold readBody at h
    split at h
    case h_1 =>
      obtain ⟨m, capital, s, rfl, rfl⟩ := (readSquares_iff hn).1 h
      refine ⟨⟨m, capital, s, none⟩, nofun, List.append_nil _, ?_⟩
      rw [Body.reading, Option.map_none, ← hnone]
    case h_2 letter rest hcut =>
      split at h
      case h_1 => cases h
      case h_2 k hk =>
        split_ifs at h with hpiece hofficer
        obtain ⟨m, capital, s, rfl, rfl⟩ :=
          (readSquares_iff (n := { n with promotion := some k })
            ⟨hn.srcFile, hn.srcRank, hn.capture⟩).1 h
        obtain ⟨sign, rfl⟩ := exists_promotionChars hcut hk
        refine ⟨⟨m, capital, s, some (k, sign)⟩, ?_, rfl, rfl⟩
        intro e he
        obtain rfl := Option.some.inj he
        exact ⟨hofficer, not_not.1 hpiece⟩
  · rintro ⟨b, hb, rfl, rfl⟩
    exact readBody_chars hn hnone hb

/-! ### The whole move -/

/-- A written move that is no castle. -/
structure Spelling extends Body where
  letter : Option PieceKind
deriving DecidableEq

namespace Spelling

variable {s s' : Spelling}

def chars (s : Spelling) : List Char := s.letter.elim [] (fun k => [k.letter]) ++ s.toBody.chars

/-- Without a letter a pawn is meant. -/
def piece (s : Spelling) : PieceKind := s.letter.getD .pawn

def reading (s : Spelling) (n : Notation) : Notation := s.toBody.reading { n with piece := s.piece }

/-- A capital that comes first is taken for the letter of a piece. -/
structure Proper (s : Spelling) : Prop where
  promotes : s.Promotes s.piece
  start : s.letter = none → ∀ c, s.chars.head? = some c → c.isUpper = false

/-- Unlike the sign of a castle, a spelled move ends with the digit of a rank or with the letter of
an officer. -/
theorem chars_notMem_signs (s : Spelling) (w : Wing) : s.chars ∉ w.signs := by
  obtain ⟨cs, c, hchars, hletter, hzero⟩ := s.exists_last
  have hlast : ∀ sign ∈ w.signs, sign.getLast? = some 'O' ∨ sign.getLast? = some '0' := by
    cases w <;> decide
  have hend : s.chars.getLast? = some c := by
    rw [chars, hchars, ← List.append_assoc, List.getLast?_concat]
  intro hsign
  rcases hlast _ hsign with h | h
  · exact hletter (Option.some.inj (hend.symm.trans h))
  · exact hzero (Option.some.inj (hend.symm.trans h))

theorem chars_inj (hs : s.Proper) (hs' : s'.Proper) (h : s.chars = s'.chars) : s = s' := by
  obtain ⟨b, _ | k⟩ := s <;> obtain ⟨b', _ | k'⟩ := s'
  · obtain rfl : b = b' := Body.chars_inj h
    rfl
  · have hsmall := hs.start rfl k'.letter (congrArg List.head? h)
    rw [(letter_facts k').1] at hsmall
    cases hsmall
  · have hsmall := hs'.start rfl k.letter (congrArg List.head? h.symm)
    rw [(letter_facts k).1] at hsmall
    cases hsmall
  · obtain ⟨hletter, hbody⟩ := List.cons.inj h
    have hkind := congrArg PieceKind.ofLetter? hletter
    rw [PieceKind.ofLetter?_letter, PieceKind.ofLetter?_letter] at hkind
    obtain rfl : k = k' := Option.some.inj hkind
    obtain rfl : b = b' := Body.chars_inj hbody
    rfl

end Spelling

theorem readMove_letter {k : PieceKind}
    (hcastle : Wing.ofText? (String.ofList (k.letter :: cs)) = none) :
    readMove n (k.letter :: cs) = readBody { n with piece := k } cs := by
  unfold readMove
  rw [hcastle]
  dsimp only
  rw [if_pos (letter_facts k).1, PieceKind.ofLetter?_letter]

theorem readMove_small {c : Char} (hcastle : Wing.ofText? (String.ofList (c :: cs)) = none)
    (hc : ¬c.isUpper = true) : readMove n (c :: cs) = readBody n (c :: cs) := by
  unfold readMove
  rw [hcastle]
  dsimp only
  rw [if_neg hc]

theorem readMove_chars (hn : n.Unread) (hpiece : n.piece = .pawn) (hnone : n.promotion = none)
    {s : Spelling} (hs : s.Proper) : readMove n s.chars = .ok (s.reading n) := by
  have hcastle : Wing.ofText? (String.ofList s.chars) = none :=
    Option.eq_none_iff_forall_ne_some.2 fun w hw => s.chars_notMem_signs w (Wing.ofText?_iff.1 hw)
  have hbody : readBody { n with piece := s.piece } s.toBody.chars = .ok (s.reading n) :=
    readBody_chars (n := { n with piece := s.piece }) ⟨hn.srcFile, hn.srcRank, hn.capture⟩ hnone
      hs.promotes
  obtain ⟨b, _ | k⟩ := s
  · have hsame : { n with piece := .pawn } = n := by rw [← hpiece]
    have hstart := hs.start rfl
    change readBody { n with piece := .pawn } b.chars = _ at hbody
    change ∀ c, b.chars.head? = some c → c.isUpper = false at hstart
    change Wing.ofText? (String.ofList b.chars) = none at hcastle
    change readMove n b.chars = _
    rw [hsame] at hbody
    rw [← hbody]
    obtain ⟨c, cs, hchars⟩ := List.exists_cons_of_ne_nil b.chars_ne_nil
    rw [hchars] at hstart hcastle ⊢
    exact readMove_small hcastle (by simp [hstart c rfl])
  · exact (readMove_letter hcastle).trans hbody

/-- Without a sign for a castle the first character tells a piece from a pawn, and what comes after
the letter, or the whole text, is a body. -/
theorem exists_spelling (hn : n.Unread) (hpiece : n.piece = .pawn) (hnone : n.promotion = none)
    (hcastle : Wing.ofText? (String.ofList cs) = none) (h : readMove n cs = .ok n') :
    ∃ s : Spelling, s.Proper ∧ s.chars = cs ∧ n' = s.reading n := by
  rcases cs with _ | ⟨c, cs⟩
  · cases h
  · by_cases hupper : c.isUpper = true
    · cases hk : PieceKind.ofLetter? c with
      | none =>
        unfold readMove at h
        rw [hcastle] at h
        dsimp only at h
        rw [if_pos hupper, hk] at h
        cases h
      | some k =>
        -- letters are known in either case, but a small one does not get here
        obtain rfl : c = k.letter := by
          refine (PieceKind.ofLetter?_iff.1 hk).resolve_right fun hsmall => ?_
          rw [hsmall, (letter_facts k).2] at hupper
          cases hupper
        rw [readMove_letter hcastle] at h
        obtain ⟨b, hb, rfl, rfl⟩ := (readBody_iff (n := { n with piece := k })
          ⟨hn.srcFile, hn.srcRank, hn.capture⟩ hnone).1 h
        exact ⟨⟨b, some k⟩, ⟨hb, nofun⟩, rfl, rfl⟩
    · rw [readMove_small hcastle hupper] at h
      obtain ⟨b, hb, hchars, rfl⟩ := (readBody_iff hn hnone).1 h
      have hstart : ∀ c', b.chars.head? = some c' → c'.isUpper = false := by
        rw [hchars]
        intro c' hc'
        rw [← Option.some.inj hc']
        exact eq_false_of_ne_true hupper
      have hsame : n = { n with piece := .pawn } := by rw [← hpiece]
      rw [hpiece] at hb
      exact ⟨⟨b, none⟩, ⟨hb, fun _ => hstart⟩, hchars, congrArg b.reading hsame⟩

theorem readMove_iff (hn : n.Unread) (hpiece : n.piece = .pawn) (hnone : n.promotion = none) :
    readMove n cs = .ok n' ↔
      (∃ w : Wing, cs ∈ w.signs ∧ n' = { n with castle := some w, piece := .king }) ∨
      ∃ s : Spelling, s.Proper ∧ s.chars = cs ∧ n' = s.reading n := by
  constructor
  · intro h
    cases hcastle : Wing.ofText? (String.ofList cs) with
    | some w =>
      unfold readMove at h
      rw [hcastle] at h
      exact .inl ⟨w, Wing.ofText?_iff.1 hcastle, (Except.ok.inj h).symm⟩
    | none => exact .inr (exists_spelling hn hpiece hnone hcastle h)
  · rintro (⟨w, hw, rfl⟩ | ⟨s, hs, rfl, rfl⟩)
    · unfold readMove
      rw [Wing.ofText?_iff.2 hw]
    · exact readMove_chars hn hpiece hnone hs

/-- A text is read if what stays of it, without the blanks around it, the annotations and the marks,
is the sign of a castle or a spelled move, and then as that castle or as that move, which no text
spells in two ways. -/
theorem parse_iff (text : String) :
    let given := Text.trim text.toList
    let marked := Text.dropTrailing isAnnotation given
    let marks := Text.takeTrailing isMark marked
    let core := Text.dropTrailing isMark marked
    let bare : Notation :=
      { text := String.ofList given, check := marks.contains '+', mate := marks.contains '#' }
    (∀ n, parse text = .ok n ↔
      (∃ w : Wing, core ∈ w.signs ∧ n = { bare with castle := some w, piece := .king }) ∨
      ∃ s : Spelling, s.Proper ∧ s.chars = core ∧ n = s.reading bare) ∧
    {s : Spelling | s.Proper ∧ s.chars = core}.Subsingleton := by
  intro given marked marks core bare
  refine ⟨fun n => ?_, fun s hs s' hs' => Spelling.chars_inj hs.1 hs'.1 (hs.2.trans hs'.2.symm)⟩
  have hparse : parse text = .ok n ↔ read text = .ok n := by
    unfold parse
    cases read text <;> simp
  have hread : read text = .ok n ↔ readMove bare core = .ok n := by
    -- nothing and annotations only are told apart in the error, and neither is read
    by_cases hgiven : given.isEmpty = true
    · have hempty : read text = .error .empty := if_pos hgiven
      have hcore : core = [] := by
        simp only [core, marked, List.isEmpty_iff.1 hgiven]
        rfl
      have hnothing : readMove bare core = .error .annotationsOnly := by
        rw [hcore]
        rfl
      rw [hempty, hnothing]
      exact ⟨nofun, nofun⟩
    · have hsome : read text = readMove bare core := if_neg hgiven
      rw [hsome]
  rw [hparse, hread]
  exact readMove_iff ⟨rfl, rfl, rfl⟩ rfl rfl

/-- A small letter that comes first is that of a file, a capital that of a piece. -/
example :
    parse "b-xA8=n+!" =
      .ok { text := "b-xA8=n+!", srcFile := some 1, capture := true, dst := some ⟨0, 7⟩,
            promotion := some .knight, check := true } ∧
    parse "B-xA8+!" =
      .ok { text := "B-xA8+!", piece := .bishop, capture := true, dst := some ⟨0, 7⟩,
            check := true } := by
  decide +kernel

end Notation

end ChessArbiter
