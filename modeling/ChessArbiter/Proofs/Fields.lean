import ChessArbiter.Proofs.Placement

/-!
# The fields of a position text

A game writes six words with blanks between them (`Game.words_toFen`), and each of them reads as
what was written: the side to move, any set of castling rights in the order of their letters, a
counter in decimal. Read the other way round, a field that is accepted tells what it grants: a side
its one letter, a castling field the rights whose letters it holds (`Setup.mem_of_readRights`), a
counter its number.
-/

namespace ChessArbiter

namespace Text

/-- Text without white space in it, and some. -/
structure IsWord (w : List Char) : Prop where
  ne_nil : w ≠ []
  solid : ∀ c ∈ w, isSpace c = false

variable {w : List Char}

theorem isWord_singleton {c : Char} (hc : isSpace c = false) : IsWord [c] :=
  ⟨List.cons_ne_nil _ _, List.forall_mem_singleton.2 hc⟩

/-- A word is read up to white space or to the end of the text. -/
theorem words_append (hw : IsWord w) (rest : List Char) (hrest : ∀ c ∈ rest.head?, isSpace c) :
    words (w ++ rest) = w :: words rest := by
  obtain ⟨hne, hsolid⟩ := hw
  induction w with
  | nil => exact absurd rfl hne
  | cons c w ih =>
    have hc : ¬isSpace c := Bool.eq_false_iff.1 (hsolid c List.mem_cons_self)
    cases w with
    | nil =>
      cases rest with
      | nil => exact if_neg hc
      | cons d rest =>
        have hd : isSpace d := hrest d rfl
        rw [List.singleton_append, words, if_neg hc]
        exact if_pos hd
    | cons d w =>
      have hd : ¬isSpace d := Bool.eq_false_iff.1
        (hsolid d (List.mem_cons_of_mem c List.mem_cons_self))
      have hnext := ih (List.cons_ne_nil d w) fun e he => hsolid e (List.mem_cons_of_mem c he)
      rw [List.cons_append] at hnext
      rw [List.cons_append, List.cons_append, words, if_neg hc, hnext]
      exact if_neg hd

/-- Words with blanks between them are read as they are. -/
theorem words_intercalate {ws : List (List Char)} (h : ∀ w ∈ ws, IsWord w) :
    words ([' '].intercalate ws) = ws := by
  induction ws with
  | nil => rfl
  | cons w ws ih =>
    have hw := h w List.mem_cons_self
    cases ws with
    | nil =>
      have hlast := words_append hw [] nofun
      rw [List.append_nil] at hlast
      rw [List.intercalate_singleton]
      exact hlast
    | cons next ws =>
      have hblank : ∀ c ∈ ([' '] ++ [' '].intercalate (next :: ws)).head?, isSpace c := by
        rintro c ⟨⟩
        rfl
      rw [List.intercalate_cons_cons, List.append_assoc, words_append hw _ hblank]
      exact congrArg _ (ih fun w' hw' => h w' (List.mem_cons_of_mem w hw'))

/-! ### Numbers -/

theorem readNat?_toDigits (n : Nat) : readNat? (Nat.toDigits 10 n) = some n := by
  have hdigits : (Nat.toDigits 10 n).all Char.isDigit = true :=
    List.all_eq_true.2 fun c hc => Nat.isDigit_of_mem_toDigits (by decide) le_rfl hc
  rw [readNat?, if_pos ⟨Nat.toDigits_ne_nil, hdigits⟩]
  exact congrArg some (Nat.ofDigitChars_toDigits (by decide) le_rfl)

theorem readInt?_of_digits {n : Nat} (hn : n < 2 ^ 31) :
    readInt? (Nat.toDigits 10 n) = some (Int32.ofInt n) := by
  unfold readInt?
  split
  case h_1 ds hds =>
    have hminus := Nat.isDigit_of_mem_toDigits (b := 10) (n := n) (c := '-') (by decide) le_rfl
      (hds ▸ List.mem_cons_self)
    cases hminus
  case h_2 =>
    rw [readNat?_toDigits, Option.bind_some]
    exact if_pos hn

theorem toList_toString_ofNat (n : Nat) : (toString (Int.ofNat n)).toList = Nat.toDigits 10 n :=
  String.toList_ofList

theorem toList_toString_negSucc (n : Nat) :
    (toString (Int.negSucc n)).toList = '-' :: Nat.toDigits 10 (n + 1) :=
  String.toList_append.trans (congrArg _ String.toList_ofList)

/-- A number is read as it is written. -/
theorem readInt?_toString (x : Int32) : readInt? (toString x.toInt).toList = some x := by
  have hlow := x.le_toInt
  have hhigh := x.toInt_lt
  conv_rhs => rw [← Int32.ofInt_toInt x]
  generalize x.toInt = i at hlow hhigh
  cases i with
  | ofNat n =>
    rw [toList_toString_ofNat]
    exact readInt?_of_digits (Int.ofNat_lt.1 hhigh)
  | negSucc n =>
    rw [toList_toString_negSucc, readInt?, readNat?_toDigits, Option.bind_some]
    exact if_pos (by omega)

theorem isWord_toDigits (n : Nat) : IsWord (Nat.toDigits 10 n) where
  ne_nil := Nat.toDigits_ne_nil
  solid c hc := by
    have hdigit := Nat.isDigit_of_mem_toDigits (by decide) le_rfl hc
    have hle : 48 ≤ c.toNat := of_decide_eq_true (Bool.and_eq_true_iff.1 hdigit).1
    exact isSpace_of_blank_lt (by omega)

theorem isWord_toString (n : Int) : IsWord (toString n).toList := by
  cases n with
  | ofNat n =>
    rw [toList_toString_ofNat]
    exact isWord_toDigits n
  | negSucc n =>
    rw [toList_toString_negSucc]
    refine ⟨List.cons_ne_nil _ _, fun c hc => ?_⟩
    rcases List.mem_cons.1 hc with rfl | hc
    · rfl
    · exact (isWord_toDigits _).solid c hc

end Text

namespace Square

theorem ofChars?_name (s : Square) : ofChars? s.fileLetter s.rankDigit = some s := by
  obtain ⟨f, r⟩ := s
  revert f r
  decide

theorem solid_name (s : Square) :
    Text.isSpace s.fileLetter = false ∧ Text.isSpace s.rankDigit = false := by
  obtain ⟨f, r⟩ := s
  revert f r
  decide

end Square

/-! ### Castling rights -/

namespace Colour

def fenText : Colour → List Char
  | white => ['w']
  | black => ['b']

end Colour

namespace Setup

theorem readSide_fenText (c : Colour) : readSide c.fenText = .ok c := by cases c <;> rfl

theorem eq_fenText_of_readSide {cs : List Char} {c : Colour} (h : readSide cs = .ok c) :
    cs = c.fenText := by
  unfold readSide at h
  split at h
  · obtain rfl := Except.ok.inj h
    rfl
  · obtain rfl := Except.ok.inj h
    rfl
  · cases h

def rightsText : List (Colour × Wing) → List Char
  | [] => ['-']
  | rights => rights.map fun r => r.2.symbol r.1

theorem readRights_rightsText {rights : List (Colour × Wing)} (h : rights.Sublist castles) :
    readRights (rightsText rights) = .ok rights := by
  have hall : ∀ rights ∈ castles.sublists, readRights (rightsText rights) = .ok rights := by decide
  exact hall rights (List.mem_sublists.2 h)

theorem readRight?_eq_some {c : Char} {r : Colour × Wing} :
    readRight? c = some r ↔ r.2.symbol r.1 = c := by
  constructor
  · intro h
    have hletter := List.find?_some h
    exact beq_iff_eq.1 hletter
  · rintro rfl
    obtain ⟨c, w⟩ := r
    cases c <;> cases w <;> rfl

theorem mem_of_mapM_readRight? {cs : List Char} {rights : List (Colour × Wing)}
    (h : cs.mapM readRight? = some rights) (r : Colour × Wing) :
    r ∈ rights ↔ r.2.symbol r.1 ∈ cs := by
  induction cs generalizing rights with
  | nil =>
    obtain rfl := Option.some.inj h
    simp
  | cons c cs ih =>
    rw [List.mapM_cons] at h
    obtain ⟨r', hr', h⟩ := Option.bind_eq_some_iff.1 h
    obtain ⟨rights', hrights', h⟩ := Option.bind_eq_some_iff.1 h
    obtain rfl := Option.some.inj h
    rw [List.mem_cons, List.mem_cons, ih hrights', ← readRight?_eq_some (c := c), hr',
      Option.some.injEq, eq_comm]

/-- A castling field grants the rights whose letters are in it. -/
theorem mem_of_readRights {cs : List Char} {rights : List (Colour × Wing)}
    (h : readRights cs = .ok rights) (r : Colour × Wing) :
    r ∈ rights ↔ r.2.symbol r.1 ∈ cs := by
  unfold readRights at h
  split at h
  · obtain rfl := Except.ok.inj h
    simp
  · obtain rfl := Except.ok.inj h
    obtain ⟨c, w⟩ := r
    cases c <;> cases w <;> decide
  · split at h
    case h_1 rights' hrights' =>
      obtain rfl := Except.ok.inj h
      exact mem_of_mapM_readRight? hrights' r
    case h_2 => cases h

/-! ### Targets -/

def targetText : Option Square → List Char
  | none => ['-']
  | some t => t.name.toList

theorem toList_name (t : Square) : t.name.toList = [t.fileLetter, t.rankDigit] :=
  String.toList_ofList

theorem readTarget_targetText (target : Option Square) :
    readTarget (targetText target) = .ok target := by
  cases target with
  | none => rfl
  | some t =>
    rw [targetText, toList_name, readTarget, Square.ofChars?_name]

theorem isWord_targetText (target : Option Square) : Text.IsWord (targetText target) := by
  cases target with
  | none => exact Text.isWord_singleton rfl
  | some t =>
    rw [targetText, toList_name]
    obtain ⟨hfile, hrank⟩ := t.solid_name
    exact ⟨List.cons_ne_nil _ _,
      List.forall_mem_cons.2 ⟨hfile, List.forall_mem_singleton.2 hrank⟩⟩

/-! ### Counters -/

variable {least n : Int32} {fault : FenFault} {cs : List Char}

theorem readCounter_toString (h : least ≤ n) :
    readCounter least fault (toString n.toInt).toList = .ok n := by
  unfold readCounter
  split
  case h_1 hnil => exact absurd hnil (Text.isWord_toString _).ne_nil
  case h_2 =>
    rw [Text.readInt?_toString]
    exact if_pos h

/-- What a counter field says: a number, or the least one by leaving it out. -/
theorem readCounter_eq_ok (h : readCounter least fault cs = .ok n) :
    least ≤ n ∧ (cs = [] ∧ n = least ∨ Text.readInt? cs = some n) := by
  unfold readCounter at h
  split at h
  · obtain rfl := Except.ok.inj h
    exact ⟨Int32.le_refl _, .inl ⟨rfl, rfl⟩⟩
  · split at h
    case h_1 n' hn' =>
      split_ifs at h with hle
      obtain rfl := Except.ok.inj h
      exact ⟨hle, .inr hn'⟩
    case h_2 => cases h

/-- A number that is accepted in its own writing is as large as it must be. -/
theorem eq_of_readCounter_toString {x : Int32}
    (h : readCounter least fault (toString x.toInt).toList = .ok n) : n = x ∧ least ≤ x := by
  obtain ⟨hle, ⟨hnil, _⟩ | hread⟩ := readCounter_eq_ok h
  · exact absurd hnil (Text.isWord_toString _).ne_nil
  · rw [Text.readInt?_toString, Option.some.injEq] at hread
    rw [← hread] at hle
    exact ⟨hread.symm, hle⟩

end Setup

/-! ### The text of a game -/

namespace Game

open Text

variable (g : Game)

theorem toList_castlingRights : g.castlingRights.toList =
    Setup.rightsText (castles.filter fun r => g.hasRight r.1 r.2) := by
  unfold castlingRights
  cases castles.filter fun r => g.hasRight r.1 r.2 with
  | nil => rfl
  | cons r rights => exact String.toList_ofList

def fields : List (List Char) :=
  [g.board.placementText.toList, g.active.fenText,
    Setup.rightsText (castles.filter fun r => g.hasRight r.1 r.2), ['-'],
    (toString g.halfmove.toInt).toList, (toString g.turn.toInt).toList]

theorem toList_toFen : g.toFen.toList = [' '].intercalate g.fields := by
  have hside : (if g.active = .white then " w " else " b ").toList =
      [' '] ++ (g.active.fenText ++ [' ']) := by
    cases g.active <;> rfl
  have hdash : " - ".toList = [' '] ++ (['-'] ++ [' ']) := rfl
  have hblank : " ".toList = [' '] := rfl
  simp only [toFen, fields, String.toList_append, hside, hdash, hblank, toList_castlingRights,
    List.intercalate_cons_cons, List.intercalate_singleton, List.append_assoc]

theorem isWord_rightsText (rights : List (Colour × Wing)) : IsWord (Setup.rightsText rights) := by
  cases rights with
  | nil => exact isWord_singleton rfl
  | cons r rights =>
    refine ⟨List.cons_ne_nil _ _, fun c hc => ?_⟩
    obtain ⟨⟨side, w⟩, _, rfl⟩ := List.mem_map.1 hc
    cases side <;> cases w <;> rfl

theorem isWord_of_mem_fields {w : List Char} (hw : w ∈ g.fields) : IsWord w := by
  simp only [fields, List.mem_cons, List.not_mem_nil, or_false] at hw
  rcases hw with hw | hw | hw | hw | hw | hw <;> rw [hw]
  · exact ⟨g.board.placementText_ne_nil, fun c => g.board.isSpace_of_mem_placementText⟩
  · cases g.active <;> exact isWord_singleton rfl
  · exact isWord_rightsText _
  · exact isWord_singleton rfl
  · exact isWord_toString _
  · exact isWord_toString _

theorem words_toFen : words g.toFen.toList = g.fields := by
  rw [toList_toFen]
  exact words_intercalate fun w hw => g.isWord_of_mem_fields hw

/-- The text of a game with a target named in place of the dash. -/
def fenNaming (target : Option Square) : String :=
  String.ofList ([' '].intercalate ((words g.toFen.toList).set 3 (Setup.targetText target)))

theorem words_fenNaming (target : Option Square) :
    words (g.fenNaming target).toList = g.fields.set 3 (Setup.targetText target) := by
  rw [fenNaming, String.toList_ofList, words_toFen]
  refine words_intercalate fun w hw => ?_
  rcases List.mem_or_eq_of_mem_set hw with hw | rfl
  · exact g.isWord_of_mem_fields hw
  · exact Setup.isWord_targetText target

end Game

end ChessArbiter
