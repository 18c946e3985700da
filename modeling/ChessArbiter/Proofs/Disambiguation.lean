import ChessArbiter.Notation
import ChessArbiter.Proofs.Placement

/-!
# What is said about the source

Between the piece letter and the destination a written move may name the file and the rank of the
source and mark a capture, in this order, with any number of dashes before, between and after them
(`Middle`). The reader, which only remembers what it has met, accepts just that (`readMiddle_iff`),
and a text is taken apart so in one way (`Middle.chars_inj`).
-/

namespace ChessArbiter

open List (replicate)

theorem Square.toNat_name (s : Square) :
    s.fileLetter.toNat = 'a'.toNat + s.file.val ∧ s.rankDigit.toNat = '1'.toNat + s.rank.val := by
  obtain ⟨f, r⟩ := s
  revert f r
  decide

namespace Notation

variable {n n' : Notation} {cs ds : List Char}

theorem fileLetter_facts (s : Square) : ¬(s.fileLetter = 'x' ∨ s.fileLetter = ':') ∧
    s.fileLetter ≠ '-' ∧ ('a' ≤ s.fileLetter ∧ s.fileLetter ≤ 'h') ∧
    (s.fileLetter.toNat : Int) - 'a'.toNat = s.file.val := by
  obtain ⟨f, r⟩ := s
  revert f r
  decide

theorem rankDigit_facts (s : Square) : ¬(s.rankDigit = 'x' ∨ s.rankDigit = ':') ∧
    s.rankDigit ≠ '-' ∧ s.rankDigit.isUpper = false ∧ ¬('a' ≤ s.rankDigit ∧ s.rankDigit ≤ 'h') ∧
    ('1' ≤ s.rankDigit ∧ s.rankDigit ≤ '8') ∧
    (s.rankDigit.toNat : Int) - '1'.toNat = s.rank.val := by
  obtain ⟨f, r⟩ := s
  revert f r
  decide

/-- Nothing has been read yet of what comes before the destination. -/
structure Unread (n : Notation) : Prop where
  srcFile : n.srcFile = none
  srcRank : n.srcRank = none
  capture : n.capture = false

/-- A sign that may be missing, and the dashes after it. -/
def group {α : Type} (sign : α → Char) : Option (α × Nat) → List Char
  | none => []
  | some (x, k) => sign x :: replicate k '-'

def fileSign (f : Fin 8) : Char := Square.fileLetter ⟨f, 0⟩

def rankSign (r : Fin 8) : Char := Square.rankDigit ⟨0, r⟩

def captureSign (colon : Bool) : Char := if colon then ':' else 'x'

/-- What stands between the piece letter and the destination: dashes, the file and the rank of the
source and the sign for a capture, with dashes after each. -/
structure Middle where
  dashes : Nat
  file : Option (Fin 8 × Nat)
  rank : Option (Fin 8 × Nat)
  mark : Option (Bool × Nat)
deriving DecidableEq

namespace Middle

def chars (m : Middle) : List Char :=
  replicate m.dashes '-' ++
    (group fileSign m.file ++ (group rankSign m.rank ++ group captureSign m.mark))

def reading (m : Middle) (n : Notation) : Notation :=
  { n with
    srcFile := m.file.map fun e => e.1.val
    srcRank := m.rank.map fun e => e.1.val
    capture := m.mark.isSome }

/-- It may follow what has been read so far. -/
structure Continues (m : Middle) (n : Notation) : Prop where
  capture : n.capture = true → m.file = none ∧ m.rank = none ∧ m.mark = none
  rank : n.srcRank ≠ none → m.file = none ∧ m.rank = none
  file : n.srcFile ≠ none → m.file = none

end Middle

/-! ### Reading -/

theorem readMiddle_dashes (k : Nat) : readMiddle n (replicate k '-' ++ cs) = readMiddle n cs := by
  induction k with
  | zero => rfl
  | succ k ih =>
    rw [List.replicate_succ, List.cons_append, readMiddle, if_neg (by decide), if_pos rfl]
    exact ih

theorem readMiddle_mark (hc : n.capture = false) (mark : Option (Bool × Nat)) :
    readMiddle n (group captureSign mark) = .ok { n with capture := mark.isSome } := by
  cases mark with
  | none => rw [group, readMiddle, Option.isSome_none, ← hc]
  | some e =>
    obtain ⟨colon, k⟩ := e
    have hsign : captureSign colon = 'x' ∨ captureSign colon = ':' := by cases colon <;> decide
    rw [group, readMiddle, if_pos hsign, if_neg (by simp [hc]), ← List.append_nil (replicate k '-'),
      readMiddle_dashes, readMiddle]
    rfl

theorem readMiddle_rank (hc : n.capture = false) (hr : n.srcRank = none)
    (rank : Option (Fin 8 × Nat)) :
    readMiddle n (group rankSign rank ++ cs) =
      readMiddle { n with srcRank := rank.map fun e => e.1.val } cs := by
  cases rank with
  | none => rw [group, List.nil_append, Option.map_none, ← hr]
  | some e =>
    obtain ⟨r, k⟩ := e
    obtain ⟨hmark, hdash, _, hfile, hdigit, hval⟩ := rankDigit_facts ⟨0, r⟩
    rw [group, List.cons_append, readMiddle, rankSign, if_neg hmark, if_neg hdash,
      if_neg (by simp [hc]), if_neg fun h => hfile h.1, if_pos ⟨hdigit, by simp [hr]⟩,
      readMiddle_dashes, hval]
    rfl

theorem readMiddle_file (hc : n.capture = false) (hf : n.srcFile = none) (hr : n.srcRank = none)
    (file : Option (Fin 8 × Nat)) :
    readMiddle n (group fileSign file ++ cs) =
      readMiddle { n with srcFile := file.map fun e => e.1.val } cs := by
  cases file with
  | none => rw [group, List.nil_append, Option.map_none, ← hf]
  | some e =>
    obtain ⟨f, k⟩ := e
    obtain ⟨hmark, hdash, hletter, hval⟩ := fileLetter_facts ⟨f, 0⟩
    rw [group, List.cons_append, readMiddle, fileSign, if_neg hmark, if_neg hdash,
      if_neg (by simp [hc]), if_pos ⟨hletter, by simp [hf], by simp [hr]⟩, readMiddle_dashes, hval]
    rfl

theorem readMiddle_chars (hn : n.Unread) (m : Middle) :
    readMiddle n m.chars = .ok (m.reading n) := by
  let filed : Notation := { n with srcFile := m.file.map fun e => e.1.val }
  let ranked : Notation := { filed with srcRank := m.rank.map fun e => e.1.val }
  have hrank : readMiddle filed (group rankSign m.rank ++ group captureSign m.mark) =
      readMiddle ranked (group captureSign m.mark) :=
    readMiddle_rank (n := filed) hn.capture hn.srcRank m.rank
  have hmark : readMiddle ranked (group captureSign m.mark) = .ok (m.reading n) :=
    readMiddle_mark (n := ranked) hn.capture m.mark
  rw [Middle.chars, readMiddle_dashes, readMiddle_file hn.capture hn.srcFile hn.srcRank]
  exact hrank.trans hmark

theorem exists_fileSign {c : Char} (hc : 'a' ≤ c ∧ c ≤ 'h') : ∃ f, fileSign f = c := by
  have hlow : 97 ≤ c.toNat := hc.1
  have hhigh : c.toNat ≤ 104 := hc.2
  refine ⟨⟨c.toNat - 97, by omega⟩, Char.toNat_inj.1 ((Square.toNat_name _).1.trans ?_)⟩
  change 97 + (c.toNat - 97) = c.toNat
  omega

theorem exists_rankSign {c : Char} (hc : '1' ≤ c ∧ c ≤ '8') : ∃ r, rankSign r = c := by
  have hlow : 49 ≤ c.toNat := hc.1
  have hhigh : c.toNat ≤ 56 := hc.2
  refine ⟨⟨c.toNat - 49, by omega⟩, Char.toNat_inj.1 ((Square.toNat_name _).2.trans ?_)⟩
  change 49 + (c.toNat - 49) = c.toNat
  omega

/-- Whatever the reader accepts is spelled so. The induction follows the text; a sign opens a group,
and the dashes that lead what comes after it are those of the group. -/
theorem exists_middle (h : readMiddle n cs = .ok n') :
    ∃ m : Middle, m.chars = cs ∧ m.Continues n := by
  induction cs generalizing n with
  | nil => exact ⟨⟨0, none, none, none⟩, rfl, by constructor <;> simp⟩
  | cons c cs ih =>
    unfold readMiddle at h
    split_ifs at h with hmark hcapture hdash hafter hfile hrank
    · -- the sign for a capture: only dashes may follow
      obtain ⟨⟨k, file, rank, mark⟩, rfl, hm⟩ := ih h
      obtain ⟨rfl, rfl, rfl⟩ := hm.capture rfl
      have hsign : captureSign (c = ':') = c := by
        rcases hmark with rfl | rfl <;> rfl
      refine ⟨⟨0, none, none, some (c = ':', k)⟩, ?_, ?_⟩
      · simp [Middle.chars, group, hsign]
      · exact ⟨fun hc => absurd hc hcapture, fun _ => ⟨rfl, rfl⟩, fun _ => rfl⟩
    · obtain ⟨⟨k, file, rank, mark⟩, rfl, hm⟩ := ih h
      exact ⟨⟨k + 1, file, rank, mark⟩, by rw [hdash]; rfl, ⟨hm.capture, hm.rank, hm.file⟩⟩
    · -- a file: neither a file nor a rank was read
      obtain ⟨⟨k, file, rank, mark⟩, rfl, hm⟩ := ih h
      obtain rfl := hm.file nofun
      obtain ⟨f, rfl⟩ := exists_fileSign hfile.1
      have hnofile := Option.isNone_iff_eq_none.1 hfile.2.1
      have hnorank := Option.isNone_iff_eq_none.1 hfile.2.2
      refine ⟨⟨0, some (f, k), rank, mark⟩, ?_, ?_⟩
      · simp [Middle.chars, group]
      · exact ⟨fun hc => absurd hc hafter, fun hr => absurd hnorank hr,
          fun hf => absurd hnofile hf⟩
    · obtain ⟨⟨k, file, rank, mark⟩, rfl, hm⟩ := ih h
      obtain ⟨rfl, rfl⟩ := hm.rank nofun
      obtain ⟨r, rfl⟩ := exists_rankSign hrank.1
      have hnorank := Option.isNone_iff_eq_none.1 hrank.2
      refine ⟨⟨0, none, some (r, k), mark⟩, ?_, ?_⟩
      · simp [Middle.chars, group]
      · exact ⟨fun hc => absurd hc hafter, fun hr => absurd hnorank hr, fun _ => rfl⟩

theorem readMiddle_iff (hn : n.Unread) :
    readMiddle n cs = .ok n' ↔ ∃ m : Middle, m.chars = cs ∧ n' = m.reading n := by
  constructor
  · intro h
    obtain ⟨m, rfl, _⟩ := exists_middle h
    rw [readMiddle_chars hn] at h
    exact ⟨m, rfl, (Except.ok.inj h).symm⟩
  · rintro ⟨m, rfl, rfl⟩
    exact readMiddle_chars hn m

/-! ### No middle in two ways -/

section signs

theorem fileSign_inj : Function.Injective fileSign := by
  intro f g
  revert f g
  decide

theorem rankSign_inj : Function.Injective rankSign := by
  intro r q
  revert r q
  decide

theorem captureSign_inj : Function.Injective captureSign := by
  intro a b
  revert a b
  decide

theorem fileSign_ne (f : Fin 8) :
    fileSign f ≠ '-' ∧ (∀ r, rankSign r ≠ fileSign f) ∧ ∀ b, captureSign b ≠ fileSign f := by
  revert f
  decide

theorem rankSign_ne (r : Fin 8) : rankSign r ≠ '-' ∧ ∀ b, captureSign b ≠ rankSign r := by
  revert r
  decide

theorem captureSign_ne (b : Bool) : captureSign b ≠ '-' := by
  cases b <;> decide

end signs

section groups

variable {α : Type} {sign : α → Char} {o o' : Option (α × Nat)}

theorem head_group {c : Char} (h : (group sign o ++ cs).head? = some c) :
    (∃ x, c = sign x) ∨ cs.head? = some c := by
  cases o with
  | none => exact .inr h
  | some e => exact .inl ⟨e.1, (Option.some.inj h).symm⟩

/-- A group is told from what follows it by its sign, and its dashes by what they end at. -/
theorem group_append_inj (hsign : Function.Injective sign)
    (hc : ∀ c, cs.head? = some c → c ≠ '-' ∧ ∀ x, c ≠ sign x)
    (hd : ∀ d, ds.head? = some d → d ≠ '-' ∧ ∀ x, d ≠ sign x)
    (h : group sign o ++ cs = group sign o' ++ ds) : o = o' ∧ cs = ds := by
  rcases o with _ | ⟨x, k⟩ <;> rcases o' with _ | ⟨y, l⟩
  · exact ⟨rfl, h⟩
  · exact absurd rfl ((hc (sign y) (congrArg List.head? h)).2 y)
  · exact absurd rfl ((hd (sign x) (congrArg List.head? h.symm)).2 x)
  · obtain ⟨hhead, htail⟩ := List.cons.inj h
    obtain ⟨rfl, rfl⟩ := replicate_append_inj (fun hdash => (hc '-' hdash).1 rfl)
      (fun hdash => (hd '-' hdash).1 rfl) htail
    rw [hsign hhead]
    exact ⟨rfl, rfl⟩

end groups

theorem follows_rank {mark : Option (Bool × Nat)} {c : Char}
    (h : (group captureSign mark).head? = some c) : c ≠ '-' ∧ ∀ r, c ≠ rankSign r := by
  rw [← List.append_nil (group captureSign mark)] at h
  obtain ⟨b, rfl⟩ := (head_group h).resolve_right nofun
  exact ⟨captureSign_ne b, fun r => (rankSign_ne r).2 b⟩

theorem follows_file {rank : Option (Fin 8 × Nat)} {mark : Option (Bool × Nat)} {c : Char}
    (h : (group rankSign rank ++ group captureSign mark).head? = some c) :
    c ≠ '-' ∧ ∀ f, c ≠ fileSign f := by
  rcases head_group h with ⟨r, rfl⟩ | hmark
  · exact ⟨(rankSign_ne r).1, fun f => (fileSign_ne f).2.1 r⟩
  · rw [← List.append_nil (group captureSign mark)] at hmark
    obtain ⟨b, rfl⟩ := (head_group hmark).resolve_right nofun
    exact ⟨captureSign_ne b, fun f => (fileSign_ne f).2.2 b⟩

theorem follows_dashes {file rank : Option (Fin 8 × Nat)} {mark : Option (Bool × Nat)} :
    (group fileSign file ++ (group rankSign rank ++ group captureSign mark)).head? ≠ some '-' := by
  intro h
  rcases head_group h with ⟨f, hf⟩ | hrest
  · exact (fileSign_ne f).1 hf.symm
  · exact (follows_file hrest).1 rfl

theorem Middle.chars_inj {m m' : Middle} (h : m.chars = m'.chars) : m = m' := by
  obtain ⟨k, file, rank, mark⟩ := m
  obtain ⟨k', file', rank', mark'⟩ := m'
  obtain ⟨rfl, h⟩ := replicate_append_inj follows_dashes follows_dashes h
  obtain ⟨rfl, h⟩ := group_append_inj fileSign_inj (fun _ => follows_file) (fun _ => follows_file) h
  obtain ⟨rfl, h⟩ := group_append_inj rankSign_inj (fun _ => follows_rank) (fun _ => follows_rank) h
  rw [← List.append_nil (group captureSign mark), ← List.append_nil (group captureSign mark')] at h
  have hnil : ∀ c, ([] : List Char).head? = some c → c ≠ '-' ∧ ∀ b, c ≠ captureSign b :=
    fun _ hc => nomatch hc
  obtain ⟨rfl, _⟩ := group_append_inj captureSign_inj hnil hnil h
  rfl

end Notation

end ChessArbiter
