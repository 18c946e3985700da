import ChessArbiter.Proofs.Resolving
import ChessArbiter.Proofs.Spelling

/-!
# Moves written in full

A move granted between two squares can be written with both of them (`MoveRecord.writing`), and the
text is read back as that move: no character of it is dropped as a blank, a mark or an annotation
(`Notation.read_padded`), just one man stands on the source, so that no other is meant
(`meant_eq_singleton`), and the sign for a capture is there exactly when the rules by which the man
goes are those of a capture, in passing too (`answers_of_admits`).
-/

namespace ChessArbiter

namespace Text

variable {p : Char → Bool} {xs ys zs : List Char}

theorem dropTrailing_append (hy : ∀ c ∈ ys, p c = true) :
    dropTrailing p (xs ++ ys) = dropTrailing p xs := by
  unfold dropTrailing
  rw [List.reverse_append, List.dropWhile_append_of_pos fun c hc => hy c (List.mem_reverse.1 hc)]

theorem dropTrailing_eq_self (hx : ∀ c ∈ xs, p c = false) : dropTrailing p xs = xs := by
  unfold dropTrailing
  rcases List.eq_nil_or_concat xs with rfl | ⟨ys, c, rfl⟩
  · rfl
  · have hlast : ¬p c = true := by simp [hx c (by simp)]
    rw [List.concat_eq_append, List.reverse_append, List.reverse_singleton, List.singleton_append,
      List.dropWhile_cons_of_neg hlast, List.reverse_cons, List.reverse_reverse]

theorem takeTrailing_append (hx : ∀ c ∈ xs, p c = false) (hy : ∀ c ∈ ys, p c = true) :
    takeTrailing p (xs ++ ys) = ys := by
  have hsplit := dropTrailing_append_takeTrailing p (xs ++ ys)
  rw [dropTrailing_append hy, dropTrailing_eq_self hx] at hsplit
  exact List.append_cancel_left hsplit

theorem trim_padded (hx : ∀ c ∈ xs, isBlank c = true) (hy : ∀ c ∈ ys, isBlank c = false)
    (hne : ys ≠ []) (hz : ∀ c ∈ zs, isBlank c = true) : trim (xs ++ ys ++ zs) = ys := by
  unfold trim
  rw [List.append_assoc, List.dropWhile_append_of_pos hx]
  obtain ⟨c, cs, rfl⟩ := List.exists_cons_of_ne_nil hne
  rw [List.cons_append, List.dropWhile_cons_of_neg (by simp [hy c List.mem_cons_self]),
    ← List.cons_append, dropTrailing_append hz, dropTrailing_eq_self hy]

end Text

namespace Notation

variable {n : Notation} {k : PieceKind} {src dst : Square} {capture : Bool}
  {promotion : Option PieceKind} {core marks annotations : List Char}

/-- A character that stays when blanks, annotations and marks are dropped. -/
def isPlain (c : Char) : Bool := !(Text.isBlank c || isAnnotation c || isMark c)

/-- A move that is no castle, with both of its squares. -/
def inFull (k : PieceKind) (src dst : Square) (capture : Bool) (promotion : Option PieceKind) :
    List Char :=
  (if k = .pawn then [] else [k.letter]) ++
    (src.fileLetter :: src.rankDigit :: if capture then ['x'] else []) ++
    dst.fileLetter :: dst.rankDigit :: promotion.elim [] fun k => ['=', k.letter]

theorem plain_letter (k : PieceKind) : isPlain k.letter = true := by
  cases k <;> decide

theorem plain_square (s : Square) : isPlain s.fileLetter = true ∧ isPlain s.rankDigit = true := by
  obtain ⟨f, r⟩ := s
  revert f r
  decide

theorem plain_inFull : ∀ c ∈ inFull k src dst capture promotion, isPlain c = true := by
  obtain ⟨hsf, hsr⟩ := plain_square src
  obtain ⟨hdf, hdr⟩ := plain_square dst
  have hpiece : ∀ c ∈ if k = .pawn then [] else [k.letter], isPlain c = true := by
    split_ifs
    · exact List.forall_mem_nil _
    · exact List.forall_mem_singleton.2 (plain_letter k)
  have hcapture : ∀ c ∈ if capture then ['x'] else [], isPlain c = true := by
    cases capture
    · exact List.forall_mem_nil _
    · exact List.forall_mem_singleton.2 (by decide)
  have hpromotion : ∀ c ∈ promotion.elim [] fun k => ['=', k.letter], isPlain c = true := by
    cases promotion with
    | none => exact List.forall_mem_nil _
    | some k' =>
      exact List.forall_mem_cons.2 ⟨by decide, List.forall_mem_singleton.2 (plain_letter k')⟩
  unfold inFull
  simp only [List.forall_mem_append, List.forall_mem_cons]
  exact ⟨⟨hpiece, hsf, hsr, hcapture⟩, hdf, hdr, hpromotion⟩

theorem plain_castle (w : Wing) : ∀ c ∈ w.text.toList, isPlain c = true := by
  rw [← List.all_eq_true]
  cases w <;> rfl

/-! ### Reading -/

/-- A text with both squares, taken apart. -/
def fullSpelling (k : PieceKind) (src dst : Square) (capture : Bool)
    (promotion : Option PieceKind) : Spelling where
  letter := if k = .pawn then none else some k
  middle := ⟨0, some (src.file, 0), some (src.rank, 0), if capture then some (false, 0) else none⟩
  capital := false
  dst := dst
  promotion := promotion.map (·, .equals)

theorem chars_fullSpelling :
    (fullSpelling k src dst capture promotion).chars = inFull k src dst capture promotion := by
  unfold fullSpelling inFull
  by_cases hk : k = .pawn
  · rw [if_pos hk, if_pos hk]
    cases capture <;> cases promotion <;> rfl
  · rw [if_neg hk, if_neg hk]
    cases capture <;> cases promotion <;> rfl

theorem proper_fullSpelling
    (hpromotion : ∀ k', promotion = some k' → k = .pawn ∧ k'.isOfficer = true) :
    (fullSpelling k src dst capture promotion).Proper := by
  constructor
  · intro e he
    obtain ⟨k', hk', rfl⟩ := Option.map_eq_some_iff.1 he
    obtain ⟨rfl, hofficer⟩ := hpromotion k' hk'
    exact ⟨hofficer, rfl⟩
  · intro hletter c hc
    have hk : k = .pawn := by_contra fun hk => by simp [fullSpelling, hk] at hletter
    rw [chars_fullSpelling, inFull, if_pos hk] at hc
    obtain rfl : src.fileLetter = c := Option.some.inj hc
    exact (src.fileWith_facts false).2.1

theorem readMove_inFull (hn : n.Unread) (hpiece : n.piece = .pawn)
    (hnone : n.promotion = none)
    (hpromotion : ∀ k', promotion = some k' → k = .pawn ∧ k'.isOfficer = true) :
    readMove n (inFull k src dst capture promotion) =
      .ok { n with piece := k, srcFile := some src.file.val, srcRank := some src.rank.val,
                   capture, dst := some dst, promotion } := by
  rw [← chars_fullSpelling, readMove_chars hn hpiece hnone (proper_fullSpelling hpromotion)]
  unfold fullSpelling
  by_cases hk : k = .pawn
  · rw [if_pos hk, hk]
    cases capture <;> cases promotion <;> rfl
  · rw [if_neg hk]
    cases capture <;> cases promotion <;> rfl

/-! ### What surrounds a move -/

section padding

variable {left marks annotations right : List Char} (hleft : ∀ c ∈ left, Text.isBlank c = true)
  (hmarks : ∀ c ∈ marks, isMark c = true)
  (hannotations : ∀ c ∈ annotations, isAnnotation c = true)
  (hright : ∀ c ∈ right, Text.isBlank c = true)

include hleft hmarks hannotations hright

/-- Around plain text blanks, marks and annotations are dropped. -/
theorem read_padded (hcore : ∀ c ∈ core, isPlain c = true) (hne : core ≠ []) :
    read (String.ofList (left ++ (core ++ marks ++ annotations) ++ right)) =
      readMove { text := String.ofList (core ++ marks ++ annotations),
                 check := marks.contains '+', mate := marks.contains '#' } core := by
  have hplain : ∀ c ∈ core,
      Text.isBlank c = false ∧ isAnnotation c = false ∧ isMark c = false := by
    intro c hc
    have h := hcore c hc
    simpa [isPlain, and_assoc] using h
  have hmark : ∀ c ∈ marks, Text.isBlank c = false ∧ isAnnotation c = false := by
    intro c hc
    have h := hmarks c hc
    simp only [isMark, Bool.or_eq_true, beq_iff_eq] at h
    rcases h with rfl | rfl <;> decide
  have hnote : ∀ c ∈ annotations, Text.isBlank c = false := by
    intro c hc
    have h := hannotations c hc
    simp only [ isAnnotation, Bool.or_eq_true, beq_iff_eq] at h
    rcases h with rfl | rfl <;> decide
  -- from the outside in, as the reader cuts: blanks, then annotations, then marks
  have hgiven : Text.trim (left ++ (core ++ marks ++ annotations) ++ right) =
      core ++ marks ++ annotations := by
    refine Text.trim_padded hleft ?_ (by simp [hne]) hright
    simp only [List.forall_mem_append]
    exact ⟨⟨fun c hc => (hplain c hc).1, fun c hc => (hmark c hc).1⟩, hnote⟩
  have hmarked : Text.dropTrailing isAnnotation (core ++ marks ++ annotations) = core ++ marks := by
    rw [Text.dropTrailing_append hannotations, Text.dropTrailing_eq_self]
    simp only [List.forall_mem_append]
    exact ⟨fun c hc => (hplain c hc).2.1, fun c hc => (hmark c hc).2⟩
  have hbare : Text.dropTrailing isMark (core ++ marks) = core := by
    rw [Text.dropTrailing_append hmarks, Text.dropTrailing_eq_self fun c hc => (hplain c hc).2.2]
  have hshown : Text.takeTrailing isMark (core ++ marks) = marks :=
    Text.takeTrailing_append (fun c hc => (hplain c hc).2.2) hmarks
  unfold read
  dsimp only
  rw [String.toList_ofList, hgiven, hmarked, hbare, hshown, if_neg (by simp [hne])]

theorem parse_inFull (hpromotion : ∀ k', promotion = some k' → k = .pawn ∧ k'.isOfficer = true) :
    let title := inFull k src dst capture promotion ++ marks ++ annotations
    parse (String.ofList (left ++ title ++ right)) =
      .ok { text := String.ofList title, check := marks.contains '+', mate := marks.contains '#',
            piece := k, srcFile := some src.file.val, srcRank := some src.rank.val, capture,
            dst := some dst, promotion } := by
  have hne : inFull k src dst capture promotion ≠ [] := by simp [inFull]
  unfold parse
  dsimp only
  rw [read_padded hleft hmarks hannotations hright plain_inFull hne,
    readMove_inFull ⟨rfl, rfl, rfl⟩ rfl rfl hpromotion]

theorem parse_castle (w : Wing) :
    let title := w.text.toList ++ marks ++ annotations
    parse (String.ofList (left ++ title ++ right)) =
      .ok { text := String.ofList title, check := marks.contains '+', mate := marks.contains '#',
            castle := some w, piece := .king } := by
  have hne : w.text.toList ≠ [] := by cases w <;> decide
  unfold parse
  dsimp only
  rw [read_padded hleft hmarks hannotations hright (plain_castle w) hne]
  cases w <;> rfl

end padding

end Notation

namespace Game

variable {g : Game} {m : Man} {s : Step} {src dst : Square} {n : Notation}

/-! ### The one man meant -/

theorem answers_of_admits (hs : g.Admits s) (h : g.Coherent)
    (hcapture : n.capture = (g.execute s).1.isSome) : g.answers n s.man s.dst = true := by
  cases hc : n.capture with
  | true => rw [answers_of_capture hs h hc, ← hcapture, hc]
  | false =>
    rw [answers_of_plain hs h hc, ← hcapture]
    exact fun _ => hc

/-- With both of its squares written, a granted step of a man means that man alone. -/
theorem meant_eq_singleton (h : g.Consistent) (hs : g.Admits s)
    (hpiece : n.piece = s.man.kind) (hfile : n.srcFile = some (s.src.file.val : Int))
    (hrank : n.srcRank = some (s.src.rank.val : Int)) (hdst : n.dst = some s.dst)
    (hcapture : n.capture = (g.execute s).1.isSome)
    (hgranted : (g.attempt s.src s.dst n.promotion).isSome = true) :
    g.meant n s.dst = [(s.man, s.src)] := by
  have hanswers := answers_of_admits hs h.toCoherent hcapture
  have hsourced : ∀ u, g.Sourced n u ↔ u = s.src := by
    intro u
    unfold Sourced sourceFilter
    rw [if_neg (by simp [hfile]), hfile, hrank, @eq_comm _ u, Square.eq_iff]
    simp only [Option.all_some, beq_iff_eq, Nat.cast_inj]
  have hnodup := List.Nodup.of_map _ (nodup_meant h hdst)
  refine List.perm_singleton.1 ((List.perm_ext_iff_of_nodup hnodup (List.nodup_singleton _)).2 ?_)
  rintro ⟨m, u⟩
  rw [mem_meant h hdst, hsourced, List.mem_singleton, Prod.mk.injEq]
  constructor
  · rintro ⟨⟨hocc, _⟩, rfl, _⟩
    exact ⟨Option.some.inj (hocc.symm.trans hs.source), rfl⟩
  · rintro ⟨rfl, rfl⟩
    exact ⟨⟨hs.source, hs.mover, hpiece.symm⟩, rfl, hanswers, hgranted⟩

end Game

namespace Move

variable {src dst : Square}

def wing? (m : Move) : Option Wing := Wing.all.find? fun w => m.flag == MoveFlag.castle w

theorem wing?_castle (w : Wing) : (ofParts src dst (MoveFlag.castle w)).wing? = some w := by
  unfold wing?
  rw [flag_ofParts src dst (by cases w <;> decide)]
  cases w <;> rfl

end Move

/-- A completed move written in full: a castle by its sign, any other move with both squares. -/
def MoveRecord.writing (r : MoveRecord) (promotion : Option PieceKind) : List Char :=
  match r.move.wing? with
  | some w => w.text.toList
  | none => Notation.inFull r.piece r.move.src r.move.dst r.captured.isSome promotion

theorem Step.wing?_record {s : Step} (hs : ∀ k, s.becomes = some k → k.isOfficer = true)
    (victim : Option Man) : (s.record victim).move.wing? = none := by
  have hflag : ∀ f : MoveFlag, f < 16 ∧ f ≠ .kingCastle ∧ f ≠ .queenCastle →
      (Move.ofParts s.src s.dst f).wing? = none := by
    rintro f ⟨hf, hking, hqueen⟩
    unfold Move.wing?
    rw [Move.flag_ofParts _ _ hf]
    simp [Wing.all, MoveFlag.castle, hking, hqueen]
  unfold Step.record Step.flag
  cases hb : s.becomes with
  | some k =>
    have hofficer := hs k hb
    dsimp only
    refine hflag _ ?_
    revert hofficer
    cases k <;> cases victim.isSome <;> decide
  | none =>
    dsimp only
    split_ifs <;> exact hflag _ (by decide)

namespace Arbiter

variable {a b c : Arbiter} {r : MoveRecord} {m : Man} {n : Notation} {w : Wing}
  {s : Step} {src dst : Square} {promotion : Option PieceKind} {text : String}

/-! ### The game alone decides -/

theorem move_congr (hgame : c.toGame = a.toGame) (h : a.move src dst promotion = (.ok r, b)) :
    ∃ b', c.move src dst promotion = (.ok r, b') ∧ b'.toGame = b.toGame := by
  obtain ⟨hattempt, hmoves⟩ := move_ok h
  rw [← hgame] at hattempt
  obtain ⟨r', b', hmove, hb', hmoves'⟩ := exists_move hattempt
  rw [hb', hmoves, hgame] at hmoves'
  exact ⟨b', by rw [hmove, Game.entry_unique hmoves'], hb'⟩

theorem castle_congr (hgame : c.toGame = a.toGame) (h : a.castle w = (.ok r, b)) :
    ∃ b', c.castle w = (.ok r, b') ∧ b'.toGame = b.toGame := by
  obtain ⟨hopen, hb, _⟩ := castle_ok h
  rcases hcastle : c.castle w with ⟨e | r', b'⟩
  · rw [← hgame, (castle_error hcastle).1] at hopen
    cases hopen
  · refine ⟨b', ?_, ?_⟩
    · rw [record_of_castle h, record_of_castle hcastle, hgame]
    · rw [hb, (castle_ok hcastle).2.1, hgame]

/-! ### Reading back -/

theorem fst_resolveTo_of_meant
    (hlast : n.promotion.isSome = true → dst.rank = a.active.lastRank)
    (hmeant : a.meant n dst = [(m, src)]) :
    (a.resolveTo n dst).1 = .ok (.ofParts src dst (a.flagOf m src dst n.promotion)) := by
  have hfound : ¬(a.candidates n).isEmpty = true := by
    intro hempty
    rw [Game.meant, Game.located, List.isEmpty_iff.1 hempty] at hmeant
    cases hmeant
  rw [fst_resolveTo, if_neg fun h => h.2 (hlast h.1), if_neg hfound, hmeant]
  rfl

theorem playNotation_of_meant (hcastle : n.castle = none) (hdst : n.dst = some dst)
    (hlast : n.promotion.isSome = true → dst.rank = a.active.lastRank)
    (hmeant : a.meant n dst = [(m, src)])
    (hmove : ∀ c : Arbiter, c.toGame = a.toGame →
      ∃ b', c.move src dst n.promotion = (.ok r, b') ∧ b'.toGame = b.toGame) :
    ∃ b', a.playNotation n = (.ok r, b') ∧ b'.toGame = b.toGame := by
  have hresolved := fst_resolveTo_of_meant hlast hmeant
  have hgame := toGame_resolveTo a n dst
  have hresolve : a.resolve n = a.resolveTo n dst := by
    unfold resolve
    rw [hcastle, hdst]
  rcases hr : a.resolveTo n dst with ⟨e | m', a'⟩
  · rw [hr] at hresolved
    cases hresolved
  · rw [hr] at hresolved hgame
    obtain rfl := Except.ok.inj hresolved
    unfold playNotation
    rw [hcastle]
    dsimp only
    rw [hresolve, hr]
    dsimp only
    rw [Move.src_ofParts, Move.dst_ofParts]
    exact hmove a' hgame

theorem play_of_read (hn : Notation.parse text = .ok n)
    (hplay : ∀ c : Arbiter, c.toGame = a.toGame →
      ∃ b', c.playNotation n = (.ok r, b') ∧ b'.toGame = b.toGame) :
    (a.play text).1 = .ok { r with text := n.text } ∧
      (a.play text).2.toGame = b.toGame.retitle n.text := by
  obtain ⟨a', ha', hread⟩ := a.play_of_parse hn
  obtain ⟨b', hb', hgame⟩ := hplay a' ha'
  rw [hread, hb', ← hgame]
  exact ⟨rfl, rfl⟩

theorem writing_of_castle (h : a.castle w = (.ok r, b)) (promotion : Option PieceKind) :
    r.writing promotion = w.text.toList := by
  rw [MoveRecord.writing, move_of_castle h, Move.wing?_castle]

theorem writing_of_step (hs : a.assess src dst promotion = .ok (.step s))
    (h : a.move src dst promotion = (.ok r, b)) :
    r.writing promotion =
      Notation.inFull s.man.kind s.src s.dst (a.execute s).1.isSome promotion := by
  obtain ⟨hadm, _, _⟩ := Game.admits_of_assess hs
  rw [record_of_step hs h]
  unfold MoveRecord.writing Game.entry
  dsimp only
  rw [Step.wing?_record hadm.officer]
  unfold Step.record
  dsimp only
  rw [Move.src_ofParts, Move.dst_ofParts, Option.isSome_map]

section padding

variable {left marks annotations right : List Char} (hleft : ∀ c ∈ left, Text.isBlank c = true)
  (hmarks : ∀ c ∈ marks, Notation.isMark c = true)
  (hannotations : ∀ c ∈ annotations, Notation.isAnnotation c = true)
  (hright : ∀ c ∈ right, Text.isBlank c = true)

include hleft hmarks hannotations hright

theorem play_step_writing (h : a.toGame.Consistent)
    (hs : a.assess src dst promotion = .ok (.step s))
    (hmove : a.move src dst promotion = (.ok r, b)) :
    let title := r.writing promotion ++ marks ++ annotations
    (a.play (String.ofList (left ++ title ++ right))).1 =
        .ok { r with text := String.ofList title } ∧
      (a.play (String.ofList (left ++ title ++ right))).2.toGame =
        b.toGame.retitle (String.ofList title) := by
  obtain ⟨hadm, rfl, rfl⟩ := Game.admits_of_assess hs
  have hpromotes : ∀ k, promotion = some k →
      s.man.promotesOn s.dst = true ∧ k.isOfficer = true := by
    obtain ⟨m, _, _, hasked, _, _, hstep⟩ := Game.assess_step_iff.1 hs
    obtain rfl : m = s.man := (congrArg Step.man hstep).symm
    exact Game.promotionObjection_eq_none_iff.1 hasked
  have hpawn : ∀ k, promotion = some k → s.man.kind = .pawn ∧ k.isOfficer = true := by
    intro k hk
    obtain ⟨hlast, hofficer⟩ := hpromotes k hk
    exact ⟨eq_of_beq (Bool.and_eq_true_iff.1 hlast).1, hofficer⟩
  have hlast : promotion.isSome = true → s.dst.rank = a.active.lastRank := by
    intro hsome
    obtain ⟨k, hk⟩ := Option.isSome_iff_exists.1 hsome
    rw [← hadm.mover]
    exact eq_of_beq (Bool.and_eq_true_iff.1 (hpromotes k hk).1).2
  rw [writing_of_step hs hmove]
  refine play_of_read (Notation.parse_inFull hleft hmarks hannotations hright hpawn) fun c hc => ?_
  have hgranted : (a.attempt s.src s.dst promotion).isSome = true :=
    Option.isSome_iff_exists.2 ⟨_, (move_ok hmove).1⟩
  -- reading the text has only written to the journal, and the game is the same
  rw [← hc] at h hadm hlast hgranted ⊢
  exact playNotation_of_meant rfl rfl hlast
    (Game.meant_eq_singleton h hadm rfl rfl rfl rfl rfl hgranted)
    fun c' hc' => move_congr (hc'.trans hc) hmove

theorem play_writing (h : a.toGame.Consistent) (hmove : a.move src dst promotion = (.ok r, b)) :
    let title := r.writing promotion ++ marks ++ annotations
    (a.play (String.ofList (left ++ title ++ right))).1 =
        .ok { r with text := String.ofList title } ∧
      (a.play (String.ofList (left ++ title ++ right))).2.toGame =
        b.toGame.retitle (String.ofList title) := by
  rcases Game.attempt_eq_some_iff.1 (move_ok hmove).1 with ⟨s, hs, _⟩ | ⟨w, hw, _⟩
  · exact play_step_writing hleft hmarks hannotations hright h hs hmove
  · have hcastle : a.castle w = (.ok r, b) := by rw [← hmove, move, hw]
    rw [writing_of_castle hcastle]
    exact play_of_read (Notation.parse_castle hleft hmarks hannotations hright w)
      fun c hc => castle_congr hc hcastle

/-- In all play, a granted move can be written: by both of its squares or, if it is a castle, by its
sign. With marks, annotations and blanks around it or without, the text is played as that move, with
the same record and the same game after it but for the title. -/
theorem written_is_played (ha : a.Begun) (qs : List Request)
    (hmove : (a.run qs).move src dst promotion = (.ok r, b)) :
    let title := r.writing promotion ++ marks ++ annotations
    ((a.run qs).play (String.ofList (left ++ title ++ right))).1 =
        .ok { r with text := String.ofList title } ∧
      ((a.run qs).play (String.ofList (left ++ title ++ right))).2.toGame =
        b.toGame.retitle (String.ofList title) :=
  play_writing hleft hmarks hannotations hright (ha.consistent_run qs) hmove

end padding

/-- The last of these moves brings a pawn of Black's beside one of White's. -/
def besideEachOther : List Request :=
  [.move ⟨4, 1⟩ ⟨4, 3⟩ none, .move ⟨0, 6⟩ ⟨0, 5⟩ none, .move ⟨4, 3⟩ ⟨4, 4⟩ none,
    .move ⟨3, 6⟩ ⟨3, 4⟩ none]

theorem passing_written_is_played :
    let a := (opening {}).run besideEachOther
    ∃ r b, a.move ⟨4, 4⟩ ⟨3, 5⟩ none = (.ok r, b) ∧
      (a.play " e5xd6+!? ").1 = .ok { r with text := "e5xd6+!?" } ∧
      (a.play " e5xd6+!? ").2.toGame = b.toGame.retitle "e5xd6+!?" := by
  dsimp only
  have hwriting : (((opening {}).run besideEachOther).move ⟨4, 4⟩ ⟨3, 5⟩ none).1.toOption.map
      (·.writing none) = some ['e', '5', 'x', 'd', '6'] := by
    decide +kernel
  rcases hmove : ((opening {}).run besideEachOther).move ⟨4, 4⟩ ⟨3, 5⟩ none with ⟨e | r, b⟩
  · rw [hmove] at hwriting
    cases hwriting
  · rw [hmove] at hwriting
    have hletters : r.writing none = ['e', '5', 'x', 'd', '6'] := Option.some.inj hwriting
    have hbegun : (opening {}).Begun := .inl ⟨_, rfl⟩
    have hblank : ∀ c ∈ [' '], Text.isBlank c = true := List.forall_mem_singleton.2 rfl
    have hmarks : ∀ c ∈ ['+'], Notation.isMark c = true := List.forall_mem_singleton.2 rfl
    have hannotations : ∀ c ∈ ['!', '?'], Notation.isAnnotation c = true :=
      List.forall_mem_cons.2 ⟨rfl, List.forall_mem_singleton.2 rfl⟩
    have hplayed :=
      written_is_played hblank hmarks hannotations hblank hbegun besideEachOther hmove
    have htitle : String.ofList (['e', '5', 'x', 'd', '6'] ++ ['+'] ++ ['!', '?']) =
      "e5xd6+!?" := rfl
    have htext : String.ofList
        ([' '] ++ (['e', '5', 'x', 'd', '6'] ++ ['+'] ++ ['!', '?']) ++ [' ']) =
      " e5xd6+!? " := rfl
    dsimp only at hplayed
    rw [hletters, htitle, htext] at hplayed
    exact ⟨r, b, rfl, hplayed⟩

end Arbiter

end ChessArbiter
