import ChessArbiter.Proofs.Resolving

/-!
# What an arbiter tells

What an arbiter writes into its journal is followed as a list of announcements that each operation
adds to it (`Arbiter.Tells`). A completed move ends with a line for the turn and perhaps one for
check or mate, which tell of no capture or promotion (`Tells.finalize`); a step that is taken back
has been told of all the same (`carryOut_refused_tells`). In a scope nothing is heard, so moves are
tried out and written moves are resolved in silence (`keep_tells`, `resolve_tells`).
-/

namespace ChessArbiter

namespace Text

variable {part cs : List Char}

theorem occursIn_append_right (part before after : List Char) :
    occursIn part (before ++ (part ++ after)) = true := by
  induction before with
  | nil =>
    rw [List.nil_append]
    cases part with
    | nil => cases after <;> rfl
    | cons c part =>
      rw [List.cons_append, occursIn, Bool.or_eq_true, List.isPrefixOf_iff_prefix]
      exact .inl (List.prefix_append (c :: part) after)
  | cons c before ih =>
    rw [List.cons_append, occursIn, ih, Bool.or_true]

theorem mem_of_occursIn (h : occursIn part cs = true) {c : Char} (hc : c ∈ part) : c ∈ cs := by
  induction cs with
  | nil =>
    obtain rfl := List.isEmpty_iff.1 h
    exact hc
  | cons d cs ih =>
    rw [occursIn, Bool.or_eq_true, List.isPrefixOf_iff_prefix] at h
    rcases h with hprefix | hrest
    · exact hprefix.subset hc
    · exact List.mem_cons_of_mem d (ih hrest)

end Text

/-- The line tells of a capture or a promotion. -/
def isDeed (line : String) : Bool :=
  Text.occursIn " captures ".toList line.toList || Text.occursIn " promoted to ".toList line.toList

/-- None of the lines tells of a capture or a promotion. -/
def Routine (lines : List String) : Prop := ∀ line ∈ lines, isDeed line = false

/-- Both kinds of deed are told with a letter that no other line of a turn has. -/
theorem not_isDeed {line : String} (h : 'p' ∉ line.toList) : isDeed line = false := by
  rw [isDeed, Bool.or_eq_false_iff]
  constructor
  · exact Bool.eq_false_iff.2 fun hin => h (Text.mem_of_occursIn hin (by decide))
  · exact Bool.eq_false_iff.2 fun hin => h (Text.mem_of_occursIn hin (by decide))

theorem not_mem_toString (n : Int) : 'p' ∉ (toString n).toList := by
  have hdigits : ∀ k, 'p' ∉ Nat.toDigits 10 k := by
    intro k hp
    have hdigit := Nat.isDigit_of_mem_toDigits (by decide) le_rfl hp
    cases hdigit
  cases n with
  | ofNat n =>
    rw [Text.toList_toString_ofNat]
    exact hdigits n
  | negSucc n =>
    rw [Text.toList_toString_negSucc, List.mem_cons, not_or]
    exact ⟨by decide, hdigits (n + 1)⟩

theorem not_mem_name (s : Square) : 'p' ∉ s.name.toList := by
  rw [Setup.toList_name]
  obtain ⟨f, r⟩ := s
  revert f r
  decide

namespace Game

/-- What is told of a step that is made and then taken back. -/
def takenBack (g : Game) (src dst : Square) (promotion : Option PieceKind) : List String :=
  match g.assess src dst promotion with
  | .ok (.step s) =>
    if (g.execute s).2.inCheck s.man.colour then s.headlines (g.execute s).1 else []
  | _ => []

end Game

namespace Journal

variable {j : Journal} {level : LogLevel} {message : String}

def infos (j : Journal) : List String :=
  j.entries.toList.filterMap fun e => if e.1 = .info then some e.2 else none

@[simp] theorem threshold_write : (j.write level message).threshold = j.threshold := by
  unfold write
  split_ifs <;> rfl

theorem infos_write : (j.write level message).infos =
    j.infos ++ if level = .info ∧ j.enabled .info = true then [message] else [] := by
  unfold write
  by_cases hlevel : level = .info
  · subst hlevel
    split_ifs with hon hboth hboth
    · simp [infos]
    · exact absurd ⟨rfl, hon⟩ hboth
    · exact absurd hboth.2 hon
    · exact (List.append_nil _).symm
  · have hboth : ¬(level = .info ∧ j.enabled .info = true) := fun h => hlevel h.1
    rw [if_neg hboth, List.append_nil]
    split_ifs
    · simp [infos, hlevel]
    · rfl

end Journal

namespace Arbiter

variable {a b c : Arbiter} {lines lines' : List String} {message : String} {level : LogLevel}

def infos (a : Arbiter) : List String := a.journal.infos

/-- The journal of `b` is that of `a` with these announcements more. -/
structure Tells (a : Arbiter) (lines : List String) (b : Arbiter) : Prop where
  threshold : b.journal.threshold = a.journal.threshold
  infos : b.infos = a.infos ++ lines

theorem tells_nothing (h : b.journal = a.journal) : a.Tells [] b :=
  ⟨by rw [h], by rw [Arbiter.infos, h, List.append_nil]; rfl⟩

theorem Tells.trans (h : a.Tells lines b) (h' : b.Tells lines' c) : a.Tells (lines ++ lines') c :=
  ⟨h'.threshold.trans h.threshold, by rw [h'.infos, h.infos, List.append_assoc]⟩

/-- No scope is open, and the journal keeps announcements. -/
def heard (a : Arbiter) : Bool := a.depth == 0 && a.journal.enabled .info

/-- What is heard of some announcements. -/
def aloud (a : Arbiter) (lines : List String) : List String := if a.heard then lines else []

theorem heard_congr (hdepth : b.depth = a.depth)
    (hthreshold : b.journal.threshold = a.journal.threshold) : b.heard = a.heard := by
  unfold heard Journal.enabled
  rw [hdepth, hthreshold]

theorem aloud_congr (hdepth : b.depth = a.depth)
    (hthreshold : b.journal.threshold = a.journal.threshold) : b.aloud = a.aloud := by
  funext lines
  rw [aloud, aloud, heard_congr hdepth hthreshold]

theorem aloud_of_heard (h : a.heard = true) (lines : List String) : a.aloud lines = lines :=
  if_pos h

theorem aloud_append (a : Arbiter) (lines lines' : List String) :
    a.aloud (lines ++ lines') = a.aloud lines ++ a.aloud lines' := by
  unfold aloud
  split_ifs <;> rfl

theorem aloud_in_scope (h : 0 < a.depth) (lines : List String) : a.aloud lines = [] := by
  have hquiet : a.heard = false := by
    rw [heard, Bool.and_eq_false_iff, beq_eq_false_iff_ne]
    exact .inl (Nat.ne_of_gt h)
  rw [aloud, hquiet]
  rfl

theorem note_tells (a : Arbiter) (message : String) :
    a.Tells (a.aloud [message]) (a.note .info message) := by
  refine ⟨Journal.threshold_write, ?_⟩
  change (Journal.write _ _ _).infos = _
  rw [Journal.infos_write]
  refine congrArg _ ?_
  unfold aloud heard
  by_cases hdepth : 0 < a.depth
  · have hdemoted : 0 < a.depth ∧ LogLevel.info.rank < LogLevel.warning.rank := ⟨hdepth, by decide⟩
    simp [hdemoted, hdepth.ne']
  · simp [Nat.eq_zero_of_not_pos hdepth]

theorem note_tells_nothing (hlevel : level ≠ .info) (a : Arbiter) (message : String) :
    a.Tells [] (a.note level message) := by
  refine ⟨Journal.threshold_write, ?_⟩
  change (Journal.write _ _ _).infos = _
  rw [Journal.infos_write, if_neg]
  · rfl
  · rintro ⟨hinfo, -⟩
    split_ifs at hinfo
    exact hlevel hinfo

theorem announce_tells (a : Arbiter) (lines : List String) :
    a.Tells (a.aloud lines) (a.announce lines) := by
  induction lines generalizing a with
  | nil =>
    have hnone : a.aloud [] = [] := ite_self []
    rw [hnone]
    exact tells_nothing rfl
  | cons line lines ih =>
    have hfirst := a.note_tells line
    have hrest := ih (a.note .info line)
    have hsame : (a.note .info line).aloud = a.aloud := aloud_congr rfl hfirst.threshold
    rw [hsame] at hrest
    rw [← List.singleton_append, aloud_append]
    exact hfirst.trans hrest

/-! ### What a move tells -/

theorem finalize_tells (a : Arbiter) (r : MoveRecord) (resetClock : Bool) :
    ∃ lines, Routine lines ∧ a.Tells (a.aloud lines) (a.finalize r resetClock).2 := by
  have hmate : ∀ c : Colour,
      isDeed ("Checkmate: the " ++ c.label ++ " King has no escape square") = false := by
    intro c
    cases c <;> decide +kernel
  have hcheck : ∀ c : Colour, isDeed (c.label ++ " is in check") = false := by
    intro c
    cases c <;> decide +kernel
  let b : Arbiter := { a with toGame := a.toGame.logged r resetClock }
  have hb : a.Tells [] b := tells_nothing rfl
  have hsame : b.aloud = a.aloud := aloud_congr rfl rfl
  refine ⟨_, ?_, hsame ▸ hb.trans (b.announce_tells _)⟩
  intro line hline
  split_ifs at hline
  · exact List.mem_singleton.1 hline ▸ hmate _
  · exact List.mem_singleton.1 hline ▸ hcheck _
  · cases hline

theorem not_mem_turnHeading (a : Arbiter) (c : Colour) : 'p' ∉ (a.turnHeading c).toList := by
  have hfixed : 'p' ∉ "Turn ".toList ∧ 'p' ∉ "-".toList ∧ 'p' ∉ ": ".toList ∧
      'p' ∉ c.label.toList := by
    cases c <;> decide
  obtain ⟨hturn, hdash, hcolon, hlabel⟩ := hfixed
  simp only [turnHeading, String.toList_append, List.mem_append, not_or]
  exact ⟨⟨⟨⟨hturn, not_mem_toString _⟩, hdash⟩, hlabel⟩, hcolon⟩

/-- The line of the turn and what follows it are routine. -/
theorem Tells.finalize (h : a.Tells lines b) (hdepth : b.depth = a.depth) {line : String}
    (hline : 'p' ∉ line.toList) (r : MoveRecord) (resetClock : Bool) :
    ∃ rest, Routine rest ∧
      a.Tells (lines ++ a.aloud rest) ((b.note .info line).finalize r resetClock).2 := by
  have hturn := b.note_tells line
  obtain ⟨verdict, hroutine, hverdict⟩ := (b.note .info line).finalize_tells r resetClock
  have hsame : b.aloud = a.aloud := aloud_congr hdepth h.threshold
  have hnext : (b.note .info line).aloud = b.aloud := aloud_congr rfl hturn.threshold
  refine ⟨line :: verdict, List.forall_mem_cons.2 ⟨not_isDeed hline, hroutine⟩, ?_⟩
  rw [← List.singleton_append, aloud_append, ← hsame]
  refine h.trans (hturn.trans ?_)
  rw [← hnext]
  exact hverdict

variable {r : MoveRecord} {e : MoveError} {s : Step} {w : Wing} {src dst : Square}
  {promotion : Option PieceKind} {n : Notation}

theorem castle_granted_tells (h : a.castle w = (.ok r, b)) :
    ∃ rest, Routine rest ∧ a.Tells (a.aloud rest) b := by
  unfold castle at h
  dsimp only at h
  split_ifs at h
  · let c : Arbiter := { a with toGame := a.executeCastle (CastlePath.of a.active w) }
    have hc : a.Tells [] c := tells_nothing rfl
    have hdepth : c.depth = a.depth := (a.toGame.sameBooks_executeCastle _).depth
    have hline : 'p' ∉ (c.turnHeading a.active ++ "Castles " ++ w.label).toList := by
      have hfixed : 'p' ∉ "Castles ".toList ∧ 'p' ∉ w.label.toList := by cases w <;> decide
      simp only [String.toList_append, List.mem_append, not_or]
      exact ⟨⟨not_mem_turnHeading c a.active, hfixed.1⟩, hfixed.2⟩
    obtain ⟨rest, hroutine, hrest⟩ := hc.finalize hdepth hline
      (Game.castleRecord a.active w) false
    rw [(Prod.mk.inj h).2.symm]
    exact ⟨rest, hroutine, hrest⟩
  · cases h

theorem refuse_tells (a : Arbiter) (e : MoveError) :
    a.Tells [] (a.refuse e : Except MoveError MoveRecord × Arbiter).2 := by
  have hdebug : LogLevel.debug ≠ .info := nofun
  exact note_tells_nothing hdebug a e.describe

theorem castle_refused_tells (h : a.castle w = (.error e, b)) : a.Tells [] b := by
  unfold castle at h
  dsimp only at h
  split_ifs at h
  · have hr := congrArg Prod.fst h
    rw [finalize_fst] at hr
    cases hr
  · rw [(Prod.mk.inj h).2.symm]
    exact refuse_tells a _

/-- The arbiter that has made a step and told of it, whether or not it lets it stand. -/
def stepped (a : Arbiter) (s : Step) : Arbiter :=
  announce { toGame := (a.execute s).2, journal := a.journal } (s.headlines (a.execute s).1)

theorem depth_stepped (a : Arbiter) (s : Step) : (a.stepped s).depth = a.depth := by
  rw [stepped, toGame_announce]
  exact (a.toGame.sameBooks_execute s).depth

theorem stepped_tells (a : Arbiter) (s : Step) :
    a.Tells (a.aloud (s.headlines (a.execute s).1)) (a.stepped s) := by
  let c : Arbiter := { toGame := (a.execute s).2, journal := a.journal }
  have hmade : a.Tells [] c := tells_nothing rfl
  have hsame : c.aloud = a.aloud := aloud_congr (a.toGame.sameBooks_execute s).depth rfl
  exact hsame ▸ hmade.trans (announce_tells _ _)

theorem carryOut_granted_tells (h : a.carryOut s = (.ok r, b)) :
    ∃ rest, Routine rest ∧ a.Tells (a.aloud (s.headlines (a.execute s).1 ++ rest)) b := by
  have hline : 'p' ∉
      ((a.stepped s).turnHeading s.man.colour ++ s.src.name ++ " to " ++ s.dst.name).toList := by
    have hto : 'p' ∉ " to ".toList := by decide
    simp only [String.toList_append, List.mem_append, not_or]
    exact ⟨⟨⟨not_mem_turnHeading _ _, not_mem_name _⟩, hto⟩, not_mem_name _⟩
  obtain ⟨rest, hroutine, hrest⟩ := (a.stepped_tells s).finalize (a.depth_stepped s) hline
    (s.record (a.execute s).1) (s.man.kind == .pawn || (a.execute s).1.isSome)
  rw [← aloud_append] at hrest
  unfold carryOut at h
  dsimp only at h
  split_ifs at h
  · cases h
  · rw [(Prod.mk.inj h).2.symm]
    exact ⟨rest, hroutine, hrest⟩

/-- A step that is taken back has been told of already. -/
theorem carryOut_refused_tells (h : a.carryOut s = (.error e, b)) :
    a.Tells (a.aloud (s.headlines (a.execute s).1)) b := by
  have hback : (a.stepped s).Tells [] ((a.stepped s).restoreTo a.snapshot) := tells_nothing rfl
  have htold := (a.stepped_tells s).trans hback
  rw [List.append_nil] at htold
  unfold carryOut at h
  dsimp only at h
  split_ifs at h
  · have hrefused := htold.trans (refuse_tells _ e)
    obtain ⟨he, hb⟩ := Prod.mk.inj h
    rw [List.append_nil, ← Except.error.inj he] at hrefused
    rw [← hb]
    exact hrefused
  · have hr := congrArg Prod.fst h
    rw [finalize_fst] at hr
    cases hr

theorem move_refused_tells (h : a.move src dst promotion = (.error e, b)) :
    a.Tells (a.aloud (a.takenBack src dst promotion)) b ∧
      (a.takenBack src dst promotion ≠ [] → e.kind = .selfCheck) := by
  have hnone : a.aloud [] = [] := ite_self []
  unfold move at h
  unfold Game.takenBack
  split at h
  case h_1 e' he =>
    obtain ⟨-, rfl⟩ := Prod.mk.inj h
    rw [he, hnone]
    exact ⟨refuse_tells a e', fun hne => absurd rfl hne⟩
  case h_2 w hw =>
    rw [hw, hnone]
    exact ⟨castle_refused_tells h, fun hne => absurd rfl hne⟩
  case h_3 s hs =>
    have hcheck := (carryOut_error h).1
    rw [hs]
    dsimp only
    rw [if_pos hcheck]
    exact ⟨carryOut_refused_tells h, fun _ => kind_of_carryOut_error h⟩

/-! ### Trying out is silent -/

theorem move_in_scope_tells (hdepth : 0 < a.depth) (src dst : Square)
    (promotion : Option PieceKind) : a.Tells [] (a.move src dst promotion).2 := by
  have hquiet : ∀ lines, a.aloud lines = [] := aloud_in_scope hdepth
  rcases hmove : a.move src dst promotion with ⟨e | r, b⟩
  · have hrefused := (move_refused_tells hmove).1
    rwa [hquiet] at hrefused
  · unfold move at hmove
    split at hmove
    case h_1 => cases hmove
    case h_2 w hw =>
      obtain ⟨rest, -, hrest⟩ := castle_granted_tells hmove
      rwa [hquiet] at hrest
    case h_3 s hs =>
      obtain ⟨rest, -, hrest⟩ := carryOut_granted_tells hmove
      rwa [hquiet] at hrest

theorem tryCandidate_tells (dst : Square) (promotion : Option PieceKind) (c : Man × Square)
    (hdepth : 0 < a.depth) : a.Tells [] (tryCandidate dst promotion c a).2 := by
  have hmove := move_in_scope_tells hdepth c.2 dst promotion
  have htrace : LogLevel.trace ≠ .info := nofun
  unfold tryCandidate
  split
  case h_1 b h =>
    rw [h] at hmove
    exact hmove
  case h_2 e b h =>
    rw [h] at hmove
    exact hmove.trans (note_tells_nothing htrace b _)

theorem keep_tells {β : Type} {attempt : β → Arbiter → Bool × Arbiter}
    (hattempt : ∀ x (b : Arbiter), 0 < b.depth → b.Tells [] (attempt x b).2) (xs : List β)
    (a : Arbiter) : a.Tells [] (keep attempt xs a).2 := by
  induction xs generalizing a with
  | nil => exact tells_nothing rfl
  | cons x xs ih =>
    have hopen : a.Tells [] a.openScope.2 := tells_nothing rfl
    have htried := hopen.trans (hattempt x a.openScope.2 (Nat.succ_pos a.depth))
    have hback : (attempt x a.openScope.2).2.Tells [] (a.speculate (attempt x)).2 :=
      tells_nothing rfl
    exact (htried.trans hback).trans (ih (a.speculate (attempt x)).2)

theorem resolveTo_tells (a : Arbiter) (n : Notation) (dst : Square) :
    a.Tells [] (a.resolveTo n dst).2 := by
  have hdebug : LogLevel.debug ≠ .info := nofun
  have hchoose : ∀ (b : Arbiter) men, b.Tells [] (b.choose n dst men).2 := by
    intro b men
    unfold choose
    split
    · exact tells_nothing rfl
    · exact note_tells_nothing hdebug b _
    · exact tells_nothing rfl
  unfold resolveTo
  dsimp only
  split_ifs
  · exact tells_nothing rfl
  · exact note_tells_nothing hdebug a _
  · have hfound := note_tells_nothing hdebug a ("Found " ++ toString (a.candidates n).length
      ++ " possible " ++ n.piece.plural ++ " for '" ++ n.text ++ "'")
    have hkept := hfound.trans (keep_tells (fun c _ => tryCandidate_tells dst n.promotion c)
      (a.located (a.candidates n)) _)
    exact hkept.trans (hchoose _ _)

theorem resolve_tells (a : Arbiter) (n : Notation) : a.Tells [] (a.resolve n).2 := by
  unfold resolve
  split
  · dsimp only
    split_ifs <;> exact tells_nothing rfl
  · exact tells_nothing rfl
  · exact a.resolveTo_tells n _

end Arbiter

end ChessArbiter
