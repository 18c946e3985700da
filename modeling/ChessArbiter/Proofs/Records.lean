import ChessArbiter.Proofs.MoveLog

/-!
# What a record says

The flag packed into a record is read back whole (`Step.flag_record`), and its bits tell what the
step did: a capture bit for a man taken, a promotion bit for a pawn exchanged, and the flag of a
double push for the step that leaves a target behind (`Admits.flag_eq_doublePush`). A turn is an
admitted step or an open castle, and its record is that of the one or the other (`Plays.cases`).
Every record of a log that began empty is the answer to a request of the run (`answer_of_logged`).
-/

namespace ChessArbiter

/-- What the flag of a promotion says and what it does not. -/
theorem MoveFlag.promotion_bits {k : PieceKind} (hk : k.isOfficer = true) (capture : Bool) :
    (promotion k capture &&& MoveFlag.capture != 0) = capture ∧
      (promotion k capture &&& promotionBit != 0) = true ∧
      promotion k capture ≠ kingCastle ∧ promotion k capture ≠ queenCastle ∧
      promotion k capture ≠ doublePush ∧ promotion k capture ≠ enPassant := by
  revert hk
  cases k <;> cases capture <;> decide

namespace Step

variable {s : Step} {victim : Option Man}

theorem src_record (s : Step) (victim : Option Man) : (s.record victim).move.src = s.src :=
  Move.src_ofParts s.src s.dst _

theorem dst_record (s : Step) (victim : Option Man) : (s.record victim).move.dst = s.dst :=
  Move.dst_ofParts s.src s.dst _

theorem flag_of_some {k : PieceKind} (hb : s.becomes = some k) (victim : Option Man) :
    s.flag victim = .promotion k victim.isSome := by
  unfold flag
  rw [hb]

theorem flag_of_none (hb : s.becomes = none) (victim : Option Man) :
    s.flag victim = if s.passing then .enPassant else if victim.isSome then .capture
      else if s.isDoublePush then .doublePush else .quiet := by
  unfold flag
  rw [hb]

section bits

variable (hs : ∀ k, s.becomes = some k → k.isOfficer = true)

include hs

theorem flag_record (victim : Option Man) : (s.record victim).move.flag = s.flag victim := by
  cases hb : s.becomes with
  | some k =>
    unfold record
    rw [flag_of_some hb]
    exact Arbiter.flag_promotion _ _ (hs k hb) _
  | none =>
    apply Move.flag_ofParts
    rw [flag_of_none hb]
    split_ifs <;> decide

theorem isCapture_record (hp : s.passing = true → victim.isSome = true) :
    (s.record victim).move.isCapture = victim.isSome := by
  unfold Move.isCapture
  rw [flag_record hs]
  cases hb : s.becomes with
  | some k =>
    rw [flag_of_some hb]
    exact (MoveFlag.promotion_bits (hs k hb) _).1
  | none =>
    rw [flag_of_none hb]
    split_ifs with hpassing hvictim
    · rw [hp hpassing]
      rfl
    · rw [hvictim]
      rfl
    · rw [Bool.eq_false_of_not_eq_true hvictim]
      rfl
    · rw [Bool.eq_false_of_not_eq_true hvictim]
      rfl

theorem isPromotion_record : (s.record victim).move.isPromotion = s.becomes.isSome := by
  unfold Move.isPromotion
  rw [flag_record hs]
  cases hb : s.becomes with
  | some k =>
    rw [flag_of_some hb]
    exact (MoveFlag.promotion_bits (hs k hb) _).2.1
  | none =>
    rw [flag_of_none hb]
    split_ifs <;> rfl

theorem isCastle_record : (s.record victim).move.isCastle = false := by
  unfold Move.isCastle
  rw [flag_record hs]
  cases hb : s.becomes with
  | some k =>
    obtain ⟨-, -, hking, hqueen, -⟩ := MoveFlag.promotion_bits (hs k hb) victim.isSome
    rw [flag_of_some hb, beq_false_of_ne hking, beq_false_of_ne hqueen]
    rfl
  | none =>
    rw [flag_of_none hb]
    split_ifs <;> rfl

theorem flag_record_eq_doublePush :
    (s.record victim).move.flag = .doublePush ↔
      s.becomes = none ∧ s.passing = false ∧ victim = none ∧ s.isDoublePush = true := by
  rw [flag_record hs]
  cases hb : s.becomes with
  | some k =>
    rw [flag_of_some hb]
    exact iff_of_false (MoveFlag.promotion_bits (hs k hb) _).2.2.2.2.1 nofun
  | none =>
    rw [flag_of_none hb]
    split_ifs with hpassing hvictim hpush
    · exact iff_of_false (by decide) (by simp [hpassing])
    · exact iff_of_false (by decide) fun h => by simp [h.2.2.1] at hvictim
    · exact iff_of_true rfl ⟨rfl, by simpa using hpassing, by simpa using hvictim, hpush⟩
    · exact iff_of_false (by decide) fun h => hpush h.2.2.2

theorem flag_record_eq_enPassant :
    (s.record victim).move.flag = .enPassant ↔ s.becomes = none ∧ s.passing = true := by
  rw [flag_record hs]
  cases hb : s.becomes with
  | some k =>
    rw [flag_of_some hb]
    exact iff_of_false (MoveFlag.promotion_bits (hs k hb) _).2.2.2.2.2 nofun
  | none =>
    rw [flag_of_none hb]
    split_ifs with hpassing
    · exact iff_of_true rfl ⟨rfl, hpassing⟩
    · exact iff_of_false (by decide) fun h => hpassing h.2
    · exact iff_of_false (by decide) fun h => hpassing h.2
    · exact iff_of_false (by decide) fun h => hpassing h.2

end bits

end Step

namespace Game

variable {g g' : Game} {s : Step} {r : MoveRecord}

namespace Admits

theorem isSome_of_passing (hs : g.Admits s) (h : g.Coherent) (hp : s.passing = true) :
    (g.execute s).1.isSome = true := by
  rw [isSome_victim hs h, hp]
  rfl

/-- The flag of a double push is that of the step that leaves a target behind. -/
theorem flag_eq_doublePush (hs : g.Admits s) (h : g.Coherent) :
    (s.record (g.execute s).1).move.flag = .doublePush ↔
      s.man.doublePush s.src s.dst = true := by
  have hfwd : s.man.colour.forward.natAbs = 1 := by cases s.man.colour <;> rfl
  rw [Step.flag_record_eq_doublePush hs.officer]
  constructor
  · rintro ⟨-, -, -, hpush⟩
    rw [Step.isDoublePush, Bool.and_eq_true, beq_iff_eq, beq_iff_eq] at hpush
    obtain ⟨hk, hranks⟩ := hpush
    rcases pawn_step h hs.source hk hs.foe hs.rules with hone | ⟨next, hnext, hdst, _⟩ | ⟨_, hr⟩
    · have hr := (Square.ahead_iff.1 hone).2
      omega
    · have htwo := Square.two_ahead_iff.2 ⟨next, hnext, hdst⟩
      exact (hs.double_iff h).1 ⟨hk, (Square.ahead_iff.1 htwo).1, hranks⟩
    · omega
  · intro hd
    obtain ⟨hk, hfiles, hranks⟩ := (hs.double_iff h).2 hd
    have hpassing : s.passing = false := by
      rw [← Bool.not_eq_true, hs.passing_iff h hk, Square.files_sub] at *
      intro hp
      apply hp.2
      rw [Fin.ext_iff]
      omega
    have hempty : g.board.isEmpty s.dst = true := by
      by_contra hfull
      exact hs.ranks_of_capture h hk (by simpa using hfull) hranks
    -- nobody is taken on an empty square unless in passing
    have hvictim := isSome_victim hs h
    rw [hpassing, hempty] at hvictim
    refine ⟨(hs.double_push h hd).2.1, hpassing, by simpa using hvictim, ?_⟩
    rw [Step.isDoublePush, hk, hranks]
    rfl

theorem isSome_target (hs : g.Admits s) (h : g.Coherent) :
    (g.execute s).2.enPassant.isSome = true ↔
      (s.record (g.execute s).1).move.flag = .doublePush := by
  rw [hs.flag_eq_doublePush h, enPassant_execute hs h]
  split_ifs with hd
  · obtain ⟨_, _, next, hnext, _⟩ := hs.double_push h hd
    rw [hnext]
    exact iff_of_true rfl hd
  · exact iff_of_false nofun hd

end Admits

/-! ### Whom a turn captures -/

theorem captured_take (g : Game) (u : Square) (c : Colour) :
    (g.take u).captured.get c =
      g.captured.get c ++ ((g.board.occupant u).filter (·.colour == c)).toList := by
  unfold take
  cases g.board.occupant u with
  | none => exact (List.append_nil _).symm
  | some v =>
    change (g.captured.modify v.colour (· ++ [v])).get c = _
    rw [Sides.get_modify, Option.filter_some]
    by_cases hc : c = v.colour
    · rw [if_pos hc, if_pos (beq_iff_eq.2 hc.symm)]
      rfl
    · rw [if_neg hc, if_neg (by simpa using Ne.symm hc)]
      exact (List.append_nil _).symm

theorem captured_execute (hs : g.Admits s) (h : g.Coherent) (c : Colour) :
    (g.execute s).2.captured.get c =
      g.captured.get c ++ ((g.execute s).1.filter (·.colour == c)).toList := by
  have hpromote : ∀ g' : Game, (g'.promote s).captured = g'.captured := by
    intro g'
    unfold promote
    cases s.becomes <;> rfl
  rw [execute_snd, hpromote, fst_execute hs h, ← captured_take]
  change (g.advance s).2.captured.get c = _
  rw [advance_eq hs h]

theorem src_castleRecord (c : Colour) (w : Wing) :
    (castleRecord c w).move.src = (CastlePath.of c w).kingFrom := Move.src_ofParts _ _ _

theorem dst_castleRecord (c : Colour) (w : Wing) :
    (castleRecord c w).move.dst = (CastlePath.of c w).kingTo := Move.dst_ofParts _ _ _

theorem flag_castleRecord (c : Colour) (w : Wing) :
    (castleRecord c w).move.flag = .castle w := by
  apply Move.flag_ofParts
  cases w <;> decide

/-- A castle's record is not that of a pawn's move. -/
theorem flag_castleRecord_ne (c : Colour) (w : Wing) :
    (castleRecord c w).move.flag ≠ .doublePush ∧ (castleRecord c w).move.flag ≠ .enPassant := by
  rw [flag_castleRecord]
  cases w <;> decide

/-- A turn is an admitted step or an open castle, and enters the record of the one or the other. -/
theorem Plays.cases (t : g.Plays r g') :
    (∃ s, g.Admits s ∧ g' = g.afterStep s ∧
      r = (g.execute s).2.entry (s.record (g.execute s).1)
        (s.man.kind == .pawn || (g.execute s).1.isSome)) ∨
    ∃ w, g.canCastle g.active w = true ∧ g' = g.afterCastle w ∧
      r = (g.executeCastle (CastlePath.of g.active w)).entry (castleRecord g.active w) false := by
  obtain ⟨hturn, hmoves⟩ := t
  cases hturn with
  | @step _ _ _ s hs _ =>
    left
    exact ⟨s, (admits_of_assess hs).1, rfl, entry_unique (hmoves.symm.trans (moves_afterStep g s))⟩
  | @castle w hw =>
    right
    exact ⟨w, hw, rfl, entry_unique (hmoves.symm.trans (moves_afterCastle g w))⟩

end Game

namespace Arbiter

variable {a b : Arbiter} {r : MoveRecord} {q : Request} {qs : List Request}

theorem run_append (a : Arbiter) (first rest : List Request) :
    a.run (first ++ rest) = (a.run first).run rest := List.foldl_append

theorem moves_answer (h : a.answer q = (.ok r, b)) : b.moves = a.moves ++ [r] := by
  obtain ⟨g', title, _, hb⟩ := answer_plays h
  rw [hb]

/-- A record of the log is the answer to a request of the run, made when the records before it had
been entered. -/
theorem answer_of_logged {before after : List MoveRecord}
    (h : (a.run qs).moves = a.moves ++ before ++ r :: after) :
    ∃ first q rest b, qs = first ++ q :: rest ∧ (a.run first).moves = a.moves ++ before ∧
      (a.run first).answer q = (.ok r, b) := by
  -- on the last request: either the record is its own, or it was there before
  induction qs using List.reverseRecOn generalizing after with
  | nil =>
    have hlength := congrArg List.length h
    simp [run] at hlength
  | append_singleton qs q ih =>
    rw [run_append] at h
    rcases hq : (a.run qs).answer q with ⟨e | r', b⟩
    · have hsame : ((a.run qs).run [q]).moves = (a.run qs).moves := by
        change ((a.run qs).answer q).2.moves = _
        rw [hq, (answer_error hq).1]
      obtain ⟨first, q', rest, b', hqs, hfirst, hanswer⟩ := ih (hsame.symm.trans h)
      exact ⟨first, q', rest ++ [q], b', by simp [hqs], hfirst, hanswer⟩
    · have hlast : ((a.run qs).run [q]).moves = (a.run qs).moves ++ [r'] := by
        change ((a.run qs).answer q).2.moves = _
        rw [hq]
        exact moves_answer hq
      rw [hlast] at h
      cases after using List.reverseRecOn with
      | nil =>
        obtain ⟨hbefore, hr⟩ := List.append_inj' h rfl
        obtain rfl := List.singleton_inj.1 hr
        exact ⟨qs, q, [], b, rfl, hbefore, hq⟩
      | append_singleton after last _ =>
        rw [← List.cons_append, ← List.append_assoc] at h
        obtain ⟨hbefore, _⟩ := List.append_inj' h rfl
        obtain ⟨first, q', rest, b', hqs, hfirst, hanswer⟩ := ih hbefore
        exact ⟨first, q', rest ++ [q], b', by simp [hqs], hfirst, hanswer⟩

theorem length_moves_le_run (a : Arbiter) (qs : List Request) :
    a.moves.length ≤ (a.run qs).moves.length := by
  induction qs generalizing a with
  | nil => exact le_rfl
  | cons q qs ih =>
    have hrest := ih (a.answer q).2
    rcases hq : a.answer q with ⟨e | r, b⟩
    · rw [hq, (answer_error hq).1] at hrest
      rw [run_cons, hq]
      exact hrest
    · rw [hq, moves_answer hq, List.length_append] at hrest
      rw [run_cons, hq]
      exact (Nat.le_add_right _ _).trans hrest

theorem toGame_run_of_moves (h : (a.run qs).moves = a.moves) : (a.run qs).toGame = a.toGame := by
  induction qs generalizing a with
  | nil => rfl
  | cons q qs ih =>
    rw [run_cons] at h ⊢
    rcases hq : a.answer q with ⟨e | r, b⟩
    · rw [hq] at h
      rw [← (answer_error hq).1]
      apply ih
      rw [h, (answer_error hq).1]
    · -- a granted request has entered its record for good
      have hlength := length_moves_le_run b qs
      rw [hq] at h
      rw [h, moves_answer hq, List.length_append, List.length_singleton] at hlength
      omega

end Arbiter

end ChessArbiter
