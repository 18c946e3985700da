import ChessArbiter.Proofs.Consistency

/-!
# Setting up positions

Men enlisted on different empty squares make a consistent game (`Consistent.enlistAll`). The
starting position is made so, and so is every position read from a text, because the reader visits
the squares in order and no square twice (`Setup.nodup_of_ofFen`).
-/

namespace ChessArbiter

namespace Setup

variable {fen : String} {s : Setup} {fields : List (List Char)} {cs : List Char}
  {men : List (Piece × Square)} {rank : Fin 8} {file : Nat}

/-- The square is still ahead of a reader that has come to `file` on `rank`. -/
def Ahead (rank : Fin 8) (file : Nat) (s : Square) : Prop :=
  s.rank < rank ∨ (s.rank = rank ∧ file ≤ s.file.val)

theorem readMen_nil (h : readMen rank file [] = .ok men) : men = [] ∧ rank = 0 ∧ file = 8 := by
  unfold readMen at h
  split_ifs at h with hend
  exact ⟨(Except.ok.inj h).symm, hend⟩

/-- A character ends a rank, skips squares or puts a man on the next square. -/
theorem readMen_cons {c : Char} (h : readMen rank file (c :: cs) = .ok men) :
    (c = '/' ∧ file = 8 ∧ rank ≠ 0 ∧ readMen (rank - 1) 0 cs = .ok men) ∨
      (('1' ≤ c ∧ c ≤ '8') ∧ file + (c.toNat - '0'.toNat) ≤ 8 ∧
        readMen rank (file + (c.toNat - '0'.toNat)) cs = .ok men) ∨
      ∃ p, ∃ hfile : file < 8, ∃ rest, Piece.ofSymbol? c = some p ∧
        readMen rank (file + 1) cs = .ok rest ∧ men = (p, ⟨⟨file, hfile⟩, rank⟩) :: rest := by
  unfold readMen at h
  by_cases hslash : c = '/'
  · rw [if_pos hslash] at h
    split_ifs at h with hend
    rw [not_or, not_not] at hend
    exact .inl ⟨hslash, hend.1, hend.2, h⟩
  · rw [if_neg hslash] at h
    by_cases hdigit : '1' ≤ c ∧ c ≤ '8'
    · rw [if_pos hdigit] at h
      dsimp only at h
      split_ifs at h with hroom
      exact .inr (.inl ⟨hdigit, Nat.le_of_not_lt hroom, h⟩)
    · rw [if_neg hdigit] at h
      split at h
      case h_1 => cases h
      case h_2 p hp =>
        by_cases hfile : file < 8
        · rw [dif_pos hfile] at h
          split at h
          case h_1 rest hrest =>
            exact .inr (.inr ⟨p, hfile, rest, hp, hrest, (Except.ok.inj h).symm⟩)
          case h_2 => cases h
        · rw [dif_neg hfile] at h
          cases h

theorem ahead_of_readMen (h : readMen rank file cs = .ok men) :
    ∀ e ∈ men, Ahead rank file e.2 := by
  induction cs generalizing rank file men with
  | nil =>
    rw [(readMen_nil h).1]
    exact nofun
  | cons c cs ih =>
    intro e he
    rcases readMen_cons h with ⟨_, _, hrank, hnext⟩ | ⟨_, _, hskip⟩ |
      ⟨p, hfile, rest, _, hrest, rfl⟩
    · -- the next rank lies wholly ahead
      have hbelow : rank - 1 < rank := Fin.sub_one_lt_iff.2 (Fin.pos_iff_ne_zero.2 hrank)
      left
      rcases ih hnext e he with hlt | ⟨heq, _⟩
      · exact hlt.trans hbelow
      · rwa [heq]
    · rcases ih hskip e he with hlt | ⟨heq, hle⟩
      · exact .inl hlt
      · exact .inr ⟨heq, le_trans (Nat.le_add_right _ _) hle⟩
    · rcases List.mem_cons.1 he with rfl | he
      · exact .inr ⟨rfl, le_rfl⟩
      · rcases ih hrest e he with hlt | ⟨heq, hle⟩
        · exact .inl hlt
        · exact .inr ⟨heq, Nat.le_of_succ_le hle⟩

theorem nodup_of_readMen (h : readMen rank file cs = .ok men) : (men.map Prod.snd).Nodup := by
  induction cs generalizing rank file men with
  | nil =>
    rw [(readMen_nil h).1]
    exact List.nodup_nil
  | cons c cs ih =>
    rcases readMen_cons h with ⟨_, _, _, hnext⟩ | ⟨_, _, hskip⟩ | ⟨p, hfile, rest, _, hrest, rfl⟩
    · exact ih hnext
    · exact ih hskip
    · rw [List.map_cons, List.nodup_cons]
      refine ⟨fun hmem => ?_, ih hrest⟩
      -- what is read later lies beyond this square
      obtain ⟨e, he, hes⟩ := List.mem_map.1 hmem
      have hahead := ahead_of_readMen hrest e he
      rw [hes] at hahead
      rcases hahead with hlt | ⟨_, hle⟩
      · exact lt_irrefl _ hlt
      · exact Nat.not_succ_le_self _ hle

theorem ok_of_bind {ε α β : Type} {x : Except ε α} {f : α → Except ε β} {y : β}
    (h : x >>= f = .ok y) : ∃ a, x = .ok a ∧ f a = .ok y := by
  cases x with
  | error e => cases h
  | ok a => exact ⟨a, rfl, h⟩

/-- What is read from the fields of a text that is accepted. -/
structure Describes (placement side : List Char) (rest : List (List Char)) (s : Setup) : Prop where
  men : readMen 7 0 placement = .ok s.men
  kings : oneKingEach s.men = true
  active : readSide side = .ok s.active
  rights : readRights (rest.getD 0 []) = .ok s.rights
  enPassant : readTarget (rest.getD 1 []) = .ok s.enPassant
  halfmove : readCounter 0 .halfmove (rest.getD 2 []) = .ok s.halfmove
  turn : readCounter 1 .turn (rest.getD 3 []) = .ok s.turn

theorem ofFields_eq_ok_iff : ofFields fields = .ok s ↔
    ∃ placement side rest, fields = placement :: side :: rest ∧
      Describes placement side rest s := by
  constructor
  · intro h
    unfold ofFields at h
    split at h
    case h_2 => cases h
    case h_1 placement side rest =>
      obtain ⟨men, hmen, h⟩ := ok_of_bind h
      dsimp only at h
      split_ifs at h with hkings
      · cases h
      obtain ⟨_, hactive, h⟩ := ok_of_bind h
      obtain ⟨_, hrights, h⟩ := ok_of_bind h
      obtain ⟨_, htarget, h⟩ := ok_of_bind h
      obtain ⟨_, hhalf, h⟩ := ok_of_bind h
      obtain ⟨_, hturn, h⟩ := ok_of_bind h
      obtain rfl := Except.ok.inj h
      have hone : oneKingEach men = true := by simpa using hkings
      exact ⟨placement, side, rest, rfl, hmen, hone, hactive, hrights, htarget, hhalf, hturn⟩
  · rintro ⟨placement, side, rest, rfl, h⟩
    simp only [ofFields, h.men, bind, Except.bind, h.kings, h.active, h.rights, h.enPassant,
      h.halfmove, h.turn]
    rfl

/-- A position text names no square twice. -/
theorem nodup_of_ofFen (h : ofFen fen = .ok s) : (s.men.map Prod.snd).Nodup := by
  obtain ⟨placement, side, rest, _, h⟩ := ofFields_eq_ok_iff.1 h
  exact nodup_of_readMen h.men

end Setup

namespace Game

variable {g : Game}

theorem Consistent.enlistAll (h : g.Consistent) {men : List (Piece × Square)}
    (hnodup : (men.map Prod.snd).Nodup)
    (hempty : ∀ e ∈ men, g.board.occupant e.2 = none) : (g.enlistAll men).Consistent := by
  induction men generalizing g with
  | nil => exact h
  | cons e men ih =>
    rw [List.map_cons, List.nodup_cons] at hnodup
    refine ih (h.enlist e.1 (hempty e List.mem_cons_self)) hnodup.2 fun e' he' => ?_
    rw [occupant_enlist, if_neg]
    · exact hempty e' (List.mem_cons_of_mem _ he')
    · intro heq
      exact hnodup.1 (heq ▸ List.mem_map_of_mem he')

theorem consistent_enlistAll_empty {men : List (Piece × Square)}
    (hnodup : (men.map Prod.snd).Nodup) : (empty.enlistAll men).Consistent := by
  refine consistent_empty.enlistAll hnodup fun e _ => ?_
  exact Board.occupant_empty e.2

theorem consistent_start : start.Consistent :=
  consistent_enlistAll_empty (by decide)

theorem consistent_setMovedAll (h : g.Consistent) (men : List Man) (x : Bool) :
    { g with toTable := men.foldl (fun t m => t.setMoved m x) g.toTable }.Consistent := by
  induction men generalizing g with
  | nil => exact h
  | cons m men ih => exact ih (h.setMoved m x)

theorem consistent_grantRight (h : g.Consistent) (c : Colour) (w : Wing) :
    (g.grantRight c w).Consistent := by
  unfold grantRight
  dsimp only
  split
  · exact (h.setMoved _ false).setMoved _ false
  · exact h

theorem consistent_grantRights (h : g.Consistent) (rights : List (Colour × Wing)) :
    (rights.foldl (fun g r => g.grantRight r.1 r.2) g).Consistent := by
  induction rights generalizing g with
  | nil => exact h
  | cons r rights ih => exact ih (consistent_grantRight h r.1 r.2)

theorem consistent_ofSetup {s : Setup} (hs : (s.men.map Prod.snd).Nodup) :
    (ofSetup s).Consistent := by
  have hspent : ((empty.enlistAll s.men).spendRights).Consistent :=
    consistent_setMovedAll (consistent_enlistAll_empty hs) _ true
  exact (consistent_grantRights hspent s.rights).congr rfl rfl rfl

end Game

end ChessArbiter
