import ChessArbiter.Proofs.Abstraction
import ChessArbiter.Proofs.Fields

/-!
# Games set up from a text

The board of a game that was set up shows the men of its setup, each on his square
(`piece_ofSetup`), with one king on each side if the setup has them. Of kings and rooks all marks
are made first and some taken back: a mark is off just if a granted right found its king and its
rook at home (`hasMoved_grantRights`). The two castles of a side share their king but not their
rooks, and so exactly the granted rights reappear (`hasRight_ofSetup`).
-/

namespace ChessArbiter

theorem CastlePath.rookFrom_inj {c : Colour} {w v : Wing}
    (h : (of c w).rookFrom = (of c v).rookFrom) : w = v := by
  revert h
  cases c <;> cases w <;> cases v <;> decide

namespace Setup

theorem oneKingEach_iff {men : List (Piece × Square)} (hnodup : (men.map Prod.snd).Nodup) :
    oneKingEach men = true ↔
      ∀ c, ∃ u, (⟨.king, c⟩, u) ∈ men ∧ ∀ v, (⟨.king, c⟩, v) ∈ men → v = u := by
  have hcount : ∀ p, men.countP (·.1 == p) = 1 ↔
      ∃ u, (p, u) ∈ men ∧ ∀ v, (p, v) ∈ men → v = u := by
    intro p
    rw [Game.countP_eq_one_iff (List.Nodup.of_map _ hnodup)]
    simp only [beq_iff_eq]
    constructor
    · rintro ⟨⟨_, u⟩, hu, rfl, huniq⟩
      exact ⟨u, hu, fun v hv => congrArg Prod.snd (huniq _ hv rfl)⟩
    · rintro ⟨u, hu, huniq⟩
      refine ⟨_, hu, rfl, ?_⟩
      rintro ⟨_, v⟩ hv rfl
      rw [huniq v hv]
  unfold oneKingEach
  rw [Bool.and_eq_true, beq_iff_eq, beq_iff_eq, hcount, hcount]
  constructor
  · rintro ⟨hwhite, hblack⟩ c
    cases c with
    | white => exact hwhite
    | black => exact hblack
  · exact fun h => ⟨h .white, h .black⟩

end Setup

namespace Game

variable {g g' : Game} {s : Setup} {men : List (Piece × Square)} {p : Piece} {u : Square}
  {c : Colour} {w : Wing} {k r y : Man}

/-! ### Who stands where -/

theorem piece_enlist (g : Game) (p : Piece) (s u : Square) :
    (g.enlist p s).2.board.piece u = if u = s then some p else g.board.piece u := by
  rw [Board.piece, occupant_enlist]
  split_ifs <;> rfl

theorem piece_enlistAll (hnodup : (men.map Prod.snd).Nodup) :
    (g.enlistAll men).board.piece u = some p ↔
      (p, u) ∈ men ∨ (g.board.piece u = some p ∧ u ∉ men.map Prod.snd) := by
  induction men generalizing g with
  | nil => simp [enlistAll]
  | cons e men ih =>
    rw [List.map_cons, List.nodup_cons] at hnodup
    refine (ih hnodup.2).trans ?_
    rw [piece_enlist, List.mem_cons, List.map_cons, List.mem_cons]
    by_cases hu : u = e.2
    · subst hu
      have hlater : (p, e.2) ∉ men := fun h => hnodup.1 (List.mem_map.2 ⟨_, h, rfl⟩)
      simp only [hlater, hnodup.1, if_true, false_or, or_false, not_false_iff, and_true,
        not_true, and_false, Option.some.injEq, Prod.ext_iff, eq_comm]
    · have hne : (p, u) ≠ e := fun h => hu (congrArg Prod.snd h)
      simp only [hu, hne, if_false, false_or]

theorem hasOneKing_iff_piece (h : g.Consistent) : g.HasOneKing c ↔
    ∃ u, g.board.piece u = some ⟨.king, c⟩ ∧
      ∀ v, g.board.piece v = some ⟨.king, c⟩ → v = u := by
  have hking : ∀ {m : Man} {u}, g.board.occupant u = some m → m.toPiece = ⟨.king, c⟩ →
      m ∈ g.live.get c ∧ m.kind = .king := by
    intro m u hm hp
    have hc : m.colour = c := congrArg Piece.colour hp
    exact ⟨hc ▸ h.live_of_occupant hm, congrArg Piece.kind hp⟩
  rw [hasOneKing_iff h.toCoherent]
  simp only [piece_eq_some]
  constructor
  · rintro ⟨k, hlive, hkind, huniq⟩
    obtain ⟨u, hsq, hu⟩ := h.exists_occupant hlive
    refine ⟨u, ⟨k, hu, ?_⟩, ?_⟩
    · rw [← hkind, ← h.live_colour c k hlive]
    · rintro v ⟨y, hv, hp⟩
      obtain ⟨hylive, hykind⟩ := hking hv hp
      obtain rfl := huniq y hylive hykind
      exact h.occupant_unique hv hu rfl
  · rintro ⟨u, ⟨k, hu, hp⟩, huniq⟩
    obtain ⟨hlive, hkind⟩ := hking hu hp
    refine ⟨k, hlive, hkind, fun y hy hyk => ?_⟩
    obtain ⟨v, hsq, hv⟩ := h.exists_occupant hy
    have hyp : y.toPiece = ⟨.king, c⟩ := by rw [← hyk, ← h.live_colour c y hy]
    obtain rfl := huniq v ⟨y, hv, hyp⟩
    rw [hu, Option.some.injEq] at hv
    exact hv.symm

/-! ### Marks -/

theorem board_setMovedAll (t : Table) (men : List Man) (x : Bool) :
    (men.foldl (fun t m => t.setMoved m x) t).board = t.board := by
  induction men generalizing t with
  | nil => rfl
  | cons m men ih => exact ih (t.setMoved m x)

theorem hasMoved_setMovedAll {t : Table} {men : List Man} (hmen : ∀ m ∈ men, m.id < t.roster.size)
    (hy : y ∈ men ∨ t.hasMoved y = true) :
    (men.foldl (fun t m => t.setMoved m true) t).hasMoved y = true := by
  induction men generalizing t with
  | nil => exact hy.resolve_left List.not_mem_nil
  | cons m men ih =>
    have hm := hmen m List.mem_cons_self
    refine ih (fun m' hm' => ?_) ?_
    · rw [Table.size_setMoved]
      exact hmen m' (List.mem_cons_of_mem m hm')
    · rw [Table.hasMoved_setMoved _ hm]
      rcases hy with hy | hy
      · rcases List.mem_cons.1 hy with rfl | hy
        · exact .inr (if_pos rfl)
        · exact .inl hy
      · right
        split_ifs
        · rfl
        · exact hy

theorem board_spendRights (g : Game) : g.spendRights.board = g.board :=
  board_setMovedAll g.toTable _ true

/-- Once the rights are spent, every king and every rook counts as moved. -/
theorem hasMoved_spendRights (h : g.Consistent) (hu : g.board.occupant u = some y)
    (hk : y.kind = .king ∨ y.kind = .rook) : g.spendRights.hasMoved y = true := by
  have hsides : ∀ {m}, m ∈ g.live.white ++ g.live.black ↔ m ∈ g.live.get m.colour :=
    mem_sides h.live_colour
  refine hasMoved_setMovedAll (fun m hm => ?_) (.inl ?_)
  · exact h.enrolled m (.inl (hsides.1 (List.mem_filter.1 hm).1))
  · refine List.mem_filter.2 ⟨hsides.2 (h.live_of_occupant hu), ?_⟩
    simpa using hk

theorem hasMoved_setMovedAll_of_ne {t : Table} {men : List Man} (x : Bool)
    (hmen : ∀ m ∈ men, m.id < t.roster.size ∧ y.id ≠ m.id) :
    (men.foldl (fun t m => t.setMoved m x) t).hasMoved y = t.hasMoved y := by
  induction men generalizing t with
  | nil => rfl
  | cons m men ih =>
    obtain ⟨hm, hne⟩ := hmen m List.mem_cons_self
    refine (ih fun m' hm' => ?_).trans ?_
    · rw [Table.size_setMoved]
      exact hmen m' (List.mem_cons_of_mem m hm')
    · rw [Table.hasMoved_setMoved _ hm, if_neg hne]

/-- Spending the rights marks nobody else. -/
theorem hasMoved_spendRights_of_pawn (h : g.Consistent) (hu : g.board.occupant u = some y)
    (hk : y.kind = .pawn) : g.spendRights.hasMoved y = g.hasMoved y := by
  refine hasMoved_setMovedAll_of_ne true fun m hm => ?_
  obtain ⟨hlive, hkind⟩ := List.mem_filter.1 hm
  have hknown := h.knows_of_live ((mem_sides h.live_colour).1 hlive)
  refine ⟨h.enrolled m hknown, fun hid => ?_⟩
  obtain rfl := h.id_inj y m (h.knows_of_occupant hu) hknown hid
  rw [hk] at hkind
  cases hkind

theorem hasMoved_enlistAll (hfresh : ∀ y, g.hasMoved y = false) (men : List (Piece × Square))
    (y : Man) : (g.enlistAll men).hasMoved y = false := by
  induction men generalizing g with
  | nil => exact hfresh y
  | cons e men ih =>
    refine ih fun y => ?_
    rw [hasMoved_enlist, hfresh y]
    exact ite_self false

theorem homeMan_eq_some {kind : PieceKind} : g.homeMan c kind u = some y ↔
    g.board.occupant u = some y ∧ y.kind = kind ∧ y.colour = c := by
  simp only [homeMan, Option.filter_eq_some_iff, Bool.and_eq_true, beq_iff_eq]

theorem exists_atHome_iff : (∃ k r, g.AtHome c w k r) ↔
    g.board.piece (CastlePath.of c w).kingFrom = some ⟨.king, c⟩ ∧
      g.board.piece (CastlePath.of c w).rookFrom = some ⟨.rook, c⟩ := by
  rw [piece_eq_some, piece_eq_some]
  constructor
  · rintro ⟨k, r, hk, hkk, rfl, hr, hrk, hrc⟩
    exact ⟨⟨k, hk, by rw [← hkk]⟩, r, hr, by rw [← hrk, ← hrc]⟩
  · rintro ⟨⟨k, hk, hkp⟩, r, hr, hrp⟩
    exact ⟨k, r, hk, congrArg Piece.kind hkp, congrArg Piece.colour hkp, hr,
      congrArg Piece.kind hrp, congrArg Piece.colour hrp⟩

theorem AtHome.congr (h : g.AtHome c w k r) (hb : g'.board = g.board) : g'.AtHome c w k r :=
  ⟨hb ▸ h.king, h.king_kind, h.king_colour, hb ▸ h.rook, h.rook_kind, h.rook_colour⟩

theorem grantRight_of_atHome (hh : g.AtHome c w k r) :
    g.grantRight c w = { g with toTable := (g.setMoved k false).setMoved r false } := by
  have hk := homeMan_eq_some.2 ⟨hh.king, hh.king_kind, hh.king_colour⟩
  have hr := homeMan_eq_some.2 ⟨hh.rook, hh.rook_kind, hh.rook_colour⟩
  simp only [grantRight, hk, hr]

theorem grantRight_of_not_atHome (h : ¬∃ k r, g.AtHome c w k r) : g.grantRight c w = g := by
  unfold grantRight
  dsimp only
  split
  case h_1 k r hk hr =>
    obtain ⟨hk, hkk, hkc⟩ := homeMan_eq_some.1 hk
    obtain ⟨hr, hrk, hrc⟩ := homeMan_eq_some.1 hr
    exact absurd ⟨k, r, hk, hkk, hkc, hr, hrk, hrc⟩ h
  case h_2 => rfl

theorem board_grantRight (g : Game) (c : Colour) (w : Wing) :
    (g.grantRight c w).board = g.board := by
  unfold grantRight
  dsimp only
  split <;> rfl

theorem board_grantRights (g : Game) (rights : List (Colour × Wing)) :
    (rights.foldl (fun g e => g.grantRight e.1 e.2) g).board = g.board := by
  induction rights generalizing g with
  | nil => rfl
  | cons e rights ih => exact (ih (g.grantRight e.1 e.2)).trans (board_grantRight g e.1 e.2)

theorem hasMoved_grantRight (h : g.Consistent) (hu : g.board.occupant u = some y) :
    (g.grantRight c w).hasMoved y = false ↔
      g.hasMoved y = false ∨ ∃ k r, g.AtHome c w k r ∧ (y = k ∨ y = r) := by
  by_cases hhome : ∃ k r, g.AtHome c w k r
  · obtain ⟨k, r, hh⟩ := hhome
    have hid : ∀ {v m}, g.board.occupant v = some m → (y.id = m.id ↔ y = m) := fun hm =>
      ⟨h.id_inj y _ (h.knows_of_occupant hu) (h.knows_of_occupant hm), congrArg Man.id⟩
    have hmoved : (g.grantRight c w).hasMoved y =
        if y = r then false else if y = k then false else g.hasMoved y := by
      rw [grantRight_of_atHome hh, Table.hasMoved_setMoved _ ?_, Table.hasMoved_setMoved]
      · simp only [hid hh.king, hid hh.rook]
      · exact h.enrolled_of_occupant hh.king
      · rw [Table.size_setMoved]
        exact h.enrolled_of_occupant hh.rook
    rw [hmoved]
    split_ifs with hr hk
    · exact iff_of_true rfl (.inr ⟨k, r, hh, .inr hr⟩)
    · exact iff_of_true rfl (.inr ⟨k, r, hh, .inl hk⟩)
    · refine (or_iff_left ?_).symm
      -- the right finds no other king and rook than these
      rintro ⟨k', r', hh', hy⟩
      have hking := hh'.king
      have hrook := hh'.rook
      rw [hh.king, Option.some.injEq] at hking
      rw [hh.rook, Option.some.injEq] at hrook
      rcases hy with rfl | rfl
      · exact hk hking.symm
      · exact hr hrook.symm
  · rw [grantRight_of_not_atHome hhome]
    refine (or_iff_left ?_).symm
    rintro ⟨k, r, hh, _⟩
    exact hhome ⟨k, r, hh⟩

/-- A mark is taken back by the rights that find their king and their rook at home. -/
theorem hasMoved_grantRights (h : g.Consistent) (hu : g.board.occupant u = some y)
    (rights : List (Colour × Wing)) :
    (rights.foldl (fun g e => g.grantRight e.1 e.2) g).hasMoved y = false ↔
      g.hasMoved y = false ∨ ∃ e ∈ rights, ∃ k r, g.AtHome e.1 e.2 k r ∧ (y = k ∨ y = r) := by
  induction rights generalizing g with
  | nil => simp
  | cons e rights ih =>
    have hboard := board_grantRight g e.1 e.2
    refine (ih (consistent_grantRight h e.1 e.2) (hboard ▸ hu)).trans ?_
    have hhome : ∀ e' : Colour × Wing, ∀ k r,
        (g.grantRight e.1 e.2).AtHome e'.1 e'.2 k r ↔ g.AtHome e'.1 e'.2 k r :=
      fun e' k r => ⟨fun hh => hh.congr hboard.symm, fun hh => hh.congr hboard⟩
    simp only [hasMoved_grantRight h hu, hhome, List.exists_mem_cons_iff, or_assoc]

/-! ### The game of a setup -/

theorem consistent_spent (hnodup : (s.men.map Prod.snd).Nodup) :
    (empty.enlistAll s.men).spendRights.Consistent :=
  consistent_setMovedAll (consistent_enlistAll_empty hnodup) _ true

theorem board_ofSetup (s : Setup) : (ofSetup s).board = (empty.enlistAll s.men).board :=
  (board_grantRights _ s.rights).trans (board_spendRights _)

theorem piece_ofSetup (hnodup : (s.men.map Prod.snd).Nodup) :
    (ofSetup s).board.piece u = some p ↔ (p, u) ∈ s.men := by
  rw [board_ofSetup, piece_enlistAll hnodup, or_iff_left]
  rintro ⟨hp, _⟩
  rw [piece_eq_some] at hp
  obtain ⟨m, hm, _⟩ := hp
  rw [show empty.board = .empty from rfl, Board.occupant_empty] at hm
  cases hm

theorem hasOneKing_ofSetup (hnodup : (s.men.map Prod.snd).Nodup)
    (hkings : Setup.oneKingEach s.men = true) (c : Colour) : (ofSetup s).HasOneKing c := by
  rw [hasOneKing_iff_piece (consistent_ofSetup hnodup)]
  simp only [piece_ofSetup hnodup]
  exact (Setup.oneKingEach_iff hnodup).1 hkings c

theorem hasMoved_ofSetup (hnodup : (s.men.map Prod.snd).Nodup)
    (hu : (ofSetup s).board.occupant u = some y) (hk : y.kind = .king ∨ y.kind = .rook) :
    (ofSetup s).hasMoved y = false ↔
      ∃ e ∈ s.rights, ∃ k r, (ofSetup s).AtHome e.1 e.2 k r ∧ (y = k ∨ y = r) := by
  have hspent := (board_spendRights (empty.enlistAll s.men)).trans (board_ofSetup s).symm
  have hplace : (empty.enlistAll s.men).spendRights.board.occupant u = some y := hspent ▸ hu
  have hmarked : (empty.enlistAll s.men).spendRights.hasMoved y = true :=
    hasMoved_spendRights (consistent_enlistAll_empty hnodup) (board_ofSetup s ▸ hu) hk
  have hhome : ∀ e : Colour × Wing, ∀ k r,
      (empty.enlistAll s.men).spendRights.AtHome e.1 e.2 k r ↔ (ofSetup s).AtHome e.1 e.2 k r :=
    fun e k r => ⟨fun hh => hh.congr hspent.symm, fun hh => hh.congr hspent⟩
  refine (hasMoved_grantRights (consistent_spent hnodup) hplace s.rights).trans ?_
  simp only [hmarked, hhome, Bool.true_eq_false, false_or]

/-- In a game that was set up no pawn has moved. -/
theorem hasMoved_pawn_ofSetup (hnodup : (s.men.map Prod.snd).Nodup)
    (hu : (ofSetup s).board.occupant u = some y) (hk : y.kind = .pawn) :
    (ofSetup s).hasMoved y = false := by
  have hcon := consistent_enlistAll_empty hnodup
  have hu' : (empty.enlistAll s.men).board.occupant u = some y := board_ofSetup s ▸ hu
  have hplace : (empty.enlistAll s.men).spendRights.board.occupant u = some y := by
    rw [board_spendRights]
    exact hu'
  have hfresh : (empty.enlistAll s.men).spendRights.hasMoved y = false := by
    rw [hasMoved_spendRights_of_pawn hcon hu' hk]
    exact hasMoved_enlistAll (fun _ => rfl) s.men y
  exact (hasMoved_grantRights (consistent_spent hnodup) hplace s.rights).2 (.inl hfresh)

/-- Exactly the rights that were granted to a king and a rook at home are there. -/
theorem hasRight_ofSetup (hnodup : (s.men.map Prod.snd).Nodup) :
    (ofSetup s).hasRight c w = true ↔ (c, w) ∈ s.rights ∧ ∃ k r, (ofSetup s).AtHome c w k r := by
  have hcon := consistent_ofSetup hnodup
  rw [hasRight_iff]
  constructor
  · rintro ⟨k, r, hh, _, hr⟩
    refine ⟨?_, k, r, hh⟩
    obtain ⟨⟨d, v⟩, he, k', r', hh', hy⟩ :=
      (hasMoved_ofSetup hnodup hh.rook (.inr hh.rook_kind)).1 hr
    -- only this castle has its rook on this square
    rcases hy with rfl | rfl
    · cases hh.rook_kind.symm.trans hh'.king_kind
    · obtain rfl : c = d := hh.rook_colour.symm.trans hh'.rook_colour
      obtain rfl : w = v := CastlePath.rookFrom_inj (hcon.occupant_unique hh.rook hh'.rook rfl)
      exact he
  · rintro ⟨he, k, r, hh⟩
    have hgranted : ∀ y, y = k ∨ y = r →
        ∃ e ∈ s.rights, ∃ k r, (ofSetup s).AtHome e.1 e.2 k r ∧ (y = k ∨ y = r) :=
      fun y hy => ⟨(c, w), he, k, r, hh, hy⟩
    exact ⟨k, r, hh,
      (hasMoved_ofSetup hnodup hh.king (.inl hh.king_kind)).2 (hgranted k (.inl rfl)),
      (hasMoved_ofSetup hnodup hh.rook (.inr hh.rook_kind)).2 (hgranted r (.inr rfl))⟩

end Game

end ChessArbiter
