import ChessArbiter.Proofs.Likeness

/-!
# Reloaded games

A game in play that is written down, with its en passant target named, and read again cannot be
told from the one that was written (`reloaded_play`). Reading makes new men, marks them by the
rights alone and starts a new log, but the two games are alike (`alike_of_loadFen`). Alike games
answer every request with the same entry or the same kind of error and are alike afterwards
(`agree_answer`), and so they are after any number of requests (`alike_run`).
-/

namespace ChessArbiter

namespace Arbiter

variable {α : Type} {a a' b b' : Arbiter} {g : Game} {e e' : MoveError} {n : Notation}
  {src dst : Square} {promotion : Option PieceKind} {w : Wing} {text : String}

/-! ### Answers of games that are alike -/

/-- The same answer or an error of the same kind, and games that are alike afterwards. -/
structure Agree (x y : Except MoveError α × Arbiter) : Prop where
  answer : y.1.mapError (·.kind) = x.1.mapError (·.kind)
  alike : x.2.toGame.Alike y.2.toGame

theorem agree_of_error {a b : Arbiter} (hkind : e'.kind = e.kind) (ha : a.toGame.Alike b.toGame) :
    Agree ((.error e, a) : Except MoveError α × Arbiter) (.error e', b) :=
  ⟨congrArg Except.error hkind, ha⟩

theorem agree_castle (ha : a.toGame.Alike b.toGame) (w : Wing) :
    Agree (a.castle w) (b.castle w) := by
  have hopen := ha.canCastle w
  rcases hx : a.castle w with ⟨e | r, a'⟩ <;> rcases hy : b.castle w with ⟨e' | r', b'⟩
  · refine agree_of_error ?_ ?_
    · rw [kind_of_castle_error hx, kind_of_castle_error hy]
    · rw [(castle_error hx).2.1, (castle_error hy).2.1]
      exact ha
  · rw [(castle_error hx).1, (castle_ok hy).1] at hopen
    cases hopen
  · rw [(castle_ok hx).1, (castle_error hy).1] at hopen
    cases hopen
  · obtain ⟨hw, hgame, hmoves⟩ := castle_ok hx
    obtain ⟨_, hgame', hmoves'⟩ := castle_ok hy
    obtain ⟨hafter, r₀, hr, hr'⟩ := ha.afterCastle hw
    rw [hgame, hr] at hmoves
    rw [hgame', hr'] at hmoves'
    refine ⟨?_, ?_⟩
    · rw [← Game.entry_unique hmoves, ← Game.entry_unique hmoves']
    · rw [hgame, hgame']
      exact hafter

theorem kind_of_move_error (ha : a.toGame.Alike b.toGame)
    (hx : a.move src dst promotion = (.error e, a'))
    (hy : b.move src dst promotion = (.error e', b')) : e'.kind = e.kind := by
  unfold move at hx hy
  cases ha.assess src dst promotion with
  | refused he he' hkind =>
    rw [he] at hx
    rw [he'] at hy
    cases hx
    cases hy
    exact hkind
  | castle hw hw' =>
    rw [hw] at hx
    rw [hw'] at hy
    rw [kind_of_castle_error hx, kind_of_castle_error hy]
  | step hs hs' _ =>
    rw [hs] at hx
    rw [hs'] at hy
    rw [kind_of_carryOut_error hx, kind_of_carryOut_error hy]

theorem agree_move (ha : a.toGame.Alike b.toGame) (src dst : Square)
    (promotion : Option PieceKind) :
    Agree (a.move src dst promotion) (b.move src dst promotion) := by
  have hattempt := ha.attempt src dst promotion
  rcases hx : a.move src dst promotion with ⟨e | r, a'⟩ <;>
    rcases hy : b.move src dst promotion with ⟨e' | r', b'⟩
  · refine agree_of_error (kind_of_move_error ha hx hy) ?_
    rw [(move_error hx).2.1, (move_error hy).2.1]
    exact ha
  · rw [(move_error hx).1, (move_ok hy).1] at hattempt
    simp at hattempt
  · rw [(move_ok hx).1, (move_error hy).1] at hattempt
    simp at hattempt
  · obtain ⟨hgame, hmoves⟩ := move_ok hx
    obtain ⟨hgame', hmoves'⟩ := move_ok hy
    rw [hgame, hgame'] at hattempt
    obtain ⟨hnone, _⟩ | ⟨g', h', r₀, hg, hh, hafter, hr, hr'⟩ := hattempt
    · cases hnone
    · obtain rfl := Option.some.inj hg
      obtain rfl := Option.some.inj hh
      rw [hr] at hmoves
      rw [hr'] at hmoves'
      refine ⟨?_, hafter⟩
      rw [← Game.entry_unique hmoves, ← Game.entry_unique hmoves']

theorem agree_moveByName (ha : a.toGame.Alike b.toGame) (src dst : String) :
    Agree (a.moveByName src dst) (b.moveByName src dst) := by
  unfold moveByName
  cases Wing.ofText? src with
  | some w => exact agree_castle ha w
  | none =>
    cases Square.parse src with
    | error e => exact agree_of_error rfl ha
    | ok s =>
      cases Square.parse dst with
      | error e => exact agree_of_error rfl ha
      | ok t => exact agree_move ha s t none

/-! ### Written moves -/

/-- Of men on the same squares either none is chosen, or the one there is, or none again. -/
theorem kind_choose (ha : a.toGame.Alike b.toGame) {men men' : List (Man × Square)}
    (hsquares : (men'.map Prod.snd).Perm (men.map Prod.snd))
    (hmen : ∀ m m' u, (m, u) ∈ men → (m', u) ∈ men' → a.toGame.Counterparts b.toGame u m m') :
    (b.choose n dst men').1.mapError (·.kind) = (a.choose n dst men).1.mapError (·.kind) := by
  have hlength := hsquares.length_eq
  rw [List.length_map, List.length_map] at hlength
  rcases men with _ | ⟨⟨m, u⟩, _ | ⟨x, xs⟩⟩
  · obtain rfl := List.length_eq_zero_iff.1 hlength
    simp only [choose, Except.mapError, Game.kind_failure]
  · obtain ⟨⟨m', u'⟩, rfl⟩ := List.length_eq_one_iff.1 hlength
    obtain rfl : u' = u := List.singleton_inj.1 (List.perm_singleton.1 hsquares)
    have hp := hmen m m' u' (List.mem_singleton_self _) (List.mem_singleton_self _)
    simp only [choose, ha.flagOf hp]
  · rcases men' with _ | ⟨y, _ | ⟨z, ys⟩⟩
    · cases hlength
    · cases hlength
    · simp only [choose, Except.mapError, Game.kind_failure]

theorem kind_resolveTo (a : Arbiter) (n : Notation) (dst : Square) :
    (a.resolveTo n dst).1.mapError (·.kind) =
      if n.promotion.isSome ∧ dst.rank ≠ a.active.lastRank then .error .promotionError
      else (a.choose n dst (a.meant n dst)).1.mapError (·.kind) := by
  rw [fst_resolveTo]
  split_ifs with hlast hempty
  · rfl
  · rw [Game.meant, Game.located, List.isEmpty_iff.1 hempty]
    rfl
  · rfl

theorem agree_resolve (ha : a.toGame.Alike b.toGame) (n : Notation) :
    Agree (a.resolve n) (b.resolve n) where
  alike := by
    rw [toGame_resolve, toGame_resolve]
    exact ha
  answer := by
    unfold resolve
    cases n.castle with
    | some w =>
      dsimp only
      rw [ha.canCastle w, ha.active]
      split_ifs <;> simp only [Except.mapError, Game.kind_failure]
    | none =>
      cases hdst : n.dst with
      | none => rfl
      | some dst =>
        dsimp only
        rw [kind_resolveTo, kind_resolveTo, ha.active]
        refine if_congr Iff.rfl rfl (kind_choose ha (ha.meant hdst) fun m m' u hm hm' => ?_)
        exact ha.counterparts ((Game.mem_meant ha.left.toConsistent hdst).1 hm).1.1
          ((Game.mem_meant ha.right.toConsistent hdst).1 hm').1.1

theorem agree_playNotation (ha : a.toGame.Alike b.toGame) (n : Notation) :
    Agree (a.playNotation n) (b.playNotation n) := by
  unfold playNotation
  cases n.castle with
  | some w => exact agree_castle ha w
  | none =>
    have hresolved := agree_resolve ha n
    dsimp only
    rcases hx : a.resolve n with ⟨e | m, a'⟩ <;> rcases hy : b.resolve n with ⟨e' | m', b'⟩ <;>
      rw [hx, hy] at hresolved
    · exact agree_of_error (Except.error.inj hresolved.answer) hresolved.alike
    · cases hresolved.answer
    · cases hresolved.answer
    · obtain rfl : m' = m := Except.ok.inj hresolved.answer
      exact agree_move hresolved.alike _ _ _

theorem agree_play (ha : a.toGame.Alike b.toGame) (text : String) :
    Agree (a.play text) (b.play text) := by
  cases hn : Notation.parse text with
  | error e =>
    unfold play
    rw [hn]
    exact agree_of_error rfl ha
  | ok n =>
    obtain ⟨a₁, hgame, hx⟩ := a.play_of_parse hn
    obtain ⟨b₁, hgame', hy⟩ := b.play_of_parse hn
    rw [← hgame, ← hgame'] at ha
    have hplayed := agree_playNotation ha n
    rw [hx, hy]
    rcases hx' : a₁.playNotation n with ⟨e | r, a'⟩ <;>
      rcases hy' : b₁.playNotation n with ⟨e' | r', b'⟩ <;> rw [hx', hy'] at hplayed
    · exact agree_of_error (Except.error.inj hplayed.answer) hplayed.alike
    · cases hplayed.answer
    · cases hplayed.answer
    · obtain rfl : r' = r := Except.ok.inj hplayed.answer
      exact ⟨rfl, hplayed.alike.retitle n.text⟩

/-! ### Runs of games that are alike -/

theorem agree_answer (ha : a.toGame.Alike b.toGame) (q : Request) :
    Agree (a.answer q) (b.answer q) := by
  cases q with
  | move src dst promotion => exact agree_move ha src dst promotion
  | moveByName src dst => exact agree_moveByName ha src dst
  | castle w => exact agree_castle ha w
  | play text => exact agree_play ha text

theorem alike_run (ha : a.toGame.Alike b.toGame) (qs : List Request) :
    (a.run qs).toGame.Alike (b.run qs).toGame := by
  induction qs generalizing a b with
  | nil => exact ha
  | cons q qs ih => exact ih (agree_answer ha q).alike

/-! ### Reading the text of a game -/

theorem counters_of_loadFen {target : Option Square}
    (htext : Text.words text.toList = g.fields.set 3 (Setup.targetText target))
    (hload : a.loadFen text = (.ok (), b)) : 0 ≤ g.halfmove ∧ 1 ≤ g.turn := by
  obtain ⟨s, hs, _⟩ := loadFen_ok hload
  rw [Setup.ofFen, htext] at hs
  obtain ⟨placement, side, rest, hfields, hdesc⟩ := Setup.ofFields_eq_ok_iff.1 hs
  obtain ⟨_, hfields⟩ := List.cons.inj hfields
  obtain ⟨_, rfl⟩ := List.cons.inj hfields
  exact ⟨(Setup.eq_of_readCounter_toString hdesc.halfmove).2,
    (Setup.eq_of_readCounter_toString hdesc.turn).2⟩

theorem hasMoved_of_loadFen (hload : a.loadFen text = (.ok (), b)) {u : Square} {y : Man}
    (hu : b.board.occupant u = some y) (hk : y.kind = .pawn) : b.hasMoved y = false := by
  obtain ⟨s, hs, hb⟩ := loadFen_ok hload
  rw [hb] at hu ⊢
  exact Game.hasMoved_pawn_ofSetup (Setup.nodup_of_ofFen hs) hu hk

/-- A tidy game and the one that is read from its text, the target named in it, are alike. -/
theorem alike_of_loadFen (h : g.Tidy)
    (htext : Text.words text.toList = g.fields.set 3 (Setup.targetText g.enPassant))
    (hload : a.loadFen text = (.ok (), b)) : g.Alike b.toGame := by
  obtain ⟨hhalf, hturn⟩ := counters_of_loadFen htext hload
  obtain ⟨b', hload', hmen, hactive, hrights, hhalfmove, hturns, htarget⟩ :=
    a.loadFen_naming htext h.toConsistent h.one_king hhalf hturn
  obtain rfl : b' = b := congrArg Prod.snd (hload'.symm.trans hload)
  obtain ⟨hcon, hone⟩ := consistent_of_loadFen hload
  have hsafe : b'.inCheck b'.active.opposite = false := by
    rw [← Game.inCheck_piece hcon (hone _), hmen, hactive,
      Game.inCheck_piece h.toConsistent (h.one_king _)]
    exact h.waiting_safe
  refine ⟨h, ?_, ?_⟩
  · refine { toOrderly := orderly_of_loadFen hload hsafe, pawn_off_home := ?_, pawn_fresh := ?_ }
    · intro u y hu hk
      have hpiece : g.board.piece u = some y.toPiece := by
        rw [← hmen]
        exact Game.piece_eq_some.2 ⟨y, hu, rfl⟩
      obtain ⟨m, hm, hsame⟩ := Game.piece_eq_some.1 hpiece
      have hoff := h.pawn_off_home u m hm (by rw [hsame, hk])
      rwa [hsame] at hoff
    · exact fun u y hu hk _ => hasMoved_of_loadFen hload hu hk
  · exact Position.ext hmen hactive hrights htarget (congrArg Int32.toInt hhalfmove)
      (congrArg Int32.toInt hturns)

/-- In play from the starting position a game may be written down, with its en passant target named
in the text, and read again. There is room for that as long as the log is no longer than the
counters reach. Whatever is asked of the two from then on, they give the same answers or the same
kinds of errors, and their texts and their targets stay the same. -/
theorem reloaded_play (hb : b.InPlay) (x : Arbiter) :
    (b.moves.length < 2 ^ 31 → (x.loadFen (b.fenNaming b.enPassant)).1 = .ok ()) ∧
    ∀ h, x.loadFen (b.fenNaming b.enPassant) = (.ok (), h) → ∀ qs : List Request,
      ((h.run qs).toFen = (b.run qs).toFen ∧ (h.run qs).enPassant = (b.run qs).enPassant) ∧
      ∀ q, ((h.run qs).answer q).1.mapError (·.kind) =
        ((b.run qs).answer q).1.mapError (·.kind) := by
  have hregular := hb.lawful.toRegular
  have htext := b.words_fenNaming b.enPassant
  constructor
  · intro hroom
    obtain ⟨⟨hhalf, _⟩, hcount⟩ := hregular.counted hroom
    have hturn : 1 ≤ b.turn.toInt := by
      split_ifs at hcount <;> omega
    obtain ⟨h, hload, _⟩ := x.loadFen_naming htext hregular.toConsistent hregular.one_king
      (Int32.le_iff_toInt_le.2 hhalf) (Int32.le_iff_toInt_le.2 hturn)
    rw [hload]
  · intro h hload qs
    have halike := alike_run (alike_of_loadFen hregular.tidy htext hload) qs
    exact ⟨⟨halike.toFen, halike.enPassant⟩, fun q => (agree_answer halike q).answer⟩

theorem opened_reloaded_play :
    opened.InPlay ∧ ∃ h, (opening {}).loadFen (opened.fenNaming opened.enPassant) = (.ok (), h) ∧
      (h.run [.play "d5"]).toFen = (opened.run [.play "d5"]).toFen ∧
      (h.run [.play "d5"]).enPassant = (opened.run [.play "d5"]).enPassant ∧
      ((h.run [.play "d5"]).answer (.play "exd5")).1.mapError (·.kind) =
        ((opened.run [.play "d5"]).answer (.play "exd5")).1.mapError (·.kind) := by
  have hplay : opened.InPlay := ⟨_, _, rfl⟩
  have hlength : opened.moves.length = 1 := by decide +kernel
  obtain ⟨haccepted, hsame⟩ := reloaded_play hplay (opening {})
  have hloaded := haccepted (by rw [hlength]; decide)
  rcases hload : (opening {}).loadFen (opened.fenNaming opened.enPassant) with ⟨e | _, h⟩
  · rw [hload] at hloaded
    cases hloaded
  · obtain ⟨⟨hfen, htarget⟩, hanswer⟩ := hsame h hload [.play "d5"]
    exact ⟨hplay, h, rfl, hfen, htarget, hanswer (.play "exd5")⟩

example : opened.fenNaming opened.enPassant =
    "rnbqkbnr/pppppppp/8/8/4P3/8/PPPP1PPP/RNBQKBNR b KQkq e3 0 1" := by
  decide +kernel

end Arbiter

end ChessArbiter
