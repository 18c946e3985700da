import ChessArbiter.Proofs.Loading
import ChessArbiter.Proofs.Session

/-!
# Writing and reading positions

A game that is set up from its own text is the same position without its en passant target
(`Arbiter.loadFen_toFen`). Whatever text is accepted, the game then writes it in its canonical
form: the placement in the fewest digits, the rights that were granted to a king and a rook at home
in the order of their letters, no en passant square, and both counters in decimal.
-/

namespace ChessArbiter

namespace Setup

/-- The rights with a letter in a castling field whose king and rook stand at home. -/
def rightsAtHome (field : List Char) (men : Square → Option Piece) : List (Colour × Wing) :=
  castles.filter fun r => field.contains (r.2.symbol r.1) &&
    (men (CastlePath.of r.1 r.2).kingFrom == some ⟨.king, r.1⟩ &&
      men (CastlePath.of r.1 r.2).rookFrom == some ⟨.rook, r.1⟩)

/-- The number in a counter's field; the least one if the field is left out. -/
def Counts (least : Int32) (field : List Char) (n : Int32) : Prop :=
  field = [] ∧ n = least ∨ Text.readInt? field = some n

end Setup

theorem mem_castles (e : Colour × Wing) : e ∈ castles := by
  obtain ⟨c, w⟩ := e
  cases c <;> cases w <;> decide

namespace Game

variable {g g' : Game} {s : Setup} {placement side : List Char} {rest : List (List Char)}

theorem toFen_congr (hmen : g'.board.piece = g.board.piece) (hactive : g'.active = g.active)
    (hrights : g'.hasRight = g.hasRight) (hhalf : g'.halfmove = g.halfmove)
    (hturn : g'.turn = g.turn) : g'.toFen = g.toFen := by
  simp only [toFen, Board.placementText, castlingRights, hmen, hactive, hrights, hhalf, hturn]

theorem describes_fields (h : g.Consistent) (hkings : ∀ c, g.HasOneKing c)
    (hhalf : 0 ≤ g.halfmove) (hturn : 1 ≤ g.turn) (target : Option Square) :
    ∃ men, (∀ p u, (p, u) ∈ men ↔ g.board.piece u = some p) ∧
      Setup.ofFields (g.fields.set 3 (Setup.targetText target)) = .ok
        { men, active := g.active, rights := castles.filter fun r => g.hasRight r.1 r.2
          enPassant := target, halfmove := g.halfmove, turn := g.turn } := by
  have hread := Setup.readMen_ahead g.board.piece 7 (Nat.zero_le 8)
  have hshown : ∀ p u, (p, u) ∈ Setup.menAhead g.board.piece 7 0 ↔ g.board.piece u = some p :=
    fun p u => Setup.mem_menAhead_all
  rw [← Setup.diagram, ← Board.inFull_placementText, Setup.readMen_inFull] at hread
  refine ⟨_, hshown, ?_⟩
  rw [Setup.ofFields_eq_ok_iff]
  refine ⟨_, _, _, rfl, hread, ?_, Setup.readSide_fenText _, ?_,
    Setup.readTarget_targetText target, Setup.readCounter_toString hhalf,
    Setup.readCounter_toString hturn⟩
  · rw [Setup.oneKingEach_iff (Setup.nodup_of_readMen hread)]
    intro c
    simp only [hshown]
    exact (hasOneKing_iff_piece h).1 (hkings c)
  · exact Setup.readRights_rightsText List.filter_sublist

theorem piece_of_described (hnodup : (s.men.map Prod.snd).Nodup)
    (hmen : ∀ p u, (p, u) ∈ s.men ↔ g.board.piece u = some p) :
    (ofSetup s).board.piece = g.board.piece := by
  funext u
  refine Option.ext fun p => ?_
  rw [piece_ofSetup hnodup, hmen]

theorem hasRight_of_described (hnodup : (s.men.map Prod.snd).Nodup)
    (hmen : ∀ p u, (p, u) ∈ s.men ↔ g.board.piece u = some p)
    (hrights : s.rights = castles.filter fun r => g.hasRight r.1 r.2) :
    (ofSetup s).hasRight = g.hasRight := by
  funext c w
  rw [Bool.eq_iff_iff, hasRight_ofSetup hnodup, exists_atHome_iff,
    piece_of_described hnodup hmen, ← exists_atHome_iff, hrights, List.mem_filter]
  constructor
  · exact fun h => h.1.2
  · intro h
    obtain ⟨k, r, hh, _⟩ := hasRight_iff.1 h
    exact ⟨⟨mem_castles (c, w), h⟩, k, r, hh⟩

theorem rights_of_describes (h : Setup.Describes placement side rest s) :
    (castles.filter fun r => (ofSetup s).hasRight r.1 r.2) =
      Setup.rightsAtHome (rest.getD 0 []) (ofSetup s).board.piece := by
  refine List.filter_congr fun r _ => ?_
  rw [Bool.eq_iff_iff, hasRight_ofSetup (Setup.nodup_of_readMen h.men), exists_atHome_iff,
    Setup.mem_of_readRights h.rights]
  simp only [List.contains_iff_mem, Bool.and_eq_true, beq_iff_eq]

theorem inFull_of_describes (h : Setup.Describes placement side rest s) :
    inFull placement = Setup.diagram (ofSetup s).board.piece := by
  have hread : Setup.readMen 7 0 (inFull placement) = .ok s.men := by
    rw [Setup.readMen_inFull, h.men]
  exact Setup.eq_ahead_of_readMen (fun c => eq_one_of_mem_inFull) hread
    fun u _ p => piece_ofSetup (Setup.nodup_of_readMen h.men)

end Game

namespace Arbiter

variable {a b : Arbiter} {g : Game} {s : Setup} {text : String}

theorem loadFen_ok (h : a.loadFen text = (.ok (), b)) :
    ∃ s, Setup.ofFen text = .ok s ∧ b.toGame = { Game.ofSetup s with depth := a.depth } := by
  unfold loadFen at h
  split at h
  case h_1 => cases h
  case h_2 s hs =>
    obtain ⟨_, rfl⟩ := Prod.mk.inj h
    exact ⟨s, hs, toGame_note _ _ _⟩

theorem loadFen_of_isOk (h : (a.loadFen text).1.isOk = true) :
    a.loadFen text = (.ok (), (a.loadFen text).2) := by
  rcases hload : a.loadFen text with ⟨e | _, b⟩
  · rw [hload] at h
    cases h
  · rfl

theorem loadFen_of_ofFen (a : Arbiter) (h : Setup.ofFen text = .ok s) :
    ∃ b, a.loadFen text = (.ok (), b) ∧ b.toGame = { Game.ofSetup s with depth := a.depth } := by
  rcases hload : a.loadFen text with ⟨e | _, b⟩
  · unfold loadFen at hload
    rw [h] at hload
    cases hload
  · obtain ⟨s', hs', hb⟩ := loadFen_ok hload
    rw [h, Except.ok.injEq] at hs'
    exact ⟨b, rfl, hs' ▸ hb⟩

/-- Reading the text of a game, with a target named in it, gives its position back with that
target. -/
theorem loadFen_naming (a : Arbiter) {target : Option Square}
    (htext : Text.words text.toList = g.fields.set 3 (Setup.targetText target)) (h : g.Consistent)
    (hkings : ∀ c, g.HasOneKing c) (hhalf : 0 ≤ g.halfmove) (hturn : 1 ≤ g.turn) :
    ∃ b, a.loadFen text = (.ok (), b) ∧ b.board.piece = g.board.piece ∧
      b.active = g.active ∧ b.hasRight = g.hasRight ∧ b.halfmove = g.halfmove ∧
      b.turn = g.turn ∧ b.enPassant = target := by
  obtain ⟨men, hmen, hfields⟩ := Game.describes_fields h hkings hhalf hturn target
  rw [← htext] at hfields
  have hread : Setup.ofFen text = .ok _ := hfields
  have hnodup := Setup.nodup_of_ofFen hread
  obtain ⟨b, hload, hb⟩ := loadFen_of_ofFen a hread
  refine ⟨b, hload, ?_, ?_, ?_, ?_, ?_, ?_⟩ <;> rw [hb]
  · exact Game.piece_of_described hnodup hmen
  · rfl
  · exact Game.hasRight_of_described hnodup hmen rfl
  · rfl
  · rfl
  · rfl

theorem loadFen_toFen (a : Arbiter) (h : g.Consistent) (hkings : ∀ c, g.HasOneKing c)
    (hhalf : 0 ≤ g.halfmove) (hturn : 1 ≤ g.turn) :
    ∃ b, a.loadFen g.toFen = (.ok (), b) ∧ b.board.piece = g.board.piece ∧
      b.active = g.active ∧ b.hasRight = g.hasRight ∧ b.halfmove = g.halfmove ∧
      b.turn = g.turn ∧ b.enPassant = none :=
  a.loadFen_naming g.words_toFen h hkings hhalf hturn

/-- Writing and reading positions undo each other up to the en passant field. A game's text is
accepted and gives its position back; an accepted text comes back in canonical form. -/
theorem position_texts (a : Arbiter) :
    (∀ g : Game, g.Consistent → (∀ c, g.HasOneKing c) → 0 ≤ g.halfmove → 1 ≤ g.turn →
      ∃ b, a.loadFen g.toFen = (.ok (), b) ∧ b.board.piece = g.board.piece ∧
        b.active = g.active ∧ b.castlingRights = g.castlingRights ∧ b.halfmove = g.halfmove ∧
        b.turn = g.turn ∧ b.enPassant = none ∧ b.toFen = g.toFen) ∧
    ∀ text b, a.loadFen text = (.ok (), b) →
      ∃ placement side rest terse half turn,
        Text.words text.toList = placement :: side :: rest ∧
        b.toFen.toList = [' '].intercalate [terse, side,
          Setup.rightsText (Setup.rightsAtHome (rest.getD 0 []) b.board.piece), ['-'],
          (toString half.toInt).toList, (toString turn.toInt).toList] ∧
        inFull terse = inFull placement ∧ Terse terse ∧
        inFull placement = Setup.diagram b.board.piece ∧
        Setup.Counts 0 (rest.getD 2 []) half ∧ Setup.Counts 1 (rest.getD 3 []) turn := by
  constructor
  · intro g h hkings hhalf hturn
    obtain ⟨b, hload, hmen, hactive, hrights, hb, hb', htarget⟩ :=
      loadFen_toFen a h hkings hhalf hturn
    have hletters : b.castlingRights = g.castlingRights := by
      simp only [Game.castlingRights, hrights]
    exact ⟨b, hload, hmen, hactive, hletters, hb, hb', htarget,
      Game.toFen_congr hmen hactive hrights hb hb'⟩
  · intro text b hload
    obtain ⟨s, hs, hb⟩ := loadFen_ok hload
    obtain ⟨placement, side, rest, hwords, hdesc⟩ := Setup.ofFields_eq_ok_iff.1 hs
    -- two placements show the same men exactly if they agree once written out in full
    have hfull := Game.inFull_of_describes hdesc
    refine ⟨placement, side, rest, (Game.ofSetup s).board.placementText.toList, s.halfmove, s.turn,
      hwords, ?_, ?_, Board.terse_placementText _, ?_,
      (Setup.readCounter_eq_ok hdesc.halfmove).2, (Setup.readCounter_eq_ok hdesc.turn).2⟩
    · rw [hb, Game.toList_toFen, Setup.eq_fenText_of_readSide hdesc.active]
      rw [← Game.rights_of_describes hdesc]
      rfl
    · rw [Board.inFull_placementText, hfull]
    · rw [hb]
      exact hfull

/-- An empty rank in two digits, rights in disorder, one of them without a rook at home. -/
def scattered : String := "4k2r/8/44/8/8/8/8/R3K3 b kQK"

theorem scattered_position_texts :
    (∃ b, (opening {}).loadFen Game.start.toFen = (.ok (), b) ∧ b.toFen = Game.start.toFen) ∧
    ∃ b terse, (opening {}).loadFen scattered = (.ok (), b) ∧ Terse terse ∧
      inFull terse = Setup.diagram b.board.piece := by
  have htexts := position_texts (opening {})
  constructor
  · obtain ⟨b, hload, _, _, _, _, _, _, hfen⟩ := htexts.1 Game.start Game.consistent_start
      Game.orderly_start.one_king (by decide) (by decide)
    exact ⟨b, hload, hfen⟩
  · have hloaded : ((opening {}).loadFen scattered).1.isOk = true := by decide +kernel
    rcases h : (opening {}).loadFen scattered with ⟨e | _, b⟩
    · rw [h] at hloaded
      cases hloaded
    · obtain ⟨_, _, _, terse, _, _, _, _, hfull, hterse, hdiagram, _⟩ := htexts.2 scattered b h
      exact ⟨b, terse, rfl, hterse, hfull.trans hdiagram⟩

example : ((opening {}).loadFen scattered).2.toFen = "4k2r/8/8/8/8/8/8/R3K3 b Qk - 0 1" := by
  decide +kernel

end Arbiter

end ChessArbiter
