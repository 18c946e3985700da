import ChessArbiter.Proofs.Records
import ChessArbiter.Proofs.Reordering

/-!
# The man that a written move picks out

A written move is matched by the men of the side to move who are of its kind, stand where it says,
and would be granted the move: as a capture if it is written as one, and, if they are pawns, only
then (`matching`). The search first asks which men answer to the rules and then tries them out, and
what it is left with are the men that match (`mem_matching_iff`). So a written move that one man
matches is resolved to his move, and one that none or several match is refused as such
(`resolve_picks_match`).
-/

namespace ChessArbiter

namespace Game

variable {g : Game} {m : Man} {s : Step} {src dst : Square} {c : Colour} {n : Notation}

theorem AtMostOneKing.hasOneKing (hone : g.AtMostOneKing c) (hlive : m ∈ g.live.get c)
    (hk : m.kind = .king) : g.HasOneKing c := by
  have hsome : 0 < (g.live.get c).countP (·.kind == .king) :=
    List.countP_pos_iff.2 ⟨m, hlive, beq_iff_eq.2 hk⟩
  exact le_antisymm hone hsome

/-- A king's move that says nothing of its source leaves no choice, for there is one king. -/
theorem sourced_iff (h : g.Consistent) (hone : g.AtMostOneKing g.active)
    (hs : g.board.occupant src = some m) (hm : m.colour = g.active) (hk : m.kind = n.piece) :
    g.Sourced n src ↔ (∀ f, n.srcFile = some f → (src.file.val : Int) = f) ∧
      ∀ r, n.srcRank = some r → (src.rank.val : Int) = r := by
  have hgiven : ∀ (o : Option Int) (x : Int),
      o.all (· == x) = true ↔ ∀ y, o = some y → x = y := by
    intro o x
    cases o with
    | none => simp
    | some y =>
      simp only [Option.all_some, beq_iff_eq, Option.some.injEq, forall_eq']
      exact eq_comm
  unfold Sourced sourceFilter
  split_ifs with hking
  · obtain ⟨hpiece, hfile, hrank⟩ := hking
    rw [Option.isNone_iff_eq_none] at hfile hrank
    have hlive : m ∈ g.live.get g.active := hm ▸ h.live_of_occupant hs
    have hmking : m.kind = .king := hk.trans hpiece
    rw [king_eq h.toCoherent (hone.hasOneKing hlive hmking) hlive hmking, Option.bind_some,
      h.square?_of_occupant hs, hfile, hrank]
    simp
  · rw [hgiven, hgiven]

theorem answers_iff_captured (hs : g.Admits s) (h : g.Coherent) {captured : Option PieceKind}
    (hcaptured : captured = (g.execute s).1.map (·.kind)) :
    g.answers n s.man s.dst = true ↔ (n.capture = true → captured ≠ none) ∧
      (n.capture = false → s.man.kind = .pawn → captured = none) := by
  subst hcaptured
  rw [ne_eq, Option.map_eq_none_iff]
  cases hc : n.capture with
  | true =>
    rw [answers_of_capture hs h hc, ← Option.ne_none_iff_isSome]
    simp
  | false =>
    rw [answers_of_plain hs h hc, Option.isSome_eq_false_iff, Option.isNone_iff_eq_none]
    simp

end Game

namespace Arbiter

variable {a b : Arbiter} {r : MoveRecord} {m : Man} {s : Step} {n : Notation} {src dst : Square}
  {promotion : Option PieceKind}

theorem step_of_move (h : a.move src dst promotion = (.ok r, b)) (hr : r.move.isCastle = false) :
    ∃ s, a.assess src dst promotion = .ok (.step s) := by
  rcases Game.attempt_eq_some_iff.1 (move_ok h).1 with ⟨s, hs, _⟩ | ⟨w, hw, _⟩
  · exact ⟨s, hs⟩
  · have hcastle : a.castle w = (.ok r, b) := by
      rw [← h]
      unfold move
      rw [hw]
    have hflag : r.move.flag = .castle w := by
      rw [record_of_castle hcastle]
      exact Game.flag_castleRecord a.active w
    rw [Move.isCastle, hflag] at hr
    cases w <;> cases hr

theorem isCastle_of_step (hs : a.assess src dst promotion = .ok (.step s))
    (h : a.move src dst promotion = (.ok r, b)) : r.move.isCastle = false := by
  rw [record_of_step hs h]
  exact Step.isCastle_record (Game.admits_of_assess hs).1.officer

theorem captured_of_step (hs : a.assess src dst promotion = .ok (.step s))
    (h : a.move src dst promotion = (.ok r, b)) :
    r.captured = (a.execute s).1.map (·.kind) := by
  rw [record_of_step hs h]
  rfl

/-- The men in play who are of the kind written, stand where it is written, and would be granted the
move: with a capture if one is written, and a pawn without one if none is. -/
def matching (a : Arbiter) (n : Notation) (dst : Square) : Set Man :=
  {m | m ∈ a.live.get a.active ∧ m.kind = n.piece ∧ ∃ src, a.square? m = some src ∧
    (∀ f, n.srcFile = some f → (src.file.val : Int) = f) ∧
    (∀ k, n.srcRank = some k → (src.rank.val : Int) = k) ∧
    ∃ r b, a.move src dst n.promotion = (.ok r, b) ∧ r.move.isCastle = false ∧
      (n.capture = true → r.captured ≠ none) ∧
      (n.capture = false → m.kind = .pawn → r.captured = none)}

section matching

variable (h : a.toGame.Consistent) (hone : a.AtMostOneKing a.active) (hdst : n.dst = some dst)

include h hone hdst

/-- Asking for the rules first and trying out after loses nobody and lets nobody else through. -/
theorem mem_matching_iff : m ∈ a.matching n dst ↔ ∃ src, (m, src) ∈ a.meant n dst := by
  constructor
  · rintro ⟨hlive, hk, src, hsq, hfile, hrank, r, b, hmove, hplain, hcaptures⟩
    have hm := h.live_colour _ m hlive
    have hocc := (h.occupant_iff src m).2 ⟨hsq, hm ▸ hlive⟩
    obtain ⟨s, hs⟩ := step_of_move hmove hplain
    obtain ⟨hadm, rfl, rfl⟩ := Game.admits_of_assess hs
    obtain rfl := Option.some.inj (hadm.source.symm.trans hocc)
    have hsourced := (Game.sourced_iff h hone hocc hm hk).2 ⟨hfile, hrank⟩
    have hanswers := (Game.answers_iff_captured (n := n) hadm h.toCoherent
      (captured_of_step hs hmove)).2 hcaptures
    refine ⟨s.src, (Game.mem_meant h hdst).2 ⟨⟨hocc, hm, hk⟩, hsourced, hanswers, ?_⟩⟩
    rw [← isOk_move, hmove]
    rfl
  · rintro ⟨src, hmem⟩
    obtain ⟨⟨hocc, hm, hk⟩, hsourced, hanswers, hattempt⟩ := (Game.mem_meant h hdst).1 hmem
    obtain ⟨s, hs, _, hstep⟩ := Game.step_of_meant h hdst hmem
    obtain ⟨hadm, rfl, rfl⟩ := Game.admits_of_assess hs
    obtain rfl : s.man = m := congrArg Step.man hstep
    obtain ⟨hfile, hrank⟩ := (Game.sourced_iff h hone hocc hm hk).1 hsourced
    obtain ⟨g, hg⟩ := Option.isSome_iff_exists.1 hattempt
    obtain ⟨r, b, hmove, _⟩ := exists_move hg
    have hcaptures := (Game.answers_iff_captured hadm h.toCoherent
      (captured_of_step hs hmove)).1 hanswers
    exact ⟨hm ▸ h.live_of_occupant hocc, hk, s.src, h.square?_of_occupant hocc, hfile, hrank, r, b,
      hmove, isCastle_of_step hs hmove, hcaptures⟩

theorem meant_of_matching_singleton (hmatch : a.matching n dst = {m}) :
    ∃ src, a.square? m = some src ∧ a.meant n dst = [(m, src)] := by
  have hmem : m ∈ a.matching n dst := hmatch ▸ Set.mem_singleton m
  obtain ⟨src, hsrc⟩ := (mem_matching_iff h hone hdst).1 hmem
  have hocc := ((Game.mem_meant h hdst).1 hsrc).1.1
  have hnodup := List.Nodup.of_map _ (Game.nodup_meant h hdst)
  refine ⟨src, h.square?_of_occupant hocc, List.perm_singleton.1
    ((List.perm_ext_iff_of_nodup hnodup (List.nodup_singleton _)).2 ?_)⟩
  rintro ⟨m', src'⟩
  rw [List.mem_singleton]
  constructor
  · intro hmem'
    have hm' : m' ∈ a.matching n dst := (mem_matching_iff h hone hdst).2 ⟨src', hmem'⟩
    rw [hmatch] at hm'
    obtain rfl := Set.mem_singleton_iff.1 hm'
    rw [h.occupant_unique ((Game.mem_meant h hdst).1 hmem').1.1 hocc rfl]
  · rintro ⟨⟩
    exact hsrc

theorem meant_of_matching_empty (hmatch : a.matching n dst = ∅) : a.meant n dst = [] := by
  rw [List.eq_nil_iff_forall_not_mem]
  rintro ⟨m, src⟩ hmem
  have hm : m ∈ a.matching n dst := (mem_matching_iff h hone hdst).2 ⟨src, hmem⟩
  rw [hmatch] at hm
  exact hm

theorem meant_of_matching_nontrivial (hmatch : (a.matching n dst).Nontrivial) :
    ∃ e e' rest, a.meant n dst = e :: e' :: rest := by
  obtain ⟨m, hm, m', hm', hne⟩ := hmatch
  obtain ⟨src, hsrc⟩ := (mem_matching_iff h hone hdst).1 hm
  obtain ⟨src', hsrc'⟩ := (mem_matching_iff h hone hdst).1 hm'
  rcases hmeant : a.meant n dst with _ | ⟨e, _ | ⟨e', rest⟩⟩
  · rw [hmeant] at hsrc
    cases hsrc
  · rw [hmeant, List.mem_singleton] at hsrc hsrc'
    exact absurd (congrArg Prod.fst (hsrc.trans hsrc'.symm)) hne
  · exact ⟨e, e', rest, rfl⟩

end matching

/-- A written move that just one man matches is resolved to his move, with the flag that the move
is recorded with, unless he is a pawn that promotes in passing. One that nobody matches has no legal
candidate, and one that several men match is ambiguous. The order of the men does not matter. -/
theorem resolve_picks_match (a : Arbiter) (h : a.toGame.Consistent)
    (hone : a.AtMostOneKing a.active) (n : Notation) (dst : Square) (hcastle : n.castle = none)
    (hdst : n.dst = some dst)
    (hlast : n.promotion.isSome = true → dst.rank = a.active.lastRank) :
    (∀ m, a.matching n dst = {m} → ∃ src, a.square? m = some src ∧
      (a.resolve n).1 = .ok (.ofParts src dst (a.flagOf m src dst n.promotion)) ∧
      ∀ r b, a.move src dst n.promotion = (.ok r, b) →
        SameMove a.toGame (.ofParts src dst (a.flagOf m src dst n.promotion)) r.move) ∧
    (a.matching n dst = ∅ → (a.resolve n).1.mapError (·.kind) = .error .noLegalCandidate) ∧
    ((a.matching n dst).Nontrivial →
      (a.resolve n).1.mapError (·.kind) = .error .ambiguousMove) ∧
    ∀ b : Arbiter, a.toGame.Reordered b.toGame →
      (b.resolve n).1.mapError (·.kind) = (a.resolve n).1.mapError (·.kind) := by
  have hresolve : (a.resolve n).1.mapError (·.kind) =
      (a.choose n dst (a.meant n dst)).1.mapError (·.kind) := by
    unfold resolve
    rw [hcastle, hdst]
    dsimp only
    -- a promotion off the last rank is an error of its own, whoever is meant
    rw [kind_resolveTo, if_neg fun hoff => hoff.2 (hlast hoff.1)]
  refine ⟨fun m hmatch => ?_, fun hmatch => ?_, fun hmatch => ?_, fun b hr => ?_⟩
  · obtain ⟨src, hsq, hmeant⟩ := meant_of_matching_singleton h hone hdst hmatch
    obtain ⟨s, hs, _, hstep⟩ :=
      Game.step_of_meant h hdst (hmeant ▸ List.mem_singleton_self (m, src))
    obtain rfl : s.man = m := congrArg Step.man hstep
    refine ⟨src, hsq, ?_, fun r b hmove => ?_⟩
    · rw [hmeant] at hresolve
      rcases hx : (a.resolve n).1 with e | x
      · rw [hx] at hresolve
        cases hresolve
      · rw [hx] at hresolve
        exact congrArg Except.ok (Except.ok.inj hresolve)
    · rw [move_of_step hs hmove]
      exact sameMove_of_step h hs hstep
  · rw [hresolve, meant_of_matching_empty h hone hdst hmatch]
    rfl
  · obtain ⟨e, e', rest, hmeant⟩ := meant_of_matching_nontrivial h hone hdst hmatch
    rw [hresolve, hmeant]
    rfl
  · exact kind_resolve_reordered hr hone n

def pinnedKnight : Arbiter := ((opening {}).loadFen "4k3/8/8/8/1b6/2N5/8/4K1N1 w - - 0 1").2

/-- The knight that is free to go there is the one meant. -/
theorem free_knight_picked :
    Notation.parse "Ne2" = .ok { text := "Ne2", piece := .knight, dst := some ⟨4, 1⟩ } ∧
      (let n : Notation := { text := "Ne2", piece := .knight, dst := some ⟨4, 1⟩ }
       pinnedKnight.matching n ⟨4, 1⟩ = {⟨⟨.knight, .white⟩, 4⟩} ∧
         (pinnedKnight.resolve n).1 = .ok (.ofParts ⟨6, 0⟩ ⟨4, 1⟩ .quiet)) := by
  refine ⟨by decide +kernel, ?_⟩
  intro n
  have hload : (opening {}).loadFen "4k3/8/8/8/1b6/2N5/8/4K1N1 w - - 0 1" =
      (.ok (), pinnedKnight) :=
    loadFen_of_isOk (by decide +kernel)
  have hcon := (consistent_of_loadFen hload).1
  have hone : pinnedKnight.AtMostOneKing pinnedKnight.active := by decide +kernel
  have hmeant : pinnedKnight.meant n ⟨4, 1⟩ = [(⟨⟨.knight, .white⟩, 4⟩, ⟨6, 0⟩)] := by
    decide +kernel
  have hmatch : pinnedKnight.matching n ⟨4, 1⟩ = {⟨⟨.knight, .white⟩, 4⟩} := by
    ext m
    rw [mem_matching_iff hcon hone rfl, hmeant]
    simp
  obtain ⟨src, hsrc, hresolve, _⟩ :=
    (resolve_picks_match pinnedKnight hcon hone n ⟨4, 1⟩ rfl rfl nofun).1 _ hmatch
  obtain rfl : src = ⟨6, 0⟩ := by
    have hsq : pinnedKnight.square? ⟨⟨.knight, .white⟩, 4⟩ = some ⟨6, 0⟩ := by decide +kernel
    exact Option.some.inj (hsrc.symm.trans hsq)
  refine ⟨hmatch, hresolve.trans ?_⟩
  decide +kernel

end Arbiter

end ChessArbiter
