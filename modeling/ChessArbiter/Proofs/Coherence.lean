import ChessArbiter.Execution
import ChessArbiter.Proofs.Handling

/-!
# The board and the lists agree

A game is `Coherent` when its board, its roster and its lists tell one story: a man stands on a
square exactly if the roster says so and he is in play, no man is listed twice, captured men stand
nowhere, and the bitboards show the men on the board. Each way of handling men keeps it so. In the
middle of a move a man may be off the board who is still in play, and that is not excluded here.
-/

namespace ChessArbiter

namespace Game

variable {g : Game} {m v : Man} {s src dst : Square}

def Knows (g : Game) (m : Man) : Prop :=
  m ∈ g.live.get m.colour ∨ m ∈ g.captured.get m.colour

structure Coherent (g : Game) : Prop where
  faithful : g.board.Faithful
  occupant_iff : ∀ s m, g.board.occupant s = some m ↔
    g.square? m = some s ∧ m ∈ g.live.get m.colour
  live_colour : ∀ c, ∀ m ∈ g.live.get c, m.colour = c
  captured_colour : ∀ c, ∀ m ∈ g.captured.get c, m.colour = c
  live_nodup : ∀ c, (g.live.get c).Nodup
  captured_nodup : ∀ c, (g.captured.get c).Nodup
  live_not_captured : ∀ c d, ∀ m ∈ g.live.get c, m ∉ g.captured.get d
  id_inj : ∀ m v, g.Knows m → g.Knows v → m.id = v.id → m = v
  enrolled : ∀ m, g.Knows m → m.id < g.roster.size
  captured_off : ∀ c, ∀ m ∈ g.captured.get c, g.square? m = none

namespace Coherent

theorem live_of_occupant (h : g.Coherent) (hs : g.board.occupant s = some m) :
    m ∈ g.live.get m.colour := ((h.occupant_iff s m).1 hs).2

theorem square?_of_occupant (h : g.Coherent) (hs : g.board.occupant s = some m) :
    g.square? m = some s := ((h.occupant_iff s m).1 hs).1

theorem knows_of_occupant (h : g.Coherent) (hs : g.board.occupant s = some m) : g.Knows m :=
  .inl (h.live_of_occupant hs)

theorem enrolled_of_occupant (h : g.Coherent) (hs : g.board.occupant s = some m) :
    m.id < g.roster.size := h.enrolled m (h.knows_of_occupant hs)

theorem knows_of_live (h : g.Coherent) {c : Colour} (hm : m ∈ g.live.get c) : g.Knows m := by
  obtain rfl := h.live_colour c m hm
  exact .inl hm

/-- A man stands on one square only. -/
theorem occupant_unique (h : g.Coherent) {u : Square} (hs : g.board.occupant s = some m)
    (hu : g.board.occupant u = some v) (hid : m.id = v.id) : s = u := by
  obtain rfl := h.id_inj m v (h.knows_of_occupant hs) (h.knows_of_occupant hu) hid
  have hs' := h.square?_of_occupant hs
  rw [h.square?_of_occupant hu, Option.some.injEq] at hs'
  exact hs'.symm

/-- Nothing but the board, the roster and the two lists matters. -/
theorem congr {g' : Game} (h : g.Coherent) (ht : g'.toTable = g.toTable) (hl : g'.live = g.live)
    (hc : g'.captured = g.captured) : g'.Coherent := by
  obtain ⟨_, _, _, _, _, _, _, _, _, _⟩ := g
  obtain ⟨_, _, _, _, _, _, _, _, _, _⟩ := g'
  cases ht
  cases hl
  cases hc
  exact ⟨h.faithful, h.occupant_iff, h.live_colour, h.captured_colour, h.live_nodup,
    h.captured_nodup, h.live_not_captured, h.id_inj, h.enrolled, h.captured_off⟩

/-- The lists stay as they are, and one man in play goes to `x`, or off the board. -/
theorem withTable (h : g.Coherent) {t : Table} {x : Option Square}
    (hm : m ∈ g.live.get m.colour) (hf : t.board.Faithful)
    (hsize : t.roster.size = g.roster.size)
    (hocc : ∀ u y, t.board.occupant u = some y ↔
      if y = m then x = some u else g.board.occupant u = some y)
    (hsq : ∀ y, t.square? y = if y.id = m.id then x else g.square? y) :
    { g with toTable := t }.Coherent where
  faithful := hf
  occupant_iff u y := by
    change t.board.occupant u = some y ↔ t.square? y = some u ∧ y ∈ g.live.get y.colour
    rw [hocc, hsq]
    by_cases hy : y = m
    · subst hy
      simp [hm]
    · rw [if_neg hy, h.occupant_iff]
      refine and_congr_left fun hlive => ?_
      rw [if_neg fun hid => hy (h.id_inj y m (.inl hlive) (.inl hm) hid)]
  live_colour := h.live_colour
  captured_colour := h.captured_colour
  live_nodup := h.live_nodup
  captured_nodup := h.captured_nodup
  live_not_captured := h.live_not_captured
  id_inj := h.id_inj
  enrolled y hy := hsize ▸ h.enrolled y hy
  captured_off c y hy := by
    have hcol := h.captured_colour c y hy
    have hid : y.id ≠ m.id := by
      intro hid
      obtain rfl := h.id_inj y m (.inr (hcol ▸ hy)) (.inl hm) hid
      exact h.live_not_captured _ _ y hm hy
    change t.square? y = none
    rw [hsq, if_neg hid]
    exact h.captured_off c y hy

theorem lift (h : g.Coherent) (s : Square) : { g with toTable := (g.lift s).2 }.Coherent := by
  cases hs : g.board.occupant s with
  | none =>
    have he : (g.lift s).2 = g.toTable := by rw [Table.lift, hs]
    exact h.congr he rfl rfl
  | some m =>
    refine h.withTable (x := none) (h.live_of_occupant hs) (Table.faithful_lift _ h.faithful s)
      (Table.size_lift _ s) ?_ (Table.square?_lift _ hs (h.enrolled_of_occupant hs))
    intro u y
    rw [Table.occupant_lift]
    by_cases hu : u = s
    · rw [if_pos hu, hu, hs, Option.some.injEq]
      simp only [reduceCtorEq, false_iff]
      split_ifs with hy
      · intro e
        cases e
      · exact fun e => hy e.symm
    · rw [if_neg hu]
      split_ifs with hy
      · subst hy
        exact iff_of_false (fun hy => hu (h.occupant_unique hy hs rfl)) not_false
      · rfl

/-- Relocating a man to an empty square. -/
theorem relocate_empty (h : g.Coherent) (hs : g.board.occupant src = some m)
    (hd : g.board.occupant dst = none) :
    { g with toTable := (g.relocate src dst).2 }.Coherent := by
  have hne : src ≠ dst := by
    rintro rfl
    rw [hs] at hd
    cases hd
  refine h.withTable (x := some dst) (h.live_of_occupant hs)
    (Table.faithful_relocate _ h.faithful src dst) (Table.size_relocate _ src dst) ?_ ?_
  · intro u y
    rw [Table.occupant_relocate _ hs hne]
    by_cases hy : y = m
    · subst hy
      rw [if_pos rfl]
      split_ifs with hu hu'
      · simp [hu]
      · simp [hu', hne.symm]
      · refine iff_of_false (fun hocc => hu' (h.occupant_unique hocc hs rfl)) fun e => hu ?_
        exact (Option.some.inj e).symm
    · rw [if_neg hy]
      split_ifs with hu hu'
      · rw [hu, hd]
        exact iff_of_false (fun e => hy (Option.some.inj e).symm) nofun
      · rw [hu', hs]
        exact iff_of_false nofun fun e => hy (Option.some.inj e).symm
      · rfl
  · intro y
    rw [Table.square?_relocate _ hs hne (h.enrolled_of_occupant hs) (by simp [hd]), hd]
    rfl

theorem relocate (h : g.Coherent) (src dst : Square) :
    { g with toTable := (g.relocate src dst).2 }.Coherent := by
  by_cases hmove : (∃ m, g.board.occupant src = some m) ∧ src ≠ dst
  · obtain ⟨⟨m, hs⟩, hne⟩ := hmove
    have hs' : (g.lift dst).2.board.occupant src = some m := by
      rw [Table.occupant_lift, if_neg hne, hs]
    have hd' : (g.lift dst).2.board.occupant dst = none := by
      rw [Table.occupant_lift, if_pos rfl]
    rw [Table.relocate_eq_lift g.toTable h.faithful hs hne]
    exact (h.lift dst).relocate_empty hs' hd'
  · have he : (g.relocate src dst).2 = g.toTable := by
      unfold Table.relocate
      cases hs : g.board.occupant src with
      | none => rfl
      | some m =>
        have hsame : src = dst := by_contra fun hne => hmove ⟨⟨m, hs⟩, hne⟩
        simp only [if_pos hsame]
    exact h.congr he rfl rfl

theorem setMoved (h : g.Coherent) (m : Man) (x : Bool) :
    { g with toTable := g.setMoved m x }.Coherent where
  faithful := h.faithful
  occupant_iff s y := by
    change g.board.occupant s = some y ↔ (g.setMoved m x).square? y = some s ∧ _
    rw [Table.square?_setMoved]
    exact h.occupant_iff s y
  live_colour := h.live_colour
  captured_colour := h.captured_colour
  live_nodup := h.live_nodup
  captured_nodup := h.captured_nodup
  live_not_captured := h.live_not_captured
  id_inj := h.id_inj
  enrolled y hy := by
    change y.id < (g.setMoved m x).roster.size
    rw [Table.size_setMoved]
    exact h.enrolled y hy
  captured_off c y hy := by
    change (g.setMoved m x).square? y = none
    rw [Table.square?_setMoved]
    exact h.captured_off c y hy

/-! ### The lists -/

theorem mem_live_dismiss (h : g.Coherent) {c : Colour} {y : Man} :
    y ∈ (g.dismiss m).live.get c ↔ y ∈ g.live.get c ∧ y ≠ m := by
  simp only [Game.dismiss, Sides.get_modify]
  split_ifs with hc
  · rw [List.mem_filter, bne_iff_ne]
  · refine ⟨fun hy => ⟨hy, ?_⟩, And.left⟩
    rintro rfl
    exact hc (h.live_colour c y hy).symm

theorem knows_dismiss (h : g.Coherent) {y : Man} (hy : (g.dismiss m).Knows y) : g.Knows y :=
  hy.imp (fun hy => (h.mem_live_dismiss.1 hy).1) id

theorem dismiss (h : g.Coherent) (hm : g.square? m = none) : (g.dismiss m).Coherent where
  faithful := h.faithful
  occupant_iff s y := by
    change g.board.occupant s = some y ↔ g.square? y = some s ∧ _
    rw [h.occupant_iff, h.mem_live_dismiss]
    refine and_congr_right fun hy => (and_iff_left ?_).symm
    rintro rfl
    rw [hm] at hy
    cases hy
  live_colour c y hy := h.live_colour c y (h.mem_live_dismiss.1 hy).1
  captured_colour := h.captured_colour
  live_nodup c := by
    simp only [Game.dismiss, Sides.get_modify]
    split_ifs
    · exact (h.live_nodup c).filter _
    · exact h.live_nodup c
  captured_nodup := h.captured_nodup
  live_not_captured c d y hy := h.live_not_captured c d y (h.mem_live_dismiss.1 hy).1
  id_inj y z hy hz := h.id_inj y z (h.knows_dismiss hy) (h.knows_dismiss hz)
  enrolled y hy := h.enrolled y (h.knows_dismiss hy)
  captured_off := h.captured_off

theorem mem_captured_capture {c : Colour} {y : Man} :
    y ∈ (g.capture m).captured.get c ↔ y ∈ g.captured.get c ∨ (y = m ∧ c = m.colour) := by
  change y ∈ (g.captured.modify m.colour (· ++ [m])).get c ↔ _
  rw [Sides.get_modify]
  split_ifs with hc
  · simp [hc]
  · simp [hc]

theorem knows_capture (h : g.Coherent) (hlive : m ∈ g.live.get m.colour) {y : Man}
    (hy : (g.capture m).Knows y) : g.Knows y := by
  rcases hy with hy | hy
  · exact h.knows_dismiss (.inl hy)
  · rcases mem_captured_capture.1 hy with hy | ⟨rfl, _⟩
    · exact .inr hy
    · exact .inl hlive

theorem capture (h : g.Coherent) (hm : g.square? m = none) (hlive : m ∈ g.live.get m.colour) :
    (g.capture m).Coherent where
  faithful := h.faithful
  occupant_iff := (h.dismiss hm).occupant_iff
  live_colour := (h.dismiss hm).live_colour
  captured_colour c y hy := by
    rcases mem_captured_capture.1 hy with hy | ⟨rfl, hc⟩
    · exact h.captured_colour c y hy
    · exact hc.symm
  live_nodup := (h.dismiss hm).live_nodup
  captured_nodup c := by
    change ((g.captured.modify m.colour (· ++ [m])).get c).Nodup
    rw [Sides.get_modify]
    split_ifs
    · refine (h.captured_nodup c).append (List.nodup_singleton m) ?_
      rw [List.disjoint_singleton]
      exact h.live_not_captured _ c m hlive
    · exact h.captured_nodup c
  live_not_captured c d y hy hy' := by
    obtain ⟨hy, hne⟩ := h.mem_live_dismiss.1 hy
    rcases mem_captured_capture.1 hy' with hy' | ⟨rfl, _⟩
    · exact h.live_not_captured c d y hy hy'
    · exact hne rfl
  id_inj y z hy hz := h.id_inj y z (h.knows_capture hlive hy) (h.knows_capture hlive hz)
  enrolled y hy := h.enrolled y (h.knows_capture hlive hy)
  captured_off c y hy := by
    rcases mem_captured_capture.1 hy with hy | ⟨rfl, _⟩
    · exact h.captured_off c y hy
    · exact hm

theorem mem_live_enlist {p : Piece} {c : Colour} {y : Man} :
    y ∈ (g.enlist p s).2.live.get c ↔
      y ∈ g.live.get c ∨ (y = ⟨p, g.roster.size⟩ ∧ c = p.colour) := by
  rw [live_enlist, Sides.get_modify]
  split_ifs with hc
  · simp [hc]
  · simp [hc]

/-- A new man gets a number that nobody has. -/
theorem id_ne_size (h : g.Coherent) {y : Man} (hy : g.Knows y) : y.id ≠ g.roster.size :=
  (h.enrolled y hy).ne

theorem knows_enlist {p : Piece} {y : Man} (hy : (g.enlist p s).2.Knows y) :
    g.Knows y ∨ y = ⟨p, g.roster.size⟩ := by
  rcases hy with hy | hy
  · rcases mem_live_enlist.1 hy with hy | ⟨rfl, _⟩
    · exact .inl (.inl hy)
    · exact .inr rfl
  · exact .inl (.inr hy)

theorem enlist (h : g.Coherent) (p : Piece) (hs : g.board.occupant s = none) :
    (g.enlist p s).2.Coherent where
  faithful := faithful_enlist g h.faithful p s
  occupant_iff u y := by
    rw [occupant_enlist, square?_enlist, mem_live_enlist]
    by_cases hy : y = ⟨p, g.roster.size⟩
    · subst hy
      by_cases hu : u = s
      · simp [hu]
      · rw [if_neg hu, if_pos rfl]
        refine iff_of_false (fun hocc => ?_) fun hsq => hu (Option.some.inj hsq.1).symm
        exact h.id_ne_size (h.knows_of_occupant hocc) rfl
    · simp only [hy, false_and, or_false]
      -- a man who would have the newcomer's number cannot have been known before
      by_cases hid : y.id = g.roster.size
      · have hunknown : ¬g.Knows y := fun hy => h.id_ne_size hy hid
        refine iff_of_false (fun hocc => ?_) fun ⟨_, hlive⟩ => hunknown (.inl hlive)
        split_ifs at hocc
        · exact hy (Option.some.inj hocc).symm
        · exact hunknown (h.knows_of_occupant hocc)
      · rw [if_neg hid, ← h.occupant_iff]
        split_ifs with hu
        · rw [hu, hs]
          exact iff_of_false (fun e => hy (Option.some.inj e).symm) nofun
        · rfl
  live_colour c y hy := by
    rcases mem_live_enlist.1 hy with hy | ⟨rfl, hc⟩
    · exact h.live_colour c y hy
    · exact hc.symm
  captured_colour := h.captured_colour
  live_nodup c := by
    rw [live_enlist, Sides.get_modify]
    split_ifs
    · refine (h.live_nodup c).append (List.nodup_singleton _) ?_
      rw [List.disjoint_singleton]
      exact fun hlive => h.id_ne_size (h.knows_of_live hlive) rfl
    · exact h.live_nodup c
  captured_nodup := h.captured_nodup
  live_not_captured c d y hy hy' := by
    rcases mem_live_enlist.1 hy with hy | ⟨rfl, _⟩
    · exact h.live_not_captured c d y hy hy'
    · have hcol := h.captured_colour d _ hy'
      exact h.id_ne_size (.inr (hcol ▸ hy')) rfl
  id_inj y z hy hz hid := by
    rcases knows_enlist hy with hy | rfl <;> rcases knows_enlist hz with hz | rfl
    · exact h.id_inj y z hy hz hid
    · exact absurd hid (h.id_ne_size hy)
    · exact absurd hid.symm (h.id_ne_size hz)
    · rfl
  enrolled y hy := by
    rw [size_enlist]
    rcases knows_enlist hy with hy | rfl
    · exact Nat.lt_succ_of_lt (h.enrolled y hy)
    · exact Nat.lt_succ_self _
  captured_off c y hy := by
    have hcol := h.captured_colour c y hy
    rw [square?_enlist, if_neg (h.id_ne_size (.inr (hcol ▸ hy)))]
    exact h.captured_off c y hy

end Coherent

end Game

end ChessArbiter
