import ChessArbiter.Table
import Mathlib.Tactic

/-!
# Rays

A ray leaves a square in equal steps. `StepsTo` says in coordinates that a number of such steps
leads from one square to another, and `sees` walks a ray square by square until it meets its goal,
a square that is not free, or the edge. Both are compared with the tables of the board: `mem_walk`
and `has_between` describe the squares in between, and `sees_iff` the walk.
-/

namespace ChessArbiter

namespace Square

theorem eq_iff {s t : Square} :
    s = t ↔ s.file.val = t.file.val ∧ s.rank.val = t.rank.val := by
  cases s; cases t
  simp only [mk.injEq, Fin.ext_iff]

@[simp] theorem files_sub (s t : Square) :
    (t - s).files = (t.file.val : ℤ) - s.file.val := rfl

@[simp] theorem ranks_sub (s t : Square) :
    (t - s).ranks = (t.rank.val : ℤ) - s.rank.val := rfl

/-- `k` steps of `d` lead from `s` to `t`. -/
def StepsTo (s : Square) (d : Offset) (k : ℕ) (t : Square) : Prop :=
  (t.file.val : ℤ) = s.file.val + k * d.files ∧ (t.rank.val : ℤ) = s.rank.val + k * d.ranks

theorem tryOffset_eq_some {s t : Square} {d : Offset} :
    s.tryOffset d = some t ↔
      (t.file.val : ℤ) = s.file.val + d.files ∧ (t.rank.val : ℤ) = s.rank.val + d.ranks := by
  have hf := t.file.isLt
  have hr := t.rank.isLt
  unfold tryOffset ofCoords?
  split_ifs with h
  · rw [Option.some.injEq, eq_iff]
    dsimp only
    omega
  · simp only [false_iff]
    omega

theorem stepsTo_zero {s t : Square} {d : Offset} : s.StepsTo d 0 t ↔ t = s := by
  simp only [StepsTo, eq_iff, Nat.cast_zero, zero_mul, add_zero, Nat.cast_inj]

theorem stepsTo_one {s t : Square} {d : Offset} : s.StepsTo d 1 t ↔ s.tryOffset d = some t := by
  simp only [StepsTo, tryOffset_eq_some, Nat.cast_one, one_mul]

theorem stepsTo_succ {s t v : Square} {d : Offset} {k : ℕ} (hv : s.tryOffset d = some v) :
    s.StepsTo d (k + 1) t ↔ v.StepsTo d k t := by
  rw [tryOffset_eq_some] at hv
  simp only [StepsTo, hv, Nat.cast_add, Nat.cast_one, add_mul, one_mul]
  omega

theorem step_le_of_multiple {x d : ℤ} {k : ℕ} (hx : 0 ≤ x ∧ x < 8)
    (hk : 0 ≤ x + (k + 1) * d ∧ x + (k + 1) * d < 8) : 0 ≤ x + d ∧ x + d < 8 := by
  have hk0 : (0 : ℤ) ≤ k := Int.natCast_nonneg k
  rcases le_total 0 d with hd | hd
  · have := mul_nonneg hk0 hd
    constructor <;> linarith
  · have := mul_nonpos_of_nonneg_of_nonpos hk0 hd
    constructor <;> linarith

/-- The board has no holes: if a ray comes back to the board, it has never left it. -/
theorem StepsTo.exists_first {s t : Square} {d : Offset} {k : ℕ} (ht : s.StepsTo d (k + 1) t) :
    ∃ v, s.tryOffset d = some v := by
  obtain ⟨hf, hr⟩ := ht
  have hsf := s.file.isLt
  have hsr := s.rank.isLt
  have htf := t.file.isLt
  have htr := t.rank.isLt
  push_cast at hf hr
  have hfile := step_le_of_multiple (x := s.file.val) (d := d.files) (k := k) (by omega) (by omega)
  have hrank := step_le_of_multiple (x := s.rank.val) (d := d.ranks) (k := k) (by omega) (by omega)
  exact ⟨_, dif_pos ⟨hfile, hrank⟩⟩

/-- Walks from `s` in steps of `d` over free squares, at most `n` of them, in search of `t`. -/
def sees (free : Square → Bool) (d : Offset) : ℕ → Square → Square → Bool
  | 0, _, _ => false
  | n + 1, s, t =>
    match s.tryOffset d with
    | none => false
    | some u => u == t || (free u && sees free d n u t)

theorem sees_iff {free : Square → Bool} {d : Offset} {n : ℕ} {s t : Square} :
    sees free d n s t = true ↔ ∃ k, k < n ∧ s.StepsTo d (k + 1) t ∧
      ∀ j u, j < k → s.StepsTo d (j + 1) u → free u = true := by
  induction n generalizing s with
  | zero => simp [sees]
  | succ n ih =>
    cases hv : s.tryOffset d with
    | none =>
      simp only [sees, hv, Bool.false_eq_true, false_iff, not_exists, not_and]
      intro k _ hk
      obtain ⟨v, hv'⟩ := hk.exists_first
      rw [hv] at hv'
      cases hv'
    | some v =>
      have hstep : ∀ k u, s.StepsTo d (k + 1) u ↔ v.StepsTo d k u := fun k u => stepsTo_succ hv
      simp only [sees, hv, Bool.or_eq_true, beq_iff_eq, Bool.and_eq_true, ih, hstep]
      constructor
      · rintro (rfl | ⟨hfree, k, hk, ht, hclear⟩)
        · exact ⟨0, by omega, stepsTo_zero.2 rfl, by omega⟩
        · refine ⟨k + 1, by omega, ht, ?_⟩
          intro j u hj hu
          cases j with
          | zero => rw [stepsTo_zero.1 hu]; exact hfree
          | succ j => exact hclear j u (by omega) hu
      · rintro ⟨k, hk, ht, hclear⟩
        cases k with
        | zero => exact .inl (stepsTo_zero.1 ht).symm
        | succ k =>
          refine .inr ⟨hclear 0 v (by omega) (stepsTo_zero.2 rfl), k, by omega, ht, ?_⟩
          intro j u hj hu
          exact hclear (j + 1) u (by omega) hu

def orthogonals : List Offset := [⟨0, 1⟩, ⟨0, -1⟩, ⟨1, 0⟩, ⟨-1, 0⟩]

def diagonals : List Offset := [⟨1, 1⟩, ⟨1, -1⟩, ⟨-1, 1⟩, ⟨-1, -1⟩]

def directions : List Offset := orthogonals ++ diagonals

/-- The direction in which `t` lies from `s`, when it lies in one of the eight. -/
def heading (s t : Square) : Offset := ⟨(t - s).files.sign, (t - s).ranks.sign⟩

def distance (s t : Square) : ℕ := max (t - s).files.natAbs (t - s).ranks.natAbs

theorem distance_lt (s t : Square) : distance s t < 8 := by
  have := s.file.isLt
  have := s.rank.isLt
  have := t.file.isLt
  have := t.rank.isLt
  simp only [distance, files_sub, ranks_sub]
  omega

theorem sign_cases (x : ℤ) :
    (x < 0 ∧ x.sign = -1) ∨ (x = 0 ∧ x.sign = 0) ∨ (0 < x ∧ x.sign = 1) := by
  rw [Int.sign_eq_neg_one_iff_neg, Int.sign_eq_zero_iff_zero, Int.sign_eq_one_iff_pos]
  omega

theorem stepsTo_heading {s t : Square} (h : Geometry.aligned s t = true) :
    s.StepsTo (heading s t) (distance s t) t := by
  simp only [Geometry.aligned, files_sub, ranks_sub, Bool.or_eq_true, beq_iff_eq] at h
  simp only [StepsTo, heading, distance, files_sub, ranks_sub]
  generalize hf : (t.file.val : ℤ) - s.file.val = f at *
  generalize hr : (t.rank.val : ℤ) - s.rank.val = r at *
  rcases sign_cases f with ⟨_, hsf⟩ | ⟨_, hsf⟩ | ⟨_, hsf⟩ <;>
    rcases sign_cases r with ⟨_, hsr⟩ | ⟨_, hsr⟩ | ⟨_, hsr⟩ <;>
  · rw [hsf, hsr]
    omega

theorem eq_zero_of_stepsTo {s t : Square} (h : distance s t = 0) : s = t := by
  simp only [distance, files_sub, ranks_sub] at h
  rw [eq_iff]
  omega

/-- Along one of the eight directions a ray determines its direction and its length. -/
theorem StepsTo.heading_eq {s t : Square} {d : Offset} {k : ℕ} (hd : d ∈ directions)
    (ht : s.StepsTo d (k + 1) t) :
    Geometry.aligned s t = true ∧ heading s t = d ∧ distance s t = k + 1 := by
  obtain ⟨hf, hr⟩ := ht
  have hf' : (t.file.val : ℤ) - s.file.val = (k + 1 : ℕ) * d.files := by omega
  have hr' : (t.rank.val : ℤ) - s.rank.val = (k + 1 : ℕ) * d.ranks := by omega
  have hpos : ((k + 1 : ℕ) : ℤ) ≠ 0 := by omega
  simp only [Geometry.aligned, heading, distance, files_sub, ranks_sub, hf', hr', Int.sign_mul,
    Int.natAbs_mul, Int.sign_natCast_of_ne_zero (Nat.succ_ne_zero k), Int.natAbs_natCast]
  simp only [directions, orthogonals, diagonals, List.cons_append, List.nil_append, List.mem_cons,
    List.not_mem_nil, or_false] at hd
  rcases hd with rfl | rfl | rfl | rfl | rfl | rfl | rfl | rfl <;> simp

end Square

namespace Geometry

open Square

theorem mem_walk {d : Offset} {n : ℕ} {s u : Square} :
    u ∈ walk d n s ↔ ∃ k, k < n ∧ s.StepsTo d (k + 1) u := by
  induction n generalizing s with
  | zero => simp [walk]
  | succ n ih =>
    cases hv : s.tryOffset d with
    | none =>
      simp only [walk, hv, List.not_mem_nil, false_iff, not_exists, not_and]
      intro k _ hk
      obtain ⟨v, hv'⟩ := hk.exists_first
      rw [hv] at hv'
      cases hv'
    | some v =>
      have hstep : ∀ k u, s.StepsTo d (k + 1) u ↔ v.StepsTo d k u := fun k u => stepsTo_succ hv
      simp only [walk, hv, List.mem_cons, ih, hstep]
      constructor
      · rintro (rfl | ⟨k, hk, hu⟩)
        · exact ⟨0, by omega, stepsTo_zero.2 rfl⟩
        · exact ⟨k + 1, by omega, hu⟩
      · rintro ⟨k, hk, hu⟩
        cases k with
        | zero => exact .inl (stepsTo_zero.1 hu)
        | succ k => exact .inr ⟨k, by omega, hu⟩

theorem has_foldl_insert (b : Bitboard) (l : List Square) (u : Square) :
    (l.foldl Bitboard.insert b).has u = (b.has u || decide (u ∈ l)) := by
  induction l generalizing b with
  | nil => simp
  | cons s l ih =>
    simp only [List.foldl_cons, ih, Bitboard.has_insert, List.mem_cons, Bool.decide_or,
      Bool.or_assoc]

theorem has_between {s t u : Square} :
    (between s t).has u = true ↔ aligned s t = true ∧
      ∃ k, k + 1 < distance s t ∧ s.StepsTo (heading s t) (k + 1) u := by
  unfold between
  split_ifs with h
  · simp only [has_foldl_insert, Bitboard.has_zero, Bool.false_or, decide_eq_true_eq, h, true_and]
    change u ∈ walk (heading s t) (distance s t - 1) s ↔ _
    simp only [mem_walk, Nat.lt_sub_iff_add_lt]
  · simp [h]

theorem between_ne_right {s t u : Square} (hu : (between s t).has u = true) : u ≠ t := by
  rintro rfl
  obtain ⟨hal, k, hk, hf, hr⟩ := has_between.1 hu
  obtain ⟨hf', hr'⟩ := stepsTo_heading hal
  have hgap : (distance s u : ℤ) - (k + 1 : ℕ) ≠ 0 := by omega
  have hzero : ∀ x : ℤ, (k + 1 : ℕ) * x = distance s u * x → x = 0 := by
    intro x hx
    have hprod : ((distance s u : ℤ) - (k + 1 : ℕ)) * x = 0 := by rw [sub_mul, hx, sub_self]
    exact (mul_eq_zero.1 hprod).resolve_left hgap
  have hfiles := Int.sign_eq_zero_iff_zero.1 (hzero (heading s u).files (by omega))
  have hranks := Int.sign_eq_zero_iff_zero.1 (hzero (heading s u).ranks (by omega))
  simp only [distance, hfiles, hranks] at hk
  omega

/-- Looking at `t` across another square of its rank is looking along that rank. -/
theorem has_between_of_rank_eq {s t u : Square} (hr : u.rank = t.rank) :
    (between s t).has u = true ↔ s.rank = t.rank ∧
      ((s.file < u.file ∧ u.file < t.file) ∨ (t.file < u.file ∧ u.file < s.file)) := by
  simp only [Fin.ext_iff, Fin.lt_def] at hr ⊢
  rw [has_between]
  simp only [aligned, heading, distance, StepsTo, files_sub, ranks_sub, Bool.or_eq_true, beq_iff_eq]
  generalize hf : (t.file.val : ℤ) - s.file.val = f
  generalize hrk : (t.rank.val : ℤ) - s.rank.val = r
  constructor
  · rintro ⟨hal, k, hk, huf, hur⟩
    rcases sign_cases f with ⟨_, hsf⟩ | ⟨_, hsf⟩ | ⟨_, hsf⟩ <;>
      rcases sign_cases r with ⟨_, hsr⟩ | ⟨_, hsr⟩ | ⟨_, hsr⟩ <;>
    · rw [hsf] at huf
      rw [hsr] at hur
      omega
  · rintro ⟨hrank, hfile⟩
    have hr0 : r = 0 := by omega
    subst hr0
    refine ⟨by omega, ((u.file.val : ℤ) - s.file.val).natAbs - 1, by omega, ?_, by simp; omega⟩
    rcases sign_cases f with ⟨_, hsf⟩ | ⟨_, hsf⟩ | ⟨_, hsf⟩ <;>
    · rw [hsf]
      omega

/-- Walking from `s` to `t` is possible exactly along the line between them. -/
theorem sees_iff_between {free : Square → Bool} {d : Offset} {s t : Square} (hd : d ∈ directions) :
    sees free d 7 s t = true ↔ (aligned s t = true ∧ s ≠ t ∧ heading s t = d) ∧
      ∀ u, (between s t).has u = true → free u = true := by
  rw [sees_iff]
  constructor
  · rintro ⟨k, _, ht, hclear⟩
    obtain ⟨hal, hdir, hdist⟩ := ht.heading_eq hd
    refine ⟨⟨hal, ?_, hdir⟩, ?_⟩
    · rintro rfl
      simp [distance] at hdist
    · intro u hu
      obtain ⟨_, j, hj, hu⟩ := has_between.1 hu
      rw [hdir] at hu
      exact hclear j u (by omega) hu
  · rintro ⟨⟨hal, hne, hdir⟩, hclear⟩
    have ht := stepsTo_heading hal
    rw [hdir] at ht
    obtain ⟨k, hk⟩ : ∃ k, distance s t = k + 1 :=
      Nat.exists_eq_succ_of_ne_zero fun h => hne (eq_zero_of_stepsTo h)
    have hlt := distance_lt s t
    refine ⟨k, by omega, hk ▸ ht, ?_⟩
    intro j u hj hu
    refine hclear u (has_between.2 ⟨hal, j, by omega, ?_⟩)
    rw [hdir]
    exact hu

end Geometry

namespace Square

variable {free : Square → Bool} {d : Offset} {s t u : Square}

/-- `u` comes before `t` on one of the eight lines from `s`. -/
def Between (s u t : Square) : Prop :=
  ∃ d ∈ directions, ∃ j k, j < k ∧ s.StepsTo d (j + 1) u ∧ s.StepsTo d (k + 1) t

theorem heading_mem_directions (h : distance s t ≠ 0) : heading s t ∈ directions := by
  simp only [distance, heading] at h ⊢
  rcases sign_cases (t - s).files with ⟨_, hf⟩ | ⟨_, hf⟩ | ⟨_, hf⟩ <;>
    rcases sign_cases (t - s).ranks with ⟨_, hr⟩ | ⟨_, hr⟩ | ⟨_, hr⟩ <;>
  · rw [hf, hr]
    first
    | decide
    | omega

theorem between_iff : s.Between u t ↔ (Geometry.between s t).has u = true := by
  rw [Geometry.has_between]
  constructor
  · rintro ⟨d, hd, j, k, hjk, hu, ht⟩
    obtain ⟨haligned, hheading, hdistance⟩ := ht.heading_eq hd
    rw [hheading, hdistance]
    exact ⟨haligned, j, by omega, hu⟩
  · rintro ⟨haligned, j, hj, hu⟩
    have hdistance : distance s t = (distance s t - 1) + 1 := by omega
    have ht := stepsTo_heading haligned
    rw [hdistance] at ht
    exact ⟨_, heading_mem_directions (by omega), j, _, by omega, hu, ht⟩

theorem not_between_of_near (h : distance s t ≤ 1) : ¬s.Between u t := by
  rw [between_iff, Geometry.has_between]
  rintro ⟨_, k, hk, _⟩
  omega

/-- Steps of `d` lead from `s` to `t`, and every square passed on the way is free. -/
inductive Walks (free : Square → Bool) (d : Offset) : Square → Square → Prop
  | arrive {s t : Square} (h : s.tryOffset d = some t) : Walks free d s t
  | pass {s u t : Square} (h : s.tryOffset d = some u) (hfree : free u = true)
    (hrest : Walks free d u t) : Walks free d s t

theorem walks_of_sees {n : ℕ} (h : sees free d n s t = true) : Walks free d s t := by
  induction n generalizing s with
  | zero => cases h
  | succ n ih =>
    cases hu : s.tryOffset d with
    | none => simp [sees, hu] at h
    | some u =>
      simp only [sees, hu, Bool.or_eq_true, beq_iff_eq, Bool.and_eq_true] at h
      rcases h with rfl | ⟨hfree, hrest⟩
      · exact .arrive hu
      · exact .pass hu hfree (ih hrest)

theorem exists_sees_of_walks (h : Walks free d s t) : ∃ n, sees free d n s t = true := by
  induction h with
  | arrive h => exact ⟨1, by simp [sees, h]⟩
  | pass h hfree _ ih =>
    obtain ⟨n, hn⟩ := ih
    exact ⟨n + 1, by simp [sees, h, hfree, hn]⟩

/-- Seven steps are enough on a board of eight files and eight ranks. -/
theorem sees_iff_walks (hd : d ∈ directions) : sees free d 7 s t = true ↔ Walks free d s t := by
  refine ⟨walks_of_sees, fun h => ?_⟩
  obtain ⟨n, hn⟩ := exists_sees_of_walks h
  obtain ⟨k, -, ht, hclear⟩ := sees_iff.1 hn
  have hdistance := (ht.heading_eq hd).2.2
  have hlt := distance_lt s t
  exact sees_iff.2 ⟨k, by omega, ht, hclear⟩

end Square

end ChessArbiter
