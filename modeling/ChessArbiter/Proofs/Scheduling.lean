import Mathlib.Data.List.Nodup
import Mathlib.Data.List.Range
import Mathlib.Tactic.SplitIfs
import ChessArbiter.Replay

/-!
# Schedules of a pool of workers

Whatever order the steps of the workers come in, a job is taken by one worker, which then fills the
job's slot (`Accounted`), and once everybody has stopped the results are there in the order of the
jobs (`Accounted.slots_eq`). A worker that has had as many turns as it needs for all jobs alone has
stopped (`Paced`), so a schedule that leaves nobody out for good comes to that end.
-/

namespace ChessArbiter

/-! ### What is done at a step -/

inductive Deed where
  | take (worker job : Nat)
  | fill (worker job : Nat)
deriving DecidableEq

namespace Deed

def taker? (i : Nat) : Deed → Option Nat
  | take w j => if j = i then some w else none
  | fill _ _ => none

def filler? (i : Nat) : Deed → Option Nat
  | take _ _ => none
  | fill w j => if j = i then some w else none

/-- Who took a number, in the order of the taking. -/
def takers (i : Nat) (ds : List Deed) : List Nat := ds.filterMap (taker? i)

/-- Who filled a slot, in the order of the filling. -/
def fillers (i : Nat) (ds : List Deed) : List Nat := ds.filterMap (filler? i)

variable {i j : Nat} (w : Nat) (ds : List Deed)

@[simp] theorem takers_fill : takers i (ds ++ [fill w j]) = takers i ds := by
  rw [takers, List.filterMap_append]
  exact List.append_nil _

@[simp] theorem fillers_take : fillers i (ds ++ [take w j]) = fillers i ds := by
  rw [fillers, List.filterMap_append]
  exact List.append_nil _

theorem takers_take_self : takers i (ds ++ [take w i]) = takers i ds ++ [w] := by
  simp [takers, taker?]

theorem takers_take_of_ne (h : j ≠ i) : takers i (ds ++ [take w j]) = takers i ds := by
  simp [takers, taker?, h]

theorem fillers_fill_self : fillers i (ds ++ [fill w i]) = fillers i ds ++ [w] := by
  simp [fillers, filler?]

theorem fillers_fill_of_ne (h : j ≠ i) : fillers i (ds ++ [fill w j]) = fillers i ds := by
  simp [fillers, filler?, h]

end Deed

namespace WorkerPool

open Deed (takers fillers takers_take_self takers_take_of_ne fillers_fill_self fillers_fill_of_ne)

variable {α β : Type} {f : β → α} {jobs : Array β} {p : WorkerPool α} {ds : List Deed} {w : Nat}

/-- What a worker does when it is its turn, unless it has stopped. -/
def deed? (p : WorkerPool α) (w : Nat) : Option Deed :=
  match p.workers[w]? with
  | some .ready => some (.take w p.next)
  | some (.holding i) => some (.fill w i)
  | _ => none

def deeds (f : β → α) (jobs : Array β) (p : WorkerPool α) : List Nat → List Deed
  | [] => []
  | w :: rest => (p.deed? w).toList ++ deeds f jobs (p.step f jobs w) rest

def taken (jobs : Array β) (p : WorkerPool α) (w : Nat) : WorkerPool α :=
  { p with
    next := p.next + 1
    workers := p.workers.setIfInBounds w
      (if p.next < jobs.size then .holding p.next else .stopped) }

def filled (f : β → α) (jobs : Array β) (p : WorkerPool α) (w i : Nat) : WorkerPool α :=
  { p with
    slots := p.slots.setIfInBounds i (jobs[i]?.map f)
    workers := p.workers.setIfInBounds w .ready }

/-- A worker takes a number, fills the slot of the job it holds, or has stopped. -/
theorem step_cases (f : β → α) (jobs : Array β) (p : WorkerPool α) (w : Nat) :
    (p.workers[w]? = some .ready ∧ p.deed? w = some (.take w p.next) ∧
      p.step f jobs w = p.taken jobs w) ∨
    (∃ i, p.workers[w]? = some (.holding i) ∧ p.deed? w = some (.fill w i) ∧
      p.step f jobs w = p.filled f jobs w i) ∨
    (p.deed? w = none ∧ p.step f jobs w = p) := by
  unfold deed? step
  cases hw : p.workers[w]? with
  | none => exact .inr (.inr ⟨rfl, rfl⟩)
  | some worker =>
    cases worker with
    | ready => exact .inl ⟨rfl, rfl, rfl⟩
    | holding i => exact .inr (.inl ⟨i, rfl, rfl, rfl⟩)
    | stopped => exact .inr (.inr ⟨rfl, rfl⟩)

theorem getElem?_set_of_some {ws : Array Worker} {x : Worker} (hw : ws[w]? = some x) (y : Worker)
    (v : Nat) : (ws.setIfInBounds w y)[v]? = if v = w then some y else ws[v]? := by
  have hlt : w < ws.size := (Array.getElem?_eq_some_iff.1 hw).1
  rw [Array.getElem?_setIfInBounds]
  by_cases hv : v = w
  · rw [if_pos hv.symm, if_pos hv, if_pos hlt]
  · rw [if_neg (Ne.symm hv), if_neg hv]

/-! ### Every job once -/

/-- How the pool stands after what has been done. A number that is out is that of a job in hand or
of one that is done. -/
structure Accounted (f : β → α) (jobs : Array β) (p : WorkerPool α) (ds : List Deed) : Prop where
  size : p.slots.size = jobs.size
  waiting : ∀ i, p.next ≤ i → takers i ds = [] ∧ fillers i ds = []
  holding : ∀ w i : Nat, p.workers[w]? = some (.holding i) →
    i < jobs.size ∧ i < p.next ∧ takers i ds = [w] ∧ fillers i ds = []
  stopped : ∀ w : Nat, p.workers[w]? = some .stopped → jobs.size ≤ p.next
  given_out : ∀ (i : Nat) (_ : i < jobs.size), i < p.next →
    (∃ w : Nat, p.workers[w]? = some (.holding i)) ∨
    ∃ w, takers i ds = [w] ∧ fillers i ds = [w] ∧ p.slots[i]? = some (some (f jobs[i]))
  beyond : ∀ i, jobs.size ≤ i → fillers i ds = []

theorem ready_of_start {workers n : Nat} {x : Worker}
    (hw : (start workers n : WorkerPool α).workers[w]? = some x) : x = .ready := by
  obtain ⟨hlt, hx⟩ := Array.getElem?_eq_some_iff.1 hw
  rw [← hx]
  exact Array.getElem_replicate hlt

theorem accounted_start (f : β → α) (jobs : Array β) (workers : Nat) :
    Accounted f jobs (start workers jobs.size) [] where
  size := Array.size_replicate
  waiting := fun _ _ => ⟨rfl, rfl⟩
  holding := fun _ _ hw => nomatch ready_of_start hw
  stopped := fun _ hw => nomatch ready_of_start hw
  given_out := fun _ _ h => absurd h (Nat.not_lt_zero _)
  beyond := fun _ _ => rfl

theorem Accounted.taken (h : Accounted f jobs p ds) (hw : p.workers[w]? = some .ready) :
    Accounted f jobs (p.taken jobs w) (ds ++ [.take w p.next]) where
  size := h.size
  waiting := by
    intro i hi
    have hlt : p.next < i := hi
    rw [takers_take_of_ne w ds hlt.ne, Deed.fillers_take]
    exact h.waiting i hlt.le
  holding := by
    intro v i hv
    rw [WorkerPool.taken, getElem?_set_of_some hw] at hv
    obtain ⟨htakers, hfillers⟩ := h.waiting p.next le_rfl
    split_ifs at hv with hvw hnext
    · obtain rfl : p.next = i := by simpa using hv
      rw [takers_take_self, htakers, Deed.fillers_take, hvw]
      exact ⟨hnext, Nat.lt_succ_self _, rfl, hfillers⟩
    · simp at hv
    · obtain ⟨hi, hout, hheld⟩ := h.holding v i hv
      rw [takers_take_of_ne w ds hout.ne', Deed.fillers_take]
      exact ⟨hi, Nat.lt_succ_of_lt hout, hheld⟩
  stopped := by
    intro v hv
    rw [WorkerPool.taken, getElem?_set_of_some hw] at hv
    change jobs.size ≤ p.next + 1
    split_ifs at hv with hvw hnext
    · simp at hv
    · omega
    · exact Nat.le_succ_of_le (h.stopped v hv)
  given_out := by
    intro i hi hout
    rcases Nat.lt_succ_iff_lt_or_eq.1 hout with hlt | rfl
    · rw [takers_take_of_ne w ds hlt.ne', Deed.fillers_take]
      rcases h.given_out i hi hlt with ⟨v, hv⟩ | hdone
      · left
        -- only `w` changes, and `w` was holding nothing
        refine ⟨v, ?_⟩
        have hvw : v ≠ w := by
          rintro rfl
          simp [hw] at hv
        rw [WorkerPool.taken, getElem?_set_of_some hw, if_neg hvw]
        exact hv
      · exact .inr hdone
    · left
      refine ⟨w, ?_⟩
      rw [WorkerPool.taken, getElem?_set_of_some hw, if_pos rfl, if_pos hi]
  beyond := by
    intro i hi
    rw [Deed.fillers_take]
    exact h.beyond i hi

theorem Accounted.filled {j : Nat} (h : Accounted f jobs p ds)
    (hw : p.workers[w]? = some (.holding j)) :
    Accounted f jobs (p.filled f jobs w j) (ds ++ [.fill w j]) := by
  obtain ⟨hj, hjout, hjtakers, hjfillers⟩ := h.holding w j hw
  -- nobody else holds this job, for it was taken only once
  have hother : ∀ {v i : Nat}, v ≠ w → p.workers[v]? = some (.holding i) → j ≠ i := by
    rintro v i hvw hv rfl
    obtain ⟨-, -, htakers, -⟩ := h.holding v j hv
    rw [hjtakers] at htakers
    exact hvw (List.singleton_inj.1 htakers).symm
  refine ⟨?_, ?_, ?_, ?_, ?_, ?_⟩
  · rw [WorkerPool.filled, Array.size_setIfInBounds]
    exact h.size
  · intro i hi
    have hne : j ≠ i := (hjout.trans_le hi).ne
    rw [Deed.takers_fill, fillers_fill_of_ne w ds hne]
    exact h.waiting i hi
  · intro v i hv
    rw [WorkerPool.filled, getElem?_set_of_some hw] at hv
    split_ifs at hv with hvw
    · simp at hv
    · rw [Deed.takers_fill, fillers_fill_of_ne w ds (hother hvw hv)]
      exact h.holding v i hv
  · intro v hv
    rw [WorkerPool.filled, getElem?_set_of_some hw] at hv
    split_ifs at hv with hvw
    · simp at hv
    · exact h.stopped v hv
  · intro i hi hout
    rw [Deed.takers_fill]
    by_cases hij : j = i
    · subst hij
      right
      refine ⟨w, hjtakers, ?_, ?_⟩
      · rw [fillers_fill_self, hjfillers]
        rfl
      · rw [WorkerPool.filled, Array.getElem?_setIfInBounds, if_pos rfl, if_pos (h.size ▸ hi),
          Array.getElem?_eq_getElem hi]
        rfl
    · rw [fillers_fill_of_ne w ds hij]
      rcases h.given_out i hi hout with ⟨v, hv⟩ | ⟨v, htakers, hfillers, hslot⟩
      · left
        refine ⟨v, ?_⟩
        have hvw : v ≠ w := by
          rintro rfl
          rw [hw] at hv
          exact hij (Worker.holding.inj (Option.some.inj hv))
        rw [WorkerPool.filled, getElem?_set_of_some hw, if_neg hvw]
        exact hv
      · right
        refine ⟨v, htakers, hfillers, ?_⟩
        rw [WorkerPool.filled, Array.getElem?_setIfInBounds, if_neg hij]
        exact hslot
  · intro i hi
    rw [fillers_fill_of_ne w ds (hj.trans_le hi).ne]
    exact h.beyond i hi

theorem Accounted.step (h : Accounted f jobs p ds) (w : Nat) :
    Accounted f jobs (p.step f jobs w) (ds ++ (p.deed? w).toList) := by
  rcases step_cases f jobs p w with ⟨hw, hdeed, hstep⟩ | ⟨i, hw, hdeed, hstep⟩ | ⟨hdeed, hstep⟩
  · rw [hdeed, hstep]
    exact h.taken hw
  · rw [hdeed, hstep]
    exact h.filled hw
  · rw [hdeed, hstep, Option.toList_none, List.append_nil]
    exact h

theorem Accounted.run (h : Accounted f jobs p ds) (schedule : List Nat) :
    Accounted f jobs (p.run f jobs schedule) (ds ++ p.deeds f jobs schedule) := by
  induction schedule generalizing p ds with
  | nil =>
    rw [deeds, List.append_nil]
    exact h
  | cons w rest ih =>
    rw [deeds, ← List.append_assoc]
    exact ih (h.step w)

theorem allStopped_iff : p.allStopped = true ↔
    ∀ (w : Nat) (_ : w < p.workers.size), p.workers[w]? = some .stopped := by
  rw [allStopped, Array.all_eq_true]
  constructor
  · intro h w hw
    rw [Array.getElem?_eq_getElem hw, beq_iff_eq.1 (h w hw)]
  · intro h w hw
    have hstopped := h w hw
    rw [Array.getElem?_eq_getElem hw] at hstopped
    exact beq_iff_eq.2 (Option.some.inj hstopped)

/-- Once everybody has stopped, each job has been taken and done by one worker. -/
theorem Accounted.done (h : Accounted f jobs p ds) (hstopped : p.allStopped = true)
    (hworkers : jobs.size ≠ 0 → p.workers.size ≠ 0) {i : Nat} (hi : i < jobs.size) :
    ∃ w, takers i ds = [w] ∧ fillers i ds = [w] ∧ p.slots[i]? = some (some (f jobs[i])) := by
  rw [allStopped_iff] at hstopped
  have hsome : 0 < p.workers.size := Nat.pos_of_ne_zero (hworkers (by omega))
  have hout : i < p.next := hi.trans_le (h.stopped 0 (hstopped 0 hsome))
  rcases h.given_out i hi hout with ⟨w, hw⟩ | hdone
  · have hlt : w < p.workers.size := (Array.getElem?_eq_some_iff.1 hw).1
    rw [hstopped w hlt] at hw
    simp at hw
  · exact hdone

theorem Accounted.slots_eq (h : Accounted f jobs p ds) (hstopped : p.allStopped = true)
    (hworkers : jobs.size ≠ 0 → p.workers.size ≠ 0) :
    p.slots.toList = jobs.toList.map fun job => some (f job) := by
  apply List.ext_getElem?
  intro i
  rw [Array.getElem?_toList, List.getElem?_map, Array.getElem?_toList]
  by_cases hi : i < jobs.size
  · obtain ⟨w, -, -, hslot⟩ := h.done hstopped hworkers hi
    rw [hslot, Array.getElem?_eq_getElem hi]
    rfl
  · have hslots : p.slots.size ≤ i := h.size ▸ Nat.le_of_not_lt hi
    rw [Array.getElem?_eq_none hslots, Array.getElem?_eq_none (Nat.le_of_not_lt hi)]
    rfl

theorem Accounted.results_eq (h : Accounted f jobs p ds) (hstopped : p.allStopped = true)
    (hworkers : jobs.size ≠ 0 → p.workers.size ≠ 0) : p.results = jobs.toList.map f := by
  rw [results, h.slots_eq hstopped hworkers, List.filterMap_map]
  exact congrFun List.filterMap_eq_map _

/-! ### Coming to an end -/

/-- No worker has had more turns than went into the jobs handed out up to its own last one. -/
structure Paced (jobs : Array β) (p : WorkerPool α) (turns : Nat → Nat) : Prop where
  ready : ∀ w : Nat, p.workers[w]? = some .ready → turns w ≤ 2 * p.next ∧ turns w ≤ 2 * jobs.size
  holding : ∀ w i : Nat, p.workers[w]? = some (.holding i) →
    turns w ≤ 2 * i + 1 ∧ i < p.next ∧ i < jobs.size

variable {turns : Nat → Nat}

theorem paced_start (jobs : Array β) (workers : Nat) :
    Paced jobs (start workers jobs.size : WorkerPool α) fun _ => 0 where
  ready := fun _ _ => ⟨Nat.zero_le _, Nat.zero_le _⟩
  holding := fun _ _ hw => nomatch ready_of_start hw

theorem Paced.step (h : Paced jobs p turns) (f : β → α) (w : Nat) :
    Paced jobs (p.step f jobs w) fun v => turns v + if w = v then 1 else 0 := by
  rcases step_cases f jobs p w with ⟨hw, -, hstep⟩ | ⟨i, hw, -, hstep⟩ | ⟨hidle, hstep⟩
  · rw [hstep]
    obtain ⟨hnext, -⟩ := h.ready w hw
    constructor
    · intro v hv
      rw [taken, getElem?_set_of_some hw] at hv
      split_ifs at hv with hvw hlt
      · simp at hv
      · simp at hv
      · obtain ⟨hturns, hsize⟩ := h.ready v hv
        rw [if_neg (Ne.symm hvw), taken]
        dsimp only
        omega
    · intro v i hv
      rw [taken, getElem?_set_of_some hw] at hv
      rw [taken]
      dsimp only
      split_ifs at hv with hvw hlt
      · obtain rfl : p.next = i := by simpa using hv
        rw [if_pos hvw.symm, hvw]
        omega
      · simp at hv
      · obtain ⟨hturns, hout, hi⟩ := h.holding v i hv
        rw [if_neg (Ne.symm hvw)]
        omega
  · rw [hstep]
    obtain ⟨hheld, hout, hi⟩ := h.holding w i hw
    constructor
    · intro v hv
      rw [filled, getElem?_set_of_some hw] at hv
      rw [filled]
      dsimp only
      split_ifs at hv with hvw
      · rw [if_pos hvw.symm, hvw]
        omega
      · rw [if_neg (Ne.symm hvw), Nat.add_zero]
        exact h.ready v hv
    · intro v j hv
      rw [filled, getElem?_set_of_some hw] at hv
      split_ifs at hv with hvw
      · simp at hv
      · rw [if_neg (Ne.symm hvw), Nat.add_zero]
        exact h.holding v j hv
  · rw [hstep]
    -- the worker whose turn it was has stopped, and of those nothing is said
    have hne : ∀ {v x}, p.workers[v]? = some x → x ≠ .stopped → w ≠ v := by
      rintro v x hv hx rfl
      unfold deed? at hidle
      rw [hv] at hidle
      cases x with
      | ready => cases hidle
      | holding i => cases hidle
      | stopped => exact hx rfl
    constructor
    · intro v hv
      rw [if_neg (hne hv nofun), Nat.add_zero]
      exact h.ready v hv
    · intro v i hv
      rw [if_neg (hne hv nofun), Nat.add_zero]
      exact h.holding v i hv

theorem Paced.run (h : Paced jobs p turns) (f : β → α) (schedule : List Nat) :
    Paced jobs (p.run f jobs schedule) fun v => turns v + schedule.count v := by
  induction schedule generalizing p turns with
  | nil => exact h
  | cons w rest ih =>
    have hrest := ih (h.step f w)
    have hcount : (fun v => turns v + (w :: rest).count v) =
        fun v => turns v + (if w = v then 1 else 0) + rest.count v := by
      funext v
      rw [List.count_cons]
      simp only [beq_iff_eq]
      omega
    rw [hcount]
    exact hrest

theorem Paced.allStopped (h : Paced jobs p turns)
    (hturns : ∀ w < p.workers.size, 2 * jobs.size < turns w) : p.allStopped = true := by
  rw [allStopped_iff]
  intro w hw
  have hlate := hturns w hw
  cases hworker : p.workers[w]? with
  | none => exact absurd hw (Nat.not_lt.2 (Array.getElem?_eq_none_iff.1 hworker))
  | some x =>
    cases x with
    | ready =>
      obtain ⟨-, hsize⟩ := h.ready w hworker
      omega
    | holding i =>
      obtain ⟨hheld, -, hi⟩ := h.holding w i hworker
      omega
    | stopped => rfl

theorem size_workers_run (f : β → α) (jobs : Array β) (p : WorkerPool α) (schedule : List Nat) :
    (p.run f jobs schedule).workers.size = p.workers.size := by
  induction schedule generalizing p with
  | nil => rfl
  | cons w rest ih =>
    have hstep : (p.step f jobs w).workers.size = p.workers.size := by
      rcases step_cases f jobs p w with ⟨-, -, hstep⟩ | ⟨i, -, -, hstep⟩ | ⟨-, hstep⟩
      · rw [hstep]
        exact Array.size_setIfInBounds
      · rw [hstep]
        exact Array.size_setIfInBounds
      · rw [hstep]
    exact (ih _).trans hstep

/-- Under a schedule that gives everybody turns enough for all the jobs, everybody stops. -/
theorem allStopped_run (f : β → α) (jobs : Array β) {workers : Nat} {schedule : List Nat}
    (h : ∀ w < workers, 2 * jobs.size < schedule.count w) :
    ((start workers jobs.size).run f jobs schedule).allStopped = true := by
  apply ((paced_start jobs workers).run f schedule).allStopped
  intro w hw
  rw [size_workers_run] at hw
  rw [Nat.zero_add]
  apply h w
  simpa [start] using hw

theorem count_roundRobin {workers w : Nat} (hw : w < workers) (jobs : Nat) :
    (roundRobin workers jobs).count w = 2 * jobs + 1 := by
  have honce : (List.range workers).count w = 1 :=
    List.count_eq_one_of_mem List.nodup_range (List.mem_range.2 hw)
  rw [roundRobin, List.count_flatten, List.map_replicate, honce, List.sum_replicate_nat,
    Nat.mul_one]

theorem results_run (f : β → α) (jobs : Array β) {workers : Nat} {schedule : List Nat}
    (hworkers : jobs.size ≠ 0 → workers ≠ 0)
    (h : ((start workers jobs.size).run f jobs schedule).allStopped = true) :
    ((start workers jobs.size).run f jobs schedule).results = jobs.toList.map f := by
  apply ((accounted_start f jobs workers).run schedule).results_eq h
  intro hjobs
  rw [size_workers_run]
  simpa [start] using hworkers hjobs

theorem runAll_eq (f : β → α) (jobs : Array β) {workers : Nat}
    (hworkers : jobs.size ≠ 0 → workers ≠ 0) : runAll f workers jobs = jobs.toList.map f := by
  apply results_run f jobs hworkers
  apply allStopped_run
  intro w hw
  rw [count_roundRobin hw]
  exact Nat.lt_succ_self _

end WorkerPool

theorem workerCount_ne_zero (threads : Int32) {games : Nat} (h : games ≠ 0) :
    workerCount threads games ≠ 0 := by
  unfold workerCount
  omega

theorem replayAll_eq (threads : Int32) (level : Option LogLevel) (games : List PgnGame) :
    replayAll threads level games = games.map (replay level) :=
  WorkerPool.runAll_eq (replay level) games.toArray (workerCount_ne_zero threads)

open WorkerPool in
/-- Any schedule that gives everybody turns enough comes to an end. At the end of any schedule each
game has been taken by one worker, which has filled its slot, and no other slot has been touched; so
the reports are those of the games one after the other, as a single worker has them. -/
theorem replayAll_schedules (threads : Int32) (level : Option LogLevel) (games : List PgnGame) :
    let workers := workerCount threads games.length
    let pool : WorkerPool (Report × Journal) := start workers games.length
    let deeds := pool.deeds (replay level) games.toArray
    let after := pool.run (replay level) games.toArray
    (∀ schedule : List Nat, (∀ w < workers, 2 * games.length < schedule.count w) →
      (after schedule).allStopped = true) ∧
    (∀ schedule : List Nat, (after schedule).allStopped = true →
      (∀ i < games.length, ∃ w, Deed.takers i (deeds schedule) = [w] ∧
        Deed.fillers i (deeds schedule) = [w]) ∧
      (∀ i, games.length ≤ i → Deed.fillers i (deeds schedule) = []) ∧
      (after schedule).slots.toList = games.map (fun game => some (replay level game)) ∧
      (after schedule).results = replayAll threads level games) ∧
    replayAll threads level games = games.map (replay level) ∧
    replayAll threads level games = replayAll 1 level games := by
  intro workers pool deeds after
  have hworkers : games.toArray.size ≠ 0 → workers ≠ 0 := workerCount_ne_zero threads
  refine ⟨fun schedule hturns => allStopped_run _ _ hturns, ?_, replayAll_eq threads level games,
    ?_⟩
  · intro schedule hstopped
    have hacc : Accounted (replay level) games.toArray (after schedule) (deeds schedule) :=
      (accounted_start (replay level) games.toArray workers).run schedule
    have hpool : games.toArray.size ≠ 0 → (after schedule).workers.size ≠ 0 := by
      intro hgames
      rw [size_workers_run]
      simpa [pool, start] using hworkers hgames
    refine ⟨?_, hacc.beyond, hacc.slots_eq hstopped hpool, ?_⟩
    · intro i hi
      obtain ⟨w, htakers, hfillers, -⟩ := hacc.done hstopped hpool hi
      exact ⟨w, htakers, hfillers⟩
    · rw [replayAll_eq]
      exact results_run _ _ hworkers hstopped
  · rw [replayAll_eq, replayAll_eq]

/-- The second worker takes the first game and stays away until the first has done the rest. -/
def lopsided : List Nat := 1 :: (List.replicate 7 0 ++ List.replicate 7 1)

def threeGames : List PgnGame := [{ moves := ["e4"] }, { moves := ["e5", "e4"] }, {}]

open WorkerPool in
theorem lopsided_replayAll :
    let pool : WorkerPool (Report × Journal) := start (workerCount 2 3) 3
    let after := pool.run (replay none) threeGames.toArray lopsided
    (∀ w < workerCount 2 3, 2 * 3 < lopsided.count w) ∧ after.allStopped = true ∧
      after.results = threeGames.map (replay none) ∧
      after.results.map (·.1.passed) = [true, false, true] := by
  intro pool after
  have hturns : ∀ w < workerCount 2 3, 2 * 3 < lopsided.count w := by decide
  obtain ⟨hends, hall, heq, -⟩ := replayAll_schedules 2 none threeGames
  have hstopped : after.allStopped = true := hends lopsided hturns
  obtain ⟨-, -, -, hresults⟩ := hall lopsided hstopped
  have hreports : after.results = threeGames.map (replay none) := hresults.trans heq
  refine ⟨hturns, hstopped, hreports, ?_⟩
  rw [hreports]
  decide +kernel

end ChessArbiter
