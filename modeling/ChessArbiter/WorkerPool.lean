/-!
# A pool of workers on numbered jobs

Workers share a counter of jobs handed out and a row of slots for results. A worker that is ready
takes the next number; if there is no such job it stops, and otherwise it puts the job's result
into the slot of that number at its next step. Steps of different workers may interleave in any
order; a schedule lists whose turn it is.
-/

namespace ChessArbiter

inductive Worker where
  | ready
  | holding (job : Nat)
  | stopped
deriving DecidableEq

structure WorkerPool (α : Type) where
  next : Nat
  slots : Array (Option α)
  workers : Array Worker

namespace WorkerPool

variable {α β : Type}

def start (workers jobs : Nat) : WorkerPool α :=
  { next := 0, slots := Array.replicate jobs none, workers := Array.replicate workers .ready }

/-- One step of worker `w`. A worker that has stopped stays so. -/
def step (f : β → α) (jobs : Array β) (p : WorkerPool α) (w : Nat) : WorkerPool α :=
  match p.workers[w]? with
  | some .ready =>
    { p with
      next := p.next + 1
      workers := p.workers.setIfInBounds w
        (if p.next < jobs.size then .holding p.next else .stopped) }
  | some (.holding i) =>
    { p with
      slots := p.slots.setIfInBounds i (jobs[i]?.map f)
      workers := p.workers.setIfInBounds w .ready }
  | _ => p

def run (f : β → α) (jobs : Array β) (p : WorkerPool α) (schedule : List Nat) : WorkerPool α :=
  schedule.foldl (step f jobs) p

def allStopped (p : WorkerPool α) : Bool := p.workers.all (· == .stopped)

def results (p : WorkerPool α) : List α := p.slots.toList.filterMap id

/-- Everyone in turn, for as long as one worker alone would need for all jobs. -/
def roundRobin (workers jobs : Nat) : List Nat :=
  (List.replicate (2 * jobs + 1) (List.range workers)).flatten

def runAll (f : β → α) (workers : Nat) (jobs : Array β) : List α :=
  ((start workers jobs.size).run f jobs (roundRobin workers jobs.size)).results

end WorkerPool

end ChessArbiter
