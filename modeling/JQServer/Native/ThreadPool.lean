import JQServer.ForStd.Transition
import Mathlib.Data.Finset.Card
import Mathlib.Logic.Function.Basic

/-!
# Thread pool (`server/thread_pool.c`)

The job queue is a doubly linked list on the heap: jobs enter at `head` and leave
at `tail`, the oldest end. A heap address is the number of the `malloc` that
returned it, so an address never denotes two jobs, and `heap p = none` means that
`p` is not allocated or has been freed. An operation that would dereference NULL
or a freed job returns `none`; the step that runs it sets `fault` and nothing
happens afterwards.

Threads take these steps. A critical section of the queue mutex is one step,
enabled while the mutex is free; `delete_timeout_job` is two steps, because it
reads `jobqueue->tail` before it locks.

`tally` is bookkeeping of the model: how often each job was taken by a worker,
executed, deleted by the sweep, deleted by `thpool_jobqueue_empty`, and freed.
-/

namespace JQServer

/-- `thpool_job_t`. The function pointer is left out: the only function the server
    ever queues is `respons_stb_info`. -/
structure ThpoolJob (α : Type) where
  arg : α
  jobCreateTime : Int
  prev : Option Nat := none
  next : Option Nat := none

/-- Program counter of `thpool_thread_do`. -/
inductive WorkerPc where
  /-- At `while (thpool_keepalive == 1)`. -/
  | loop
  /-- In `sem_wait`. -/
  | waiting
  /-- Past `sem_wait`, at `if (thpool_keepalive)`. -/
  | passed
  /-- Before `pthread_mutex_lock` and the dequeue. -/
  | locking
  /-- Running `job_p->function`. -/
  | running (job : Nat)
  /-- Before `free(job_p)`. -/
  | finished (job : Nat)
  /-- Returned, the queue mutex not held. -/
  | returned
  /-- Returned between `pthread_mutex_lock` and `pthread_mutex_unlock`. -/
  | returnedLocked
  deriving DecidableEq

/-- Where the main thread is with respect to the pool. -/
inductive MainPc where
  /-- In the event loop, not in `delete_timeout_job`. -/
  | serving
  /-- In `delete_timeout_job`, with `curjob` read, before the lock. -/
  | sweeping (curjob : Option Nat)
  /-- In `thpool_destroy`, after `posted` calls of `sem_post`. -/
  | posting (posted : Nat)
  /-- In the `pthread_join` loop. -/
  | joining
  /-- Every worker joined, before `thpool_jobqueue_empty`. -/
  | emptying
  | destroyed
  deriving DecidableEq

/-- What has happened to one job. -/
structure JobTally where
  taken : Nat := 0
  executed : Nat := 0
  swept : Nat := 0
  emptied : Nat := 0
  frees : Nat := 0
  deriving DecidableEq

/-- `thpool_t` with its `thpool_jobqueue`, the workers and the global `mutex` and
    `thpool_keepalive`. -/
structure Thpool (α : Type) where
  heap : Nat → Option (ThpoolJob α)
  allocated : Nat
  head : Option Nat
  tail : Option Nat
  jobN : Nat
  queueSem : Nat
  threadsN : Nat
  keepalive : Bool
  mutex : Bool
  workers : Nat → WorkerPc
  main : MainPc
  tally : Nat → JobTally
  fault : Bool

namespace Thpool

variable {α : Type}

/-- `thpool_init`: an empty queue, a semaphore of value 0 and the started workers. -/
def thpoolInit (threadPoolNumbers : Int) : Thpool α where
  heap := fun _ => none
  allocated := 0
  head := none
  tail := none
  jobN := 0
  queueSem := 0
  threadsN := if threadPoolNumbers < 1 then 1 else threadPoolNumbers.toNat
  keepalive := true
  mutex := false
  workers := fun _ => .loop
  main := .serving
  tally := fun _ => {}
  fault := false

/-- Worker `w` moves to `pc`. -/
def setWorker (s : Thpool α) (w : Nat) (pc : WorkerPc) : Thpool α :=
  { s with workers := Function.update s.workers w pc }

/-- Record an event of job `p`. -/
def count (s : Thpool α) (p : Nat) (f : JobTally → JobTally) : Thpool α :=
  { s with tally := Function.update s.tally p (f (s.tally p)) }

/-- `free` of a live job. -/
def release (s : Thpool α) (p : Nat) : Thpool α :=
  { s.count p (fun t => { t with frees := t.frees + 1 }) with
    heap := Function.update s.heap p none }

/-- `thpool_jobqueue_peek` -/
def thpoolJobqueuePeek (s : Thpool α) : Option Nat := s.tail

/-- `thpool_jobqueue_removelast`, with its return value. -/
def thpoolJobqueueRemovelast (s : Thpool α) : Option (Int × Thpool α) :=
  match s.jobN with
  | 0 => some (-1, s)
  | 1 => some (0, { s with head := none, tail := none, jobN := 0 })
  -- The job before the last one becomes the tail
  | n + 2 => do
    let theLastJob ← s.tail
    let job ← s.heap theLastJob
    let q ← job.prev
    let prevJob ← s.heap q
    some (0, { s with
      heap := Function.update s.heap q (some { prevJob with next := none })
      tail := job.prev
      jobN := n + 1 })

/-- `thpool_job_enqueue` of the allocated job `p`. -/
def thpoolJobEnqueue (s : Thpool α) (p : Nat) (newjob : ThpoolJob α) : Option (Thpool α) :=
  match s.jobN with
  | 0 => some { s with
      heap := Function.update s.heap p (some { newjob with next := none, prev := none })
      head := some p
      tail := some p
      jobN := 1
      queueSem := s.queueSem + 1 }
  | n + 1 => do
    let oldFirstJob ← s.head
    let first ← s.heap oldFirstJob
    some { s with
      heap := Function.update
        (Function.update s.heap oldFirstJob (some { first with prev := some p }))
        p (some { newjob with next := some oldFirstJob, prev := none })
      head := some p
      jobN := n + 2
      queueSem := s.queueSem + 1 }

/-- `thpool_add_work` from `malloc` on, for a `malloc` that succeeds. -/
def thpoolAddWork (s : Thpool α) (now : Int) (arg : α) : Option (Thpool α) :=
  { s with allocated := s.allocated + 1 }.thpoolJobEnqueue s.allocated
    { arg := arg, jobCreateTime := now }

/-- The `while` loop of `delete_timeout_job`; the first arguments are `jobN`, `curjob` and
    `delete_number`. -/
def deleteNumberLoop (now timeOut : Int) :
    Nat → Option Nat → Nat → Thpool α → Option (Nat × Thpool α)
  | 0, _, deleteNumber, s => some (deleteNumber, s)
  | _ + 1, none, deleteNumber, s => some (deleteNumber, s)
  | n + 1, some curjob, deleteNumber, s => do
    let job ← s.heap curjob
    -- `head` and the `next` of the new tail are left as they are
    if now - job.jobCreateTime > timeOut then
      let s' := s.count curjob fun t => { t with swept := t.swept + 1 }
      deleteNumberLoop now timeOut n job.prev (deleteNumber + 1)
        { s'.release curjob with tail := job.prev, jobN := n }
    else
      some (deleteNumber, s)

/-- The critical section of `delete_timeout_job`, with its return value. -/
def deleteTimeoutJobNumber (s : Thpool α) (curjob : Option Nat) (now timeOut : Int) :
    Option (Nat × Thpool α) :=
  deleteNumberLoop now timeOut s.jobN curjob 0 s

/-- What the loop does to the pool. -/
def deleteTimeoutLoop (now timeOut : Int) (n : Nat) (curjob : Option Nat) (s : Thpool α) :
    Option (Thpool α) :=
  (deleteNumberLoop now timeOut n curjob 0 s).map Prod.snd

/-- What the critical section of `delete_timeout_job` does to the pool. -/
def deleteTimeoutJob (s : Thpool α) (curjob : Option Nat) (now timeOut : Int) :
    Option (Thpool α) :=
  deleteTimeoutLoop now timeOut s.jobN curjob s

section

variable {now timeOut : Int} {n curjob : Nat} {cur : Option Nat} {s : Thpool α}

/-- `delete_number` is counted on and not read. -/
theorem deleteNumberLoop_map_snd (k : Nat) :
    (deleteNumberLoop now timeOut n cur k s).map Prod.snd =
      deleteTimeoutLoop now timeOut n cur s := by
  rw [deleteTimeoutLoop]
  generalize 0 = k'
  induction n generalizing k k' cur s with
  | zero => rfl
  | succ n ih =>
    cases cur with
    | none => rfl
    | some curjob =>
      simp only [deleteNumberLoop, Option.bind_eq_bind]
      cases s.heap curjob with
      | none => rfl
      | some job =>
        simp only [Option.bind_some]
        split
        · exact ih (k + 1) (k' + 1)
        · rfl

theorem deleteTimeoutLoop_zero : deleteTimeoutLoop now timeOut 0 cur s = some s := rfl

theorem deleteTimeoutLoop_none : deleteTimeoutLoop now timeOut (n + 1) none s = some s := rfl

theorem deleteTimeoutLoop_some : deleteTimeoutLoop now timeOut (n + 1) (some curjob) s =
    (s.heap curjob).bind fun job =>
      if now - job.jobCreateTime > timeOut then
        let s' := s.count curjob fun t => { t with swept := t.swept + 1 }
        deleteTimeoutLoop now timeOut n job.prev
          { s'.release curjob with tail := job.prev, jobN := n }
      else some s := by
  rw [deleteTimeoutLoop, deleteNumberLoop, Option.bind_eq_bind, Option.map_bind]
  congr 1
  funext job
  rw [Function.comp_apply, apply_ite (Option.map Prod.snd), deleteNumberLoop_map_snd]
  rfl

end

/-- The `while` loop of `thpool_jobqueue_empty`; the first argument is `jobN`. -/
def thpoolJobqueueEmptyLoop : Nat → Option Nat → Thpool α → Option (Thpool α)
  | 0, _, s => some s
  | _ + 1, none, _ => none
  | n + 1, some curjob, s => do
    let job ← s.heap curjob
    let s' := s.count curjob fun t => { t with emptied := t.emptied + 1 }
    thpoolJobqueueEmptyLoop n job.prev
      { s'.release curjob with tail := job.prev, jobN := n }

/-- `thpool_jobqueue_empty` -/
def thpoolJobqueueEmpty (s : Thpool α) : Option (Thpool α) :=
  (thpoolJobqueueEmptyLoop s.jobN s.tail s).map fun s' =>
    { s' with head := none, tail := none }

/-- The critical section of `thpool_thread_do`: peek and removelast under the mutex.
    On -1 the worker returns with the mutex locked. -/
def threadDequeue (s : Thpool α) (w : Nat) : Option (Thpool α) :=
  match s.thpoolJobqueueRemovelast with
  | none => none
  | some (r, s') =>
    -- `return` stands between the lock and the unlock
    if r ≠ 0 then
      some { s'.setWorker w .returnedLocked with mutex := true }
    else do
      -- The peek comes before the removal
      let jobP ← s.thpoolJobqueuePeek
      some ((s'.count jobP fun t => { t with taken := t.taken + 1 }).setWorker w
        (.running jobP))

/-- `job_p->function((void *)&job_p->arg, index)` returns; the job must be live. -/
def threadExecute (s : Thpool α) (w p : Nat) : Option (Thpool α) := do
  let _ ← s.heap p
  some ((s.count p fun t => { t with executed := t.executed + 1 }).setWorker w (.finished p))

/-- `free(job_p)` by worker `w`. -/
def threadFree (s : Thpool α) (w p : Nat) : Option (Thpool α) := do
  let _ ← s.heap p
  some ((s.release p).setWorker w .loop)

/-- Steps of the threads that use the pool. -/
inductive Action (α : Type) where
  /-- `thpool_add_work` by the event loop. -/
  | addWork (now : Int) (arg : α)
  /-- `delete_timeout_job`: the read of `jobqueue->tail`. -/
  | sweepRead
  /-- `delete_timeout_job`: the rest, with `now` the time it read. -/
  | sweepLocked (now timeOut : Int)
  /-- Worker `w` tests `while (thpool_keepalive == 1)`. -/
  | test (w : Nat)
  /-- `sem_wait` returns in worker `w`. -/
  | semWait (w : Nat)
  /-- Worker `w` tests `if (thpool_keepalive)`. -/
  | retest (w : Nat)
  /-- The critical section of worker `w`. -/
  | dequeue (w : Nat)
  /-- The job of worker `w` has run. -/
  | execute (w : Nat)
  /-- Worker `w` frees its job. -/
  | free (w : Nat)
  /-- `thpool_destroy` clears `thpool_keepalive`. -/
  | destroy
  /-- One `sem_post` of `thpool_destroy`. -/
  | post
  /-- The last `pthread_join` returns. -/
  | join
  /-- `thpool_jobqueue_empty` -/
  | empty

/-- The outcome of an operation that ran: its result, or a fault. -/
def outcome (s : Thpool α) (r : Option (Thpool α)) : Thpool α :=
  r.getD { s with fault := true }

/-- Steps of worker `w` at program counter `pc`. -/
def workerStep (s : Thpool α) (w : Nat) : Action α → WorkerPc → Option (Thpool α)
  | .test _, .loop =>
    some (s.setWorker w (if s.keepalive then .waiting else .returned))
  | .semWait _, .waiting =>
    if 0 < s.queueSem then
      some { s.setWorker w .passed with queueSem := s.queueSem - 1 }
    else none
  | .retest _, .passed =>
    some (s.setWorker w (if s.keepalive then .locking else .returned))
  | .dequeue _, .locking =>
    if s.mutex then none else some (s.outcome (s.threadDequeue w))
  | .execute _, .running p => some (s.outcome (s.threadExecute w p))
  | .free _, .finished p => some (s.outcome (s.threadFree w p))
  | _, _ => none

/-- Every worker has returned. -/
def allReturned (s : Thpool α) : Bool :=
  (List.range s.threadsN).all fun w =>
    s.workers w = .returned || s.workers w = .returnedLocked

/-- Steps of the main thread. -/
def mainStep (s : Thpool α) : Action α → MainPc → Option (Thpool α)
  | .addWork now arg, .serving =>
    if s.mutex then none else some (s.outcome (s.thpoolAddWork now arg))
  -- Read before the lock: a worker may take that job first
  | .sweepRead, .serving => some { s with main := .sweeping s.tail }
  | .sweepLocked now timeOut, .sweeping curjob =>
    if s.mutex then none
    else some { s.outcome (s.deleteTimeoutJob curjob now timeOut) with main := .serving }
  | .destroy, .serving => some { s with keepalive := false, main := .posting 0 }
  | .post, .posting k =>
    -- One post for each worker, and one more
    if k < s.threadsN + 1 then
      some { s with queueSem := s.queueSem + 1, main := .posting (k + 1) }
    else none
  | .join, .posting k =>
    if k = s.threadsN + 1 then some { s with main := .joining } else none
  | .join, .joining => if s.allReturned then some { s with main := .emptying } else none
  | .empty, .emptying => some { s.outcome s.thpoolJobqueueEmpty with main := .destroyed }
  | _, _ => none

/-- The worker an action belongs to, if it is a worker's. -/
def Action.worker : Action α → Option Nat
  | .test w | .semWait w | .retest w | .dequeue w | .execute w | .free w => some w
  | _ => none

/-- One step of the pool. After a fault the behaviour of the program is undefined
    and the model stops. -/
def step (s : Thpool α) (a : Action α) : Option (Thpool α) :=
  if s.fault then none
  else match a.worker with
    | some w => if w < s.threadsN then s.workerStep w a (s.workers w) else none
    | none => s.mainStep a s.main

/-- The pool as a transition system, started by `thpool_init` with any number. -/
def system (α : Type) : Transition.System (Thpool α) (Action α) where
  init s := ∃ n, s = thpoolInit n
  step := step

/-- Workers past `sem_wait` that have not dequeued yet. -/
def pastSemWait (s : Thpool α) : Nat :=
  ((Finset.range s.threadsN).filter fun w =>
    s.workers w = .passed ∨ s.workers w = .locking).card

end Thpool

end JQServer
