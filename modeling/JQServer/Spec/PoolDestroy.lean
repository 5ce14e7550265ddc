import JQServer.Spec.PoolSemaphore
import Mathlib.Algebra.Order.BigOperators.Group.Finset

/-!
# Shutting the pool down

`thpool_destroy` clears `thpool_keepalive`, posts the semaphore once more often than
there are workers, joins the workers and empties the queue. The posts of jobs that are
still queued stay in the semaphore, so nothing says which post wakes which worker; what
counts is that a worker calls `sem_wait` at most once after the flag was cleared, and
that the posts not yet used up are at least as many as the workers that have not called.

A run starts in any pool with balanced accounts (`BeforeDestroy`), with the workers
anywhere in their loop, and consists of steps of the workers and of the destroying
thread. `recordWait` counts the `sem_wait`s of each worker after the flag was cleared.
-/

namespace JQServer

open Transition

/-- How many times the destroying thread has posted the semaphore. -/
def MainPc.posts (threadsN : Nat) : MainPc → Nat
  | .serving | .sweeping _ => 0
  | .posting k => k
  | .joining | .emptying | .destroyed => threadsN + 1

/-- The main thread is in `thpool_destroy`, or has returned from it. -/
def MainPc.Stopping (threadsN : Nat) : MainPc → Prop
  | .serving | .sweeping _ => False
  | .posting k => k ≤ threadsN + 1
  | .joining | .emptying | .destroyed => True

/-- Steps left to the destroying thread. -/
def MainPc.left (threadsN : Nat) : MainPc → Nat
  | .serving | .sweeping _ => 0
  | .posting k => threadsN + 4 - k
  | .joining => 2
  | .emptying => 1
  | .destroyed => 0

/-- Steps left to a worker once `thpool_keepalive` is 0. -/
def WorkerPc.left : WorkerPc → Nat
  | .loop | .passed => 1
  | .waiting | .finished _ => 2
  | .running _ => 3
  | .locking => 4
  | .returned | .returnedLocked => 0

namespace Thpool

variable {α : Type} {s s' : Thpool α} {l : List Nat} {waits waits' : Nat → Nat}

/-- A pool on which `thpool_destroy` may be called: balanced accounts, and no worker
    has returned with the mutex. -/
structure BeforeDestroy (s : Thpool α) : Prop where
  wf : ∃ l, s.Wf l
  balance : s.queueSem + s.pastSemWait = s.jobN
  keepalive : s.keepalive = true
  main : s.main = .serving
  unlocked : s.mutex = false ∧ ∀ w, s.workers w ≠ .returnedLocked
  sound : s.fault = false

/-- A step of a worker or of the destroying thread. -/
def Destroying : Action α → Prop
  | .addWork _ _ | .sweepRead | .sweepLocked _ _ => False
  | _ => True

/-- Count the `sem_wait`s of each worker after `thpool_keepalive` was cleared. -/
def recordWait (waits : Nat → Nat) (s : Thpool α) (a : Action α) (_ : Thpool α) : Nat → Nat :=
  match a with
  | .semWait w => if s.keepalive then waits else Function.update waits w (waits w + 1)
  | _ => waits

/-- The pool while it is being destroyed, with the count of `sem_wait`s. -/
def destroySystem (α : Type) : System (Thpool α × (Nat → Nat)) (Action α) :=
  System.withHistory { init := BeforeDestroy, step := step } (fun _ _ => 0) recordWait

/-- `p` is reached by the workers and the destroying thread alone. -/
abbrev DestroyReach (p : Thpool α × (Nat → Nat)) : Prop :=
  Reach (destroySystem α) (fun _ a => Destroying a) p

/-- Some run from `s` has worker `w` return from `sem_wait`. -/
def CanWait (s : Thpool α) (w : Nat) : Prop :=
  ∃ as t t', (∀ a ∈ as, Destroying a) ∧ (system α).run s as = some t ∧
    t.step (.semWait w) = some t'

/-- The destroying thread has posted `threadsN + 1` times. -/
def Posted (s : Thpool α) : Prop := s.main.posts s.threadsN = s.threadsN + 1

/-- Workers before their dequeue. -/
def lockingN (s : Thpool α) : Nat :=
  ((Finset.range s.threadsN).filter fun w => s.workers w = .locking).card

/-- Workers that have called `sem_wait` after the flag was cleared. -/
def waitedN (s : Thpool α) (waits : Nat → Nat) : Nat :=
  ((Finset.range s.threadsN).filter fun w => waits w ≠ 0).card

/-- Steps left to the workers and the destroying thread. -/
def stepsLeft (s : Thpool α) : Nat :=
  ∑ w ∈ Finset.range s.threadsN, (s.workers w).left + s.main.left s.threadsN

/-- `thpool_jobqueue_empty` runs without a fault, frees each job of `l` exactly once
    and nothing else, and leaves an empty queue. -/
structure Empties (s s' : Thpool α) (l : List Nat) : Prop where
  sound : s'.fault = false
  jobN : s'.jobN = 0
  head : s'.head = none
  tail : s'.tail = none
  freed : ∀ c ∈ l, (∃ job, s.heap c = some job) ∧ s.tally c = {} ∧
    s'.heap c = none ∧ s'.tally c = { emptied := 1, frees := 1 }
  other : ∀ c, c ∉ l → s'.heap c = s.heap c ∧ s'.tally c = s.tally c

/-- What holds while the pool is being destroyed, with `waits` the `sem_wait`s of each
    worker after `thpool_keepalive` became 0. -/
structure DestroySafe (s : Thpool α) (waits : Nat → Nat) : Prop where
  /-- No NULL pointer or freed job was followed. -/
  sound : s.fault = false
  once : ∀ w, waits w ≤ 1
  semaphore : s.Posted → ∀ W : Finset Nat, (∀ w ∈ W, s.CanWait w) → W.card ≤ s.queueSem
  /-- A worker that is joined is not blocked. -/
  unblocked : s.Posted → ∀ w < s.threadsN, s.workers w = .returned ∨
    ∃ a s', a.worker = some w ∧ s.step a = some s'
  /-- The destroying thread ends up in `destroyed`: something can move until then, and
      not forever. -/
  progress : s.keepalive = false → s.main ≠ .destroyed → ∃ a s', s.step a = some s'
  finishes : s.keepalive = false → ∀ as t, (system α).run s as = some t →
    as.length ≤ s.stepsLeft
  empties : s.main = .emptying → (∀ w < s.threadsN, s.workers w = .returned) ∧
    ∃ l s', s.QueueWf l ∧ s.step .empty = some s' ∧ s.Empties s' l

/-! ### What a worker does next -/

/-- The places a worker goes through, with the flag as `keepalive` says. -/
inductive Advances (keepalive : Bool) : WorkerPc → WorkerPc → Prop
  | test : Advances keepalive .loop (if keepalive then .waiting else .returned)
  | semWait : Advances keepalive .waiting .passed
  | retest : Advances keepalive .passed (if keepalive then .locking else .returned)
  | dequeue (c : Nat) : Advances keepalive .locking (.running c)
  | execute (p : Nat) : Advances keepalive (.running p) (.finished p)
  | free (p : Nat) : Advances keepalive (.finished p) .loop

/-- No worker returns with the mutex. -/
private theorem Advances.not_locked {k : Bool} {pc pc' : WorkerPc} (h : Advances k pc pc') :
    pc' ≠ .returnedLocked := by
  cases h <;> cases k <;> simp

/-- With the flag cleared a worker comes closer to its return. -/
private theorem Advances.left_lt {pc pc' : WorkerPc} (h : Advances false pc pc') :
    pc'.left < pc.left := by
  cases h <;> simp [WorkerPc.left]

/-- With the flag cleared no worker enters `sem_wait` and none goes on to a dequeue. -/
private theorem Advances.not_entering {pc pc' : WorkerPc} (h : Advances false pc pc') :
    pc' ≠ .waiting ∧ pc' ≠ .locking := by
  cases h <;> simp

/-- From `sem_wait` a worker goes to the second test. -/
private theorem Advances.of_waiting {k : Bool} {pc : WorkerPc} (h : Advances k .waiting pc) :
    pc = .passed := by
  cases h
  rfl

/-- With the flag cleared a worker past `sem_wait` returns. -/
private theorem Advances.of_passed {pc : WorkerPc} (h : Advances false .passed pc) :
    pc = .returned := by
  cases h
  rfl

/-- A step of worker `w` that succeeds. -/
structure WorkerMoves (s : Thpool α) (a : Action α) (w : Nat) (pc : WorkerPc)
    (s' : Thpool α) : Prop where
  worker : a.worker = some w
  lt : w < s.threadsN
  advances : Advances s.keepalive (s.workers w) pc
  workers : s'.workers = Function.update s.workers w pc
  main : s'.main = s.main
  keepalive : s'.keepalive = s.keepalive
  mutex : s'.mutex = s.mutex
  threadsN : s'.threadsN = s.threadsN
  fault : s'.fault = s.fault
  queueSem : s'.queueSem + (if s.workers w = .waiting then 1 else 0) = s.queueSem
  jobN : s'.jobN + (if s.workers w = .locking then 1 else 0) = s.jobN
  waits : ∀ waits, recordWait waits s a s' =
    if s.workers w = .waiting ∧ s.keepalive = false then
      Function.update waits w (waits w + 1)
    else waits

/-- What holds in every state while the pool is being destroyed. -/
structure DestroyInv (s : Thpool α) (waits : Nat → Nat) : Prop where
  sem : s.SemInv
  sound : s.fault = false
  unlocked : s.mutex = false ∧ ∀ w, s.workers w ≠ .returnedLocked
  enough : s.lockingN ≤ s.jobN
  once : ∀ w, waits w = 0 ∨ waits w = 1 ∧ s.keepalive = false ∧
    (s.workers w = .passed ∨ s.workers w = .returned)
  posts : s.main.posts s.threadsN ≤ s.queueSem + s.waitedN waits
  stage : s.keepalive = true ∧ s.main = .serving ∨
    s.keepalive = false ∧ s.main.Stopping s.threadsN
  gone : s.main = .emptying ∨ s.main = .destroyed →
    ∀ w < s.threadsN, s.workers w = .returned

/-- A worker before its dequeue is past `sem_wait`. -/
private theorem lockingN_le_pastSemWait : s.lockingN ≤ s.pastSemWait :=
  Finset.card_le_card (Finset.monotone_filter_right _ fun _ _ h => .inr h)

/-- What moving one worker does to the number of workers before their dequeue. -/
private theorem lockingN_update {w : Nat} {pc : WorkerPc} (hw : w < s.threadsN)
    (hN : s'.threadsN = s.threadsN) (hwork : s'.workers = Function.update s.workers w pc) :
    s'.lockingN + (if s.workers w = .locking then 1 else 0) =
      s.lockingN + if pc = .locking then 1 else 0 := by
  simp only [lockingN, hN, hwork]
  exact Finset.card_filter_update (Finset.range s.threadsN) s.workers w pc
    (fun pc => pc = .locking) (Finset.mem_range.mpr hw)

/-- A worker before its dequeue finds a job. -/
private theorem DestroyInv.jobN_pos {w : Nat} (h : s.DestroyInv waits) (hw : w < s.threadsN)
    (hp : s.workers w = .locking) : 0 < s.jobN := by
  have hpos : 0 < s.lockingN :=
    Finset.card_pos.mpr ⟨w, Finset.mem_filter.mpr ⟨Finset.mem_range.mpr hw, hp⟩⟩
  have hle := h.enough
  omega

/-- While the pool is being destroyed no step of a worker faults. -/
private theorem DestroyInv.worker {a : Action α} {w : Nat} (h : s.DestroyInv waits)
    (ha : a.worker = some w) (hs : s.step a = some s') : ∃ pc, s.WorkerMoves a w pc s' := by
  obtain ⟨l, hwf⟩ := h.sem.wf
  cases (step_moves hs).2 with
  | test hw hp =>
    obtain rfl := Option.some.inj ha
    refine ⟨_, rfl, hw, hp ▸ .test, rfl, rfl, rfl, rfl, rfl, rfl, ?_, ?_, fun _ => ?_⟩
    all_goals simp [hp, setWorker, recordWait]
  | semWait hw hp hq =>
    obtain rfl := Option.some.inj ha
    refine ⟨_, rfl, hw, hp ▸ .semWait, rfl, rfl, rfl, rfl, rfl, rfl, ?_, ?_, fun _ => ?_⟩
    · simp only [hp, ↓reduceIte]
      omega
    · simp [hp, setWorker]
    · cases hk : s.keepalive <;> simp [hp, hk, recordWait]
  | retest hw hp =>
    obtain rfl := Option.some.inj ha
    refine ⟨_, rfl, hw, hp ▸ .retest, rfl, rfl, rfl, rfl, rfl, rfl, ?_, ?_, fun _ => ?_⟩
    all_goals simp [hp, setWorker, recordWait]
  | dequeue hw hp hx =>
    obtain rfl := Option.some.inj ha
    -- A worker with the mutex finds a job
    have hpos := h.jobN_pos hw hp
    have hlen := hwf.length
    cases l with
    | nil =>
      rw [List.length_nil] at hlen
      omega
    | cons c l =>
      obtain ⟨t, ht, htwf, hwork, -, hmain, hkeep, hmut, hN, hfault, hsem, -⟩ :=
        hwf.dequeue (congrArg WorkerPc.job hp)
      rw [outcome_some ht]
      have hlen' := htwf.length
      rw [List.length_cons] at hlen
      refine ⟨_, rfl, hw, hp ▸ .dequeue c, hwork, hmain, hkeep, hmut, hN, hfault, ?_, ?_,
        fun _ => ?_⟩
      · simp [hp, hsem]
      · simp only [hp, ↓reduceIte]
        omega
      · simp [hp, recordWait]
  | execute hw hp =>
    obtain rfl := Option.some.inj ha
    obtain ⟨t, ht, -, hwork, -, hmain, hkeep, hmut, hN, hfault, hsem, hjob, -⟩ := hwf.execute hp
    rw [outcome_some ht]
    refine ⟨_, rfl, hw, hp ▸ .execute _, hwork, hmain, hkeep, hmut, hN, hfault, ?_, ?_,
      fun _ => ?_⟩
    all_goals simp [hp, hsem, hjob, recordWait]
  | free hw hp =>
    obtain rfl := Option.some.inj ha
    obtain ⟨t, ht, -, hwork, -, hmain, hkeep, hmut, hN, hfault, hsem, hjob, -⟩ := hwf.free hp
    rw [outcome_some ht]
    refine ⟨_, rfl, hw, hp ▸ .free _, hwork, hmain, hkeep, hmut, hN, hfault, ?_, ?_,
      fun _ => ?_⟩
    all_goals simp [hp, hsem, hjob, recordWait]
  | addWork | sweepRead | sweepLocked | destroy | post | posted | joined | empty =>
    exact absurd ha.symm (Option.some_ne_none w)

/-! ### The invariant -/

/-- The invariant holds before `thpool_destroy`. -/
theorem BeforeDestroy.inv (h : s.BeforeDestroy) : s.DestroyInv fun _ => 0 where
  sem := ⟨h.wf, fun _ => h.balance, fun _ => h.unlocked, fun _ => .inl h.main⟩
  sound := h.sound
  unlocked := h.unlocked
  enough := by
    have hle := lockingN_le_pastSemWait (s := s)
    have hbal := h.balance
    omega
  once _ := .inl rfl
  posts := by
    rw [h.main]
    exact Nat.zero_le _
  stage := .inl ⟨h.keepalive, h.main⟩
  gone hm := by
    rw [h.main] at hm
    exact hm.elim nofun nofun

/-- A worker that steps has not returned. -/
private theorem WorkerMoves.not_returned {a : Action α} {w : Nat} {pc : WorkerPc}
    (hm : s.WorkerMoves a w pc s') : s.workers w ≠ .returned := by
  intro hp
  have hadv := hm.advances
  rw [hp] at hadv
  exact nomatch hadv

/-- The worker that steps has called `sem_wait` at most once after the step. -/
private theorem DestroyInv.once_step {a : Action α} {w : Nat} {pc : WorkerPc}
    (h : s.DestroyInv waits) (hm : s.WorkerMoves a w pc s') :
    recordWait waits s a s' w = 0 ∨ recordWait waits s a s' w = 1 ∧ s.keepalive = false ∧
      (pc = .passed ∨ pc = .returned) := by
  have hadv := hm.advances
  rw [hm.waits]
  rcases h.once w with hzero | ⟨hone, hk, hp | hp⟩
  · split
    · rename_i hwait
      rw [hwait.1] at hadv
      exact .inr ⟨by rw [Function.update_self, hzero], hwait.2, .inl hadv.of_waiting⟩
    · exact .inl hzero
  · -- It has been through `sem_wait` and returns now
    rw [hp, hk] at hadv
    simp only [hp, reduceCtorEq, false_and, ↓reduceIte]
    exact .inr ⟨hone, hk, .inr hadv.of_passed⟩
  · exact absurd hp hm.not_returned

/-- A worker in `sem_wait` after the flag was cleared has not returned from it since. -/
private theorem DestroyInv.waits_of_waiting {w : Nat} (h : s.DestroyInv waits)
    (hp : s.workers w = .waiting) : waits w = 0 := by
  rcases h.once w with hzero | ⟨-, -, hp' | hp'⟩
  · exact hzero
  · cases hp.symm.trans hp'
  · cases hp.symm.trans hp'

/-- A `sem_wait` uses up one post and is counted. -/
private theorem DestroyInv.posts_step {a : Action α} {w : Nat} {pc : WorkerPc}
    (h : s.DestroyInv waits) (hm : s.WorkerMoves a w pc s') :
    s.main.posts s.threadsN ≤ s'.queueSem + s'.waitedN (recordWait waits s a s') := by
  have hposts := h.posts
  have hsem := hm.queueSem
  rw [hm.waits]
  by_cases hwait : s.workers w = .waiting
  · rw [if_pos hwait] at hsem
    cases hk : s.keepalive with
    | true =>
      -- Nothing was posted yet
      rcases h.stage with ⟨-, hserving⟩ | ⟨hk', -⟩
      · rw [hserving]
        exact Nat.zero_le _
      · cases hk.symm.trans hk'
    | false =>
      have hzero := h.waits_of_waiting hwait
      have hcount := Finset.card_filter_update (Finset.range s.threadsN) waits w (waits w + 1)
        (fun n => n ≠ 0) (Finset.mem_range.mpr hm.lt)
      simp only [hzero, ne_eq, not_true_eq_false, Nat.add_one_ne_zero, not_false_eq_true,
        ↓reduceIte] at hcount
      simp only [hwait, hzero, and_self, ↓reduceIte, waitedN, hm.threadsN, ne_eq] at hposts ⊢
      omega
  · rw [if_neg hwait] at hsem
    simp only [hwait, false_and, ↓reduceIte]
    simp only [waitedN, hm.threadsN] at hposts ⊢
    omega

/-- A step of a worker keeps the invariant. -/
private theorem DestroyInv.stepWorker {a : Action α} {w : Nat} {pc : WorkerPc}
    (h : s.DestroyInv waits) (hsem : s'.SemInv) (hm : s.WorkerMoves a w pc s') :
    s'.DestroyInv (recordWait waits s a s') := by
  have hadv := hm.advances
  have hlocking := lockingN_update hm.lt hm.threadsN hm.workers
  refine ⟨hsem, hm.fault.trans h.sound, ⟨hm.mutex.trans h.unlocked.1, fun v => ?_⟩, ?_,
    fun v => ?_, ?_, ?_, ?_⟩
  · rw [hm.workers]
    by_cases hv : v = w
    · rw [hv, Function.update_self]
      exact hadv.not_locked
    · rw [Function.update_of_ne hv]
      exact h.unlocked.2 v
  · cases hk : s.keepalive with
    | true =>
      -- The worker may now be before its dequeue: there is a job for it
      have hle := lockingN_le_pastSemWait (s := s')
      have hbal := hsem.balance (hm.keepalive.trans hk)
      omega
    | false =>
      have henough := h.enough
      have hjob := hm.jobN
      rw [hk] at hadv
      simp only [hadv.not_entering.2, ↓reduceIte] at hlocking
      omega
  · rw [hm.workers, hm.keepalive]
    by_cases hv : v = w
    · rw [hv, Function.update_self]
      exact h.once_step hm
    · have hsame : recordWait waits s a s' v = waits v := by
        rw [hm.waits]
        split
        · exact Function.update_of_ne hv _ _
        · rfl
      rw [Function.update_of_ne hv, hsame]
      exact h.once v
  · rw [hm.main, hm.threadsN]
    exact h.posts_step hm
  · rw [hm.keepalive, hm.main, hm.threadsN]
    exact h.stage
  · rw [hm.main]
    exact fun hg => absurd (h.gone hg w hm.lt) hm.not_returned

/-- When every worker has returned, none is before its dequeue. -/
private theorem lockingN_eq_zero (h : ∀ w < s.threadsN, s.workers w = .returned) :
    s.lockingN = 0 := by
  refine Finset.card_eq_zero.mpr (Finset.filter_eq_empty_iff.mpr fun w hw hp => ?_)
  cases hp.symm.trans (h w (Finset.mem_range.mp hw))

/-- Workers that have all returned, without the mutex. -/
private theorem DestroyInv.returned (h : s.DestroyInv waits) (hr : s.allReturned = true) :
    ∀ w < s.threadsN, s.workers w = .returned := by
  intro w hw
  have hall := List.all_eq_true.mp hr w (List.mem_range.mpr hw)
  simp only [Bool.or_eq_true, decide_eq_true_eq] at hall
  exact hall.resolve_right (h.unlocked.2 w)

/-- Emptying the queue keeps the invariant: every worker has returned. -/
private theorem DestroyInv.emptied (h : s.DestroyInv waits) (hm : s.main = .emptying)
    (hk : s.keepalive = false) (hsem : s'.SemInv) (hworkers : s'.workers = s.workers)
    (hkeep : s'.keepalive = s.keepalive) (hmutex : s'.mutex = s.mutex)
    (hN : s'.threadsN = s.threadsN) (hfault : s'.fault = s.fault)
    (hmain : s'.main = .destroyed) (hqueue : s'.queueSem = s.queueSem) :
    s'.DestroyInv waits := by
  -- The joins are over
  have hreturned : ∀ w < s'.threadsN, s'.workers w = .returned := by
    rw [hN, hworkers]
    exact h.gone (.inl hm)
  have hposts := h.posts
  refine ⟨hsem, hfault.trans h.sound, ⟨hmutex.trans h.unlocked.1, ?_⟩, ?_, ?_, ?_,
    .inr ⟨hkeep.trans hk, ?_⟩, fun _ => hreturned⟩
  · rw [hworkers]
    exact h.unlocked.2
  · rw [lockingN_eq_zero hreturned]
    exact Nat.zero_le _
  · rw [hworkers, hkeep]
    exact h.once
  · rw [hm] at hposts
    simp only [hmain, hqueue, waitedN, hN, MainPc.posts] at hposts ⊢
    exact hposts
  · rw [hmain]
    trivial

/-- The flag is cleared from the first step of `thpool_destroy` on. -/
private theorem DestroyInv.cleared (h : s.DestroyInv waits) (hm : s.main ≠ .serving) :
    s.keepalive = false := by
  rcases h.stage with ⟨-, hserving⟩ | ⟨hk, -⟩
  · exact absurd hserving hm
  · exact hk

/-- A step of the destroying thread: the workers stay where they are. -/
private theorem DestroyInv.stepMain {a : Action α} (h : s.DestroyInv waits)
    (ha : Destroying a) (hworker : a.worker = none) (hs : s.step a = some s') :
    s'.DestroyInv (recordWait waits s a s') := by
  have hsem : s'.SemInv := h.sem.step (by cases a <;> trivial) hs
  have hposts := h.posts
  cases (step_moves hs).2 with
  | destroy hm =>
    rcases h.stage with ⟨hk, -⟩ | ⟨-, hstop⟩
    · exact ⟨hsem, h.sound, h.unlocked, h.enough,
        fun w => (h.once w).imp_right fun ho => ⟨ho.1, rfl, ho.2.2⟩,
        Nat.zero_le _, .inr ⟨rfl, Nat.zero_le _⟩, fun hg => hg.elim nofun nofun⟩
    · rw [hm] at hstop
      exact hstop.elim
  | @post k hm hk =>
    have hk' := h.cleared (by rw [hm]; exact nofun)
    -- One more post, for which `sem_wait` has not returned yet
    rw [hm] at hposts
    simp only [MainPc.posts] at hposts
    refine ⟨hsem, h.sound, h.unlocked, h.enough, h.once, ?_, .inr ⟨hk', ?_⟩,
      fun hg => hg.elim nofun nofun⟩
    · have hgoal : k + 1 ≤ s.queueSem + 1 + s.waitedN waits := by omega
      exact hgoal
    · have hgoal : k + 1 ≤ s.threadsN + 1 := by omega
      exact hgoal
  | @posted k hm hk =>
    have hk' := h.cleared (by rw [hm]; exact nofun)
    rw [hm, hk] at hposts
    exact ⟨hsem, h.sound, h.unlocked, h.enough, h.once, hposts, .inr ⟨hk', trivial⟩,
      fun hg => hg.elim nofun nofun⟩
  | joined hm hr =>
    have hk' := h.cleared (by rw [hm]; exact nofun)
    rw [hm] at hposts
    exact ⟨hsem, h.sound, h.unlocked, h.enough, h.once, hposts, .inr ⟨hk', trivial⟩,
      fun _ => h.returned hr⟩
  | empty hm =>
    have hk' := h.cleared (by rw [hm]; exact nofun)
    obtain ⟨l, hwf⟩ := h.sem.wf
    obtain ⟨t, ht, -, hsame, hqueue⟩ := hwf.thpoolJobqueueEmpty
    rw [outcome_some ht] at hsem ⊢
    exact h.emptied hm hk' hsem hsame.workers hsame.keepalive hsame.mutex hsame.threadsN
      hsame.fault rfl hqueue
  | addWork | sweepRead | sweepLocked => exact ha.elim
  | test | semWait | retest | dequeue | execute | free => exact nomatch hworker

/-- Every step of a run that destroys the pool keeps the invariant. -/
theorem DestroyInv.step {a : Action α} (h : s.DestroyInv waits) (ha : Destroying a)
    (hs : s.step a = some s') : s'.DestroyInv (recordWait waits s a s') := by
  cases hw : a.worker with
  | some w =>
    obtain ⟨pc, hm⟩ := h.worker hw hs
    exact h.stepWorker (h.sem.step (by cases a <;> trivial) hs) hm
  | none => exact h.stepMain ha hw hs

/-- The invariant holds in every state of a run that destroys the pool. -/
theorem destroyInv_of_reach {p : Thpool α × (Nat → Nat)} (h : DestroyReach p) :
    p.1.DestroyInv p.2 := by
  refine h.invariant (I := fun p => p.1.DestroyInv p.2) ?_ fun p a p' _ hinv ha hs => ?_
  · rintro ⟨s, waits⟩ ⟨hs, hw⟩
    cases hw
    exact hs.inv
  · obtain ⟨hstep, hrecord⟩ := System.withHistory_step hs
    rw [hrecord]
    exact hinv.step ha hstep

/-! ### After the flag is cleared -/

/-- With the flag cleared the destroying thread is in `thpool_destroy`. -/
private theorem DestroyInv.stopping (h : s.DestroyInv waits) (hk : s.keepalive = false) :
    s.main.Stopping s.threadsN := by
  rcases h.stage with ⟨hk', -⟩ | ⟨-, hstop⟩
  · cases hk.symm.trans hk'
  · exact hstop

/-- With the flag cleared nothing is queued and nothing swept. -/
private theorem DestroyInv.destroying {a : Action α} (h : s.DestroyInv waits)
    (hk : s.keepalive = false) (hs : s.step a = some s') : Destroying a := by
  have hstop := h.stopping hk
  cases (step_moves hs).2 with
  | addWork hm | sweepRead hm | sweepLocked hm =>
    rw [hm] at hstop
    exact hstop.elim
  | _ => trivial

/-- A step of the destroying thread once the flag is cleared: the workers stay where they
    are, and it comes closer to its end. -/
private theorem DestroyInv.main_frame {a : Action α} (h : s.DestroyInv waits)
    (hk : s.keepalive = false) (hw : a.worker = none) (hs : s.step a = some s') :
    s'.workers = s.workers ∧ s'.threadsN = s.threadsN ∧ s'.keepalive = false ∧
      s'.main.left s'.threadsN < s.main.left s.threadsN := by
  have hstop := h.stopping hk
  cases (step_moves hs).2 with
  -- `thpool_destroy` has begun, so the event loop is over
  | addWork hm | sweepRead hm | sweepLocked hm | destroy hm =>
    rw [hm] at hstop
    exact hstop.elim
  | @post k hm hlt =>
    refine ⟨rfl, rfl, hk, ?_⟩
    simp only [hm, MainPc.left]
    omega
  | posted hm hlt =>
    refine ⟨rfl, rfl, hk, ?_⟩
    simp only [hm, MainPc.left]
    omega
  | joined hm hr =>
    refine ⟨rfl, rfl, hk, ?_⟩
    simp only [hm, MainPc.left]
    omega
  | empty hm =>
    obtain ⟨l, hwf⟩ := h.sem.wf
    obtain ⟨t, ht, -, hsame, -⟩ := hwf.thpoolJobqueueEmpty
    rw [outcome_some ht]
    refine ⟨hsame.workers, hsame.threadsN, hsame.keepalive.trans hk, ?_⟩
    simp only [hm, MainPc.left]
    omega
  | test | semWait | retest | dequeue | execute | free => exact nomatch hw

/-- Once the flag is cleared it stays so, the number of workers does not change, and no
    worker enters `sem_wait`. -/
private theorem DestroyInv.frame {a : Action α} (h : s.DestroyInv waits)
    (hk : s.keepalive = false) (hs : s.step a = some s') :
    s'.keepalive = false ∧ s'.threadsN = s.threadsN ∧
      ∀ w, s'.workers w = .waiting → s.workers w = .waiting := by
  cases hw : a.worker with
  | none =>
    obtain ⟨hworkers, hN, hk', -⟩ := h.main_frame hk hw hs
    refine ⟨hk', hN, fun w hwait => ?_⟩
    rw [← hworkers]
    exact hwait
  | some v =>
    obtain ⟨pc, hm⟩ := h.worker hw hs
    refine ⟨hm.keepalive.trans hk, hm.threadsN, fun w hwait => ?_⟩
    rw [hm.workers] at hwait
    by_cases hwv : w = v
    · have hadv := hm.advances
      rw [hwv, Function.update_self] at hwait
      rw [hk, hwait] at hadv
      exact absurd rfl hadv.not_entering.1
    · rwa [Function.update_of_ne hwv] at hwait

/-- A worker that can still execute `sem_wait` is in it. -/
private theorem DestroyInv.waiting_of_run {as : List (Action α)} {t t' : Thpool α} {w : Nat}
    (h : s.DestroyInv waits) (hk : s.keepalive = false)
    (hrun : (system α).run s as = some t) (hs : t.step (.semWait w) = some t') :
    s.workers w = .waiting ∧ w < s.threadsN := by
  induction as generalizing s waits with
  | nil =>
    obtain rfl := Option.some.inj hrun
    cases (step_moves hs).2 with
    | semWait hw hp _ => exact ⟨hp, hw⟩
  | cons a as ih =>
    obtain ⟨u, hu, hrun'⟩ := System.run_cons_some hrun
    obtain ⟨hk', hN, hwaiting⟩ := h.frame hk hu
    obtain ⟨hp, hw⟩ := ih (h.step (h.destroying hk hu) hu) hk' hrun'
    exact ⟨hwaiting w hp, hN ▸ hw⟩

/-- After all posts the semaphore is above the number of workers that have not called
    `sem_wait` since the flag was cleared. -/
private theorem DestroyInv.card_lt_queueSem (h : s.DestroyInv waits) (hposted : s.Posted)
    {W : Finset Nat} (hW : ∀ w ∈ W, w < s.threadsN ∧ waits w = 0) : W.card < s.queueSem := by
  have hposts := h.posts
  rw [hposted] at hposts
  have hsub : W ⊆ (Finset.range s.threadsN).filter fun w => ¬ waits w ≠ 0 := by
    intro w hw
    obtain ⟨hlt, hzero⟩ := hW w hw
    exact Finset.mem_filter.mpr ⟨Finset.mem_range.mpr hlt, not_not.mpr hzero⟩
  have hcard := Finset.card_le_card hsub
  have hsplit := Finset.card_filter_add_card_filter_not (s := Finset.range s.threadsN)
    fun w => waits w ≠ 0
  rw [Finset.card_range] at hsplit
  simp only [waitedN] at hposts
  omega

/-- The posts are there only after the flag was cleared. -/
private theorem DestroyInv.keepalive_of_posted (h : s.DestroyInv waits) (hposted : s.Posted) :
    s.keepalive = false := by
  apply h.cleared
  intro hserving
  rw [Posted, hserving] at hposted
  exact absurd hposted (Nat.succ_ne_zero _).symm

/-- Before a fault, the step of a worker is the one for its place. -/
private theorem step_worker {a : Action α} {w : Nat} {pc : WorkerPc} (hsound : s.fault = false)
    (ha : a.worker = some w) (hw : w < s.threadsN) (hp : s.workers w = pc) :
    s.step a = s.workerStep w a pc := by
  simp only [Thpool.step, hsound, ha, hw, hp, Bool.false_eq_true, ↓reduceIte]

/-- Before a fault, a step of the main thread is the one for its place. -/
private theorem step_main {a : Action α} {m : MainPc} (hsound : s.fault = false)
    (ha : a.worker = none) (hm : s.main = m) : s.step a = s.mainStep a m := by
  simp only [Thpool.step, hsound, ha, hm, Bool.false_eq_true, ↓reduceIte]

/-- After all posts a worker that has not returned can move. -/
private theorem DestroyInv.unblocked {w : Nat} (h : s.DestroyInv waits) (hposted : s.Posted)
    (hw : w < s.threadsN) :
    s.workers w = .returned ∨ ∃ a s', a.worker = some w ∧ s.step a = some s' := by
  have hsound := h.sound
  cases hp : s.workers w with
  | returned => exact .inl rfl
  | returnedLocked => exact absurd hp (h.unlocked.2 w)
  | loop => exact .inr ⟨.test w, _, rfl, step_worker hsound rfl hw hp⟩
  | waiting =>
    -- The posts left are more than the workers in `sem_wait`
    have hlt : ({w} : Finset Nat).card < s.queueSem := by
      refine h.card_lt_queueSem hposted fun v hv => ?_
      rw [Finset.mem_singleton.mp hv]
      exact ⟨hw, h.waits_of_waiting hp⟩
    have hpos : 0 < s.queueSem := by omega
    exact .inr ⟨.semWait w, _, rfl, (step_worker hsound rfl hw hp).trans (if_pos hpos)⟩
  | passed => exact .inr ⟨.retest w, _, rfl, step_worker hsound rfl hw hp⟩
  | locking =>
    have hfree : ¬ s.mutex = true := by rw [h.unlocked.1]; exact Bool.false_ne_true
    exact .inr ⟨.dequeue w, _, rfl, (step_worker hsound rfl hw hp).trans (if_neg hfree)⟩
  | running p => exact .inr ⟨.execute w, _, rfl, step_worker hsound rfl hw hp⟩
  | finished p => exact .inr ⟨.free w, _, rfl, step_worker hsound rfl hw hp⟩

/-- Once the flag is cleared something can move until `thpool_destroy` has returned. -/
private theorem DestroyInv.progress (h : s.DestroyInv waits) (hk : s.keepalive = false)
    (hmain : s.main ≠ .destroyed) : ∃ a s', s.step a = some s' := by
  have hsound := h.sound
  have hstop := h.stopping hk
  cases hm : s.main with
  | serving | sweeping cur =>
    rw [hm] at hstop
    exact hstop.elim
  | posting k =>
    by_cases hlt : k < s.threadsN + 1
    · exact ⟨.post, _, (step_main hsound rfl hm).trans (if_pos hlt)⟩
    · rw [hm] at hstop
      have hk' : k = s.threadsN + 1 := Nat.le_antisymm hstop (Nat.le_of_not_lt hlt)
      exact ⟨.join, _, (step_main hsound rfl hm).trans (if_pos hk')⟩
  | joining =>
    cases hr : s.allReturned with
    | true =>
      exact ⟨.join, _, (step_main hsound rfl hm).trans (if_pos hr)⟩
    | false =>
      -- Some worker has not returned, and it can move
      obtain ⟨w, hw, hnot⟩ := List.all_eq_false.mp hr
      simp only [Bool.or_eq_true, decide_eq_true_eq, not_or] at hnot
      have hposted : s.Posted := by rw [Posted, hm]; rfl
      rcases h.unblocked hposted (List.mem_range.mp hw) with hret | ⟨a, s', -, hs⟩
      · exact absurd hret hnot.1
      · exact ⟨a, s', hs⟩
  | emptying => exact ⟨.empty, _, step_main hsound rfl hm⟩
  | destroyed => exact absurd hm hmain

/-- Once the flag is cleared every step brings the threads closer to their end. -/
private theorem DestroyInv.stepsLeft_lt {a : Action α} (h : s.DestroyInv waits)
    (hk : s.keepalive = false) (hs : s.step a = some s') : s'.stepsLeft < s.stepsLeft := by
  cases hw : a.worker with
  | none =>
    obtain ⟨hworkers, hN, -, hleft⟩ := h.main_frame hk hw hs
    simp only [stepsLeft, hworkers, hN] at hleft ⊢
    omega
  | some w =>
    obtain ⟨pc, hm⟩ := h.worker hw hs
    -- Its own step does not lead there, since the flag is tested first
    have hadv := hm.advances
    rw [hk] at hadv
    -- This worker comes closer to its end, and the others stay
    have hsum : ∑ v ∈ Finset.range s.threadsN, (s'.workers v).left <
        ∑ v ∈ Finset.range s.threadsN, (s.workers v).left := by
      refine Finset.sum_lt_sum (fun v _ => ?_) ⟨w, Finset.mem_range.mpr hm.lt, ?_⟩
      · rw [hm.workers]
        by_cases hv : v = w
        · rw [hv, Function.update_self]
          exact Nat.le_of_lt hadv.left_lt
        · rw [Function.update_of_ne hv]
      · rw [hm.workers, Function.update_self]
        exact hadv.left_lt
    simp only [stepsLeft, hm.main, hm.threadsN]
    omega

/-- Once the flag is cleared a run is no longer than the steps left. -/
private theorem DestroyInv.run_length {as : List (Action α)} {t : Thpool α}
    (h : s.DestroyInv waits) (hk : s.keepalive = false) (hrun : (system α).run s as = some t) :
    as.length ≤ s.stepsLeft := by
  induction as generalizing s waits with
  | nil => exact Nat.zero_le _
  | cons a as ih =>
    obtain ⟨u, hu, hrun'⟩ := System.run_cons_some hrun
    have hlt := h.stepsLeft_lt hk hu
    have hle := ih (h.step (h.destroying hk hu) hu) (h.frame hk hu).1 hrun'
    rw [List.length_cons]
    omega

/-! ### Emptying the queue -/

/-- The loop of `thpool_jobqueue_empty` frees each queued job once, and no other. -/
private theorem Wf.emptyLoop_frees (h : s.Wf l)
    (hs : Thpool.thpoolJobqueueEmptyLoop s.jobN s.tail s = some s') :
    (∀ c ∈ l, s'.heap c = none ∧ s'.tally c = { emptied := 1, frees := 1 }) ∧
      ∀ c, c ∉ l → s'.heap c = s.heap c ∧ s'.tally c = s.tally c := by
  induction l generalizing s with
  | nil =>
    have hn : s.jobN = 0 := h.length.symm
    rw [hn] at hs
    obtain rfl := Option.some.inj hs
    exact ⟨fun c hc => absurd hc List.not_mem_nil, fun _ _ => ⟨rfl, rfl⟩⟩
  | cons c l ih =>
    obtain ⟨⟨job, hjob⟩, htally⟩ := h.queued c List.mem_cons_self
    have hcl : c ∉ l := (List.nodup_cons.mp h.nodup).1
    rw [← h.length, h.chain.1] at hs
    simp only [List.length_cons, Thpool.thpoolJobqueueEmptyLoop, hjob, Option.bind_eq_bind,
      Option.bind_some] at hs
    obtain ⟨hfreed, hother⟩ := ih (h.removeTail hjob (.inr (.inr rfl))) hs
    constructor
    · intro p hp
      rcases List.mem_cons.mp hp with rfl | hp
      · -- The oldest job, freed by this round and not touched by the rest
        obtain ⟨hheap, htally'⟩ := hother p hcl
        simp only [release, count, Function.update_self, htally] at hheap htally'
        exact ⟨hheap, htally'⟩
      · exact hfreed p hp
    · intro p hp
      rw [List.mem_cons, not_or] at hp
      obtain ⟨hpc, hpl⟩ := hp
      obtain ⟨hheap, htally'⟩ := hother p hpl
      simp only [release, count, Function.update_of_ne hpc] at hheap htally'
      exact ⟨hheap, htally'⟩

/-- `thpool_jobqueue_empty` on the queue that is left when every worker has returned. -/
private theorem DestroyInv.empties (h : s.DestroyInv waits) (hm : s.main = .emptying) :
    ∃ l s', s.QueueWf l ∧ s.step .empty = some s' ∧ s.Empties s' l := by
  obtain ⟨l, hwf⟩ := h.sem.wf
  obtain ⟨u, hu, huwf, husame, -⟩ := hwf.thpoolJobqueueEmptyLoop
  have ht : s.thpoolJobqueueEmpty = some { u with head := none, tail := none } := by
    simp only [Thpool.thpoolJobqueueEmpty, hu, Option.map_some]
  obtain ⟨hfreed, hother⟩ := hwf.emptyLoop_frees hu
  refine ⟨l, _, hwf.queueWf, step_main h.sound rfl hm, ?_⟩
  rw [outcome_some ht]
  exact {
    sound := husame.fault.trans h.sound
    jobN := huwf.length.symm
    head := rfl
    tail := rfl
    freed := fun c hc => ⟨(hwf.queued c hc).1, (hwf.queued c hc).2, hfreed c hc⟩
    other := hother }

/-! ### The whole run -/

/-- While the pool runs and no sweep has deleted a job, `thpool_destroy` may be called. -/
theorem beforeDestroy_of_reach (h : Reach (system α) SweepIdle s) (hk : s.keepalive = true)
    (hm : s.main = .serving) (hsound : s.fault = false) : s.BeforeDestroy := by
  have hinv := semInv_of_reach h
  exact ⟨hinv.wf, hinv.balance hk, hk, hm, hinv.unlocked hk, hsound⟩

/-- Destroying the pool: any number of workers, anywhere in their loop, any queue with
    balanced accounts, and every interleaving of the workers with `thpool_destroy`. -/
theorem thpool_destroy_joins_and_empties {p : Thpool α × (Nat → Nat)} (h : DestroyReach p) :
    p.1.DestroySafe p.2 := by
  have hinv := destroyInv_of_reach h
  exact {
    sound := hinv.sound
    once := fun w => by
      rcases hinv.once w with hzero | ⟨hone, -⟩ <;> omega
    -- Who can still wait is in `sem_wait` now, and each of them has a post
    semaphore := by
      intro hposted W hW
      have hk := hinv.keepalive_of_posted hposted
      refine Nat.le_of_lt (hinv.card_lt_queueSem hposted fun w hw => ?_)
      obtain ⟨as, t, t', -, hrun, hs⟩ := hW w hw
      obtain ⟨hp, hlt⟩ := hinv.waiting_of_run hk hrun hs
      exact ⟨hlt, hinv.waits_of_waiting hp⟩
    unblocked := fun hposted w hw => hinv.unblocked hposted hw
    progress := hinv.progress
    finishes := fun hk as t hrun => hinv.run_length hk hrun
    empties := fun hm => ⟨hinv.gone (.inl hm), hinv.empties hm⟩ }

/-- Two workers and two jobs: one worker past `sem_wait`, the other before it, when the
    pool is destroyed. Both return without a job, and two jobs are left to be freed. -/
theorem thpool_destroy_two_left :
    ∃ p : Thpool Nat × (Nat → Nat), p.1.main = .emptying ∧ p.1.jobN = 2 ∧
      p.1.DestroySafe p.2 := by
  have hruns : ∃ s : Thpool Nat, (system Nat).run (thpoolInit 2)
      [.addWork 0 7, .addWork 1 8, .test 0, .semWait 0] = some s ∧
      s.keepalive = true ∧ s.main = .serving ∧ s.fault = false ∧
      ∃ p, (destroySystem Nat).run (s, fun _ => 0)
        [.destroy, .post, .post, .post, .retest 0, .test 1, .join, .join] = some p ∧
        p.1.main = .emptying ∧ p.1.jobN = 2 :=
    ⟨_, rfl, rfl, rfl, rfl, _, rfl, rfl, rfl⟩
  obtain ⟨s, hs, hkeep, hserving, hsound, p, hp, hmain, hjobs⟩ := hruns
  have hreach : Reach (system Nat) SweepIdle s :=
    .run (.init ⟨2, rfl⟩) (System.meets_of_mem _ (by simp [SweepIdle]) _) hs
  have hbefore := beforeDestroy_of_reach hreach hkeep hserving hsound
  have hdestroy : DestroyReach p :=
    .run (.init ⟨hbefore, rfl⟩) (System.meets_of_mem _ (by simp [Destroying]) _) hp
  exact ⟨p, hmain, hjobs, thpool_destroy_joins_and_empties hdestroy⟩

end Thpool

end JQServer
