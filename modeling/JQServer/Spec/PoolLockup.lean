import JQServer.ForStd.Simulation
import JQServer.Spec.PoolOwnership
import JQServer.Spec.PoolSemaphore
import Mathlib.Algebra.BigOperators.Group.Finset.Basic

/-!
# When the pool locks up

`thpool_thread_do` returns between `pthread_mutex_lock` and `pthread_mutex_unlock` if it
finds the queue empty. `locked_forever` says what that costs: nothing is added, taken or
swept any more, and `thpool_destroy` never gets past its joins if a worker waits for the
mutex.

`drains_or_locks` says when it happens. Left to themselves the workers stop after a bounded
number of steps. They have then run and freed every job and wait for the semaphore, if its
value and the workers past `sem_wait` are no more than the jobs in the queue. If they are
more, as after a sweep that deleted a job, the mutex is locked, whatever the order of the
steps.
-/

namespace JQServer

/-- Steps left to a worker until it is in `sem_wait` again. -/
def WorkerPc.toWait : WorkerPc → Nat
  | .passed => 5
  | .locking => 4
  | .running _ => 3
  | .finished _ => 2
  | .loop => 1
  | .waiting | .returned | .returnedLocked => 0

namespace Thpool

open Transition

variable {α : Type} {s s' : Thpool α} {l : List Nat}

/-- A step of a worker. -/
def ByWorker (a : Action α) : Prop := a.worker.isSome = true

/-- Steps left to the workers, if no job is added. -/
def workLeft (s : Thpool α) : Nat :=
  6 * s.queueSem + ∑ w ∈ Finset.range s.threadsN, (s.workers w).toWait

/-! ### After the lock -/

/-- What is left of the pool when the mutex is locked for good. -/
structure LockedUp (s s' : Thpool α) : Prop where
  mutex : s'.mutex = true
  allocated : s'.allocated = s.allocated
  taken : ∀ p, (s'.tally p).taken = (s.tally p).taken
  swept : ∀ p, (s'.tally p).swept = (s.tally p).swept
  locking : ∀ w, s.workers w = .locking → s'.workers w = .locking

theorem LockedUp.trans {s'' : Thpool α} (h : s.LockedUp s') (h' : s'.LockedUp s'') :
    s.LockedUp s'' where
  mutex := h'.mutex
  allocated := h'.allocated.trans h.allocated
  taken p := (h'.taken p).trans (h.taken p)
  swept p := (h'.swept p).trans (h.swept p)
  locking w hw := h'.locking w (h.locking w hw)

/-- An event of a job that is neither its dequeue nor the sweep. -/
private theorem count_taken_swept {p : Nat} {f : JobTally → JobTally}
    (hf : ∀ t, (f t).taken = t.taken ∧ (f t).swept = t.swept) (c : Nat) :
    ((s.count c f).tally p).taken = (s.tally p).taken ∧
      ((s.count c f).tally p).swept = (s.tally p).swept := by
  by_cases hpc : p = c
  · subst hpc
    simp only [count, Function.update_self]
    exact hf _
  · simp only [count, Function.update_of_ne hpc, and_self]

/-- A worker that moves is not the one that waits for the mutex. -/
private theorem locking_setWorker {v w : Nat} {pc : WorkerPc} (hw : s.workers w ≠ .locking)
    (hv : s.workers v = .locking) : (s.setWorker w pc).workers v = .locking := by
  have hvw : v ≠ w := by
    intro heq
    exact hw (heq ▸ hv)
  simpa only [setWorker, Function.update_of_ne hvw] using hv

/-- The loop of `thpool_jobqueue_empty` touches memory and the tail. -/
private theorem emptyLoop_lockedUp {n : Nat} {cur : Option Nat} (hx : s.mutex = true)
    (h : thpoolJobqueueEmptyLoop n cur s = some s') : s.LockedUp s' := by
  induction n generalizing s cur with
  | zero =>
    obtain rfl := Option.some.inj h
    exact ⟨hx, rfl, fun _ => rfl, fun _ => rfl, fun _ hw => hw⟩
  | succ n ih =>
    cases cur with
    | none => exact nomatch h
    | some c =>
      simp only [thpoolJobqueueEmptyLoop, Option.bind_eq_bind, Option.bind_eq_some_iff] at h
      obtain ⟨job, -, h⟩ := h
      have hlocked := ih (by exact hx) h
      refine ⟨hlocked.mutex, hlocked.allocated, fun p => ?_, fun p => ?_, hlocked.locking⟩
      all_goals
        have hemptied := count_taken_swept (s := s) (p := p)
          (f := fun t => { t with emptied := t.emptied + 1 }) (fun _ => ⟨rfl, rfl⟩) c
        have hfreed := count_taken_swept
          (s := s.count c fun t => { t with emptied := t.emptied + 1 }) (p := p)
          (f := fun t => { t with frees := t.frees + 1 }) (fun _ => ⟨rfl, rfl⟩) c
      · exact (hlocked.taken p).trans (hfreed.1.trans hemptied.1)
      · exact (hlocked.swept p).trans (hfreed.2.trans hemptied.2)

/-- With the mutex locked no step changes this. -/
private theorem LockedUp.step {a : Action α} (hx : s.mutex = true) (hs : s.Moves a s') :
    s.LockedUp s' := by
  have hsame : s.LockedUp s := ⟨hx, rfl, fun _ => rfl, fun _ => rfl, fun _ hw => hw⟩
  have hcontra : s.mutex ≠ false := by simp [hx]
  -- A worker that moves was not at the mutex
  have hmove : ∀ {w pc}, s.workers w ≠ .locking → s.LockedUp (s.setWorker w pc) := by
    intro w pc hw
    exact ⟨hx, rfl, fun _ => rfl, fun _ => rfl, fun v hv => locking_setWorker hw hv⟩
  cases hs with
  -- These three take the mutex
  | addWork hm hx' => exact absurd hx' hcontra
  | sweepLocked hm hx' => exact absurd hx' hcontra
  | dequeue hw hp hx' => exact absurd hx' hcontra
  | sweepRead hm => exact ⟨hx, rfl, fun _ => rfl, fun _ => rfl, fun _ hw => hw⟩
  | test hw hp => exact hmove (by simp [hp])
  | @semWait w hw hp hq =>
    have h : s.LockedUp (s.setWorker w .passed) := hmove (by simp [hp])
    exact ⟨h.mutex, h.allocated, h.taken, h.swept, h.locking⟩
  | retest hw hp => exact hmove (by simp [hp])
  -- A worker with a job may run and free it: neither count is of that
  | @execute w p hw hp =>
    unfold threadExecute
    cases hjob : s.heap p with
    | none => exact ⟨hx, rfl, fun _ => rfl, fun _ => rfl, fun _ hw => hw⟩
    | some job =>
      have hcount := fun q => count_taken_swept (s := s) (p := q)
        (f := fun t => { t with executed := t.executed + 1 }) (fun _ => ⟨rfl, rfl⟩) p
      exact ⟨hx, rfl, fun q => (hcount q).1, fun q => (hcount q).2,
        fun v hv => locking_setWorker (s := s) (by simp [hp]) hv⟩
  | @free w p hw hp =>
    unfold threadFree
    cases hjob : s.heap p with
    | none => exact ⟨hx, rfl, fun _ => rfl, fun _ => rfl, fun _ hw => hw⟩
    | some job =>
      have hcount := fun q => count_taken_swept (s := s) (p := q)
        (f := fun t => { t with frees := t.frees + 1 }) (fun _ => ⟨rfl, rfl⟩) p
      exact ⟨hx, rfl, fun q => (hcount q).1, fun q => (hcount q).2,
        fun v hv => locking_setWorker (s := s) (by simp [hp]) hv⟩
  | destroy | post | posted | joined =>
    exact ⟨hx, rfl, fun _ => rfl, fun _ => rfl, fun _ hw => hw⟩
  -- Only the tally of emptied jobs moves
  | empty hm =>
    cases hr : s.thpoolJobqueueEmpty with
    | none => exact ⟨hx, rfl, fun _ => rfl, fun _ => rfl, fun _ hw => hw⟩
    | some t =>
      obtain ⟨u, hu, rfl⟩ := Option.map_eq_some_iff.mp hr
      have h := emptyLoop_lockedUp hx hu
      exact ⟨h.mutex, h.allocated, h.taken, h.swept, h.locking⟩

/-- `thpool_destroy` has not joined all workers. -/
def NotJoined (s : Thpool α) : Prop := s.main ≠ .emptying ∧ s.main ≠ .destroyed

/-- The joins do not end while a worker waits for the mutex. -/
private theorem NotJoined.step {a : Action α} {w : Nat} (h : s.NotJoined) (hlt : w < s.threadsN)
    (hw : s.workers w = .locking) (hx : s.mutex = true) (hs : s.Moves a s') :
    s'.NotJoined ∧ s'.threadsN = s.threadsN := by
  have hcontra : s.mutex ≠ false := by simp [hx]
  cases hs with
  | addWork hm hx' => exact absurd hx' hcontra
  | sweepLocked hm hx' => exact absurd hx' hcontra
  | dequeue hw hp hx' => exact absurd hx' hcontra
  -- `pthread_join` of that worker does not return
  | joined hm hr =>
    simp only [allReturned, List.all_eq_true, List.mem_range] at hr
    have hret := hr w hlt
    simp [hw] at hret
  | empty hm => exact absurd hm h.1
  | @execute v p hv hp =>
    unfold threadExecute
    cases hjob : s.heap p <;> exact ⟨h, rfl⟩
  | @free v p hv hp =>
    unfold threadFree
    cases hjob : s.heap p <;> exact ⟨h, rfl⟩
  | destroy | post | posted | sweepRead => exact ⟨⟨nofun, nofun⟩, rfl⟩
  | _ => exact ⟨h, rfl⟩

/-- The mutex is never unlocked again. No job is added, taken or swept in any continuation,
    and `thpool_destroy` never gets past its joins if a worker waits for the mutex. -/
theorem locked_forever {as : List (Action α)} (hx : s.mutex = true)
    (hr : (system α).run s as = some s') :
    s.LockedUp s' ∧
      ∀ w < s.threadsN, s.workers w = .locking → s.NotJoined → s'.NotJoined := by
  induction as generalizing s with
  | nil =>
    obtain rfl := Option.some.inj hr
    exact ⟨⟨hx, rfl, fun _ => rfl, fun _ => rfl, fun _ hw => hw⟩, fun _ _ _ h => h⟩
  | cons a as ih =>
    obtain ⟨t, hs, hr⟩ := System.run_cons_some hr
    have hmove := (step_moves hs).2
    have hstep : s.LockedUp t := .step hx hmove
    obtain ⟨hrest, hjoin⟩ := ih hstep.mutex hr
    refine ⟨hstep.trans hrest, fun w hlt hw hnot => ?_⟩
    obtain ⟨hnot', hN⟩ := hnot.step hlt hw hx hmove
    exact hjoin w (hN ▸ hlt) (hstep.locking w hw) hnot'

/-- Two workers are past `sem_wait` when the sweep deletes both jobs: the first returns with
    the mutex, and `thpool_destroy` cannot join the second. -/
theorem locked_forever_two :
    ∃ s s' : Thpool Nat, (system Nat).run (thpoolInit 2)
      [.addWork 0 7, .addWork 0 8, .test 0, .test 1, .semWait 0, .semWait 1, .retest 0, .retest 1,
        .sweepRead, .sweepLocked 100 60, .dequeue 0] = some s ∧
      (system Nat).run s [.destroy, .post, .post, .post, .join] = some s' ∧
      s.LockedUp s' ∧ s'.NotJoined := by
  have hrun : ∃ s s' : Thpool Nat, (system Nat).run (thpoolInit 2)
      [.addWork 0 7, .addWork 0 8, .test 0, .test 1, .semWait 0, .semWait 1, .retest 0, .retest 1,
        .sweepRead, .sweepLocked 100 60, .dequeue 0] = some s ∧
      (system Nat).run s [.destroy, .post, .post, .post, .join] = some s' ∧
      s.mutex = true ∧ 1 < s.threadsN ∧ s.workers 1 = .locking ∧ s.main = .serving :=
    ⟨_, _, rfl, rfl, rfl, by decide, rfl, rfl⟩
  obtain ⟨s, s', hs, hs', hx, hlt, hw, hm⟩ := hrun
  have hnot : s.NotJoined := by simp [NotJoined, hm]
  obtain ⟨hlocked, hjoin⟩ := locked_forever hx hs'
  exact ⟨s, s', hs, hs', hlocked, hjoin 1 hlt hw hnot⟩

/-! ### Before the lock -/

/-- A pool that serves: no worker has returned but with the mutex, and the semaphore and the
    workers past `sem_wait` are enough for the jobs. -/
structure Serving (s : Thpool α) : Prop where
  wf : ∃ l, s.Wf l
  sound : s.fault = false
  threads : 0 < s.threadsN
  keepalive : s.keepalive = true
  enough : s.jobN ≤ s.queueSem + s.pastSemWait
  there : ∀ w, s.workers w ≠ .returned
  locked : ∀ w, s.workers w = .returnedLocked → s.mutex = true
  outside : ∀ w, s.threadsN ≤ w → (s.workers w).job = none

/-- What moving one worker does to the steps left. -/
private theorem workLeft_update {w : Nat} {pc : WorkerPc} (hw : w < s.threadsN)
    (hN : s'.threadsN = s.threadsN) (hwork : s'.workers = Function.update s.workers w pc) :
    s'.workLeft + 6 * s.queueSem + (s.workers w).toWait =
      s.workLeft + 6 * s'.queueSem + pc.toWait := by
  have hsum := Finset.sum_apply_update (Finset.range s.threadsN) s.workers w pc WorkerPc.toWait
    (Finset.mem_range.mpr hw)
  simp only [workLeft, hN, hwork]
  omega

/-- What a step of a worker does to a serving pool: it keeps the difference of semaphore and
    jobs or, on an empty queue, locks the mutex. -/
structure Works (s s' : Thpool α) : Prop where
  serving : s'.Serving
  left : s'.workLeft < s.workLeft
  threadsN : s'.threadsN = s.threadsN
  locks : s'.mutex = true → s.mutex = true ∨ s.jobN < s.queueSem + s.pastSemWait
  keeps : s'.mutex = false → s.mutex = false ∧
    s'.queueSem + s'.pastSemWait + s.jobN = s.queueSem + s.pastSemWait + s'.jobN

/-- The workers are there when one of them moves, unless it returns. -/
private theorem Serving.there_update {w : Nat} {pc : WorkerPc} (h : s.Serving)
    (hwork : s'.workers = Function.update s.workers w pc) (hpc : pc ≠ .returned) (v : Nat) :
    s'.workers v ≠ .returned := by
  rw [hwork]
  by_cases hvw : v = w
  · rw [hvw, Function.update_self]
    exact hpc
  · rw [Function.update_of_ne hvw]
    exact h.there v

/-- Worker `w` moves to `pc`, and the semaphore and `jobN` change with it. -/
private theorem Serving.move {w : Nat} {pc : WorkerPc} (h : s.Serving) (hw : w < s.threadsN)
    (hwf : ∃ l, s'.Wf l) (hf : s'.fault = s.fault)
    (hwork : s'.workers = Function.update s.workers w pc) (hN : s'.threadsN = s.threadsN)
    (hk : s'.keepalive = s.keepalive) (hx : s'.mutex = s.mutex) (hpc : pc ≠ .returned)
    (hpc' : pc ≠ .returnedLocked)
    (hsum : s'.queueSem + pc.past + s.jobN = s.queueSem + (s.workers w).past + s'.jobN)
    (hleft : 6 * s'.queueSem + pc.toWait < 6 * s.queueSem + (s.workers w).toWait) :
    s.Works s' := by
  have hpast := pastSemWait_update hw hN hwork
  have hsteps := workLeft_update hw hN hwork
  have henough := h.enough
  -- The arithmetic of `enough`, `left` and `keeps` is in `hpast`, `hsteps` and `hsum`; what is
  -- left is where the workers are
  refine ⟨⟨hwf, hf.trans h.sound, hN ▸ h.threads, hk.trans h.keepalive, by omega,
    h.there_update hwork hpc, fun v hv => ?_, fun v hv => ?_⟩, by omega, hN,
    fun hx' => .inl (hx ▸ hx'), fun hx' => ?_⟩
  · rw [hwork] at hv
    by_cases hvw : v = w
    · rw [hvw, Function.update_self] at hv
      exact absurd hv hpc'
    · rw [Function.update_of_ne hvw] at hv
      exact hx.trans (h.locked v hv)
  · rw [hN] at hv
    rw [hwork, Function.update_of_ne (by omega)]
    exact h.outside v hv
  · exact ⟨hx ▸ hx', by omega⟩

/-- A worker that finds the queue empty returns, and the mutex stays locked. -/
private theorem Serving.lock {w : Nat} (h : s.Serving) (hw : w < s.threadsN)
    (hp : s.workers w = .locking) (hzero : s.jobN = 0) (hwf : ∃ l, s'.Wf l)
    (hf : s'.fault = s.fault) (hwork : s'.workers = Function.update s.workers w .returnedLocked)
    (hN : s'.threadsN = s.threadsN) (hk : s'.keepalive = s.keepalive) (hx : s'.mutex = true)
    (hjob : s'.jobN = s.jobN) (hsem : s'.queueSem = s.queueSem) : s.Works s' := by
  have hpast := pastSemWait_update hw hN hwork
  have hsteps := workLeft_update hw hN hwork
  have hpos := pastSemWait_pos hw (.inr hp)
  simp only [hp, WorkerPc.toWait] at hsteps
  refine ⟨⟨hwf, hf.trans h.sound, hN ▸ h.threads, hk.trans h.keepalive, by omega,
    h.there_update hwork nofun, fun _ _ => hx, fun v hv => ?_⟩, by omega, hN,
    fun _ => .inr (by omega), fun hx' => ?_⟩
  · rw [hN] at hv
    rw [hwork, Function.update_of_ne (by omega)]
    exact h.outside v hv
  · exact nomatch hx.symm.trans hx'

/-- A step of a worker. -/
theorem Serving.worker {a : Action α} (h : s.Serving) (ha : ByWorker a)
    (hs : s.step a = some s') : s.Works s' := by
  obtain ⟨l, hwf⟩ := h.wf
  have hmove := (step_moves hs).2
  have hwf' : ∃ l', s'.Wf l' := by
    refine hwf.step ?_ hmove
    cases a with
    | sweepLocked => cases ha
    | _ => trivial
  have hk := h.keepalive
  cases hmove with
  | test hw hp =>
    refine h.move hw hwf' rfl rfl rfl rfl rfl ?_ ?_ ?_ ?_
    all_goals simp [hp, hk, setWorker, WorkerPc.past, WorkerPc.toWait]
  | semWait hw hp hq =>
    refine h.move hw hwf' rfl rfl rfl rfl rfl (by simp) (by simp) ?_ ?_
    · simp only [hp, WorkerPc.past, setWorker, reduceCtorEq, or_false, or_self, ↓reduceIte]
      omega
    · simp only [hp, WorkerPc.toWait]
      omega
  | retest hw hp =>
    refine h.move hw hwf' rfl rfl rfl rfl rfl ?_ ?_ ?_ ?_
    all_goals simp [hp, hk, setWorker, WorkerPc.past, WorkerPc.toWait]
  | @dequeue w hw hp hx =>
    cases l with
    | nil =>
      rw [outcome_some (hwf.dequeue_empty w)] at hwf' ⊢
      -- More posts than jobs: the worker locks the queue up
      exact h.lock hw hp hwf.length.symm hwf' rfl rfl rfl rfl rfl rfl rfl
    | cons c l =>
      obtain ⟨t, ht, htwf, hwork, -, -, hkeep, hmut, hN, hfault, hsem, -⟩ :=
        hwf.dequeue (w := w) (by rw [hp]; rfl)
      rw [outcome_some ht] at hwf' ⊢
      have hlen := hwf.length
      have hlen' := htwf.length
      rw [List.length_cons] at hlen
      -- One worker less past `sem_wait`, and one job less
      refine h.move hw hwf' hfault hwork hN hkeep hmut (by simp) (by simp) ?_ ?_
      · simp only [hp, WorkerPc.past, reduceCtorEq, or_true, or_self, ↓reduceIte]
        omega
      · simp only [hp, hsem, WorkerPc.toWait]
        omega
  -- With a job in hand the worker is no longer counted as past `sem_wait`
  | execute hw hp =>
    obtain ⟨t, ht, -, hwork, -, -, hkeep, hmut, hN, hfault, hsem, hjob, -⟩ := hwf.execute hp
    rw [outcome_some ht] at hwf' ⊢
    refine h.move hw hwf' hfault hwork hN hkeep hmut (by simp) (by simp) ?_ ?_
    · simp only [hp, hsem, hjob, WorkerPc.past, reduceCtorEq, or_self, ↓reduceIte]
    · simp only [hp, hsem, WorkerPc.toWait]
      omega
  | free hw hp =>
    obtain ⟨t, ht, -, hwork, -, -, hkeep, hmut, hN, hfault, hsem, hjob, -⟩ := hwf.free hp
    rw [outcome_some ht] at hwf' ⊢
    refine h.move hw hwf' hfault hwork hN hkeep hmut (by simp) (by simp) ?_ ?_
    · simp only [hp, hsem, hjob, WorkerPc.past, reduceCtorEq, or_self, ↓reduceIte]
    · simp only [hp, hsem, WorkerPc.toWait]
      omega
  | _ => cases ha

/-- A state with the workers where they were, in which jobs have the semaphore. -/
private theorem Serving.same (h : s.Serving) (hwf : ∃ l, s'.Wf l)
    (hworkers : s'.workers = s.workers) (hN : s'.threadsN = s.threadsN)
    (hk : s'.keepalive = s.keepalive) (hx : s'.mutex = s.mutex) (hf : s'.fault = s.fault)
    (hsum : s'.jobN + s.queueSem ≤ s'.queueSem + s.jobN) : s'.Serving where
  wf := hwf
  sound := hf.trans h.sound
  threads := hN ▸ h.threads
  keepalive := hk.trans h.keepalive
  enough := by
    have henough := h.enough
    have hpast : s'.pastSemWait = s.pastSemWait := by simp only [pastSemWait, hN, hworkers]
    omega
  there w := hworkers ▸ h.there w
  locked w hw := hx.trans (h.locked w (hworkers ▸ hw))
  outside w hw := by
    rw [hworkers]
    exact h.outside w (hN ▸ hw)

/-- Every step of a serving pool leads to one, until `thpool_destroy`. -/
theorem Serving.step {a : Action α} (h : s.Serving) (hsafe : s.SweepSafe a)
    (hs : s.step a = some s') (hk : s'.keepalive = true) : s'.Serving := by
  obtain ⟨l, hwf⟩ := h.wf
  have hmove := (step_moves hs).2
  have hwf' := hwf.step hsafe hmove
  cases hworker : a.worker.isSome with
  -- A step of a worker; otherwise it is one of the event loop, and the workers stay
  | true => exact (h.worker hworker hs).serving
  | false =>
    cases hmove with
    | addWork hm hx =>
      obtain ⟨t, ht, htwf, hsame, hsem, -⟩ := hwf.addWork _ _
      rw [outcome_some ht] at hwf' ⊢
      have hlen := htwf.length
      rw [List.length_append, hwf.length, List.length_singleton] at hlen
      exact h.same hwf' hsame.workers hsame.threadsN hsame.keepalive hsame.mutex hsame.fault
        (by omega)
    | sweepRead hm => exact h.same hwf' rfl rfl rfl rfl rfl (Nat.le_of_eq (Nat.add_comm _ _))
    | @sweepLocked now timeOut cur hm hx =>
      obtain ⟨t, k, ht, htwf, hsame, hsem⟩ := hwf.sweepSafe hm hsafe
      -- The sweep deletes jobs but leaves their posts
      have hle := (sweepLocked_jobN hs).1
      rw [outcome_some ht] at hwf' hle ⊢
      replace hle : t.jobN ≤ s.jobN := hle
      refine h.same hwf' hsame.workers hsame.threadsN hsame.keepalive hsame.mutex hsame.fault ?_
      show t.jobN + s.queueSem ≤ t.queueSem + s.jobN
      omega
    | destroy hm => exact nomatch hk
    | post hm hk =>
      refine h.same hwf' rfl rfl rfl rfl rfl ?_
      show s.jobN + s.queueSem ≤ s.queueSem + 1 + s.jobN
      omega
    | posted hm hk => exact h.same hwf' rfl rfl rfl rfl rfl (Nat.le_of_eq (Nat.add_comm _ _))
    | joined hm hr => exact h.same hwf' rfl rfl rfl rfl rfl (Nat.le_of_eq (Nat.add_comm _ _))
    | empty hm =>
      obtain ⟨t, ht, htwf, hsame, hsem⟩ := hwf.thpoolJobqueueEmpty
      -- No job is left, so nothing is promised of the semaphore
      have hzero : t.jobN = 0 := htwf.length.symm
      rw [outcome_some ht] at hwf' ⊢
      refine h.same hwf' hsame.workers hsame.threadsN hsame.keepalive hsame.mutex hsame.fault ?_
      show t.jobN + s.queueSem ≤ t.queueSem + s.jobN
      omega
    | _ => exact nomatch hworker

/-- No step sets `thpool_keepalive`. -/
theorem keepalive_of_step {a : Action α} {l : List Nat} (hwf : s.Wf l) (hsafe : s.SweepSafe a)
    (hs : s.step a = some s') (hk : s'.keepalive = true) : s.keepalive = true := by
  cases (step_moves hs).2 with
  | addWork hm hx =>
    obtain ⟨t, ht, -, hsame, -⟩ := hwf.addWork _ _
    rw [outcome_some ht] at hk
    exact hsame.keepalive ▸ hk
  | sweepLocked hm hx =>
    obtain ⟨t, -, ht, -, hsame, -⟩ := hwf.sweepSafe hm hsafe
    rw [outcome_some ht] at hk
    exact hsame.keepalive ▸ hk
  | @dequeue w hw hp hx =>
    cases l with
    | nil =>
      rw [outcome_some (hwf.dequeue_empty w)] at hk
      exact hk
    | cons c l =>
      obtain ⟨t, ht, -, -, -, -, hkeep, -⟩ := hwf.dequeue (w := w) (by rw [hp]; rfl)
      rw [outcome_some ht] at hk
      exact hkeep ▸ hk
  | execute hw hp =>
    obtain ⟨t, ht, -, -, -, -, hkeep, -⟩ := hwf.execute hp
    rw [outcome_some ht] at hk
    exact hkeep ▸ hk
  | free hw hp =>
    obtain ⟨t, ht, -, -, -, -, hkeep, -⟩ := hwf.free hp
    rw [outcome_some ht] at hk
    exact hkeep ▸ hk
  | empty hm =>
    obtain ⟨t, ht, -, hsame, -⟩ := hwf.thpoolJobqueueEmpty
    rw [outcome_some ht] at hk
    exact hsame.keepalive ▸ hk
  | destroy hm => exact nomatch hk
  | _ => exact hk

/-- The pool serves until `thpool_destroy`, in every run whose sweeps are safe. -/
theorem serving_of_reach (h : Reach (system α) SweepSafe s) (hk : s.keepalive = true) :
    s.Serving := by
  induction h with
  | init hi =>
    obtain ⟨n, rfl⟩ := hi
    refine ⟨⟨[], wf_init n⟩, rfl, ?_, rfl, Nat.zero_le _, nofun, nofun, fun _ _ => rfl⟩
    show 0 < if n < 1 then 1 else n.toNat
    split <;> omega
  | step hr hsafe hs ih =>
    obtain ⟨⟨l, hwf⟩, -⟩ := wf_of_reach hr
    exact (ih (keepalive_of_step hwf hsafe hs hk)).step hsafe hs hk

/-! ### The workers alone -/

/-- No worker can step. -/
def Stuck (s : Thpool α) : Prop := ∀ a, ByWorker a → s.step a = none

/-- If no worker of a serving pool can step and the mutex is free, they all wait for the
    semaphore, and its value is 0. -/
theorem Serving.stuck (h : s.Serving) (hx : s.mutex = false) (hstuck : s.Stuck) :
    s.queueSem = 0 ∧ ∀ w < s.threadsN, s.workers w = .waiting := by
  have hstep : ∀ (w : Nat) (a : Action α), w < s.threadsN → a.worker = some w →
      s.workerStep w a (s.workers w) = none := by
    intro w a hw ha
    have hnone := hstuck a (by rw [ByWorker, ha]; rfl)
    simpa only [Thpool.step, h.sound, Bool.false_eq_true, ↓reduceIte, ha, hw] using hnone
  have hwait : ∀ w < s.threadsN, s.workers w = .waiting := by
    intro w hw
    -- In every other place the worker has a next step
    cases hp : s.workers w with
    | waiting => rfl
    | loop => simpa [workerStep, hp] using hstep w (.test w) hw rfl
    | passed => simpa [workerStep, hp] using hstep w (.retest w) hw rfl
    | locking => simpa [workerStep, hp, hx] using hstep w (.dequeue w) hw rfl
    | running p => simpa [workerStep, hp] using hstep w (.execute w) hw rfl
    | finished p => simpa [workerStep, hp] using hstep w (.free w) hw rfl
    | returned => exact absurd hp (h.there w)
    | returnedLocked => cases hx.symm.trans (h.locked w hp)
  refine ⟨?_, hwait⟩
  have hfirst := hstep 0 (.semWait 0) h.threads rfl
  simpa [workerStep, hwait 0 h.threads] using hfirst

/-- With every worker in `sem_wait` none is past it. -/
private theorem pastSemWait_zero (h : ∀ w < s.threadsN, s.workers w = .waiting) :
    s.pastSemWait = 0 := by
  rw [pastSemWait, Finset.card_eq_zero, Finset.filter_eq_empty_iff]
  intro w hw
  rw [h w (Finset.mem_range.mp hw)]
  simp

/-- A run of the workers from a serving pool whose mutex is free. -/
structure Served (s s' : Thpool α) (n : Nat) : Prop where
  serving : s'.Serving
  left : n + s'.workLeft ≤ s.workLeft
  threadsN : s'.threadsN = s.threadsN
  locked : s'.mutex = true → s.jobN < s.queueSem + s.pastSemWait
  free : s'.mutex = false →
    s'.queueSem + s'.pastSemWait + s.jobN = s.queueSem + s.pastSemWait + s'.jobN

/-- The workers run. -/
theorem Serving.served {as : List (Action α)} (h : s.Serving) (hx : s.mutex = false)
    (ha : ∀ a ∈ as, ByWorker a) (hr : (system α).run s as = some s') :
    s.Served s' as.length := by
  have hstart : s.Served s ([] : List (Action α)).length :=
    ⟨h, by simp, rfl, fun hx' => (nomatch hx.symm.trans hx'), fun _ => rfl⟩
  refine System.run_induction (M := system α) (C := fun _ a => ByWorker a)
    (P := fun as s' => s.Served s' as.length) hstart ?_
    (System.meets_of_mem _ (fun a hm _ => ha a hm) s) hr
  intro as t a u _ _ ih ha hs
  have hworks := ih.serving.worker ha hs
  have hleft := hworks.left
  have hleft' := ih.left
  refine ⟨hworks.serving, ?_, hworks.threadsN.trans ih.threadsN, fun hu => ?_, fun hu => ?_⟩
  · rw [List.length_append, List.length_singleton]
    omega
  · cases ht : t.mutex with
    | true => exact ih.locked ht
    | false =>
      obtain htrue | hlt := hworks.locks hu
      · exact nomatch ht.symm.trans htrue
      · have hkeep := ih.free ht
        omega
  · obtain ⟨ht, hkeep⟩ := hworks.keeps hu
    have hkeep' := ih.free ht
    omega

/-- Left to themselves, the workers of a pool stop after a bounded number of steps, in
    whatever order they run. When they have stopped, the mutex is locked exactly if the
    semaphore and the workers past `sem_wait` were more than the jobs; otherwise every
    worker waits for the semaphore, and every job ever added has been disposed of. -/
theorem drains_or_locks {as : List (Action α)} (h : Reach (system α) SweepSafe s)
    (hk : s.keepalive = true) (hx : s.mutex = false) (ha : ∀ a ∈ as, ByWorker a)
    (hr : (system α).run s as = some s') :
    as.length ≤ s.workLeft ∧ (s'.Stuck →
      (s'.mutex = true ↔ s.jobN < s.queueSem + s.pastSemWait) ∧
      (s'.mutex = false → s'.jobN = 0 ∧ s'.queueSem = 0 ∧
        (∀ w < s.threadsN, s'.workers w = .waiting) ∧
        ∀ p < s'.allocated, (s'.tally p).Disposed)) := by
  have hserved := (serving_of_reach h hk).served hx ha hr
  have hleft := hserved.left
  refine ⟨by omega, fun hstuck => ?_⟩
  have hdrained : s'.mutex = false → s'.queueSem = 0 ∧ s'.pastSemWait = 0 ∧ s'.jobN = 0 ∧
      ∀ w < s'.threadsN, s'.workers w = .waiting := by
    intro hx'
    obtain ⟨hsem, hwait⟩ := hserved.serving.stuck hx' hstuck
    have hpast := pastSemWait_zero hwait
    have henough := hserved.serving.enough
    exact ⟨hsem, hpast, by omega, hwait⟩
  refine ⟨⟨hserved.locked, fun hlt => ?_⟩, fun hx' => ?_⟩
  · by_contra hx'
    rw [Bool.not_eq_true] at hx'
    obtain ⟨hsem, hpast, hjobs, -⟩ := hdrained hx'
    have hkeep := hserved.free hx'
    omega
  · obtain ⟨hsem, hpast, hjobs, hwait⟩ := hdrained hx'
    refine ⟨hjobs, hsem, hserved.threadsN ▸ hwait, fun p hp => ?_⟩
    obtain ⟨l, hwf⟩ := hserved.serving.wf
    have hnil : l = [] := List.eq_nil_of_length_eq_zero (hwf.length.trans hjobs)
    subst hnil
    -- Nobody has a job, so none is in memory
    apply hwf.dead p hp
    cases hjob : s'.heap p with
    | none => rfl
    | some job =>
      obtain hmem | ⟨w, hw⟩ := hwf.live p job hjob
      · exact nomatch hmem
      · by_cases hlt : w < s'.threadsN
        · rw [hwait w hlt] at hw
          exact nomatch hw
        · rw [hserved.serving.outside w (Nat.le_of_not_lt hlt)] at hw
          exact nomatch hw

/-- A sweep deletes the only job: the worker takes its four steps and keeps the mutex. -/
theorem drains_or_locks_swept :
    ∃ s s' : Thpool Nat, (system Nat).run (thpoolInit 1)
      [.addWork 0 7, .sweepRead, .sweepLocked 100 60] = some s ∧
      (system Nat).run s [.test 0, .semWait 0, .retest 0, .dequeue 0] = some s' ∧
      4 ≤ s.workLeft ∧ s'.mutex = true := by
  have hrun : ∃ s s' : Thpool Nat, (system Nat).run (thpoolInit 1)
      [.addWork 0 7, .sweepRead, .sweepLocked 100 60] = some s ∧
      (system Nat).run s [.test 0, .semWait 0, .retest 0, .dequeue 0] = some s' ∧
      s.keepalive = true ∧ s.mutex = false ∧ s.jobN < s.queueSem + s.pastSemWait ∧
      s'.threadsN = 1 ∧ s'.workers 0 = .returnedLocked :=
    ⟨_, _, rfl, rfl, rfl, rfl, by decide, rfl, rfl⟩
  obtain ⟨s, s', hs, hs', hk, hx, hlt, hN, hw⟩ := hrun
  have hmeets : (system Nat).Meets SweepSafe (thpoolInit 1)
      [.addWork 0 7, .sweepRead, .sweepLocked 100 60] := by
    refine .cons rfl trivial (.cons rfl trivial (.cons rfl (Or.inr fun c hm => Or.inl ?_) .nil))
    cases hm
    rfl
  have hstuck : s'.Stuck := by
    intro a ha
    obtain ⟨w, hworker⟩ := Option.isSome_iff_exists.mp ha
    simp only [step, hworker, hN, Nat.lt_one_iff]
    split
    · rfl
    · split
      · rename_i hzero
        rw [hzero, hw]
        cases a <;> rfl
      · rfl
  have hby : ∀ a ∈ [Action.test 0, .semWait 0, .retest 0, .dequeue 0],
      ByWorker (a : Action Nat) := by
    simp [ByWorker, Action.worker]
  obtain ⟨hlen, hend⟩ := drains_or_locks (.run (.init ⟨1, rfl⟩) hmeets hs) hk hx hby hs'
  exact ⟨s, s', hs, hs', hlen, (hend hstuck).1.mpr hlt⟩

end Thpool

end JQServer
