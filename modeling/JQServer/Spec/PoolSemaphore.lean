import JQServer.ForStd.Fin
import JQServer.Spec.PoolInvariant

/-!
# Semaphore accounting of the thread pool

While `thpool_keepalive` is 1, the value of `queueSem` and the workers past
`sem_wait` that have not dequeued add up to `jobN`, so that a worker past
`sem_wait` finds a job. `thpool_job_enqueue` posts once for each job and a worker
waits once for each job, but `delete_timeout_job` deletes jobs and leaves the
semaphore alone: the accounting holds in every run whose sweeps delete nothing
(`semaphore_accounting`), and one deleted job is enough for a worker to return
with the queue mutex locked (`semaphore_accounting_fails`).
-/

namespace JQServer

/-- 1 for a worker past `sem_wait` that has not dequeued. -/
def WorkerPc.past (pc : WorkerPc) : Nat := if pc = .passed ∨ pc = .locking then 1 else 0

namespace Thpool

variable {α : Type} {s s' : Thpool α} {l : List Nat}

/-- Semaphore accounting, and what it is for: a worker past `sem_wait` finds a job,
    and no worker has returned with the queue mutex. -/
structure SemAccounts (s : Thpool α) : Prop where
  balance : s.queueSem + s.pastSemWait = s.jobN
  finds : ∀ w < s.threadsN, s.workers w = .passed ∨ s.workers w = .locking →
    ∃ job s', s.thpoolJobqueuePeek = some job ∧ s.thpoolJobqueueRemovelast = some (0, s')
  unlocked : s.mutex = false ∧ ∀ w, s.workers w ≠ .returnedLocked

/-- What moving one worker does to the number of workers past `sem_wait`. -/
theorem pastSemWait_update {w : Nat} {pc : WorkerPc} (hw : w < s.threadsN)
    (hN : s'.threadsN = s.threadsN) (hwork : s'.workers = Function.update s.workers w pc) :
    s'.pastSemWait + (s.workers w).past = s.pastSemWait + pc.past := by
  simp only [pastSemWait, hN, hwork, WorkerPc.past]
  exact Finset.card_filter_update (Finset.range s.threadsN) s.workers w pc
    (fun pc => pc = .passed ∨ pc = .locking) (Finset.mem_range.mpr hw)

/-- A worker past `sem_wait` is counted. -/
theorem pastSemWait_pos {w : Nat} (hw : w < s.threadsN)
    (hp : s.workers w = .passed ∨ s.workers w = .locking) : 0 < s.pastSemWait :=
  Finset.card_pos.mpr ⟨w, Finset.mem_filter.mpr ⟨Finset.mem_range.mpr hw, hp⟩⟩

/-- The workers past `sem_wait` only depend on the threads. -/
theorem SameThreads.pastSemWait (h : s.SameThreads s') : s'.pastSemWait = s.pastSemWait := by
  simp only [Thpool.pastSemWait, h.threadsN, h.workers]

/-- The invariant behind the accounting. -/
structure SemInv (s : Thpool α) : Prop where
  wf : ∃ l, s.Wf l
  balance : s.keepalive = true → s.queueSem + s.pastSemWait = s.jobN
  unlocked : s.keepalive = true → s.mutex = false ∧ ∀ w, s.workers w ≠ .returnedLocked
  alive : s.keepalive = true → s.main = .serving ∨ ∃ cur, s.main = .sweeping cur

/-- A worker moves to `pc`: the invariant is kept if the semaphore, the worker and
    `jobN` change in step, and the worker does not return with the mutex. -/
private theorem SemInv.move {w : Nat} {pc : WorkerPc} (h : s.SemInv) (hw : w < s.threadsN)
    (hwf : ∃ l, s'.Wf l) (hwork : s'.workers = Function.update s.workers w pc)
    (hN : s'.threadsN = s.threadsN) (hk : s'.keepalive = s.keepalive) (hx : s'.mutex = s.mutex)
    (hm : s'.main = s.main) (hpc : pc ≠ .returnedLocked)
    (hsum : s.keepalive = true →
      s'.queueSem + pc.past + s.jobN = s.queueSem + (s.workers w).past + s'.jobN) :
    s'.SemInv where
  wf := hwf
  balance hk' := by
    have hpast := pastSemWait_update hw hN hwork
    have hbal := h.balance (hk ▸ hk')
    have := hsum (hk ▸ hk')
    omega
  unlocked hk' := by
    obtain ⟨h1, h2⟩ := h.unlocked (hk ▸ hk')
    refine ⟨hx.trans h1, fun v => ?_⟩
    by_cases hv : v = w
    · rw [hwork, hv, Function.update_self]; exact hpc
    · rw [hwork, Function.update_of_ne hv]; exact h2 v
  alive hk' := by rw [hm]; exact h.alive (hk ▸ hk')

/-- Every step keeps the accounting, unless it is a sweep that deletes a job. -/
theorem SemInv.step {a : Action α} (h : s.SemInv) (hidle : s.SweepIdle a)
    (hs : s.step a = some s') : s'.SemInv := by
  have hmove := (step_moves hs).2
  obtain ⟨l, hwf⟩ := h.wf
  have hwf' := hwf.step hidle.safe hmove
  -- `thpool_destroy` runs with `thpool_keepalive` cleared
  have hdead : ¬ (s.main = .serving ∨ ∃ cur, s.main = .sweeping cur) → s.keepalive ≠ true :=
    fun hm hk => hm (h.alive hk)
  cases hmove with
  -- One job and one post
  | addWork hm hx =>
    obtain ⟨t, ht, htwf, hsame, hsem, -⟩ := hwf.addWork _ _
    rw [outcome_some ht] at hwf' ⊢
    refine ⟨hwf', fun hk => ?_, fun hk => ?_, fun _ => .inl (hsame.main.trans hm)⟩
    · have hlen := htwf.length
      rw [List.length_append, hwf.length, List.length_singleton] at hlen
      have := h.balance (hsame.keepalive ▸ hk)
      rw [hsame.pastSemWait]
      omega
    · rw [hsame.workers, hsame.mutex]
      exact h.unlocked (hsame.keepalive ▸ hk)
  | sweepRead hm => exact ⟨hwf', h.balance, h.unlocked, fun _ => .inr ⟨_, rfl⟩⟩
  | sweepLocked hm hx =>
    rw [outcome_some (sweepIdle_result hm hidle)] at hwf' ⊢
    exact ⟨hwf', h.balance, h.unlocked, fun _ => .inl rfl⟩
  | test hw hp =>
    refine h.move hw hwf' rfl rfl rfl rfl rfl (by split <;> rintro ⟨⟩) fun hk => ?_
    simp only [hp, hk, ↓reduceIte]
    rfl
  -- What leaves the semaphore is a worker past `sem_wait`
  | semWait hw hp hq =>
    refine h.move hw hwf' rfl rfl rfl rfl rfl (by rintro ⟨⟩) fun _ => ?_
    simp only [hp, WorkerPc.past, Thpool.setWorker, reduceCtorEq, or_self, or_false, ↓reduceIte]
    omega
  | retest hw hp =>
    refine h.move hw hwf' rfl rfl rfl rfl rfl (by split <;> rintro ⟨⟩) fun hk => ?_
    simp only [hp, hk, ↓reduceIte]
    rfl
  | @dequeue w hw hp hx =>
    cases l with
    | nil =>
      -- A worker is past `sem_wait`, so the queue is not empty while the pool is alive
      have hcontra : s.keepalive ≠ true := by
        intro hk
        have hbal := h.balance hk
        have hpos := pastSemWait_pos hw (.inr hp)
        have hzero : s.jobN = 0 := hwf.length.symm
        omega
      rw [outcome_some (hwf.dequeue_empty w)] at hwf' ⊢
      exact ⟨hwf', fun hk => absurd hk hcontra, fun hk => absurd hk hcontra, h.alive⟩
    | cons c l =>
      -- One job less and one worker less past `sem_wait`
      obtain ⟨t, ht, htwf, hwork, -, hmain, hkeep, hmut, hN, -, hsem, -⟩ :=
        hwf.dequeue (w := w) (by rw [hp]; rfl)
      rw [outcome_some ht] at hwf' ⊢
      refine h.move hw hwf' hwork hN hkeep hmut hmain (by rintro ⟨⟩) fun _ => ?_
      have hlen := htwf.length
      have hlen' := hwf.length
      rw [List.length_cons] at hlen'
      simp only [hp, WorkerPc.past, reduceCtorEq, or_true, or_self, ↓reduceIte]
      omega
  | execute hw hp =>
    obtain ⟨t, ht, -, hwork, -, hmain, hkeep, hmut, hN, -, hsem, hjob, -⟩ := hwf.execute hp
    rw [outcome_some ht] at hwf' ⊢
    refine h.move hw hwf' hwork hN hkeep hmut hmain (by rintro ⟨⟩) fun _ => ?_
    simp only [hp, hsem, hjob, WorkerPc.past, reduceCtorEq, or_self, ↓reduceIte]
  | free hw hp =>
    obtain ⟨t, ht, -, hwork, -, hmain, hkeep, hmut, hN, -, hsem, hjob, -⟩ := hwf.free hp
    rw [outcome_some ht] at hwf' ⊢
    refine h.move hw hwf' hwork hN hkeep hmut hmain (by rintro ⟨⟩) fun _ => ?_
    simp only [hp, hsem, hjob, WorkerPc.past, reduceCtorEq, or_self, ↓reduceIte]
  | destroy hm => exact ⟨hwf', by rintro ⟨⟩, by rintro ⟨⟩, by rintro ⟨⟩⟩
  | post hm hk =>
    have hstop : s.keepalive ≠ true := hdead (by simp [hm])
    exact ⟨hwf', fun hk => absurd hk hstop, h.unlocked, fun hk => absurd hk hstop⟩
  | posted hm hk =>
    have hstop : s.keepalive ≠ true := hdead (by simp [hm])
    exact ⟨hwf', h.balance, h.unlocked, fun hk => absurd hk hstop⟩
  | joined hm hr =>
    have hstop : s.keepalive ≠ true := hdead (by simp [hm])
    exact ⟨hwf', h.balance, h.unlocked, fun hk => absurd hk hstop⟩
  | empty hm =>
    have hstop : s.keepalive ≠ true := hdead (by simp [hm])
    obtain ⟨t, ht, -, hsame, -⟩ := hwf.thpoolJobqueueEmpty
    rw [outcome_some ht] at hwf' ⊢
    have hstop' : t.keepalive ≠ true := hsame.keepalive ▸ hstop
    exact ⟨hwf', fun hk => absurd hk hstop', fun hk => absurd hk hstop',
      fun hk => absurd hk hstop'⟩

/-- The invariant holds in every state of a run whose sweeps delete no job. -/
theorem semInv_of_reach (h : Transition.Reach (system α) SweepIdle s) : s.SemInv := by
  refine h.invariant ?_ fun s a s' _ hinv hidle hs => hinv.step hidle hs
  rintro s ⟨n, rfl⟩
  refine ⟨⟨[], wf_init n⟩, fun _ => ?_, fun _ => ⟨rfl, nofun⟩, fun _ => .inl rfl⟩
  simp [pastSemWait, thpoolInit]

/-- Semaphore accounting, in every state of every run whose sweeps delete no job:
    any number of workers, any interleaving, while `thpool_keepalive` is 1. -/
theorem semaphore_accounting (h : Transition.Reach (system α) SweepIdle s)
    (hk : s.keepalive = true) : s.SemAccounts := by
  have hinv := semInv_of_reach h
  obtain ⟨l, hwf⟩ := hinv.wf
  have hbal := hinv.balance hk
  refine ⟨hbal, fun w hw hp => ?_, hinv.unlocked hk⟩
  have hpos := pastSemWait_pos hw hp
  cases l with
  | nil =>
    have hzero : s.jobN = 0 := hwf.length.symm
    omega
  | cons c l =>
    obtain ⟨t, ht, -⟩ := hwf.queueWf.removelast
    exact ⟨c, t, hwf.queueWf.peek, ht⟩

/-- A pool of 15 workers with one job queued, a worker past `sem_wait`, and a sweep
    that finds the job one second old. -/
theorem semaphore_accounting_young :
    ∃ s : Thpool Nat, (system Nat).run (thpoolInit 15)
      [.addWork 0 7, .test 0, .semWait 0, .sweepRead, .sweepLocked 1 60] = some s ∧
      s.pastSemWait = 1 ∧ s.SemAccounts := by
  have hmeets : (system Nat).Meets SweepIdle (thpoolInit 15)
      [.addWork 0 7, .test 0, .semWait 0, .sweepRead, .sweepLocked 1 60] := by
    refine .cons rfl trivial (.cons rfl trivial (.cons rfl trivial (.cons rfl trivial
      (.cons rfl (Or.inr fun c hm hexp => ?_) .nil))))
    cases hm
    exact absurd (hexp _ rfl) (by decide)
  have hrun : ∃ s : Thpool Nat, (system Nat).run (thpoolInit 15)
      [.addWork 0 7, .test 0, .semWait 0, .sweepRead, .sweepLocked 1 60] = some s ∧
      s.keepalive = true ∧ s.pastSemWait = 1 := ⟨_, rfl, rfl, by decide⟩
  obtain ⟨s, hs, hk, hp⟩ := hrun
  exact ⟨s, hs, hp, semaphore_accounting (.run (.init ⟨15, rfl⟩) hmeets hs) hk⟩

/-- One deleted job: the sweep leaves the semaphore at 1 for an empty queue, and the
    worker it lets through returns from `thpool_thread_do` with the mutex locked. -/
theorem semaphore_accounting_fails :
    ¬ ∀ s : Thpool Nat, Transition.Reachable (system Nat) s → s.keepalive = true →
      s.SemAccounts := by
  intro h
  have hrun : ∃ s : Thpool Nat, (system Nat).run (thpoolInit 15)
      [.addWork 0 7, .sweepRead, .sweepLocked 100 60, .test 0, .semWait 0, .retest 0,
        .dequeue 0] = some s ∧ s.keepalive = true ∧ s.workers 0 = .returnedLocked :=
    ⟨_, rfl, rfl, rfl⟩
  obtain ⟨s, hs, hk, hw⟩ := hrun
  exact (h s (.of_run ⟨15, rfl⟩ hs) hk).unlocked.2 0 hw

/-! ### The sweep -/

/-- The condition of `semaphore_accounting` excludes nothing but failures: a sweep
    outside it leaves a balanced pool out of balance, or touches a freed job. -/
theorem sweep_breaks_balance {now timeOut : Int}
    (hbal : s.queueSem + s.pastSemWait = s.jobN) (hidle : ¬ s.SweepIdle (.sweepLocked now timeOut))
    (hs : s.step (.sweepLocked now timeOut) = some s') :
    s'.fault = true ∨ s'.queueSem + s'.pastSemWait ≠ s'.jobN := by
  simp only [SweepIdle, not_or, not_forall, not_not] at hidle
  obtain ⟨hne, c, hm, hexp⟩ := hidle
  cases (step_moves hs).2 with
  | @sweepLocked _ _ cur hm' hx =>
    obtain rfl : cur = some c := MainPc.sweeping.inj (hm'.symm.trans hm)
    cases hr : s.deleteTimeoutJob (some c) now timeOut with
    -- The loop reads a freed job
    | none => exact .inl rfl
    | some t =>
      right
      -- `jobN` goes down, and neither the semaphore nor a worker follows
      obtain ⟨n, hn⟩ := Nat.exists_eq_succ_of_ne_zero hne
      simp only [deleteTimeoutJob, hn, deleteTimeoutLoop_some, Option.bind_eq_some_iff] at hr
      obtain ⟨job, hjob, hr⟩ := hr
      rw [if_pos (hexp job hjob)] at hr
      obtain ⟨hsem, hN, hw, hle⟩ := deleteTimeoutLoop_frame hr rfl
      have hpast : t.pastSemWait = s.pastSemWait := by
        simp only [pastSemWait, hN, hw]
        rfl
      simp only [release, count] at hsem
      have hgoal : t.queueSem + t.pastSemWait ≠ t.jobN := by omega
      exact hgoal

end Thpool

end JQServer
