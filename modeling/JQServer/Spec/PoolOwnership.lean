import JQServer.Spec.PoolInvariant

/-!
# Ownership of jobs

A job accepted by `thpool_add_work` is consumed at most once: taken by one worker
that runs and then frees it, or freed by `delete_timeout_job`, or freed by
`thpool_jobqueue_empty`. The danger is the tail that `delete_timeout_job` reads
before it locks: a worker can take that very job in between, and the sweep then
deletes a job in use. `disposed_once` holds in every run whose sweeps are safe in
that respect (`SweepSafe`), and `unsafe_sweep_fails` says that any other sweep
consumes a job twice or reads a freed one.
-/

namespace JQServer

/-- What can have happened to a job that is consumed at most once: nothing yet, a
    worker holds it, or it was disposed of and freed. -/
def JobTally.Once (t : JobTally) : Prop :=
  t = {} ∨ t = { taken := 1 } ∨ t = { taken := 1, executed := 1 } ∨ t.Disposed

/-- A job consumed at most once was taken, swept or emptied at most once in all. -/
theorem JobTally.Once.le_one {t : JobTally} (h : t.Once) :
    t.taken + t.swept + t.emptied ≤ 1 := by
  rcases h with rfl | rfl | rfl | rfl | rfl | rfl <;> decide

/-- A job disposed of was freed exactly once. -/
theorem JobTally.Disposed.frees {t : JobTally} (h : t.Disposed) : t.frees = 1 := by
  rcases h with rfl | rfl | rfl <;> rfl

namespace Thpool

variable {α : Type} {s s' : Thpool α} {l : List Nat}

/-- Jobs reachable from `jobqueue->tail` along `prev`. -/
inductive FromTail (s : Thpool α) : Nat → Prop
  | tail {p : Nat} : s.tail = some p → FromTail s p
  | prev {p q : Nat} : FromTail s p → s.link p = some q → FromTail s q

/-- No job is consumed twice. -/
structure DisposedOnce (s : Thpool α) : Prop where
  /-- No step has read a freed job. -/
  noFault : s.fault = false
  /-- Each job has been consumed at most once. -/
  once : ∀ p, (s.tally p).Once
  /-- The worker that took a job has it for itself. -/
  exclusive : ∀ w w' p, (s.workers w).job = some p → (s.workers w').job = some p → w = w'
  /-- A job a worker has is live, and was neither swept nor emptied. -/
  held : ∀ w p, (s.workers w).job = some p →
    (∃ job, s.heap p = some job) ∧ s.tally p = (s.workers w).tally
  /-- A job that was allocated and is no longer live was disposed of. -/
  freed : ∀ p, p < s.allocated → s.heap p = none → (s.tally p).Disposed
  /-- What is reachable from the tail is live and has not been consumed. -/
  reachable : ∀ p, s.FromTail p → (∃ job, s.heap p = some job) ∧ s.tally p = {}

/-- In a well-formed pool, what is reachable from the tail is queued. -/
theorem Wf.fromTail {p : Nat} (h : s.Wf l) (hp : s.FromTail p) : p ∈ l := by
  -- The list of queued records is closed under `prev`
  have hnext : ∀ {start : Option Nat} {l : List Nat}, LinkChain s.link start l →
      ∀ {p q : Nat}, p ∈ l → s.link p = some q → q ∈ l := by
    intro start l hc
    induction l generalizing start with
    | nil => exact fun hp => absurd hp List.not_mem_nil
    | cons a l ih =>
      intro p q hp hq
      rcases List.mem_cons.mp hp with rfl | hp
      · cases l with
        | nil => exact nomatch hc.2.symm.trans hq
        | cons b l =>
          obtain rfl : b = q := Option.some.inj (hc.2.1.symm.trans hq)
          exact List.mem_cons_of_mem _ List.mem_cons_self
      · exact List.mem_cons_of_mem a (ih hc.2 hp hq)
  induction hp with
  | tail ht =>
    rw [h.chain.head?] at ht
    exact List.mem_of_head? ht
  | prev _ hq ih => exact hnext h.chain ih hq

/-- From a well-formed pool no step faults, except an unsafe sweep. -/
theorem Wf.step_noFault {a : Action α} (h : s.Wf l) (hsafe : s.SweepSafe a) (hs : s.Moves a s')
    (hf : s.fault = false) : s'.fault = false := by
  cases hs with
  | addWork hm hx =>
    obtain ⟨t, ht, -, hsame, -⟩ := h.addWork _ _
    rw [outcome_some ht, hsame.fault, hf]
  | sweepLocked hm hx =>
    obtain ⟨t, k, ht, -, hsame, -⟩ := h.sweepSafe hm hsafe
    rw [outcome_some ht]
    exact hsame.fault.trans hf
  | @dequeue w hw hp hx =>
    cases l with
    -- -1 is returned with the mutex locked, which is no fault
    | nil => rw [outcome_some (h.dequeue_empty w)]; exact hf
    | cons c l =>
      obtain ⟨t, ht, -, -, -, -, -, -, -, hft, -⟩ := h.dequeue (w := w) (by rw [hp]; rfl)
      rw [outcome_some ht, hft, hf]
  | execute hw hp =>
    obtain ⟨t, ht, -, -, -, -, -, -, -, hft, -⟩ := h.execute hp
    rw [outcome_some ht, hft, hf]
  | free hw hp =>
    obtain ⟨t, ht, -, -, -, -, -, -, -, hft, -⟩ := h.free hp
    rw [outcome_some ht, hft, hf]
  | empty hm =>
    obtain ⟨t, ht, -, hsame, -⟩ := h.thpoolJobqueueEmpty
    rw [outcome_some ht]
    exact hsame.fault.trans hf
  | _ => exact hf

/-- Well-formedness and no fault, in every state of a run whose sweeps are safe. -/
theorem wf_of_reach (h : Transition.Reach (system α) SweepSafe s) :
    (∃ l, s.Wf l) ∧ s.fault = false := by
  refine h.invariant (I := fun s => (∃ l, s.Wf l) ∧ s.fault = false) ?_ ?_
  · rintro s ⟨n, rfl⟩
    exact ⟨⟨[], wf_init n⟩, rfl⟩
  · rintro s a s' _ ⟨⟨l, hwf⟩, hf⟩ hsafe hs
    have hmove := (step_moves hs).2
    exact ⟨hwf.step hsafe hmove, hwf.step_noFault hsafe hmove hf⟩

/-- A well-formed pool that has not faulted consumes no job twice. -/
theorem Wf.disposedOnce (h : s.Wf l) (hf : s.fault = false) : s.DisposedOnce where
  noFault := hf
  once p := by
    by_cases hlt : p < s.allocated
    · cases hp : s.heap p with
      | none => exact .inr (.inr (.inr (h.dead p hlt hp)))
      | some job =>
        rcases h.live p job hp with hl | ⟨w, hw⟩
        · exact .inl (h.queued p hl).2
        · rw [JobTally.Once, (h.held w p hw).2.2]
          cases hpc : s.workers w <;> simp [hpc, WorkerPc.job, WorkerPc.tally] at hw ⊢
    · exact .inl (h.fresh p (Nat.le_of_not_lt hlt)).2
  exclusive := h.unique
  held w p hw := ⟨(h.held w p hw).1, (h.held w p hw).2.2⟩
  freed := h.dead
  reachable p hp := h.queued p (h.fromTail hp)

/-- No job is consumed twice, in every state of every run whose sweeps are safe:
    any number of workers, any interleaving with the event loop. -/
theorem disposed_once (h : Transition.Reach (system α) SweepSafe s) : s.DisposedOnce := by
  obtain ⟨⟨l, hwf⟩, hf⟩ := wf_of_reach h
  exact hwf.disposedOnce hf

/-- A job is taken and run while another, which has expired, is swept. -/
theorem disposed_once_mixed :
    ∃ s : Thpool Nat, (system Nat).run (thpoolInit 15)
      [.addWork 0 7, .addWork 0 8, .test 0, .semWait 0, .retest 0, .dequeue 0, .sweepRead,
        .execute 0, .sweepLocked 100 60, .free 0] = some s ∧
      s.tally 0 = { taken := 1, executed := 1, frees := 1 } ∧
      s.tally 1 = { swept := 1, frees := 1 } ∧ s.DisposedOnce := by
  have hmeets : (system Nat).Meets SweepSafe (thpoolInit 15)
      [.addWork 0 7, .addWork 0 8, .test 0, .semWait 0, .retest 0, .dequeue 0, .sweepRead,
        .execute 0, .sweepLocked 100 60, .free 0] := by
    refine .cons rfl trivial (.cons rfl trivial (.cons rfl trivial (.cons rfl trivial
      (.cons rfl trivial (.cons rfl trivial (.cons rfl trivial (.cons rfl trivial
      (.cons rfl (Or.inr fun c hm => Or.inl ?_) (.cons rfl trivial .nil)))))))))
    cases hm
    rfl
  have hrun : ∃ s : Thpool Nat, (system Nat).run (thpoolInit 15)
      [.addWork 0 7, .addWork 0 8, .test 0, .semWait 0, .retest 0, .dequeue 0, .sweepRead,
        .execute 0, .sweepLocked 100 60, .free 0] = some s ∧
      s.tally 0 = { taken := 1, executed := 1, frees := 1 } ∧
      s.tally 1 = { swept := 1, frees := 1 } := ⟨_, rfl, by decide, by decide⟩
  obtain ⟨s, hs, h0, h1⟩ := hrun
  exact ⟨s, hs, h0, h1, disposed_once (.run (.init ⟨15, rfl⟩) hmeets hs)⟩

/-- The narrow window: a worker takes the job that `delete_timeout_job` has read as
    the tail, a younger job keeps the queue from being empty, and the sweep frees the
    job the worker is about to run. -/
theorem disposed_once_fails :
    ¬ ∀ s : Thpool Nat, Transition.Reachable (system Nat) s → s.DisposedOnce := by
  intro h
  have hrun : ∃ s : Thpool Nat, (system Nat).run (thpoolInit 15)
      [.addWork 0 7, .addWork 100 8, .sweepRead, .test 0, .semWait 0, .retest 0, .dequeue 0,
        .sweepLocked 100 60] = some s ∧ (s.tally 0).taken = 1 ∧ (s.tally 0).swept = 1 :=
    ⟨_, rfl, by decide, by decide⟩
  obtain ⟨s, hs, ht, hsw⟩ := hrun
  have := ((h s (.of_run ⟨15, rfl⟩ hs)).once 0).le_one
  omega

/-! ### Unsafe sweeps -/

/-- What `delete_timeout_job` has read is still the tail, or was taken since. -/
def TailRead (s : Thpool α) : Prop :=
  ∀ c, s.main = .sweeping (some c) → s.tail = some c ∨ (s.tally c).taken = 1

/-- A worker that goes on with the record `p` it took leaves the tail. -/
private theorem TailRead.held {p : Nat} {t : JobTally} (h : s.TailRead) (hmain : s'.main = s.main)
    (htail : s'.tail = s.tail) (htally : s'.tally = Function.update s.tally p t)
    (htaken : t.taken = 1) : s'.TailRead := by
  intro c hc
  rw [htail, htally]
  refine (h c (hmain ▸ hc)).imp_right fun hone => ?_
  by_cases hcp : c = p
  · rw [hcp, Function.update_self, htaken]
  · rw [Function.update_of_ne hcp, hone]

/-- While the main thread is in `delete_timeout_job`, only a worker moves the tail,
    and it takes the job the tail was. -/
theorem TailRead.step {a : Action α} (h : s.TailRead) (hwf : s.Wf l) (hs : s.Moves a s') :
    s'.TailRead := by
  cases hs with
  | addWork hm hx =>
    obtain ⟨t, ht, -, hsame, -⟩ := hwf.addWork _ _
    rw [outcome_some ht]
    intro c hc
    exact nomatch hc.symm.trans (hsame.main.trans hm)
  | sweepRead hm => exact fun c hc => .inl (MainPc.sweeping.inj hc)
  | @dequeue w hw hp hx =>
    cases l with
    | nil => rw [outcome_some (hwf.dequeue_empty w)]; exact h
    | cons d l =>
      obtain ⟨t, ht, -, -, htd, hmain, -, -, -, -, -, hother⟩ :=
        hwf.dequeue (w := w) (by rw [hp]; rfl)
      rw [outcome_some ht]
      intro c hc
      right
      rcases h c (hmain ▸ hc) with htail | htaken
      · -- `c` is still the tail: it is the record that `dequeue` takes
        obtain rfl : d = c := Option.some.inj (hwf.chain.1.symm.trans htail)
        rw [htd]
      · have hcd : c ≠ d := by
          rintro rfl
          rw [(hwf.queued c List.mem_cons_self).2] at htaken
          exact nomatch htaken
        rw [hother c hcd, htaken]
  | @execute w p hw hp =>
    obtain ⟨t, ht, -, -, htally, hmain, -, -, -, -, -, -, htail⟩ := hwf.execute hp
    rw [outcome_some ht]
    exact h.held hmain htail htally rfl
  | @free w p hw hp =>
    obtain ⟨t, ht, -, -, htally, hmain, -, -, -, -, -, -, htail⟩ := hwf.free hp
    rw [outcome_some ht]
    exact h.held hmain htail htally rfl
  | test | semWait | retest => exact h
  | _ => exact nofun

/-- The loop of `delete_timeout_job` never takes back a record. -/
private theorem deleteTimeoutLoop_tally {now timeOut : Int} {n : Nat} {cur : Option Nat}
    (h : deleteTimeoutLoop now timeOut n cur s = some s') (p : Nat) :
    (s.tally p).taken ≤ (s'.tally p).taken ∧ (s.tally p).swept ≤ (s'.tally p).swept := by
  induction n generalizing s cur with
  | zero =>
    rw [deleteTimeoutLoop_zero] at h
    rw [Option.some.inj h]; exact ⟨Nat.le_refl _, Nat.le_refl _⟩
  | succ n ih =>
    cases cur with
    | none =>
      rw [deleteTimeoutLoop_none] at h
      rw [Option.some.inj h]; exact ⟨Nat.le_refl _, Nat.le_refl _⟩
    | some c =>
      simp only [deleteTimeoutLoop_some, Option.bind_eq_some_iff] at h
      obtain ⟨job, -, h⟩ := h
      split at h
      · have hle := ih h
        by_cases hpc : p = c
        · subst hpc
          simp only [release, count, Function.update_self] at hle
          omega
        · simpa only [release, count, Function.update_of_ne hpc] using hle
      · rw [Option.some.inj h]; exact ⟨Nat.le_refl _, Nat.le_refl _⟩

/-- The condition of `disposed_once` excludes nothing but failures: after safe
    sweeps, an unsafe one consumes a job twice or reads a freed job. -/
theorem unsafe_sweep_fails {now timeOut : Int} (h : Transition.Reach (system α) SweepSafe s)
    (hnotSafe : ¬ s.SweepSafe (.sweepLocked now timeOut))
    (hs : s.step (.sweepLocked now timeOut) = some s') : ¬ s'.DisposedOnce := by
  have hread : s.TailRead := by
    refine h.invariant (I := TailRead) ?_ fun s a s' hr hinv _ hs => ?_
    · rintro s ⟨n, rfl⟩ c hc
      exact nomatch hc
    · obtain ⟨⟨l, hwf⟩, -⟩ := wf_of_reach hr
      exact hinv.step hwf (step_moves hs).2
  -- Unsafe: a worker has taken the job read before the lock, and it is freed or expired
  simp only [SweepSafe, not_or, not_forall, not_not] at hnotSafe
  obtain ⟨hne, c, hm, htail, hexp⟩ := hnotSafe
  obtain ⟨n, hn⟩ := Nat.exists_eq_succ_of_ne_zero hne
  intro hd
  cases (step_moves hs).2 with
  | @sweepLocked _ _ cur hm' hx =>
    obtain rfl : cur = some c := MainPc.sweeping.inj (hm'.symm.trans hm)
    cases hr : s.deleteTimeoutJob (some c) now timeOut with
    -- The loop reads a freed job
    | none => exact nomatch (hr ▸ hd).noFault
    | some t =>
      cases hjob : s.heap c with
      | none =>
        simp only [deleteTimeoutJob, hn, deleteTimeoutLoop_some, hjob, Option.bind_none,
          reduceCtorEq] at hr
      | some job =>
        -- Taken by the worker and swept now: twice
        have htaken := (hread c hm).resolve_left htail
        have honce := (hr ▸ hd).once c
        simp only [deleteTimeoutJob, hn, deleteTimeoutLoop_some, hjob, Option.bind_some,
          hexp job hjob, ↓reduceIte] at hr
        have hle := deleteTimeoutLoop_tally hr c
        simp only [release, count, Function.update_self] at hle
        have := honce.le_one
        simp only [outcome, Option.getD_some] at this
        omega

end Thpool

end JQServer
