import JQServer.Spec.JobQueue

/-!
# Thread pool invariants

`Wf s l` says that `l` is the job queue, as `QueueWf` does, and accounts for every job
ever allocated: a live job is queued or held by exactly one worker, and a job that is
no longer live was disposed of in exactly one way.

Each operation has one lemma that says what it does to a well-formed pool;
`step_moves` says once what a step can be, and `step_wf` derives preservation of
`Wf` from these.
-/

namespace JQServer

namespace WorkerPc

/-- The job a worker holds. -/
def job : WorkerPc → Option Nat
  | .running p | .finished p => some p
  | _ => none

/-- What has happened to a job held by a worker at this point. -/
def tally : WorkerPc → JobTally
  | .running _ => { taken := 1 }
  | .finished _ => { taken := 1, executed := 1 }
  | _ => {}

end WorkerPc

/-- A job that was freed after exactly one disposal: a worker took, ran and freed
    it, or the sweep freed it, or `thpool_jobqueue_empty` did. -/
def JobTally.Disposed (t : JobTally) : Prop :=
  t = { taken := 1, executed := 1, frees := 1 } ∨ t = { swept := 1, frees := 1 } ∨
    t = { emptied := 1, frees := 1 }

namespace Thpool

variable {α : Type} {s s' : Thpool α} {l : List Nat}

/-- The pool is well formed with job queue `l`, oldest job first. -/
structure Wf (s : Thpool α) (l : List Nat) : Prop where
  chain : LinkChain s.link s.tail l
  length : l.length = s.jobN
  nodup : l.Nodup
  head : s.jobN ≠ 0 → s.head = l.getLast?
  queued : ∀ p ∈ l, (∃ job, s.heap p = some job) ∧ s.tally p = {}
  held : ∀ w p, (s.workers w).job = some p →
    (∃ job, s.heap p = some job) ∧ p ∉ l ∧ s.tally p = (s.workers w).tally
  unique : ∀ w w' p, (s.workers w).job = some p → (s.workers w').job = some p → w = w'
  live : ∀ p job, s.heap p = some job → p ∈ l ∨ ∃ w, (s.workers w).job = some p
  dead : ∀ p < s.allocated, s.heap p = none → (s.tally p).Disposed
  fresh : ∀ p, s.allocated ≤ p → s.heap p = none ∧ s.tally p = {}

/-- The initial pool is well formed with an empty queue. -/
theorem wf_init (n : Int) : (thpoolInit n : Thpool α).Wf [] where
  chain := rfl
  length := rfl
  nodup := List.nodup_nil
  head h := absurd rfl h
  queued _ hp := absurd hp List.not_mem_nil
  held _ _ h := nomatch h
  unique _ _ _ h := nomatch h
  live _ _ h := nomatch h
  dead p hp := absurd hp (Nat.not_lt_zero p)
  fresh _ _ := ⟨rfl, rfl⟩

/-- The linked queue of a well-formed pool. -/
theorem Wf.queueWf (h : s.Wf l) : s.QueueWf l where
  chain := h.chain
  length := h.length
  nodup := h.nodup
  head := h.head
  live p hp := (h.queued p hp).1
  fresh p hp := (h.fresh p hp).1

/-- `Wf` only looks at the queue, the heap, the tallies and the jobs of workers. -/
theorem Wf.congr (h : s.Wf l) (hheap : s'.heap = s.heap) (halloc : s'.allocated = s.allocated)
    (hhead : s'.head = s.head) (htail : s'.tail = s.tail) (hjob : s'.jobN = s.jobN)
    (htally : s'.tally = s.tally)
    (hw : ∀ w, (s'.workers w).job = (s.workers w).job ∧
      (s'.workers w).tally = (s.workers w).tally) : s'.Wf l where
  chain := by
    have : s'.link = s.link := by funext p; simp only [link, hheap]
    rw [this, htail]; exact h.chain
  length := by rw [hjob]; exact h.length
  nodup := h.nodup
  head hn := by rw [hhead]; exact h.head (hjob ▸ hn)
  queued p hp := by rw [hheap, htally]; exact h.queued p hp
  held w p hp := by
    rw [hheap, htally, (hw w).2]
    exact h.held w p ((hw w).1 ▸ hp)
  unique w w' p hp hp' := h.unique w w' p ((hw w).1 ▸ hp) ((hw w').1 ▸ hp')
  live p job hp := by
    simp only [hw]
    exact h.live p job (hheap ▸ hp)
  dead p hlt hp := by rw [htally]; exact h.dead p (halloc ▸ hlt) (hheap ▸ hp)
  fresh p hp := by rw [hheap, htally]; exact h.fresh p (halloc ▸ hp)

/-! ### Workers that move without touching a job -/

/-- Moving a worker that holds no job to a place where it holds none. -/
theorem Wf.setWorker {w : Nat} {pc : WorkerPc} (h : s.Wf l) (hold : (s.workers w).job = none)
    (hnew : pc.job = none) (ht : pc.tally = (s.workers w).tally) : (s.setWorker w pc).Wf l := by
  refine h.congr rfl rfl rfl rfl rfl rfl fun v => ?_
  by_cases hv : v = w
  · subst hv
    simp only [Thpool.setWorker, Function.update_self]
    exact ⟨hnew.trans hold.symm, ht⟩
  · simp only [Thpool.setWorker, Function.update_of_ne hv, and_self]

/-! ### `thpool_add_work` -/

/-- After an enqueue the new job is live, and every other address is as live as it was.
    This is all that the fields of `Wf` other than the queue need. -/
theorem Wf.addWork (h : s.Wf l) (now : Int) (arg : α) :
    ∃ s', s.thpoolAddWork now arg = some s' ∧ s'.Wf (l ++ [s.allocated]) ∧
      s.SameThreads s' ∧ s'.queueSem = s.queueSem + 1 ∧ s'.tally = s.tally := by
  obtain ⟨s', hs', hq, halloc, hentry, hsame_entry, hsame, hsem, htally⟩ :=
    h.queueWf.addWork now arg
  have hfresh := h.fresh s.allocated (Nat.le_refl _)
  have hnew : ∃ job, s'.heap s.allocated = some job := by
    rw [exists_job_iff, hentry, Option.isSome_some]
  -- Only the new record and the links of the old ones change
  have hold : ∀ p, p ≠ s.allocated →
      ((∃ job, s'.heap p = some job) ↔ ∃ job, s.heap p = some job) := by
    intro p hp
    rw [exists_job_iff, exists_job_iff, hsame_entry p hp]
  have hne : ∀ p, (∃ job, s.heap p = some job) → p ≠ s.allocated := by
    rintro p ⟨job, hp⟩ rfl
    cases hfresh.1.symm.trans hp
  refine ⟨s', hs', ?_, hsame, hsem, htally⟩
  exact {
    chain := hq.chain
    length := hq.length
    nodup := hq.nodup
    head := hq.head
    queued := by
      intro p hp
      refine ⟨hq.live p hp, ?_⟩
      rw [htally]
      -- The new job has no history yet
      rcases List.mem_append.mp hp with hp | hp
      · exact (h.queued p hp).2
      · rw [List.mem_singleton.mp hp, hfresh.2]
    held := by
      intro w p hp
      rw [hsame.workers] at hp
      rw [hsame.workers, htally]
      -- A worker holds an old job, and `malloc` returned a new address
      obtain ⟨hlive, hnot, ht⟩ := h.held w p hp
      refine ⟨(hold p (hne p hlive)).mpr hlive, ?_, ht⟩
      simp only [List.mem_append, List.mem_singleton, not_or]
      exact ⟨hnot, hne p hlive⟩
    unique := by rw [hsame.workers]; exact h.unique
    live := by
      intro p job hp
      rw [hsame.workers]
      by_cases hpn : p = s.allocated
      · exact .inl (List.mem_append_right _ (List.mem_singleton.mpr hpn))
      · obtain ⟨job', hj⟩ := (hold p hpn).mp ⟨job, hp⟩
        exact (h.live p job' hj).imp_left (List.mem_append_left _)
    dead := by
      intro p hlt hp
      rw [htally]
      -- The new job is live, so a dead one was there before
      have hpn : p ≠ s.allocated := by
        rintro rfl
        obtain ⟨job, hj⟩ := hnew
        cases hj.symm.trans hp
      refine h.dead p (by omega) ?_
      rw [heap_eq_none_iff, ← hsame_entry p hpn, ← heap_eq_none_iff]
      exact hp
    fresh := by
      intro p hp
      rw [htally]
      exact ⟨hq.fresh p hp, (h.fresh p (by omega)).2⟩ }

/-! ### Removing the oldest job -/

/-- A queued job is held by no worker. -/
theorem Wf.not_held {p : Nat} (h : s.Wf l) (hp : p ∈ l) (w : Nat) :
    (s.workers w).job ≠ some p :=
  fun hw => (h.held w p hw).2.1 hp

/-- Freeing the oldest job and moving `tail` to its `prev`, as the sweep and
    `thpool_jobqueue_empty` do; `f` records which of the two it was. -/
theorem Wf.removeTail {c : Nat} {job : ThpoolJob α} {f : JobTally → JobTally}
    (h : s.Wf (c :: l)) (hjob : s.heap c = some job)
    (hf : JobTally.Disposed { f {} with frees := (f {}).frees + 1 }) :
    Wf { (s.count c f).release c with tail := job.prev, jobN := l.length } l := by
  have hcl : c ∉ l := (List.nodup_cons.mp h.nodup).1
  have htc : s.tally c = {} := (h.queued c List.mem_cons_self).2
  have hne : ∀ p ∈ l, p ≠ c := fun p hp => ne_of_mem_of_not_mem hp hcl
  -- The tail is in the queue, so no worker holds it
  have hheld : ∀ w p, (s.workers w).job = some p → p ≠ c := by
    rintro w p hw rfl
    exact h.not_held List.mem_cons_self w hw
  have htally : ∀ p, p ≠ c →
      ({ (s.count c f).release c with tail := job.prev, jobN := l.length } : Thpool α).tally p =
        s.tally p := by
    intro p hp
    simp only [release, count, Function.update_of_ne hp]
  have hq := h.queueWf.removeTail (f := f) hjob
  exact {
    chain := hq.chain
    length := hq.length
    nodup := hq.nodup
    head := hq.head
    queued := by
      intro p hp
      rw [htally p (hne p hp)]
      simp only [release, count, Function.update_of_ne (hne p hp)]
      exact h.queued p (List.mem_cons_of_mem c hp)
    held := by
      intro w p hw
      have hpc := hheld w p hw
      rw [htally p hpc]
      simp only [release, count, Function.update_of_ne hpc]
      obtain ⟨hlive, hnot, ht⟩ := h.held w p hw
      exact ⟨hlive, fun hp => hnot (List.mem_cons_of_mem c hp), ht⟩
    unique := h.unique
    live := by
      intro p job' hp
      -- Only the removed job stops being live
      by_cases hpc : p = c
      · simp only [release, hpc, Function.update_self, reduceCtorEq] at hp
      · simp only [release, count, Function.update_of_ne hpc] at hp
        exact (h.live p job' hp).imp_left fun hm => (List.mem_cons.mp hm).resolve_left hpc
    dead := by
      intro p hlt hp
      by_cases hpc : p = c
      · simp only [release, count, hpc, Function.update_self, htc]
        exact hf
      · rw [htally p hpc]
        simp only [release, count, Function.update_of_ne hpc] at hp
        exact h.dead p hlt hp
    fresh := by
      intro p hp
      have hpc : p ≠ c := by
        rintro rfl
        exact absurd (hjob.symm.trans (h.fresh p hp).1) (by simp)
      rw [htally p hpc]
      simp only [release, count, Function.update_of_ne hpc]
      exact h.fresh p hp }

/-- The loop of `delete_timeout_job`, started at the tail, drops the expired jobs
    at the old end of the queue and stops at the first one that is not expired. -/
theorem Wf.deleteTimeoutLoop (h : s.Wf l) (now timeOut : Int) :
    ∃ s' k, Thpool.deleteTimeoutLoop now timeOut s.jobN s.tail s = some s' ∧
      s'.Wf (l.drop k) ∧ s.SameThreads s' ∧ s'.queueSem = s.queueSem := by
  -- By induction on the jobs left to look at; `f` of `removeTail` counts a sweep
  obtain ⟨n, hn⟩ : ∃ n, s.jobN = n := ⟨_, rfl⟩
  induction n generalizing s l with
  | zero =>
    rw [hn]
    exact ⟨s, 0, rfl, h, ⟨rfl, rfl, rfl, rfl, rfl, rfl⟩, rfl⟩
  | succ n ih =>
    cases l with
    | nil => exact absurd (h.length.trans hn) (Nat.succ_ne_zero n).symm
    | cons c l =>
      have hlen : l.length = n := by simpa [hn] using h.length
      obtain ⟨job, hjob⟩ := (h.queued c List.mem_cons_self).1
      rw [hn, h.chain.1]
      simp only [Thpool.deleteTimeoutLoop_some, hjob, Option.bind_some]
      split
      · -- Expired: freed, and the loop goes on with its `prev`
        have h' := h.removeTail (f := fun t => { t with swept := t.swept + 1 }) hjob
          (.inr (.inl rfl))
        rw [hlen] at h'
        obtain ⟨s', k, hs', hwf, hsame, hsem⟩ := ih h' rfl
        exact ⟨s', k + 1, hs', hwf, ⟨hsame.1, hsame.2, hsame.3, hsame.4, hsame.5, hsame.6⟩,
          hsem⟩
      -- Not expired: the loop stops
      · exact ⟨s, 0, rfl, h, ⟨rfl, rfl, rfl, rfl, rfl, rfl⟩, rfl⟩

/-- The loop of `thpool_jobqueue_empty` frees the whole queue. -/
theorem Wf.thpoolJobqueueEmptyLoop (h : s.Wf l) :
    ∃ s', Thpool.thpoolJobqueueEmptyLoop s.jobN s.tail s = some s' ∧ s'.Wf [] ∧
      s.SameThreads s' ∧ s'.queueSem = s.queueSem := by
  -- By induction on the queue, from the tail on
  induction l generalizing s with
  | nil =>
    have hn : s.jobN = 0 := h.length.symm
    rw [hn]
    exact ⟨s, rfl, h, ⟨rfl, rfl, rfl, rfl, rfl, rfl⟩, rfl⟩
  | cons c l ih =>
    obtain ⟨job, hjob⟩ := (h.queued c List.mem_cons_self).1
    rw [← h.length, h.chain.1]
    simp only [List.length_cons, Thpool.thpoolJobqueueEmptyLoop, hjob, Option.bind_eq_bind,
      Option.bind_some]
    have h' := h.removeTail (f := fun t => { t with emptied := t.emptied + 1 }) hjob
      (.inr (.inr rfl))
    obtain ⟨s', hs', hwf, hsame, hsem⟩ := ih h'
    exact ⟨s', hs', hwf, ⟨hsame.1, hsame.2, hsame.3, hsame.4, hsame.5, hsame.6⟩, hsem⟩

/-- `thpool_jobqueue_empty` leaves an empty queue. -/
theorem Wf.thpoolJobqueueEmpty (h : s.Wf l) :
    ∃ s', s.thpoolJobqueueEmpty = some s' ∧ s'.Wf [] ∧ s.SameThreads s' ∧
      s'.queueSem = s.queueSem := by
  obtain ⟨s', hs', hwf, hsame, hsem⟩ := h.thpoolJobqueueEmptyLoop
  refine ⟨{ s' with head := none, tail := none },
    by simp only [Thpool.thpoolJobqueueEmpty, hs', Option.map_some], ?_,
    ⟨hsame.1, hsame.2, hsame.3, hsame.4, hsame.5, hsame.6⟩, hsem⟩
  exact { hwf with
    chain := rfl
    head := fun hn => absurd hwf.length.symm hn }

/-- The jobs that workers have after one of them has moved. -/
theorem job_update {v w p : Nat} {pc : WorkerPc} :
    (Function.update s.workers w pc v).job = some p ↔
      v = w ∧ pc.job = some p ∨ v ≠ w ∧ (s.workers v).job = some p := by
  by_cases hvw : v = w
  · simp only [hvw, Function.update_self, true_and, ne_eq, not_true_eq_false, false_and, or_false]
  · simp only [hvw, Function.update_of_ne hvw, false_and, ne_eq, not_false_eq_true, true_and,
      false_or]

/-! ### The critical section of a worker -/

/-- The critical section on an empty queue: the worker returns, the mutex locked. -/
theorem Wf.dequeue_empty (h : s.Wf []) (w : Nat) :
    s.threadDequeue w = some { s.setWorker w .returnedLocked with mutex := true } := by
  simp only [threadDequeue, removelast_empty h.length.symm]
  rfl

/-- The critical section on a non-empty queue: the worker takes the oldest job. -/
theorem Wf.dequeue {c : Nat} (h : s.Wf (c :: l)) {w : Nat} (hw : (s.workers w).job = none) :
    ∃ s', s.threadDequeue w = some s' ∧ s'.Wf l ∧
      s'.workers = Function.update s.workers w (.running c) ∧
      s'.tally c = { taken := 1 } ∧ s'.main = s.main ∧ s'.keepalive = s.keepalive ∧
      s'.mutex = s.mutex ∧ s'.threadsN = s.threadsN ∧ s'.fault = s.fault ∧
      s'.queueSem = s.queueSem ∧ (∀ p, p ≠ c → s'.tally p = s.tally p) := by
  obtain ⟨s', hs', hq, hentry, htally, halloc, hsem, hsame⟩ := h.queueWf.removelast
  have hcl : c ∉ l := (List.nodup_cons.mp h.nodup).1
  obtain ⟨hlive, htc⟩ := h.queued c List.mem_cons_self
  have hheap : ∀ p, s'.heap p = none ↔ s.heap p = none := by
    intro p
    rw [heap_eq_none_iff, hentry, heap_eq_none_iff]
  have hlive' : ∀ p, (∃ job, s.heap p = some job) → ∃ job, s'.heap p = some job := by
    intro p hp
    rwa [exists_job_iff, hentry, ← exists_job_iff]
  -- The other workers have their jobs still
  have hother : ∀ v p, (s.workers v).job = some p → p ≠ c := by
    rintro v p hp rfl
    exact h.not_held List.mem_cons_self v hp
  -- Worker `w` holds the oldest job, and the others what they held
  have hjob : ∀ v p, (Function.update s'.workers w (.running c) v).job = some p →
      v = w ∧ p = c ∨ v ≠ w ∧ (s.workers v).job = some p := by
    intro v p hv
    rw [hsame.workers] at hv
    exact (job_update.mp hv).imp_left fun hv => ⟨hv.1, (Option.some.inj hv.2).symm⟩
  refine ⟨(s'.count c fun t => { t with taken := t.taken + 1 }).setWorker w (.running c), ?_,
    ?_, ?_, ?_, hsame.main, hsame.keepalive, hsame.mutex, hsame.threadsN, hsame.fault, hsem,
    fun p hp => ?_⟩
  · simp only [threadDequeue, hs', h.queueWf.peek, ne_eq, not_true_eq_false, ↓reduceIte,
      Option.bind_eq_bind, Option.bind_some]
  · exact {
      chain := hq.chain
      length := hq.length
      nodup := hq.nodup
      head := hq.head
      queued := by
        intro p hp
        obtain ⟨hp1, hp2⟩ := h.queued p (List.mem_cons_of_mem c hp)
        refine ⟨hlive' p hp1, ?_⟩
        simp only [Thpool.setWorker, count, Function.update_of_ne (ne_of_mem_of_not_mem hp hcl),
          htally]
        exact hp2
      held := by
        intro v p hjv
        rcases hjob v p hjv with ⟨rfl, rfl⟩ | ⟨hvw, hv⟩
        · refine ⟨hlive' p hlive, hcl, ?_⟩
          simp only [Thpool.setWorker, count, Function.update_self, htally, htc, WorkerPc.tally]
        · obtain ⟨h1, h2, h3⟩ := h.held v p hv
          refine ⟨hlive' p h1, fun hp => h2 (List.mem_cons_of_mem c hp), ?_⟩
          simp only [Thpool.setWorker, count, Function.update_of_ne hvw,
            Function.update_of_ne (hother v p hv), htally, hsame.workers]
          exact h3
      unique := by
        intro v v' p hjv hjv'
        -- Two workers with one job: both are `w`, or neither is
        rcases hjob v p hjv with ⟨rfl, rfl⟩ | ⟨-, hv⟩
        · rcases hjob v' p hjv' with ⟨rfl, -⟩ | ⟨-, hv'⟩
          · rfl
          · exact absurd rfl (hother v' p hv')
        · rcases hjob v' p hjv' with ⟨-, rfl⟩ | ⟨-, hv'⟩
          · exact absurd rfl (hother v p hv)
          · exact h.unique v v' p hv hv'
      live := by
        intro p job hp
        simp only [Thpool.setWorker, count] at hp ⊢
        have hp' : ∃ job, s.heap p = some job := by
          cases hs : s.heap p with
          | none => exact absurd (hp.symm.trans ((hheap p).mpr hs)) (by simp)
          | some job' => exact ⟨job', rfl⟩
        obtain ⟨job', hp'⟩ := hp'
        -- A queued job stays queued, but the oldest one, which `w` holds now
        rcases h.live p job' hp' with hm | ⟨v, hv⟩
        · rcases List.mem_cons.mp hm with rfl | hm
          · exact .inr ⟨w, by simp only [Function.update_self, WorkerPc.job]⟩
          · exact .inl hm
        · have hvw : v ≠ w := by
            rintro rfl
            exact absurd (hw.symm.trans hv) (by simp)
          exact .inr ⟨v, by rw [Function.update_of_ne hvw, hsame.workers]; exact hv⟩
      dead := by
        intro p hlt hp
        have hp' := (hheap p).mp hp
        have hpc : p ≠ c := by
          rintro rfl
          obtain ⟨job, hj⟩ := hlive
          exact absurd (hj.symm.trans hp') (by simp)
        simp only [Thpool.setWorker, count, Function.update_of_ne hpc, htally]
        exact h.dead p (halloc ▸ hlt) hp'
      fresh := by
        intro p hp
        obtain ⟨h1, h2⟩ := h.fresh p (halloc ▸ hp)
        have hpc : p ≠ c := by
          rintro rfl
          obtain ⟨job, hj⟩ := hlive
          exact absurd (hj.symm.trans h1) (by simp)
        refine ⟨(hheap p).mpr h1, ?_⟩
        simp only [Thpool.setWorker, count, Function.update_of_ne hpc, htally]
        exact h2 }
  · simp only [Thpool.setWorker, count, hsame.workers]
  · simp only [Thpool.setWorker, count, Function.update_self, htally, htc]
  · simp only [Thpool.setWorker, count, Function.update_of_ne hp, htally]

/-! ### Running and freeing a job -/

/-- The job of a worker runs: it is live, and only the worker and the tally move. -/
theorem Wf.execute {w p : Nat} (h : s.Wf l) (hw : s.workers w = .running p) :
    ∃ s', s.threadExecute w p = some s' ∧ s'.Wf l ∧
      s'.workers = Function.update s.workers w (.finished p) ∧
      s'.tally = Function.update s.tally p { taken := 1, executed := 1 } ∧
      s'.main = s.main ∧ s'.keepalive = s.keepalive ∧ s'.mutex = s.mutex ∧
      s'.threadsN = s.threadsN ∧ s'.fault = s.fault ∧ s'.queueSem = s.queueSem ∧
      s'.jobN = s.jobN ∧ s'.tail = s.tail := by
  obtain ⟨⟨job, hjob⟩, hpl, ht⟩ := h.held w p (by rw [hw]; rfl)
  rw [hw, WorkerPc.tally] at ht
  -- No other worker holds the record
  have hother : ∀ v q, v ≠ w → (s.workers v).job = some q → q ≠ p := by
    rintro v q hv hq rfl
    exact hv (h.unique v w q hq (by rw [hw]; rfl))
  refine ⟨(s.count p fun t => { t with executed := t.executed + 1 }).setWorker w (.finished p),
    by simp only [threadExecute, hjob, Option.bind_eq_bind, Option.bind_some], ?_, rfl,
    by simp only [Thpool.setWorker, count, ht], rfl, rfl, rfl, rfl, rfl, rfl, rfl, rfl⟩
  exact {
    chain := h.chain
    length := h.length
    nodup := h.nodup
    head := h.head
    queued := by
      intro q hq
      simp only [Thpool.setWorker, count, Function.update_of_ne (ne_of_mem_of_not_mem hq hpl)]
      exact h.queued q hq
    held := by
      intro v q hjv
      rcases job_update.mp hjv with ⟨rfl, hv⟩ | ⟨hvw, hv⟩
      · obtain rfl := Option.some.inj hv
        simp only [Thpool.setWorker, count, Function.update_self, WorkerPc.tally, ht, and_true]
        exact ⟨⟨job, hjob⟩, hpl⟩
      · simp only [Thpool.setWorker, count, Function.update_of_ne hvw,
          Function.update_of_ne (hother v q hvw hv)]
        exact h.held v q hv
    unique := by
      -- Every worker holds the job that it held
      have hjobs : ∀ v, (Function.update s.workers w (.finished p) v).job = (s.workers v).job := by
        intro v
        by_cases hvw : v = w
        · simp only [hvw, Function.update_self, hw, WorkerPc.job]
        · rw [Function.update_of_ne hvw]
      intro v v' q hv hv'
      exact h.unique v v' q (hjobs v ▸ hv) (hjobs v' ▸ hv')
    live := by
      intro q job' hq
      refine (h.live q job' hq).imp_right ?_
      rintro ⟨v, hv⟩
      refine ⟨v, ?_⟩
      by_cases hvw : v = w
      · subst hvw
        simp only [hw, WorkerPc.job, Option.some.injEq] at hv
        simp only [Thpool.setWorker, Function.update_self, WorkerPc.job, hv]
      · simp only [Thpool.setWorker, count, Function.update_of_ne hvw]
        exact hv
    dead := by
      intro q hlt hq
      have hqp : q ≠ p := by
        rintro rfl
        exact absurd (hjob.symm.trans hq) (by simp)
      simp only [Thpool.setWorker, count, Function.update_of_ne hqp]
      exact h.dead q hlt hq
    fresh := by
      intro q hq
      have hqp : q ≠ p := by
        rintro rfl
        exact absurd (hjob.symm.trans (h.fresh q hq).1) (by simp)
      simp only [Thpool.setWorker, count, Function.update_of_ne hqp]
      exact h.fresh q hq }

/-- A worker frees the job it has run: the job was live and is disposed of now. -/
theorem Wf.free {w p : Nat} (h : s.Wf l) (hw : s.workers w = .finished p) :
    ∃ s', s.threadFree w p = some s' ∧ s'.Wf l ∧
      s'.workers = Function.update s.workers w .loop ∧
      s'.tally = Function.update s.tally p { taken := 1, executed := 1, frees := 1 } ∧
      s'.main = s.main ∧ s'.keepalive = s.keepalive ∧ s'.mutex = s.mutex ∧
      s'.threadsN = s.threadsN ∧ s'.fault = s.fault ∧ s'.queueSem = s.queueSem ∧
      s'.jobN = s.jobN ∧ s'.tail = s.tail := by
  obtain ⟨⟨job, hjob⟩, hpl, ht⟩ := h.held w p (by rw [hw]; rfl)
  rw [hw, WorkerPc.tally] at ht
  -- The worker holds nothing any more, and no other one held the record
  have hother : ∀ v q, (Function.update s.workers w .loop v).job = some q →
      (s.workers v).job = some q ∧ v ≠ w ∧ q ≠ p := by
    intro v q hq
    rcases job_update.mp hq with ⟨-, hq⟩ | ⟨hvw, hq⟩
    · cases hq
    · refine ⟨hq, hvw, ?_⟩
      rintro rfl
      exact hvw (h.unique v w q hq (by rw [hw]; rfl))
  refine ⟨(s.release p).setWorker w .loop,
    by simp only [threadFree, hjob, Option.bind_eq_bind, Option.bind_some], ?_, rfl,
    by simp only [Thpool.setWorker, release, count, ht], rfl, rfl, rfl, rfl, rfl, rfl, rfl, rfl⟩
  exact {
    chain := by
      refine LinkChain.congr (f := s.link) h.chain fun a ha => ?_
      simp only [link, Thpool.setWorker, release, count,
        Function.update_of_ne (ne_of_mem_of_not_mem ha hpl)]
    length := h.length
    nodup := h.nodup
    head := h.head
    queued := by
      intro q hq
      simp only [Thpool.setWorker, release, count,
        Function.update_of_ne (ne_of_mem_of_not_mem hq hpl)]
      exact h.queued q hq
    held := by
      intro v q hv
      obtain ⟨hv, hvw, hqp⟩ := hother v q hv
      simp only [Thpool.setWorker, release, count, Function.update_of_ne hvw,
        Function.update_of_ne hqp]
      exact h.held v q hv
    unique := fun v v' q hv hv' => h.unique v v' q (hother v q hv).1 (hother v' q hv').1
    live := by
      intro q job' hq
      by_cases hqp : q = p
      · simp only [Thpool.setWorker, release, hqp, Function.update_self, reduceCtorEq] at hq
      · simp only [Thpool.setWorker, release, count, Function.update_of_ne hqp] at hq
        refine (h.live q job' hq).imp_right ?_
        rintro ⟨v, hv⟩
        refine ⟨v, ?_⟩
        have hvw : v ≠ w := by
          rintro rfl
          simp only [hw, WorkerPc.job, Option.some.injEq] at hv
          exact hqp hv.symm
        simp only [Thpool.setWorker, release, count, Function.update_of_ne hvw]
        exact hv
    dead := by
      intro q hlt hq
      -- The freed job was taken, run and freed once
      by_cases hqp : q = p
      · simp only [Thpool.setWorker, release, count, hqp, Function.update_self, ht]
        exact .inl rfl
      · simp only [Thpool.setWorker, release, count, Function.update_of_ne hqp] at hq ⊢
        exact h.dead q hlt hq
    fresh := by
      intro q hq
      have hqp : q ≠ p := by
        rintro rfl
        exact absurd (hjob.symm.trans (h.fresh q hq).1) (by simp)
      simp only [Thpool.setWorker, release, count, Function.update_of_ne hqp]
      exact h.fresh q hq }

/-! ### What a step can be -/

/-- The outcomes of a step, one constructor for each. -/
inductive Moves (s : Thpool α) : Action α → Thpool α → Prop
  | addWork {now : Int} {arg : α} (hm : s.main = .serving) (hx : s.mutex = false) :
      Moves s (.addWork now arg) (s.outcome (s.thpoolAddWork now arg))
  | sweepRead (hm : s.main = .serving) : Moves s .sweepRead { s with main := .sweeping s.tail }
  | sweepLocked {now timeOut : Int} {cur : Option Nat} (hm : s.main = .sweeping cur)
      (hx : s.mutex = false) : Moves s (.sweepLocked now timeOut)
        { s.outcome (s.deleteTimeoutJob cur now timeOut) with main := .serving }
  | test {w : Nat} (hw : w < s.threadsN) (hp : s.workers w = .loop) :
      Moves s (.test w) (s.setWorker w (if s.keepalive then .waiting else .returned))
  | semWait {w : Nat} (hw : w < s.threadsN) (hp : s.workers w = .waiting) (hs : 0 < s.queueSem) :
      Moves s (.semWait w) { s.setWorker w .passed with queueSem := s.queueSem - 1 }
  | retest {w : Nat} (hw : w < s.threadsN) (hp : s.workers w = .passed) :
      Moves s (.retest w) (s.setWorker w (if s.keepalive then .locking else .returned))
  | dequeue {w : Nat} (hw : w < s.threadsN) (hp : s.workers w = .locking) (hx : s.mutex = false) :
      Moves s (.dequeue w) (s.outcome (s.threadDequeue w))
  | execute {w p : Nat} (hw : w < s.threadsN) (hp : s.workers w = .running p) :
      Moves s (.execute w) (s.outcome (s.threadExecute w p))
  | free {w p : Nat} (hw : w < s.threadsN) (hp : s.workers w = .finished p) :
      Moves s (.free w) (s.outcome (s.threadFree w p))
  | destroy (hm : s.main = .serving) :
      Moves s .destroy { s with keepalive := false, main := .posting 0 }
  | post {k : Nat} (hm : s.main = .posting k) (hk : k < s.threadsN + 1) :
      Moves s .post { s with queueSem := s.queueSem + 1, main := .posting (k + 1) }
  | posted {k : Nat} (hm : s.main = .posting k) (hk : k = s.threadsN + 1) :
      Moves s .join { s with main := .joining }
  | joined (hm : s.main = .joining) (hr : s.allReturned = true) :
      Moves s .join { s with main := .emptying }
  | empty (hm : s.main = .emptying) :
      Moves s .empty { s.outcome s.thpoolJobqueueEmpty with main := .destroyed }

/-- The steps of a worker. -/
private theorem workerStep_moves {a : Action α} {w : Nat} (ha : a.worker = some w)
    (hw : w < s.threadsN) (h : s.workerStep w a (s.workers w) = some s') : s.Moves a s' := by
  -- A worker has one step at most at each place
  cases hp : s.workers w <;> cases a <;>
    simp only [workerStep, hp, reduceCtorEq, Action.worker, Option.some.injEq] at h ha <;>
    subst ha
  case loop.test => exact h ▸ .test hw hp
  case waiting.semWait =>
    split at h
    · exact Option.some.inj h ▸ .semWait hw hp (by assumption)
    · exact nomatch h
  case passed.retest => exact h ▸ .retest hw hp
  case locking.dequeue =>
    split at h
    · exact nomatch h
    · rename_i hx
      exact Option.some.inj h ▸ .dequeue hw hp (by simpa using hx)
  case running.execute => exact h ▸ .execute hw hp
  case finished.free => exact h ▸ .free hw hp

/-- The steps of the main thread. -/
private theorem mainStep_moves {a : Action α} (h : s.mainStep a s.main = some s') :
    s.Moves a s' := by
  -- The main thread may choose between three calls while it serves
  cases hm : s.main <;> cases a <;>
    simp only [mainStep, hm, reduceCtorEq, Option.some.injEq] at h
  case serving.addWork =>
    split at h
    · exact nomatch h
    · rename_i hx
      exact Option.some.inj h ▸ .addWork hm (by simpa using hx)
  case serving.sweepRead => exact h ▸ .sweepRead hm
  case serving.destroy => exact h ▸ .destroy hm
  case sweeping.sweepLocked =>
    split at h
    · exact nomatch h
    · rename_i hx
      exact Option.some.inj h ▸ .sweepLocked hm (by simpa using hx)
  case posting.post =>
    split at h
    · exact Option.some.inj h ▸ .post hm (by assumption)
    · exact nomatch h
  case posting.join =>
    split at h
    · exact Option.some.inj h ▸ .posted hm (by assumption)
    · exact nomatch h
  case joining.join =>
    split at h
    · exact Option.some.inj h ▸ .joined hm (by assumption)
    · exact nomatch h
  case emptying.empty => exact h ▸ .empty hm

/-- Every step is one of these moves, taken before any fault. -/
theorem step_moves {a : Action α} (h : s.step a = some s') : s.fault = false ∧ s.Moves a s' := by
  simp only [step] at h
  split at h
  · exact nomatch h
  · rename_i hf
    refine ⟨by simpa using hf, ?_⟩
    split at h
    · rename_i w ha
      split at h
      · exact workerStep_moves ha (by assumption) h
      · exact nomatch h
    · exact mainStep_moves h

/-! ### Sweeps -/

/-- The job `delete_timeout_job` read before the lock, expired or freed by now. -/
def Expired (s : Thpool α) (curjob : Nat) (now timeOut : Int) : Prop :=
  ∀ job, s.heap curjob = some job → now - job.jobCreateTime > timeOut

/-- The critical section of `delete_timeout_job` can touch no job that a worker
    has: the queue is empty, or `tail` is still what was read before the lock, or
    the job read is still allocated and not expired. -/
def SweepSafe (s : Thpool α) : Action α → Prop
  | .sweepLocked now timeOut => s.jobN = 0 ∨
      ∀ c, s.main = .sweeping (some c) → s.tail = some c ∨ ¬ s.Expired c now timeOut
  | _ => True

/-- The critical section of `delete_timeout_job` deletes no job: the queue is
    empty, or no job was read before the lock, or the job read is still allocated
    and not expired. -/
def SweepIdle (s : Thpool α) : Action α → Prop
  | .sweepLocked now timeOut => s.jobN = 0 ∨
      ∀ c, s.main = .sweeping (some c) → ¬ s.Expired c now timeOut
  | _ => True

/-- A sweep that deletes no job touches no job that a worker has. -/
theorem SweepIdle.safe {a : Action α} (h : s.SweepIdle a) : s.SweepSafe a := by
  cases a with
  | sweepLocked now timeOut => exact h.imp_right fun hc c hm => .inr (hc c hm)
  | _ => trivial

/-- An operation that faults leaves the pool as it was, but for the fault. -/
theorem outcome_none {r : Option (Thpool α)} (h : r = none) :
    s.outcome r = { s with fault := true } := by rw [h]; rfl

/-- An operation that succeeds gives its result. -/
theorem outcome_some {r : Option (Thpool α)} (h : r = some s') : s.outcome r = s' := by
  rw [h]; rfl

/-- A safe critical section of `delete_timeout_job` drops jobs at the old end. -/
theorem Wf.sweepSafe (h : s.Wf l) {cur : Option Nat} {now timeOut : Int}
    (hm : s.main = .sweeping cur) (hsafe : s.SweepSafe (.sweepLocked now timeOut)) :
    ∃ s' k, s.deleteTimeoutJob cur now timeOut = some s' ∧ s'.Wf (l.drop k) ∧
      s.SameThreads s' ∧ s'.queueSem = s.queueSem := by
  have hsame : ∃ s' k, some s = some s' ∧ s'.Wf (l.drop k) ∧ s.SameThreads s' ∧
      s'.queueSem = s.queueSem := ⟨s, 0, rfl, h, ⟨rfl, rfl, rfl, rfl, rfl, rfl⟩, rfl⟩
  simp only [deleteTimeoutJob]
  cases hn : s.jobN with
  | zero => exact hsame
  | succ n =>
    cases cur with
    | none => exact hsame
    | some c =>
      rcases hsafe with h0 | hc
      · exact absurd (hn.symm.trans h0) (Nat.succ_ne_zero n)
      -- The walk starts at the tail, or it stops at the first job
      rcases hc c hm with htail | hlive
      · rw [← hn, ← htail]
        exact h.deleteTimeoutLoop now timeOut
      · simp only [Expired, not_forall] at hlive
        obtain ⟨job, hjob, hexp⟩ := hlive
        simp only [Thpool.deleteTimeoutLoop_some, hjob, Option.bind_some, hexp, ↓reduceIte]
        exact hsame

/-- An idle critical section of `delete_timeout_job` changes nothing. -/
theorem sweepIdle_result {cur : Option Nat} {now timeOut : Int} (hm : s.main = .sweeping cur)
    (hidle : s.SweepIdle (.sweepLocked now timeOut)) :
    s.deleteTimeoutJob cur now timeOut = some s := by
  simp only [deleteTimeoutJob]
  cases hn : s.jobN with
  | zero => rfl
  | succ n =>
    cases cur with
    | none => rfl
    | some c =>
      rcases hidle with h0 | hc
      · exact absurd (hn.symm.trans h0) (Nat.succ_ne_zero n)
      -- the first job of the walk is there and young, so the loop stops at it
      have hlive := hc c hm
      simp only [Expired, not_forall] at hlive
      obtain ⟨job, hjob, hexp⟩ := hlive
      simp only [Thpool.deleteTimeoutLoop_some, hjob, Option.bind_some, hexp, ↓reduceIte]

/-- The loop of `delete_timeout_job` leaves the semaphore and the workers alone and
    can only lower `jobN`. -/
theorem deleteTimeoutLoop_frame {now timeOut : Int} {n : Nat} {cur : Option Nat}
    (h : deleteTimeoutLoop now timeOut n cur s = some s') (hn : s.jobN = n) :
    s'.queueSem = s.queueSem ∧ s'.threadsN = s.threadsN ∧ s'.workers = s.workers ∧
      s'.jobN ≤ n := by
  -- By induction on the jobs left to look at
  induction n generalizing s cur with
  | zero =>
    obtain rfl := Option.some.inj h
    exact ⟨rfl, rfl, rfl, Nat.le_of_eq hn⟩
  | succ n ih =>
    cases cur with
    | none =>
      obtain rfl := Option.some.inj h
      exact ⟨rfl, rfl, rfl, Nat.le_of_eq hn⟩
    | some c =>
      simp only [deleteTimeoutLoop_some, Option.bind_eq_some_iff] at h
      obtain ⟨job, -, h⟩ := h
      split at h
      · obtain ⟨hsem, hN, hw, hle⟩ := ih h rfl
        exact ⟨hsem, hN, hw, Nat.le_succ_of_le hle⟩
      · obtain rfl := Option.some.inj h
        exact ⟨rfl, rfl, rfl, Nat.le_of_eq hn⟩

/-- A critical section of `delete_timeout_job` only lowers `jobN`, and leaves it alone
    when it is idle. -/
theorem sweepLocked_jobN {now timeOut : Int} (h : s.step (.sweepLocked now timeOut) = some s') :
    s'.jobN ≤ s.jobN ∧ (s.SweepIdle (.sweepLocked now timeOut) → s'.jobN = s.jobN) := by
  cases (step_moves h).2 with
  | @sweepLocked _ _ cur hm hx =>
    constructor
    · cases hr : s.deleteTimeoutJob cur now timeOut with
      | none => exact Nat.le_refl _
      | some t => exact (deleteTimeoutLoop_frame hr rfl).2.2.2
    · intro hidle
      rw [sweepIdle_result hm hidle]
      rfl

/-- Every step preserves well-formedness, except a sweep that is not safe. -/
theorem Wf.step {a : Action α} (h : s.Wf l) (hsafe : s.SweepSafe a)
    (hs : s.Moves a s') : ∃ l', s'.Wf l' := by
  -- Where the main thread is does not matter
  have hmain : ∀ t : Thpool α, (∃ l', t.Wf l') →
      ∀ m, ∃ l', ({ t with main := m } : Thpool α).Wf l' :=
    fun t ⟨l', ht⟩ m => ⟨l', ht.congr rfl rfl rfl rfl rfl rfl fun _ => ⟨rfl, rfl⟩⟩
  cases hs with
  | addWork hm hx =>
    obtain ⟨t, ht, hwf, -⟩ := h.addWork _ _
    exact ⟨_, outcome_some ht ▸ hwf⟩
  | sweepRead hm => exact hmain s ⟨l, h⟩ _
  | sweepLocked hm hx =>
    obtain ⟨t, k, ht, hwf, -⟩ := h.sweepSafe hm hsafe
    exact hmain _ ⟨_, outcome_some ht ▸ hwf⟩ _
  | test hw hp =>
    refine ⟨l, h.setWorker (by rw [hp]; rfl) ?_ ?_⟩
    · split <;> rfl
    · rw [hp]; split <;> rfl
  | @semWait w hw hp hq =>
    have hpassed : (s.setWorker w .passed).Wf l :=
      h.setWorker (by rw [hp]; rfl) rfl (by rw [hp]; rfl)
    exact ⟨l, hpassed.congr rfl rfl rfl rfl rfl rfl fun _ => ⟨rfl, rfl⟩⟩
  | retest hw hp =>
    refine ⟨l, h.setWorker (by rw [hp]; rfl) ?_ ?_⟩
    · split <;> rfl
    · rw [hp]; split <;> rfl
  | @dequeue w hw hp hx =>
    cases l with
    | nil =>
      -- -1: the worker returns and keeps the mutex
      have hreturned : (s.setWorker w .returnedLocked).Wf [] :=
        h.setWorker (by rw [hp]; rfl) rfl (by rw [hp]; rfl)
      rw [outcome_some (h.dequeue_empty _)]
      exact ⟨[], hreturned.congr rfl rfl rfl rfl rfl rfl fun _ => ⟨rfl, rfl⟩⟩
    | cons c l =>
      obtain ⟨t, ht, hwf, -⟩ := h.dequeue (by rw [hp]; rfl)
      exact ⟨l, outcome_some ht ▸ hwf⟩
  | execute hw hp =>
    obtain ⟨t, ht, hwf, -⟩ := h.execute hp
    exact ⟨l, outcome_some ht ▸ hwf⟩
  | free hw hp =>
    obtain ⟨t, ht, hwf, -⟩ := h.free hp
    exact ⟨l, outcome_some ht ▸ hwf⟩
  | destroy hm => exact ⟨l, h.congr rfl rfl rfl rfl rfl rfl fun _ => ⟨rfl, rfl⟩⟩
  | post hm hk => exact ⟨l, h.congr rfl rfl rfl rfl rfl rfl fun _ => ⟨rfl, rfl⟩⟩
  | posted hm hk => exact hmain s ⟨l, h⟩ _
  | joined hm hr => exact hmain s ⟨l, h⟩ _
  | empty hm =>
    obtain ⟨t, ht, hwf, -⟩ := h.thpoolJobqueueEmpty
    exact hmain _ ⟨[], outcome_some ht ▸ hwf⟩ _

/-! ### Allocation -/

/-- `thpool_add_work` allocates one job and moves no worker, unless it runs into a fault. -/
theorem addWork_cases {now : Int} {arg : α} (h : s.step (.addWork now arg) = some s') :
    s' = { s with fault := true } ∨
      s'.allocated = s.allocated + 1 ∧ s'.workers = s.workers := by
  cases (step_moves h).2 with
  | addWork hm hx =>
    cases hr : s.thpoolAddWork now arg with
    | none => exact .inl rfl
    | some t =>
      refine .inr (show t.allocated = _ ∧ t.workers = _ from ?_)
      simp only [thpoolAddWork, thpoolJobEnqueue] at hr
      split at hr
      · rw [← Option.some.inj hr]
        exact ⟨rfl, rfl⟩
      · simp only [Option.bind_eq_bind, Option.bind_eq_some_iff] at hr
        obtain ⟨_, -, _, -, hr⟩ := hr
        rw [← Option.some.inj hr]
        exact ⟨rfl, rfl⟩

/-- `thpool_add_work` allocates one job, unless it runs into a fault. -/
theorem addWork_allocated {now : Int} {arg : α} (h : s.step (.addWork now arg) = some s') :
    s'.allocated = s.allocated + 1 ∨ s'.fault = true := by
  rcases addWork_cases h with rfl | ⟨hall, -⟩
  · exact .inr rfl
  · exact .inl hall

/-- `thpool_jobqueue_removelast` allocates nothing and moves no worker. -/
private theorem removelast_frame {r : Int} (h : s.thpoolJobqueueRemovelast = some (r, s')) :
    s'.allocated = s.allocated ∧ s'.workers = s.workers := by
  simp only [thpoolJobqueueRemovelast] at h
  split at h
  · rw [← (Prod.mk.inj (Option.some.inj h)).2]
    exact ⟨rfl, rfl⟩
  · rw [← (Prod.mk.inj (Option.some.inj h)).2]
    exact ⟨rfl, rfl⟩
  · simp only [Option.bind_eq_bind, Option.bind_eq_some_iff] at h
    obtain ⟨_, -, _, -, _, -, _, -, h⟩ := h
    rw [← (Prod.mk.inj (Option.some.inj h)).2]
    exact ⟨rfl, rfl⟩

/-- The critical section of a worker allocates nothing and moves no other worker. -/
private theorem threadDequeue_frame {w : Nat} (h : s.threadDequeue w = some s') :
    s'.allocated = s.allocated ∧ ∃ pc, s'.workers = Function.update s.workers w pc := by
  simp only [threadDequeue] at h
  split at h
  · exact nomatch h
  · rename_i r t ht
    obtain ⟨hall, hw⟩ := removelast_frame ht
    rw [← hall, ← hw]
    split at h
    · rw [← Option.some.inj h]
      exact ⟨rfl, _, rfl⟩
    · simp only [Option.bind_eq_bind, Option.bind_eq_some_iff] at h
      obtain ⟨p, -, h⟩ := h
      rw [← Option.some.inj h]
      exact ⟨rfl, _, rfl⟩

/-- A worker allocates no job. -/
theorem worker_allocated {a : Action α} (ha : a.worker.isSome = true)
    (h : s.step a = some s') : s'.allocated = s.allocated := by
  -- A fault allocates nothing either
  have hout : ∀ r : Option (Thpool α), (∀ t, r = some t → t.allocated = s.allocated) →
      (s.outcome r).allocated = s.allocated := by
    intro r hr
    cases r with
    | none => rfl
    | some t => exact hr t rfl
  cases (step_moves h).2 with
  | test | semWait | retest => rfl
  | dequeue hw hpc hx => exact hout _ fun t ht => (threadDequeue_frame ht).1
  | execute hw hpc =>
    refine hout _ fun t ht => ?_
    simp only [threadExecute, Option.bind_eq_bind, Option.bind_eq_some_iff] at ht
    obtain ⟨_, -, ht⟩ := ht
    rw [← Option.some.inj ht]; rfl
  | free hw hpc =>
    refine hout _ fun t ht => ?_
    simp only [threadFree, Option.bind_eq_bind, Option.bind_eq_some_iff] at ht
    obtain ⟨_, -, ht⟩ := ht
    rw [← Option.some.inj ht]; rfl
  | _ => exact nomatch ha

private theorem deleteTimeoutLoop_allocated {now timeOut : Int} {n : Nat} {cur : Option Nat}
    (h : deleteTimeoutLoop now timeOut n cur s = some s') : s'.allocated = s.allocated := by
  induction n generalizing s cur with
  | zero => rw [← Option.some.inj h]
  | succ n ih =>
    cases cur with
    | none => rw [← Option.some.inj h]
    | some c =>
      simp only [deleteTimeoutLoop_some, Option.bind_eq_some_iff] at h
      obtain ⟨job, -, h⟩ := h
      split at h
      · have hall := ih h
        exact hall
      · rw [← Option.some.inj h]

/-- `delete_timeout_job` allocates nothing. -/
theorem sweepLocked_allocated {now timeOut : Int}
    (h : s.step (.sweepLocked now timeOut) = some s') : s'.allocated = s.allocated := by
  cases (step_moves h).2 with
  | @sweepLocked _ _ cur hm hx =>
    cases hr : s.deleteTimeoutJob cur now timeOut with
    | none => rfl
    | some t =>
      have hall : t.allocated = s.allocated := deleteTimeoutLoop_allocated hr
      exact hall

/-! ### Arguments of jobs -/

/-- Every live job was live before, with the same argument. -/
def ArgsFrom (s s' : Thpool α) : Prop :=
  ∀ p job', s'.heap p = some job' → ∃ job, s.heap p = some job ∧ job.arg = job'.arg

private theorem ArgsFrom.of_heap_eq (h : s'.heap = s.heap) : s.ArgsFrom s' :=
  fun _ job' hp => ⟨job', h ▸ hp, rfl⟩

private theorem ArgsFrom.trans {s'' : Thpool α} (h : s.ArgsFrom s') (h' : s'.ArgsFrom s'') :
    s.ArgsFrom s'' := by
  intro p job'' hp
  obtain ⟨job', hp', heq⟩ := h' p job'' hp
  obtain ⟨job, hjob, heq'⟩ := h p job' hp'
  exact ⟨job, hjob, heq'.trans heq⟩

/-- Overwriting a live job with one of the same argument. -/
private theorem ArgsFrom.update {p : Nat} {job job' : ThpoolJob α} (hp : s.heap p = some job)
    (harg : job'.arg = job.arg) (h : s'.heap = Function.update s.heap p (some job')) :
    s.ArgsFrom s' := by
  intro q job'' hq
  rw [h] at hq
  by_cases hqp : q = p
  · rw [hqp, Function.update_self] at hq
    exact ⟨job, hqp ▸ hp, harg.symm.trans (congrArg _ (Option.some.inj hq))⟩
  · rw [Function.update_of_ne hqp] at hq
    exact ⟨job'', hq, rfl⟩

private theorem ArgsFrom.release {p : Nat} (h : s'.heap = Function.update s.heap p none) :
    s.ArgsFrom s' := by
  intro q job hq
  rw [h] at hq
  by_cases hqp : q = p
  · rw [hqp, Function.update_self] at hq
    exact nomatch hq
  · rw [Function.update_of_ne hqp] at hq
    exact ⟨job, hq, rfl⟩

private theorem deleteTimeoutLoop_argsFrom {now timeOut : Int} {n : Nat} {cur : Option Nat}
    (h : deleteTimeoutLoop now timeOut n cur s = some s') : s.ArgsFrom s' := by
  induction n generalizing s cur with
  | zero =>
    rw [deleteTimeoutLoop_zero] at h
    exact .of_heap_eq (by rw [Option.some.inj h])
  | succ n ih =>
    cases cur with
    | none =>
      rw [deleteTimeoutLoop_none] at h
      exact .of_heap_eq (by rw [Option.some.inj h])
    | some c =>
      simp only [deleteTimeoutLoop_some, Option.bind_eq_some_iff] at h
      obtain ⟨job, -, h⟩ := h
      split at h
      · exact .trans (.release rfl) (ih h)
      · exact .of_heap_eq (by rw [Option.some.inj h])

private theorem thpoolJobqueueEmptyLoop_argsFrom {n : Nat} {cur : Option Nat}
    (h : thpoolJobqueueEmptyLoop n cur s = some s') : s.ArgsFrom s' := by
  induction n generalizing s cur with
  | zero => exact .of_heap_eq (by rw [Option.some.inj h])
  | succ n ih =>
    cases cur with
    | none => exact nomatch h
    | some c =>
      simp only [thpoolJobqueueEmptyLoop, Option.bind_eq_bind, Option.bind_eq_some_iff] at h
      obtain ⟨job, -, h⟩ := h
      exact .trans (.release rfl) (ih h)

private theorem removelast_argsFrom {r : Int} (h : s.thpoolJobqueueRemovelast = some (r, s')) :
    s.ArgsFrom s' := by
  simp only [thpoolJobqueueRemovelast] at h
  split at h
  · exact .of_heap_eq (by rw [← (Prod.mk.inj (Option.some.inj h)).2])
  · exact .of_heap_eq (by rw [← (Prod.mk.inj (Option.some.inj h)).2])
  · simp only [Option.bind_eq_bind, Option.bind_eq_some_iff] at h
    obtain ⟨_, -, _, -, q, -, prevJob, hq, h⟩ := h
    have heq := (Prod.mk.inj (Option.some.inj h)).2
    exact .update hq (by rfl) (congrArg Thpool.heap heq.symm)

private theorem threadDequeue_argsFrom {w : Nat} (h : s.threadDequeue w = some s') :
    s.ArgsFrom s' := by
  simp only [threadDequeue] at h
  split at h
  · exact nomatch h
  · rename_i r t ht
    refine .trans (removelast_argsFrom ht) ?_
    split at h
    · exact .of_heap_eq (by rw [← Option.some.inj h]; rfl)
    · simp only [Option.bind_eq_bind, Option.bind_eq_some_iff] at h
      obtain ⟨p, -, h⟩ := h
      exact .of_heap_eq (by rw [← Option.some.inj h]; rfl)

/-- `thpool_add_work` brings in one argument, the new job's. -/
private theorem thpoolAddWork_args {now : Int} {arg : α} (h : s.thpoolAddWork now arg = some s')
    (p : Nat) (job' : ThpoolJob α) (hp : s'.heap p = some job') :
    (∃ job, s.heap p = some job ∧ job.arg = job'.arg) ∨ p = s.allocated ∧ job'.arg = arg := by
  by_cases hpn : p = s.allocated
  -- The new record
  · right
    subst hpn
    refine ⟨rfl, ?_⟩
    simp only [thpoolAddWork, thpoolJobEnqueue] at h
    split at h
    · rw [← Option.some.inj h] at hp
      simp only [Function.update_self, Option.some.injEq] at hp
      rw [← hp]
    · simp only [Option.bind_eq_bind, Option.bind_eq_some_iff] at h
      obtain ⟨_, -, _, -, h⟩ := h
      rw [← Option.some.inj h] at hp
      simp only [Function.update_self, Option.some.injEq] at hp
      rw [← hp]
  -- Of the old records only the link of the first one changes
  · left
    simp only [thpoolAddWork, thpoolJobEnqueue] at h
    split at h
    · rw [← Option.some.inj h] at hp
      simp only [Function.update_of_ne hpn] at hp
      exact ⟨job', hp, rfl⟩
    · simp only [Option.bind_eq_bind, Option.bind_eq_some_iff] at h
      obtain ⟨f, -, first, hf, h⟩ := h
      rw [← Option.some.inj h] at hp
      simp only [Function.update_of_ne hpn] at hp
      by_cases hpf : p = f
      · rw [hpf, Function.update_self] at hp
        exact ⟨first, hpf ▸ hf, by rw [← Option.some.inj hp]⟩
      · rw [Function.update_of_ne hpf] at hp
        exact ⟨job', hp, rfl⟩

/-- Every live job was live before the step, with the same argument, except for the one
    that `thpool_add_work` adds. -/
theorem step_args {a : Action α} (h : s.step a = some s') (p : Nat) (job' : ThpoolJob α)
    (hp : s'.heap p = some job') :
    (∃ job, s.heap p = some job ∧ job.arg = job'.arg) ∨
      p = s.allocated ∧ ∃ now, a = .addWork now job'.arg := by
  -- A fault leaves the memory alone
  have hout : ∀ r : Option (Thpool α), (∀ t, r = some t → s.ArgsFrom t) →
      s.ArgsFrom (s.outcome r) := by
    intro r hr
    cases r with
    | none => exact .of_heap_eq rfl
    | some t => exact hr t rfl
  cases (step_moves h).2 with
  | @addWork now arg hm hx =>
    cases hr : s.thpoolAddWork now arg with
    | none =>
      rw [outcome_none hr] at hp
      exact .inl ⟨job', hp, rfl⟩
    | some t =>
      rw [outcome_some hr] at hp
      exact (thpoolAddWork_args hr p job' hp).imp_right fun ⟨hnew, heq⟩ =>
        ⟨hnew, now, by rw [heq]⟩
  | sweepLocked hm hx =>
    exact .inl (hout _ (fun t ht => deleteTimeoutLoop_argsFrom ht) p job' hp)
  | dequeue hw hpc hx => exact .inl (hout _ (fun t ht => threadDequeue_argsFrom ht) p job' hp)
  | @execute w q hw hpc =>
    refine .inl (hout _ (fun t ht => ?_) p job' hp)
    simp only [threadExecute, Option.bind_eq_bind, Option.bind_eq_some_iff] at ht
    obtain ⟨_, -, ht⟩ := ht
    exact .of_heap_eq (by rw [← Option.some.inj ht]; rfl)
  | @free w q hw hpc =>
    refine .inl (hout _ (fun t ht => ?_) p job' hp)
    simp only [threadFree, Option.bind_eq_bind, Option.bind_eq_some_iff] at ht
    obtain ⟨_, -, ht⟩ := ht
    exact .release (p := q) (by rw [← Option.some.inj ht]; rfl)
  | empty hm =>
    refine .inl (hout _ (fun t ht => ?_) p job' hp)
    simp only [thpoolJobqueueEmpty, Option.map_eq_some_iff] at ht
    obtain ⟨u, hu, rfl⟩ := ht
    exact .trans (thpoolJobqueueEmptyLoop_argsFrom hu) (.of_heap_eq rfl)
  | _ => exact .inl ⟨job', hp, rfl⟩

/-- A worker that runs a job goes on with it until its own next step. -/
theorem running_step {a : Action α} {v p : Nat} (h : s.step a = some s')
    (hv : s.workers v = .running p) (ha : a ≠ .execute v) (hempty : a ≠ .empty) :
    s'.workers v = .running p := by
  -- The other workers are at another place
  have hset : ∀ {w : Nat} {pc : WorkerPc}, v ≠ w →
      Function.update s.workers w pc v = .running p :=
    fun hne => (Function.update_of_ne hne ..).trans hv
  have hne : ∀ {w : Nat} {pc : WorkerPc}, s.workers w = pc → pc ≠ .running p → v ≠ w := by
    rintro w pc hw hpc rfl
    exact hpc (hw.symm.trans hv)
  have hout : ∀ r : Option (Thpool α), (∀ t, r = some t → t.workers v = .running p) →
      (s.outcome r).workers v = .running p := by
    intro r hr
    cases r with
    | none => exact hv
    | some t => exact hr t rfl
  cases (step_moves h).2 with
  | addWork =>
    rcases addWork_cases h with heq | ⟨-, hw⟩
    · rw [heq]
      exact hv
    · rw [hw]
      exact hv
  | sweepLocked =>
    refine hout _ fun t ht => ?_
    rw [(deleteTimeoutLoop_frame ht rfl).2.2.1]
    exact hv
  | test _ hw => exact hset (hne hw nofun)
  | semWait _ hw => exact hset (hne hw nofun)
  | retest _ hw => exact hset (hne hw nofun)
  | dequeue _ hw =>
    refine hout _ fun t ht => ?_
    obtain ⟨-, pc, hupdate⟩ := threadDequeue_frame ht
    rw [hupdate]
    exact hset (hne hw nofun)
  | @execute w q _ hw =>
    refine hout _ fun t ht => ?_
    simp only [threadExecute, Option.bind_eq_bind, Option.bind_eq_some_iff] at ht
    obtain ⟨_, -, ht⟩ := ht
    rw [← Option.some.inj ht]
    exact hset (by rintro rfl; exact ha rfl)
  | free _ hw =>
    refine hout _ fun t ht => ?_
    simp only [threadFree, Option.bind_eq_bind, Option.bind_eq_some_iff] at ht
    obtain ⟨_, -, ht⟩ := ht
    rw [← Option.some.inj ht]
    exact hset (hne hw nofun)
  | empty => exact absurd rfl hempty
  | sweepRead | destroy | post | posted | joined => exact hv

/-- Every live job has the address of a `malloc` that was made. -/
theorem live_lt_step {a : Action α} (h : s.step a = some s') (hempty : a ≠ .empty)
    (hlt : ∀ p job, s.heap p = some job → p < s.allocated) (p : Nat) (job' : ThpoolJob α)
    (hp : s'.heap p = some job') : p < s'.allocated := by
  by_cases hadd : ∃ now arg, a = .addWork now arg
  · obtain ⟨now, arg, rfl⟩ := hadd
    rcases addWork_cases h with rfl | ⟨hall, -⟩
    · exact hlt p job' hp
    · -- The new job has the last address
      rw [hall]
      rcases step_args h p job' hp with ⟨job, hjob, -⟩ | ⟨rfl, -⟩
      · exact Nat.lt_succ_of_lt (hlt p job hjob)
      · exact Nat.lt_succ_self _
  -- No other step allocates
  · have hall : s'.allocated = s.allocated := by
      cases a with
      | addWork now arg => exact absurd ⟨now, arg, rfl⟩ hadd
      | sweepLocked => exact sweepLocked_allocated h
      | test | semWait | retest | dequeue | execute | free => exact worker_allocated rfl h
      | empty => exact absurd rfl hempty
      | sweepRead | destroy | post | join => cases (step_moves h).2 <;> rfl
    rw [hall]
    rcases step_args h p job' hp with ⟨job, hjob, -⟩ | ⟨-, now, heq⟩
    · exact hlt p job hjob
    · exact absurd ⟨now, _, heq⟩ hadd

end Thpool

end JQServer
