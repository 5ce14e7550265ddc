import JQServer.ForStd.WorkQueue
import JQServer.Spec.PoolOwnership

/-!
# The thread pool as a work queue

`job_queue_refines_fifo` runs the operations on the queue one after the other. Here they
are run by the threads of the pool, in any order the mutex and the semaphore allow, and what
the threads do is a run of a `WorkQueue`: `pool_simulates`. Most steps are internal. A
critical section of `delete_timeout_job` is an `expire` event if the tail it read is the
tail still, and nothing otherwise; `SweepSafe` is what keeps it from touching a job of a
worker in that case.
-/

namespace JQServer

namespace Thpool

open Transition

variable {α : Type} {s s' : Thpool α} {l : List Nat} {q : WorkQueue (α × Int)}

/-- The events that a step stands for. -/
def jobEvents (s : Thpool α) : Action α → List (WorkQueue.Event (α × Int))
  | .addWork now arg => [.add (arg, now)]
  | .sweepLocked now timeOut =>
    if s.main = .sweeping s.tail then [.expire (overdue now timeOut)] else []
  | .dequeue w => ((s.tail.bind s.entry).map (.take w)).toList
  | .execute w => (((s.workers w).job.bind s.entry).map (.run w)).toList
  | .free w => [.release w]
  | .empty => [.clear]
  | _ => []

/-- What worker `w` has. -/
def hold (s : Thpool α) (w : Nat) : Hold ((α × Int) × Nat) :=
  match s.workers w with
  | .running p => (s.entry p).elim .idle .holding
  | .finished p => (s.entry p).elim .idle .ran
  | _ => .idle

/-- The pool stands for `q`. -/
structure Implements (s : Thpool α) (q : WorkQueue (α × Int)) : Prop where
  wf : s.Wf (q.fifo.queue.map Prod.snd)
  entries : ∀ e ∈ q.fifo.queue, s.entry e.2 = some e
  numbered : q.fifo.entries.map Prod.snd = List.range s.allocated
  held : ∀ w, q.held w = s.hold w

/-- The queue of the pool stands for the queue of `q`. -/
theorem Implements.represents (h : s.Implements q) : s.Represents q.fifo :=
  ⟨h.wf.queueWf, h.entries, h.numbered⟩

/-- The initial pool is empty. -/
theorem implements_init (n : Int) : (thpoolInit n : Thpool α).Implements .empty where
  wf := wf_init n
  entries _ h := nomatch h
  numbered := rfl
  held _ := rfl

/-! ### Entries of jobs that workers have -/

/-- A worker has a job that is in memory. -/
theorem Wf.entry_held {w p : Nat} (h : s.Wf l) (hw : (s.workers w).job = some p) :
    ∃ e, s.entry p = some e := by
  have hlive := (h.held w p hw).1
  rw [exists_job_iff] at hlive
  exact Option.isSome_iff_exists.mp hlive

/-- Workers keep what they have if they stay where they are and their jobs are not touched. -/
theorem hold_congr (hw : s'.workers = s.workers)
    (he : ∀ w p, (s.workers w).job = some p → s'.entry p = s.entry p) (w : Nat) :
    s'.hold w = s.hold w := by
  unfold hold
  rw [hw]
  -- The entry of the job is read at two places of a worker
  split
  · rename_i p hp
    rw [he w p (by rw [hp]; rfl)]
  · rename_i p hp
    rw [he w p (by rw [hp]; rfl)]
  · rfl

/-- Worker `w` moves to `pc`, and no job of another worker is touched. -/
theorem hold_update {w : Nat} {pc : WorkerPc} (hw : s'.workers = Function.update s.workers w pc)
    (he : ∀ v p, v ≠ w → (s.workers v).job = some p → s'.entry p = s.entry p) :
    s'.hold = Function.update s.hold w (s'.hold w) := by
  funext v
  by_cases hvw : v = w
  · rw [hvw, Function.update_self]
  · have hpc : s'.workers v = s.workers v := by rw [hw, Function.update_of_ne hvw]
    rw [Function.update_of_ne hvw]
    unfold hold
    rw [hpc]
    split
    · rename_i p hp
      rw [he v p hvw (by rw [hp]; rfl)]
    · rename_i p hp
      rw [he v p hvw (by rw [hp]; rfl)]
    · rfl

/-- What the workers have, once worker `w` has something else. -/
private theorem held_hold {w : Nat} {x : Hold ((α × Int) × Nat)} (h : ∀ v, q.held v = s.hold v)
    (hs : s'.hold = Function.update s.hold w (s'.hold w)) (hx : s'.hold w = x) (v : Nat) :
    (q.hold w x).held v = s'.hold v := by
  rw [hs]
  by_cases hvw : v = w
  · rw [hvw, Function.update_self, hx]
    exact Function.update_self ..
  · rw [Function.update_of_ne hvw, ← h v]
    exact Function.update_of_ne hvw ..

/-- A state in which memory, the queue and what the workers have are the same. -/
theorem Implements.congr (h : s.Implements q) (hwf : s'.Wf (q.fifo.queue.map Prod.snd))
    (hheap : s'.heap = s.heap) (halloc : s'.allocated = s.allocated)
    (hheld : ∀ w, s'.hold w = s.hold w) : s'.Implements q where
  wf := hwf
  entries e he := by
    rw [entry, hheap]
    exact h.entries e he
  numbered := by rw [halloc, h.numbered]
  held w := (h.held w).trans (hheld w).symm

/-- A worker without a job has nothing. -/
theorem hold_of_job {w : Nat} (h : (s.workers w).job = none) : s.hold w = .idle := by
  unfold hold
  cases hpc : s.workers w <;> simp only [hpc, WorkerPc.job, reduceCtorEq] at h ⊢

/-- A worker moves without a job. -/
theorem Implements.setWorker {w : Nat} {pc : WorkerPc} (h : s.Implements q)
    (hold : (s.workers w).job = none) (hnew : pc.job = none)
    (ht : pc.tally = (s.workers w).tally) : (s.setWorker w pc).Implements q := by
  refine h.congr (h.wf.setWorker hold hnew ht) rfl rfl fun v => ?_
  have hothers : (s.setWorker w pc).hold = Function.update s.hold w ((s.setWorker w pc).hold w) :=
    hold_update rfl fun _ _ _ _ => rfl
  rw [hothers]
  by_cases hvw : v = w
  · subst hvw
    -- It has nothing before and nothing after
    have hafter : ((s.setWorker v pc).workers v).job = none := by
      simpa only [Thpool.setWorker, Function.update_self] using hnew
    rw [Function.update_self, hold_of_job hold, hold_of_job hafter]
  · rw [Function.update_of_ne hvw]

/-! ### Memory after the loops -/

/-- `free` is all that happened to memory. -/
structure OnlyFrees (s s' : Thpool α) : Prop where
  allocated : s'.allocated = s.allocated
  heap : ∀ p job, s'.heap p = some job → s.heap p = some job

private theorem OnlyFrees.refl (s : Thpool α) : s.OnlyFrees s := ⟨rfl, fun _ _ h => h⟩

/-- One job is freed, and the loop goes on. -/
private theorem OnlyFrees.cons {c n : Nat} {tail : Option Nat} {f : JobTally → JobTally}
    (h : OnlyFrees { (s.count c f).release c with tail := tail, jobN := n } s') :
    s.OnlyFrees s' where
  allocated := h.allocated
  heap p job hp := by
    have hbefore : Function.update s.heap c none p = some job := h.heap p job hp
    by_cases hpc : p = c
    · rw [hpc, Function.update_self] at hbefore
      exact nomatch hbefore
    · rwa [Function.update_of_ne hpc] at hbefore

/-- The loop of `delete_timeout_job`. -/
private theorem deleteTimeoutLoop_onlyFrees {now timeOut : Int} {n : Nat} {cur : Option Nat}
    (h : deleteTimeoutLoop now timeOut n cur s = some s') : s.OnlyFrees s' := by
  -- By induction on the jobs left to look at
  induction n generalizing s cur with
  | zero => exact Option.some.inj h ▸ .refl s
  | succ n ih =>
    cases cur with
    | none => exact Option.some.inj h ▸ .refl s
    | some c =>
      simp only [deleteTimeoutLoop_some, Option.bind_eq_some_iff] at h
      obtain ⟨job, -, h⟩ := h
      split at h
      · exact .cons (ih h)
      · exact Option.some.inj h ▸ .refl s

/-- The loop of `thpool_jobqueue_empty`. -/
private theorem thpoolJobqueueEmptyLoop_onlyFrees {n : Nat} {cur : Option Nat}
    (h : thpoolJobqueueEmptyLoop n cur s = some s') : s.OnlyFrees s' := by
  induction n generalizing s cur with
  | zero => exact Option.some.inj h ▸ .refl s
  | succ n ih =>
    cases cur with
    | none => exact nomatch h
    | some c =>
      simp only [thpoolJobqueueEmptyLoop, Option.bind_eq_bind, Option.bind_eq_some_iff] at h
      obtain ⟨job, -, h⟩ := h
      exact .cons (ih h)

/-- What is still in memory is unchanged. -/
theorem OnlyFrees.entry {p : Nat} {e : (α × Int) × Nat} (h : s.OnlyFrees s')
    (he : s'.entry p = some e) : s'.entry p = s.entry p := by
  obtain ⟨job, hjob, -⟩ := Option.map_eq_some_iff.mp he
  rw [Thpool.entry, Thpool.entry, hjob, h.heap p job hjob]

/-- Workers keep their jobs. -/
theorem OnlyFrees.hold {l' : List Nat} (h : s.OnlyFrees s') (hwf : s'.Wf l')
    (hw : s'.workers = s.workers) (w : Nat) : s'.hold w = s.hold w := by
  refine hold_congr hw (fun v p hp => ?_) w
  rw [← hw] at hp
  obtain ⟨e, he⟩ := hwf.entry_held hp
  exact h.entry he

/-! ### The critical sections -/

/-- `thpool_add_work` -/
theorem Implements.addWork (h : s.Implements q) (now : Int) (arg : α) :
    ∃ s', s.thpoolAddWork now arg = some s' ∧
      s'.Implements { q with fifo := q.fifo.add ((arg, now), q.fifo.entries.length) } := by
  -- Three lemmas about the same call: what it stands for, its invariant and its entries
  obtain ⟨s', hs', hrep⟩ := h.represents.addWork now arg
  obtain ⟨t, ht, hwf, hsame, -⟩ := h.wf.addWork now arg
  obtain ⟨u, hu, -, -, -, hentry, -⟩ := h.wf.queueWf.addWork now arg
  obtain rfl : s' = t := Option.some.inj (hs'.symm.trans ht)
  obtain rfl : s' = u := Option.some.inj (hs'.symm.trans hu)
  have hlen : q.fifo.entries.length = s.allocated := by
    have := congrArg List.length h.numbered
    simpa using this
  refine ⟨s', hs', ?_, hrep.entries, hrep.numbered, fun w => ?_⟩
  · rw [Fifo.add, List.map_append, hlen]
    exact hwf
  · refine (h.held w).trans (hold_congr hsame.workers (fun v p hp => ?_) w).symm
    -- The new record is none that a worker has
    apply hentry
    intro heq
    obtain ⟨⟨job, hjob⟩, -⟩ := h.wf.held v p hp
    rw [heq, (h.wf.fresh s.allocated (Nat.le_refl _)).1] at hjob
    cases hjob

/-- `delete_timeout_job`, with the tail read before the lock. -/
theorem Implements.deleteTimeoutJob (h : s.Implements q) (now timeOut : Int) :
    ∃ s', s.deleteTimeoutJob s.tail now timeOut = some s' ∧
      s'.Implements { q with fifo := q.fifo.expire (overdue now timeOut) } := by
  obtain ⟨s', hs', hrep⟩ := h.represents.deleteTimeoutLoop now timeOut
  obtain ⟨t, k, ht, hwf, hsame, -⟩ := h.wf.deleteTimeoutLoop now timeOut
  -- Both lemmas are about the same call
  obtain rfl : s' = t := Option.some.inj (hs'.symm.trans ht)
  refine ⟨s', hs', ?_, hrep.entries, hrep.numbered, fun w => ?_⟩
  · -- Both lists are the chain from the tail
    exact hrep.wf.chain.unique hwf.chain ▸ hwf
  · have hfrees := deleteTimeoutLoop_onlyFrees hs'
    exact (h.held w).trans (hfrees.hold hwf hsame.workers w).symm

/-- `delete_timeout_job` in the other safe cases deletes nothing. -/
theorem sweepSafe_skips {cur : Option Nat} {now timeOut : Int} (hm : s.main = .sweeping cur)
    (hsafe : s.SweepSafe (.sweepLocked now timeOut)) (htail : cur ≠ s.tail) :
    s.deleteTimeoutJob cur now timeOut = some s := by
  unfold deleteTimeoutJob
  cases hn : s.jobN with
  | zero => rfl
  | succ n =>
    cases cur with
    | none => rfl
    | some c =>
      obtain h0 | hc := hsafe
      · exact absurd (hn.symm.trans h0) (Nat.succ_ne_zero n)
      obtain ht | hlive := hc c hm
      · exact absurd ht.symm htail
      · -- The job read is in memory and not expired
        simp only [Expired, not_forall] at hlive
        obtain ⟨job, hjob, hexp⟩ := hlive
        simp only [deleteTimeoutLoop_some, hjob, Option.bind_some, hexp, ↓reduceIte]

/-- The critical section of a worker on a non-empty queue. -/
theorem Implements.threadDequeue {w : Nat} {e : (α × Int) × Nat} {es : List ((α × Int) × Nat)}
    (h : s.Implements q) (hw : (s.workers w).job = none) (hq : q.fifo.queue = e :: es) :
    ∃ s', s.threadDequeue w = some s' ∧
      s'.Implements ({ q with fifo := q.fifo.take }.hold w (.holding e)) := by
  have hwf := h.wf
  rw [hq, List.map_cons] at hwf
  obtain ⟨r, hr, -, hentry, -, halloc, -, hsame⟩ := hwf.queueWf.removelast
  obtain ⟨t, ht, htwf, hwork, -⟩ := hwf.dequeue hw
  have hs' : s.threadDequeue w = some
      ((r.count e.2 fun t => { t with taken := t.taken + 1 }).setWorker w (.running e.2)) := by
    simp only [Thpool.threadDequeue, hr, hwf.queueWf.peek, Option.bind_eq_bind, Option.bind_some,
      ne_eq, not_true_eq_false, ↓reduceIte]
  obtain rfl := Option.some.inj (hs'.symm.trans ht)
  -- The oldest entry leaves the queue
  have htake : q.fifo.take.queue = es := by
    rw [Fifo.take, Fifo.drop, hq]
    rfl
  have he : s.entry e.2 = some e := h.entries e (hq ▸ List.mem_cons_self)
  refine ⟨_, hs', ?_, ?_, ?_, ?_⟩
  · show Wf _ (q.fifo.take.queue.map Prod.snd)
    rw [htake]
    exact htwf
  · intro e' he'
    have hmem : e' ∈ es := htake ▸ he'
    exact (hentry e'.2).trans (h.entries e' (hq ▸ List.mem_cons_of_mem e hmem))
  · show q.fifo.take.entries.map Prod.snd = List.range r.allocated
    rw [Fifo.entries_take, halloc, h.numbered]
  · -- The worker has the entry of the job that it runs
    have hrun : (r.entry e.2).elim Hold.idle Hold.holding = .holding e := by
      rw [hentry, he]
      rfl
    refine held_hold h.held (hold_update (s := s) hwork fun u p _ _ => hentry p) ?_
    simp only [Thpool.hold, Thpool.setWorker, Function.update_self]
    exact hrun

/-- The job of a worker runs. -/
theorem Implements.threadExecute {w p : Nat} {e : (α × Int) × Nat} (h : s.Implements q)
    (hw : s.workers w = .running p) (he : s.entry p = some e) :
    ∃ s', s.threadExecute w p = some s' ∧ s'.Implements (q.hold w (.ran e)) := by
  obtain ⟨⟨job, hjob⟩, -⟩ := h.wf.held w p (by rw [hw]; rfl)
  obtain ⟨t, ht, hwf, hwork, -⟩ := h.wf.execute hw
  have hs' : s.threadExecute w p = some
      ((s.count p fun t => { t with executed := t.executed + 1 }).setWorker w (.finished p)) := by
    simp only [Thpool.threadExecute, hjob, Option.bind_eq_bind, Option.bind_some]
  obtain rfl := Option.some.inj (hs'.symm.trans ht)
  have hran : (s.entry p).elim Hold.idle Hold.ran = .ran e := by
    rw [he]
    rfl
  refine ⟨_, hs', hwf, h.entries, h.numbered, ?_⟩
  refine held_hold h.held (hold_update (s := s) hwork fun _ _ _ _ => rfl) ?_
  simp only [Thpool.hold, Thpool.setWorker, Function.update_self]
  exact hran

/-- A worker frees the job it has run. -/
theorem Implements.threadFree {w p : Nat} (h : s.Implements q) (hw : s.workers w = .finished p) :
    ∃ s', s.threadFree w p = some s' ∧ s'.Implements (q.hold w .idle) := by
  obtain ⟨⟨job, hjob⟩, hpl, -⟩ := h.wf.held w p (by rw [hw]; rfl)
  obtain ⟨t, ht, hwf, hwork, -⟩ := h.wf.free hw
  have hs' : s.threadFree w p = some ((s.release p).setWorker w .loop) := by
    simp only [Thpool.threadFree, hjob, Option.bind_eq_bind, Option.bind_some]
  obtain rfl := Option.some.inj (hs'.symm.trans ht)
  have hentry : ∀ a, a ≠ p → ((s.release p).setWorker w .loop).entry a = s.entry a := by
    intro a ha
    simp only [entry, Thpool.setWorker, release, Function.update_of_ne ha]
  refine ⟨_, hs', hwf, fun e he => ?_, h.numbered, held_hold h.held (hold_update hwork ?_) ?_⟩
  · -- The job freed is not in the queue
    rw [hentry]
    · exact h.entries e he
    · intro heq
      exact hpl (heq ▸ List.mem_map_of_mem he)
  · -- Nor is it the job of another worker
    intro u a huw ha
    apply hentry
    intro heq
    exact huw (h.wf.unique u w a ha (by rw [hw, heq]; rfl))
  · simp only [Thpool.hold, Thpool.setWorker, Function.update_self]

/-- `thpool_jobqueue_empty` -/
theorem Implements.thpoolJobqueueEmpty (h : s.Implements q) :
    ∃ s', s.thpoolJobqueueEmpty = some s' ∧
      s'.Implements { q with fifo := q.fifo.drop q.fifo.queue.length } := by
  obtain ⟨s', hs', hwf, hsame, -⟩ := h.wf.thpoolJobqueueEmpty
  obtain ⟨t, ht, hteq⟩ := Option.map_eq_some_iff.mp hs'
  have hfrees := thpoolJobqueueEmptyLoop_onlyFrees ht
  have hfrees' : s.OnlyFrees s' := by
    rw [← hteq]
    exact ⟨hfrees.allocated, hfrees.heap⟩
  -- No entry is left in the queue
  have hempty : (q.fifo.drop q.fifo.queue.length).queue = [] := List.drop_length
  refine ⟨s', hs', ?_, ?_, ?_, ?_⟩
  · show s'.Wf ((q.fifo.drop q.fifo.queue.length).queue.map Prod.snd)
    rw [hempty]
    exact hwf
  · intro e he
    rw [hempty] at he
    exact nomatch he
  · show (q.fifo.drop q.fifo.queue.length).entries.map Prod.snd = List.range s'.allocated
    rw [Fifo.entries_drop, hfrees'.allocated, h.numbered]
  · intro w
    exact (h.held w).trans (hfrees'.hold hwf hsame.workers w).symm

/-! ### Steps -/

/-- A step that stands for one event. -/
private theorem matched_by {a : Action α} {e : WorkQueue.Event (α × Int)} {q' : WorkQueue (α × Int)}
    (hevents : s.jobEvents a = [e]) (hstep : q.Step e q') (h : s'.Implements q') :
    ∃ q', (WorkQueue.system (α × Int)).run q (s.jobEvents a) = some q' ∧ s'.Implements q' :=
  ⟨q', hevents ▸ hstep.run_single, h⟩

/-- A step that is internal. -/
private theorem internal {a : Action α} (hevents : s.jobEvents a = []) (h : s'.Implements q) :
    ∃ q', (WorkQueue.system (α × Int)).run q (s.jobEvents a) = some q' ∧ s'.Implements q' :=
  ⟨q, hevents ▸ rfl, h⟩

/-- The main thread moves on. -/
private theorem Implements.setMain (h : s.Implements q) (m : MainPc) :
    ({ s with main := m } : Thpool α).Implements q :=
  h.congr (h.wf.congr rfl rfl rfl rfl rfl rfl fun _ => ⟨rfl, rfl⟩) rfl rfl fun _ => rfl

/-- Every step is a run of its events. -/
theorem Implements.step {a : Action α} (h : s.Implements q) (hsafe : s.SweepSafe a)
    (hs : s.Moves a s') :
    ∃ q', (WorkQueue.system (α × Int)).run q (s.jobEvents a) = some q' ∧ s'.Implements q' := by
  cases hs with
  | addWork hm hx =>
    obtain ⟨t, ht, himp⟩ := h.addWork _ _
    rw [outcome_some ht]
    exact matched_by rfl .add himp
  | sweepRead hm => exact internal rfl (h.setMain _)
  | @sweepLocked now timeOut cur hm hx =>
    -- A sweep is an event only if it walks from the tail
    by_cases htail : cur = s.tail
    · subst htail
      obtain ⟨t, ht, himp⟩ := h.deleteTimeoutJob now timeOut
      rw [outcome_some ht]
      exact matched_by (if_pos hm) .expire (himp.setMain _)
    · rw [outcome_some (sweepSafe_skips hm hsafe htail)]
      refine internal (if_neg fun hm' => ?_) (h.setMain _)
      exact htail (MainPc.sweeping.inj (hm.symm.trans hm'))
  | test hw hp =>
    refine internal rfl (h.setWorker (by rw [hp]; rfl) ?_ ?_)
    · split <;> rfl
    · rw [hp]
      split <;> rfl
  | @semWait w hw hp hq =>
    have hmove : (s.setWorker w .passed).Implements q :=
      h.setWorker (by rw [hp]; rfl) rfl (by rw [hp]; rfl)
    exact internal rfl (hmove.congr
      (hmove.wf.congr rfl rfl rfl rfl rfl rfl fun _ => ⟨rfl, rfl⟩) rfl rfl fun _ => rfl)
  | retest hw hp =>
    refine internal rfl (h.setWorker (by rw [hp]; rfl) ?_ ?_)
    · split <;> rfl
    · rw [hp]
      split <;> rfl
  | @dequeue w hw hp hx =>
    have hjob : (s.workers w).job = none := by rw [hp]; rfl
    have htail := h.wf.chain.head?
    cases hqueue : q.fifo.queue with
    | nil =>
      -- -1: the worker returns and keeps the mutex
      have hwf := h.wf
      rw [hqueue, List.map_nil] at hwf
      rw [hqueue] at htail
      rw [outcome_some (hwf.dequeue_empty w)]
      have hmove : (s.setWorker w .returnedLocked).Implements q :=
        h.setWorker hjob rfl (by rw [hp]; rfl)
      refine internal ?_ (hmove.congr
        (hmove.wf.congr rfl rfl rfl rfl rfl rfl fun _ => ⟨rfl, rfl⟩) rfl rfl fun _ => rfl)
      rw [jobEvents, htail]
      rfl
    | cons e es =>
      -- The worker takes the oldest entry
      have he : s.entry e.2 = some e := h.entries e (hqueue ▸ List.mem_cons_self)
      obtain ⟨t, ht, himp⟩ := h.threadDequeue hjob hqueue
      rw [outcome_some ht]
      refine matched_by ?_ (.take ?_ ?_) himp
      · rw [jobEvents, htail, hqueue]
        simp [he]
      · rw [h.held, hold_of_job hjob]
      · rw [hqueue]
        rfl
  | @execute w p hw hp =>
    -- The job of the worker is in memory, so the event has an entry
    obtain ⟨e, he⟩ := h.wf.entry_held (w := w) (p := p) (by rw [hp]; rfl)
    obtain ⟨t, ht, himp⟩ := h.threadExecute hp he
    rw [outcome_some ht]
    refine matched_by ?_ (.run ?_) himp
    · simp [jobEvents, hp, WorkerPc.job, he]
    · simp [h.held w, Thpool.hold, hp, he]
  | @free w p hw hp =>
    obtain ⟨e, he⟩ := h.wf.entry_held (w := w) (p := p) (by rw [hp]; rfl)
    obtain ⟨t, ht, himp⟩ := h.threadFree hp
    rw [outcome_some ht]
    refine matched_by rfl (.release (e := e) ?_) himp
    simp [h.held w, Thpool.hold, hp, he]
  | destroy hm =>
    refine internal rfl ((h.setMain (.posting 0)).congr ?_ rfl rfl fun _ => rfl)
    exact h.wf.congr rfl rfl rfl rfl rfl rfl fun _ => ⟨rfl, rfl⟩
  | post hm hk =>
    refine internal rfl ((h.setMain (.posting 0)).congr ?_ rfl rfl fun _ => rfl)
    exact h.wf.congr rfl rfl rfl rfl rfl rfl fun _ => ⟨rfl, rfl⟩
  | posted hm hk => exact internal rfl (h.setMain _)
  | joined hm hr => exact internal rfl (h.setMain _)
  | empty hm =>
    obtain ⟨t, ht, himp⟩ := h.thpoolJobqueueEmpty
    rw [outcome_some ht]
    exact matched_by rfl .clear (himp.setMain _)

/-- The pool simulates a work queue, in every run whose sweeps are safe. -/
theorem pool_simulates : Simulation (system α) SweepSafe (WorkQueue.system (α × Int))
    (fun _ _ => True) jobEvents Implements where
  init s hi := by
    obtain ⟨n, rfl⟩ := hi
    exact ⟨.empty, rfl, implements_init n⟩
  step s a s' q _ hsafe hs h := by
    obtain ⟨q', hr, h'⟩ := h.step hsafe (step_moves hs).2
    exact ⟨q', hr, (WorkQueue.system _).meets_of_mem (fun _ _ _ => trivial) q, h'⟩

/-- Any number of workers, the event loop and `thpool_destroy` in any order: as long as the
    sweeps are safe, the events of the run are those of a work queue that the pool stands
    for. -/
theorem pool_refines_work_queue {n : Int} {as : List (Action α)}
    (hsafe : (system α).Meets SweepSafe (thpoolInit n) as)
    (hr : (system α).run (thpoolInit n) as = some s) :
    ∃ q, (WorkQueue.system (α × Int)).run .empty ((system α).trace jobEvents (thpoolInit n) as) =
        some q ∧ s.Implements q := by
  obtain ⟨q, q', hq, -, hrun, -, h⟩ := pool_simulates.run_init ⟨n, rfl⟩ hsafe hr
  obtain rfl : q = .empty := hq
  exact ⟨q', hrun, h⟩

/-- Two jobs are added, a worker takes the first and runs it while the sweep deletes the
    second. The events are those of the threads, without the internal steps. -/
theorem pool_refines_work_queue_mixed :
    ∃ (s : Thpool Nat) (q : WorkQueue (Nat × Int)),
      (WorkQueue.system (Nat × Int)).run .empty [.add (7, 0), .add (8, 0), .take 0 ((7, 0), 0),
        .run 0 ((7, 0), 0), .expire (overdue 100 60), .release 0] = some q ∧ s.Implements q := by
  have hmeets : (system Nat).Meets SweepSafe (thpoolInit 15)
      [.addWork 0 7, .addWork 0 8, .test 0, .semWait 0, .retest 0, .dequeue 0, .sweepRead,
        .execute 0, .sweepLocked 100 60, .free 0] := by
    refine .cons rfl trivial (.cons rfl trivial (.cons rfl trivial (.cons rfl trivial
      (.cons rfl trivial (.cons rfl trivial (.cons rfl trivial (.cons rfl trivial
      (.cons rfl (Or.inr fun c hm => Or.inl ?_) (.cons rfl trivial .nil)))))))))
    cases hm
    rfl
  have hrun : ∃ s : Thpool Nat, (system Nat).run (thpoolInit 15)
      [.addWork 0 7, .addWork 0 8, .test 0, .semWait 0, .retest 0, .dequeue 0, .sweepRead,
        .execute 0, .sweepLocked 100 60, .free 0] = some s := ⟨_, rfl⟩
  obtain ⟨s, hs⟩ := hrun
  obtain ⟨q, hq, himp⟩ := pool_refines_work_queue hmeets hs
  exact ⟨s, q, hq, himp⟩

end Thpool

end JQServer
