import JQServer.ForStd.Chain
import JQServer.ForStd.Fifo
import JQServer.Native.ThreadPool
import Mathlib.Data.List.Nodup

/-!
# The job queue as a FIFO queue with expiry

`QueueWf s l` says that the linked queue holds the jobs of `l`: following `prev` from
`jobqueue->tail` visits exactly these, `jobN` is their number and, unless it is 0,
`head` is the last of them. The other fields are not kept up to date: the sweep and
`thpool_jobqueue_empty` leave the `next` of the new tail behind, and the sweep also
leaves `head` behind when it deletes the last job. No operation reads them then.

`job_queue_refines_fifo` runs `thpool_add_work`, the dequeue of a worker and
`delete_timeout_job` against a queue with expiry that is a list.
-/

namespace JQServer

namespace Thpool

variable {α : Type} {s s' : Thpool α} {l : List Nat}

/-- The `prev` field at an address. -/
def link (s : Thpool α) (p : Nat) : Option Nat := (s.heap p).bind (·.prev)

/-- What `thpool_add_work` stored at an address: the job parameter, the time and the
    address itself, which is the number of the `malloc`. -/
def entry (s : Thpool α) (p : Nat) : Option ((α × Int) × Nat) :=
  (s.heap p).map fun job => ((job.arg, job.jobCreateTime), p)

/-- The linked queue is well formed and holds the jobs of `l`, oldest first. -/
structure QueueWf (s : Thpool α) (l : List Nat) : Prop where
  chain : LinkChain s.link s.tail l
  length : l.length = s.jobN
  nodup : l.Nodup
  head : s.jobN ≠ 0 → s.head = l.getLast?
  live : ∀ p ∈ l, ∃ job, s.heap p = some job
  fresh : ∀ p, s.allocated ≤ p → s.heap p = none

/-- The threads are where they were. -/
structure SameThreads (s s' : Thpool α) : Prop where
  workers : s'.workers = s.workers
  main : s'.main = s.main
  keepalive : s'.keepalive = s.keepalive
  mutex : s'.mutex = s.mutex
  threadsN : s'.threadsN = s.threadsN
  fault : s'.fault = s.fault

/-- The initial queue is empty. -/
theorem queueWf_init (n : Int) : (thpoolInit n : Thpool α).QueueWf [] where
  chain := rfl
  length := rfl
  nodup := List.nodup_nil
  head h := absurd rfl h
  live _ hp := absurd hp List.not_mem_nil
  fresh _ _ := rfl

/-- An address is live if it has an entry. -/
theorem exists_job_iff {p : Nat} : (∃ job, s.heap p = some job) ↔ (s.entry p).isSome = true := by
  simp only [entry, Option.isSome_map, Option.isSome_iff_exists]

/-- An address is free if it has no entry. -/
theorem heap_eq_none_iff {p : Nat} : s.heap p = none ↔ s.entry p = none := by
  simp only [entry, Option.map_eq_none_iff]

/-! ### `thpool_add_work` -/

/-- The queue after an enqueue: the new job is linked at the young end, and the entry of
    every other address is what it was. -/
private theorem QueueWf.append (h : s.QueueWf l)
    (hchain : LinkChain s'.link s'.tail (l ++ [s.allocated]))
    (hhead : s'.head = some s.allocated) (hjob : s'.jobN = s.jobN + 1)
    (halloc : s'.allocated = s.allocated + 1) {e : (α × Int) × Nat}
    (hnew : s'.entry s.allocated = some e)
    (hold : ∀ p, p ≠ s.allocated → s'.entry p = s.entry p) : s'.QueueWf (l ++ [s.allocated]) := by
  -- The jobs in the queue are live, the next address is not
  have hne : ∀ p ∈ l, p ≠ s.allocated := by
    rintro p hp rfl
    obtain ⟨job, hj⟩ := h.live s.allocated hp
    cases hj.symm.trans (h.fresh s.allocated (Nat.le_refl _))
  exact {
    chain := hchain
    length := by rw [List.length_append, h.length, hjob, List.length_singleton]
    nodup := by
      refine List.nodup_append.mpr ⟨h.nodup, List.nodup_singleton _, ?_⟩
      intro a ha b hb hab
      exact hne a ha (hab.trans (List.mem_singleton.mp hb))
    head := fun _ => by rw [hhead, List.getLast?_concat]
    live := by
      intro p hp
      rw [exists_job_iff]
      rcases List.mem_append.mp hp with hp | hp
      · rw [hold p (hne p hp), ← exists_job_iff]
        exact h.live p hp
      · rw [List.mem_singleton.mp hp, hnew, Option.isSome_some]
    fresh := by
      intro p hp
      rw [halloc] at hp
      rw [heap_eq_none_iff, hold p (by omega), ← heap_eq_none_iff]
      exact h.fresh p (by omega) }

/-- Enqueueing the next address: the job is appended at the young end. -/
theorem QueueWf.addWork (h : s.QueueWf l) (now : Int) (arg : α) :
    ∃ s', s.thpoolAddWork now arg = some s' ∧ s'.QueueWf (l ++ [s.allocated]) ∧
      s'.allocated = s.allocated + 1 ∧ s'.entry s.allocated = some ((arg, now), s.allocated) ∧
      (∀ p, p ≠ s.allocated → s'.entry p = s.entry p) ∧
      s.SameThreads s' ∧ s'.queueSem = s.queueSem + 1 ∧ s'.tally = s.tally := by
  have hfresh := h.fresh s.allocated (Nat.le_refl _)
  rcases List.eq_nil_or_concat l with rfl | ⟨l, f, rfl⟩
  · -- An empty queue: the job is the head and the tail
    have hj : s.jobN = 0 := h.length.symm
    refine ⟨_, by simp only [thpoolAddWork, thpoolJobEnqueue, hj]; rfl, ?_⟩
    have hnew : ∀ p, p ≠ s.allocated → Function.update s.heap s.allocated
        (some { arg := arg, jobCreateTime := now, prev := none, next := none }) p = s.heap p :=
      fun p hp => Function.update_of_ne hp ..
    refine ⟨?_, rfl, ?_, ?_, ⟨rfl, rfl, rfl, rfl, rfl, rfl⟩, rfl, rfl⟩
    · refine h.append ⟨rfl, ?_⟩ rfl ?_ rfl (e := ((arg, now), s.allocated)) ?_ ?_
      · simp only [link, Function.update_self, LinkChain.nil_iff, Option.bind_some]
      · simp only [hj]
      · simp only [entry, Function.update_self, Option.map_some]
      · intro p hp
        simp only [entry, hnew p hp]
    · simp only [entry, Function.update_self, Option.map_some]
    · intro p hp
      simp only [entry, hnew p hp]
  · -- The old head `f` gets the new job as its `prev`
    obtain ⟨first, hf⟩ := h.live f (by simp)
    have hfn : f ≠ s.allocated := by
      rintro rfl
      cases hfresh.symm.trans hf
    have hj : s.jobN = l.length + 1 := by rw [← h.length]; simp
    have hhead : s.head = some f := by rw [h.head (by omega)]; simp
    refine ⟨_, by simp only [thpoolAddWork, thpoolJobEnqueue, hj, hhead, hf,
      Option.bind_eq_bind, Option.bind_some]; rfl, ?_⟩
    -- A link is no part of a job's entry
    have hentry : ∀ p, p ≠ s.allocated → (Function.update
        (Function.update s.heap f (some { first with prev := some s.allocated })) s.allocated
        (some { arg := arg, jobCreateTime := now, prev := none, next := some f }) p).map
          (fun job => ((job.arg, job.jobCreateTime), p)) = s.entry p := by
      intro p hp
      by_cases hpf : p = f
      · subst hpf
        simp only [entry, Function.update_of_ne hp, Function.update_self, hf, Option.map_some]
      · simp only [entry, Function.update_of_ne hp, Function.update_of_ne hpf]
    refine ⟨?_, rfl, ?_, ?_, ⟨rfl, rfl, rfl, rfl, rfl, rfl⟩, rfl, rfl⟩
    · refine h.append ?_ rfl ?_ rfl (e := ((arg, now), s.allocated)) ?_ hentry
      · -- Only the old head is relinked, to the new job
        rw [List.concat_eq_append]
        refine LinkChain.snoc (f := s.link) (List.concat_eq_append ▸ h.chain) ?_ ?_ ?_
        · intro x hx
          have hxf : x ≠ f := by
            rintro rfl
            have := h.nodup
            rw [List.concat_eq_append, List.nodup_append] at this
            exact this.2.2 x hx x (List.mem_singleton_self x) rfl
          have hxn : x ≠ s.allocated := by
            rintro rfl
            obtain ⟨job, hx'⟩ := h.live s.allocated (by simp [hx])
            cases hfresh.symm.trans hx'
          simp only [link, Function.update_of_ne hxn, Function.update_of_ne hxf]
        · simp only [link, Function.update_of_ne hfn, Function.update_self, Option.bind_some]
        · simp only [link, Function.update_self, Option.bind_some]
      · simp only [hj]
      · simp only [entry, Function.update_self, Option.map_some]
    · simp only [entry, Function.update_self, Option.map_some]
    · exact hentry

/-! ### Removing the oldest job -/

/-- `peek` on a non-empty queue returns its oldest job. -/
theorem QueueWf.peek {c : Nat} (h : s.QueueWf (c :: l)) : s.thpoolJobqueuePeek = some c :=
  h.chain.1

/-- On an empty queue `thpool_jobqueue_removelast` returns -1 and changes nothing. -/
theorem removelast_empty (hn : s.jobN = 0) : s.thpoolJobqueueRemovelast = some (-1, s) := by
  simp only [thpoolJobqueueRemovelast, hn]

/-- What is left of the queue is still linked to `head`. -/
theorem QueueWf.head_tail {c : Nat} (h : s.QueueWf (c :: l)) (hl : l ≠ []) :
    s.head = l.getLast? := by
  have hhead := h.head (by rw [← h.length]; exact Nat.succ_ne_zero _)
  rwa [List.getLast?_cons_of_ne_nil hl] at hhead

/-- On a non-empty queue `thpool_jobqueue_removelast` returns 0 and unlinks the
    oldest job. -/
theorem QueueWf.removelast {c : Nat} (h : s.QueueWf (c :: l)) :
    ∃ s', s.thpoolJobqueueRemovelast = some (0, s') ∧ s'.QueueWf l ∧
      (∀ p, s'.entry p = s.entry p) ∧ s'.tally = s.tally ∧ s'.allocated = s.allocated ∧
      s'.queueSem = s.queueSem ∧ s.SameThreads s' := by
  obtain ⟨job, hjob⟩ := h.live c List.mem_cons_self
  have hlink : s.link c = job.prev := by simp only [link, hjob, Option.bind_some]
  cases l with
  | nil =>
    have hn : s.jobN = 1 := h.length.symm
    refine ⟨{ s with head := none, tail := none, jobN := 0 },
      by simp only [thpoolJobqueueRemovelast, hn], ?_, fun _ => rfl, rfl, rfl, rfl,
      ⟨rfl, rfl, rfl, rfl, rfl, rfl⟩⟩
    exact {
      chain := rfl
      length := rfl
      nodup := List.nodup_nil
      head := fun hn => absurd rfl hn
      live := fun p hp => absurd hp List.not_mem_nil
      fresh := h.fresh }
  | cons q l =>
    obtain ⟨prevJob, hq⟩ := h.live q (by simp)
    have hn : s.jobN = l.length + 2 := h.length.symm
    have hprev : job.prev = some q := hlink ▸ h.chain.2.1
    -- Only the `next` of the new tail is written
    have hheap : ∀ p, Function.update s.heap q (some { prevJob with next := none }) p =
        if p = q then some { prevJob with next := none } else s.heap p := fun p =>
      Function.update_apply ..
    have hentry : ∀ p, (Function.update s.heap q (some { prevJob with next := none }) p).map
        (fun job => ((job.arg, job.jobCreateTime), p)) = s.entry p := by
      intro p
      rw [hheap, entry]
      split
      · rename_i hpq
        rw [hpq, hq, Option.map_some, Option.map_some]
      · rfl
    refine ⟨{ s with
        heap := Function.update s.heap q (some { prevJob with next := none })
        tail := some q
        jobN := l.length + 1 }, ?_, ?_, hentry, rfl, rfl, rfl, ⟨rfl, rfl, rfl, rfl, rfl, rfl⟩⟩
    · simp only [thpoolJobqueueRemovelast, hn, h.chain.1, hjob, hprev, hq, Option.bind_eq_bind,
        Option.bind_some]
    · exact {
        chain := by
          refine LinkChain.congr (f := s.link) ⟨rfl, h.chain.2.2⟩ fun p _ => ?_
          simp only [link, hheap]
          split
          · rename_i hpq
            rw [hpq, hq, Option.bind_some, Option.bind_some]
          · rfl
        length := rfl
        nodup := (List.nodup_cons.mp h.nodup).2
        head := fun _ => h.head_tail (List.cons_ne_nil q l)
        live := by
          intro p hp
          simp only [hheap]
          split
          · exact ⟨_, rfl⟩
          · exact h.live p (List.mem_cons_of_mem c hp)
        fresh := by
          intro p hp
          have hpq : p ≠ q := by
            rintro rfl
            cases hq.symm.trans (h.fresh p hp)
          simp only [hheap, if_neg hpq]
          exact h.fresh p hp }

/-- Freeing the oldest job and moving `tail` to its `prev`, as the sweep and
    `thpool_jobqueue_empty` do. -/
theorem QueueWf.removeTail {c : Nat} {job : ThpoolJob α} {f : JobTally → JobTally}
    (h : s.QueueWf (c :: l)) (hjob : s.heap c = some job) :
    QueueWf { (s.count c f).release c with tail := job.prev, jobN := l.length } l := by
  -- No other record is freed with it
  have hcl : c ∉ l := (List.nodup_cons.mp h.nodup).1
  have hne : ∀ p ∈ l, p ≠ c := fun p hp => ne_of_mem_of_not_mem hp hcl
  have hlink : s.link c = job.prev := by simp only [link, hjob, Option.bind_some]
  exact {
    chain := by
      refine LinkChain.congr (f := s.link) (hlink ▸ h.chain.2) fun a ha => ?_
      simp only [link, release, count, Function.update_of_ne (hne a ha)]
    length := rfl
    nodup := (List.nodup_cons.mp h.nodup).2
    head := fun hn => h.head_tail (List.ne_nil_of_length_pos (by simp only at hn; omega))
    live := by
      intro p hp
      simp only [release, count, Function.update_of_ne (hne p hp)]
      exact h.live p (List.mem_cons_of_mem c hp)
    fresh := by
      intro p hp
      have hpc : p ≠ c := by
        rintro rfl
        cases hjob.symm.trans (h.fresh p hp)
      simp only [release, count, Function.update_of_ne hpc]
      exact h.fresh p hp }

/-! ### Sequences of operations -/

/-- An operation on the queue, executed atomically. -/
inductive QueueOp (α : Type) where
  /-- `thpool_add_work` at time `now`. -/
  | addWork (now : Int) (arg : α)
  /-- `thpool_jobqueue_peek`, then `thpool_jobqueue_removelast`. -/
  | dequeue
  /-- `delete_timeout_job` at time `now`. -/
  | deleteTimeoutJob (now timeOut : Int)

/-- What an operation returns. -/
inductive QueueResult (α : Type) where
  | added
  /-- The job peeked at, `none` if `thpool_jobqueue_removelast` returned -1. -/
  | dequeued (job : Option ((α × Int) × Nat))
  /-- `delete_number` -/
  | deleted (n : Nat)

/-- An operation on the linked queue. -/
def queueStep (s : Thpool α) : QueueOp α → Option (QueueResult α × Thpool α)
  | .addWork now arg => (s.thpoolAddWork now arg).map fun s' => (.added, s')
  | .dequeue =>
    s.thpoolJobqueueRemovelast.map fun (r, s') =>
      (.dequeued (if r = 0 then s.thpoolJobqueuePeek.bind s'.entry else none), s')
  | .deleteTimeoutJob now timeOut =>
    (s.deleteTimeoutJob s.tail now timeOut).map fun s' => (.deleted (s.jobN - s'.jobN), s')

/-- A sequence of operations, with their results. -/
def queueRun (s : Thpool α) : List (QueueOp α) → Option (List (QueueResult α) × Thpool α)
  | [] => some ([], s)
  | op :: ops =>
    (s.queueStep op).bind fun (r, s') => (s'.queueRun ops).map fun (rs, t) => (r :: rs, t)

/-- The test of `delete_timeout_job` on a job. -/
def overdue (now timeOut : Int) (e : (α × Int) × Nat) : Bool := now - e.1.2 > timeOut

/-- An operation on the queue that the linked queue stands for. An entry is numbered
    by those that joined before it. -/
def fifoStep (q : Fifo ((α × Int) × Nat)) : QueueOp α →
    QueueResult α × Fifo ((α × Int) × Nat)
  | .addWork now arg => (.added, q.add ((arg, now), q.entries.length))
  | .dequeue => (.dequeued q.queue.head?, q.take)
  | .deleteTimeoutJob now timeOut =>
    (.deleted (q.expired (overdue now timeOut)), q.expire (overdue now timeOut))

/-- A sequence of operations on it, with their results. -/
def fifoRun (q : Fifo ((α × Int) × Nat)) : List (QueueOp α) →
    List (QueueResult α) × Fifo ((α × Int) × Nat)
  | [] => ([], q)
  | op :: ops => ((fifoStep q op).1 :: (fifoRun (fifoStep q op).2 ops).1,
      (fifoRun (fifoStep q op).2 ops).2)

/-- The job and time that an operation adds. -/
def QueueOp.inserted : QueueOp α → Option (α × Int)
  | .addWork now arg => some (arg, now)
  | _ => none

/-- The linked queue stands for `q`: its chain holds the entries of `q`, and the jobs
    allocated so far are the entries that ever joined `q`. -/
structure Represents (s : Thpool α) (q : Fifo ((α × Int) × Nat)) : Prop where
  wf : s.QueueWf (q.queue.map Prod.snd)
  entries : ∀ e ∈ q.queue, s.entry e.2 = some e
  numbered : q.entries.map Prod.snd = List.range s.allocated

/-- The entries of `q` stay what they are if the entries at their addresses do. -/
private theorem Represents.remove {q : Fifo ((α × Int) × Nat)} (h : s.Represents q) (n : Nat)
    (hwf : s'.QueueWf ((q.drop n).queue.map Prod.snd))
    (hentry : ∀ e ∈ (q.drop n).queue, s'.entry e.2 = s.entry e.2)
    (halloc : s'.allocated = s.allocated) : s'.Represents (q.drop n) where
  wf := hwf
  entries e he := (hentry e he).trans (h.entries e (List.mem_of_mem_drop he))
  numbered := by rw [Fifo.entries_drop, halloc, h.numbered]

/-- `thpool_add_work` -/
theorem Represents.addWork {q : Fifo ((α × Int) × Nat)} (h : s.Represents q) (now : Int)
    (arg : α) : ∃ s', s.thpoolAddWork now arg = some s' ∧
      s'.Represents (q.add ((arg, now), q.entries.length)) := by
  obtain ⟨s', hs', hwf, halloc, hnew, hentry, -⟩ := h.wf.addWork now arg
  have hlen : q.entries.length = s.allocated := by
    have := congrArg List.length h.numbered
    simpa using this
  refine ⟨s', hs', ?_⟩
  rw [hlen]
  refine ⟨?_, ?_, ?_⟩
  · rw [Fifo.add, List.map_append]
    exact hwf
  · intro e he
    rcases List.mem_append.mp he with he | he
    -- A queued record is live, so it is not the new one
    · have hne : e.2 ≠ s.allocated := by
        intro heq
        obtain ⟨job, hj⟩ := h.wf.live e.2 (List.mem_map_of_mem he)
        cases hj.symm.trans (h.wf.fresh e.2 (Nat.le_of_eq heq.symm))
      exact (hentry e.2 hne).trans (h.entries e he)
    · obtain rfl := List.mem_singleton.mp he
      exact hnew
  · rw [Fifo.entries_add, List.map_append, h.numbered, halloc, List.range_succ]
    rfl

/-- `thpool_jobqueue_peek` and `thpool_jobqueue_removelast` -/
theorem Represents.dequeue {q : Fifo ((α × Int) × Nat)} (h : s.Represents q) :
    ∃ s', s.queueStep .dequeue = some (.dequeued q.queue.head?, s') ∧ s'.Represents q.take := by
  have hwf := h.wf
  cases hq : q.queue with
  | nil =>
    rw [hq] at hwf
    refine ⟨s, ?_, ?_⟩
    · simp only [queueStep, removelast_empty hwf.length.symm, Option.map_some, List.head?_nil]
      rfl
    · rw [Fifo.take, Fifo.drop_of_empty hq]
      exact h
  | cons e es =>
    rw [hq] at hwf
    obtain ⟨s', hs', hwf', hentry, -, halloc, -⟩ := hwf.removelast
    refine ⟨s', ?_, ?_⟩
    · have he : s'.entry e.2 = some e :=
        (hentry e.2).trans (h.entries e (hq ▸ List.mem_cons_self))
      simp only [queueStep, hs', Option.map_some, ↓reduceIte, hwf.peek, Option.bind_some, he,
        List.head?_cons]
    · refine h.remove 1 ?_ (fun e _ => hentry e.2) halloc
      rw [Fifo.drop, hq]
      exact hwf'

/-- The loop of `delete_timeout_job`, started at the tail. -/
theorem Represents.deleteTimeoutLoop {q : Fifo ((α × Int) × Nat)} (h : s.Represents q)
    (now timeOut : Int) :
    ∃ s', Thpool.deleteTimeoutLoop now timeOut s.jobN s.tail s = some s' ∧
      s'.Represents (q.expire (overdue now timeOut)) := by
  obtain ⟨es, hq⟩ : ∃ es, q.queue = es := ⟨_, rfl⟩
  induction es generalizing s q with
  | nil =>
    have hn : s.jobN = 0 := by
      rw [← h.wf.length, hq, List.map_nil, List.length_nil]
    refine ⟨s, by rw [hn]; rfl, ?_⟩
    rw [Fifo.expire, Fifo.drop_of_empty hq]
    exact h
  | cons e es ih =>
    have hwf := h.wf
    have he := h.entries e (hq ▸ List.mem_cons_self)
    rw [hq] at hwf
    obtain ⟨job, hjob⟩ := hwf.live e.2 List.mem_cons_self
    have hn : s.jobN = es.length + 1 := by
      rw [← hwf.length, List.map_cons, List.length_cons, List.length_map]
    have htime : job.jobCreateTime = e.1.2 := by
      rw [entry, hjob, Option.map_some, Option.some.injEq] at he
      exact congrArg (fun x => x.1.2) he
    rw [hn, hwf.chain.1]
    simp only [Thpool.deleteTimeoutLoop_some, hjob, Option.bind_some, htime]
    by_cases hexp : now - e.1.2 > timeOut
    · -- Expired: freed, and the loop goes on with its `prev`
      rw [if_pos hexp, Fifo.expire_cons hq (decide_eq_true hexp)]
      have hwf' := hwf.removeTail (f := fun t => { t with swept := t.swept + 1 }) hjob
      have htake : q.take.queue = es := by rw [Fifo.take, Fifo.drop, hq]; rfl
      have hentry : ∀ e' ∈ es, ((s.count e.2 fun t => { t with swept := t.swept + 1 }).release
          e.2).entry e'.2 = s.entry e'.2 := by
        intro e' he'
        have hne : e'.2 ≠ e.2 := by
          intro heq
          exact (List.nodup_cons.mp hwf.nodup).1 (heq ▸ List.mem_map_of_mem he')
        simp only [entry, release, count, Function.update_of_ne hne]
      obtain ⟨s', hs', hrep⟩ := ih (h.remove 1 (htake ▸ hwf') (htake ▸ hentry) (by rfl)) htake
      rw [List.length_map, htake] at hs'
      exact ⟨s', hs', hrep⟩
    -- The oldest is young enough: so the loop ends, whatever the others are
    · rw [if_neg hexp, Fifo.expire, Fifo.expired_of_not hq (decide_eq_false hexp), Fifo.drop_zero]
      exact ⟨s, rfl, h⟩

/-- `delete_timeout_job` -/
theorem Represents.deleteTimeoutJob {q : Fifo ((α × Int) × Nat)} (h : s.Represents q)
    (now timeOut : Int) :
    ∃ s', s.queueStep (.deleteTimeoutJob now timeOut) =
        some (.deleted (q.expired (overdue now timeOut)), s') ∧
      s'.Represents (q.expire (overdue now timeOut)) := by
  obtain ⟨s', hs', hrep⟩ := h.deleteTimeoutLoop now timeOut
  refine ⟨s', ?_, hrep⟩
  have hlen : q.expired (overdue now timeOut) ≤ q.queue.length :=
    (List.takeWhile_prefix _).length_le
  have hn : s.jobN = q.queue.length := by rw [← h.wf.length, List.length_map]
  have hn' : s'.jobN = q.queue.length - q.expired (overdue now timeOut) := by
    rw [← hrep.wf.length, List.length_map, Fifo.expire, Fifo.drop, List.length_drop]
  have hsub : s.jobN - s'.jobN = q.expired (overdue now timeOut) := by omega
  simp only [queueStep, Thpool.deleteTimeoutJob, hs', Option.map_some, hsub]

/-- Every operation does to the linked queue what it does to the queue it stands for. -/
theorem Represents.step {q : Fifo ((α × Int) × Nat)} (h : s.Represents q) (op : QueueOp α) :
    ∃ s', s.queueStep op = some ((fifoStep q op).1, s') ∧ s'.Represents (fifoStep q op).2 := by
  cases op with
  | addWork now arg =>
    obtain ⟨s', hs', hrep⟩ := h.addWork now arg
    exact ⟨s', by simp only [queueStep, hs', Option.map_some, fifoStep], hrep⟩
  | dequeue => exact h.dequeue
  | deleteTimeoutJob now timeOut => exact h.deleteTimeoutJob now timeOut

/-- So does every sequence of operations. -/
theorem Represents.run {q : Fifo ((α × Int) × Nat)} (h : s.Represents q) (ops : List (QueueOp α)) :
    ∃ s', s.queueRun ops = some ((fifoRun q ops).1, s') ∧ s'.Represents (fifoRun q ops).2 := by
  induction ops generalizing s q with
  | nil => exact ⟨s, rfl, h⟩
  | cons op ops ih =>
    obtain ⟨t, ht, hrep⟩ := h.step op
    obtain ⟨s', hs', hrep'⟩ := ih hrep
    exact ⟨s', by simp only [queueRun, ht, Option.bind_some, hs', Option.map_some, fifoRun], hrep'⟩

/-- The entries that ever joined are what was inserted, numbered from 0. -/
theorem fifoRun_entries (q : Fifo ((α × Int) × Nat)) (ops : List (QueueOp α)) :
    (fifoRun q ops).2.entries =
      q.entries ++ (ops.filterMap QueueOp.inserted).zipIdx q.entries.length := by
  induction ops generalizing q with
  | nil => rw [fifoRun, List.filterMap_nil, List.zipIdx_nil, List.append_nil]
  | cons op ops ih =>
    rw [fifoRun, ih]
    cases op with
    | addWork now arg =>
      simp only [fifoStep, Fifo.entries_add, List.length_append, List.length_singleton,
        List.append_assoc, List.singleton_append, List.filterMap_cons, QueueOp.inserted,
        List.zipIdx_cons]
    | dequeue => simp only [fifoStep, Fifo.entries_take, List.filterMap_cons, QueueOp.inserted]
    | deleteTimeoutJob now timeOut =>
      simp only [fifoStep, Fifo.entries_expire, List.filterMap_cons, QueueOp.inserted]

/-- Every sequence of operations on the queue made by `thpool_init` succeeds and returns
    what it returns on a FIFO queue with expiry. The chain from `tail` along `prev` is then
    the list of the jobs left, in order of insertion and `jobN` long; together with the
    jobs that have left, oldest first, they are the jobs inserted. -/
theorem job_queue_refines_fifo (n : Int) (ops : List (QueueOp α)) :
    ∃ s, (thpoolInit n).queueRun ops = some ((fifoRun .empty ops).1, s) ∧
      LinkChain s.link s.tail ((fifoRun .empty ops).2.queue.map Prod.snd) ∧
      (fifoRun .empty ops).2.queue.length = s.jobN ∧
      (∀ e ∈ (fifoRun .empty ops).2.queue, s.entry e.2 = some e) ∧
      (fifoRun .empty ops).2.removed ++ (fifoRun .empty ops).2.queue =
        (ops.filterMap QueueOp.inserted).zipIdx := by
  have hinit : (thpoolInit n : Thpool α).Represents .empty :=
    ⟨queueWf_init n, fun e he => absurd he List.not_mem_nil, rfl⟩
  obtain ⟨s, hs, hrep⟩ := hinit.run ops
  refine ⟨s, hs, hrep.wf.chain, ?_, hrep.entries, ?_⟩
  · rw [← hrep.wf.length, List.length_map]
  · have hentries := fifoRun_entries .empty ops
    rwa [Fifo.entries_empty, List.nil_append] at hentries

end Thpool

end JQServer
