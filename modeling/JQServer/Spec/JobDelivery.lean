import JQServer.Spec.PoolRefinement
import JQServer.Spec.Receiving
import JQServer.Spec.ServerMoves

/-!
# Delivery of messages to the workers

The pool inside the server is a pool: `pool_projection` reads its steps off the steps of the
server. With `pool_simulates` the jobs of every run of the server, as long as its sweeps are
safe, are those of a work queue.

`messages_delivered` follows the bytes from `recv` to the worker. The messages that workers
take are messages received, in this order and each at most once. Every message received is
taken, in the queue, about to be added, deleted by `delete_timeout_job`, or lost because
`malloc` failed.
-/

namespace JQServer

namespace Server

open Transition

variable {s s' : Server}

/-- The steps of the pool in a step of the server. -/
def poolActions (s : Server) : Action → List (Thpool.Action JobParameter)
  | .worker a => [a]
  | .sweepSlot =>
    match s.loop with
    | .sweeping k _ => if k < maxEvents then [] else [.sweepRead]
    | _ => []
  | .sweepJobs now => [.sweepLocked now serverTimeout]
  | .op =>
    match s.ops with
    | .enqueue now arg :: _ => [.addWork now arg]
    | _ => []
  | _ => []

/-- The critical section of `delete_timeout_job` can touch no job that a worker has. -/
def SafeSweeps (s : Server) : Action → Prop
  | .sweepJobs now => s.pool.SweepSafe (.sweepLocked now serverTimeout)
  | _ => True

private theorem run_one {p p' : Thpool JobParameter} {b : Thpool.Action JobParameter}
    (h : p.step b = some p') (hsafe : p.SweepSafe b) :
    (Thpool.system JobParameter).run p [b] = some p' ∧
      (Thpool.system JobParameter).Meets Thpool.SweepSafe p [b] := by
  constructor
  · rw [System.run_cons, show (Thpool.system JobParameter).step p b = some p' from h]
    rfl
  · exact ⟨hsafe, fun _ _ => trivial⟩

/-- What a step of the server does to the pool. -/
theorem pool_run {a : Action} (h : s.step a = some s') (hsafe : s.SafeSweeps a) :
    (Thpool.system JobParameter).run s.pool (s.poolActions a) = some s'.pool ∧
      (Thpool.system JobParameter).Meets Thpool.SweepSafe s.pool (s.poolActions a) := by
  obtain hm | hm | hm := (step_moves h).2
  · cases hm <;> exact ⟨rfl, trivial⟩
  · cases hm with
    | @readSlot now i hl ho hfd =>
      simp only [poolActions, hl, i.isLt, ↓reduceIte]
      exact ⟨rfl, trivial⟩
    | @skipSlot now i hl ho hfd =>
      simp only [poolActions, hl, i.isLt, ↓reduceIte]
      exact ⟨rfl, trivial⟩
    | @sweepRead k now pool hl ho hk hp =>
      simp only [poolActions, hl, Nat.not_lt.mpr hk, ↓reduceIte]
      exact run_one hp trivial
    | sweepJobs _ _ hp => exact run_one hp hsafe
    | op ho hop =>
      cases hop with
      | enqueue hp =>
        simp only [poolActions, ho]
        exact run_one hp trivial
      | _ =>
        simp only [poolActions, ho]
        exact ⟨rfl, trivial⟩
    | _ => exact ⟨rfl, trivial⟩
  · cases hm with
    | @thread b pool ha hp =>
      refine run_one hp ?_
      -- The sweep is no step of a worker
      cases b with
      | sweepLocked => exact nomatch ha
      | _ => trivial
    | leave hp => exact run_one hp trivial
    | crash _ ha | move ha _ =>
      obtain rfl | rfl | rfl | rfl | ⟨_, rfl⟩ := Action.eq_of_handler ha <;> exact ⟨rfl, trivial⟩
    | _ => exact ⟨rfl, trivial⟩

/-- The pool of the server is a pool. -/
theorem pool_projection : Simulation system SafeSweeps (Thpool.system JobParameter)
    Thpool.SweepSafe poolActions fun s p => p = s.pool where
  init s hi := by
    obtain ⟨t, n, rfl⟩ := hi
    exact ⟨_, ⟨n, rfl⟩, rfl⟩
  step s a s' p _ hsafe hs hp := by
    subst hp
    obtain ⟨hr, hm⟩ := pool_run hs hsafe
    exact ⟨s'.pool, hr, hm, rfl⟩

/-- The events of the work queue in a step of the server. -/
def jobEvents (s : Server) (a : Action) : List (WorkQueue.Event (JobParameter × Int)) :=
  (Thpool.system JobParameter).trace Thpool.jobEvents s.pool (s.poolActions a)

/-- The jobs of the server are those of a work queue. -/
theorem server_simulates : Simulation system SafeSweeps (WorkQueue.system (JobParameter × Int))
    (fun _ _ => True) jobEvents fun s q => s.pool.Implements q :=
  pool_projection.comp Thpool.pool_simulates

/-! ### From `recv` to the queue -/

/-- The message that a step receives and is going to queue, with the time of its job. -/
def messages (s : Server) : Action → List (JobParameter × Int)
  | .recv result now =>
    match s.loop with
    | .receiving _ fd _ =>
      match s.fds fd, recvBufferFromFd result with
      | some conn, some data => [(.received data fd conn, now)]
      | _, _ => []
    | _ => []
  | _ => []

/-- The messages that the event loop is about to add. -/
def pendingJobs : List LoopOp → List (JobParameter × Int)
  | [] => []
  | .enqueue now arg :: ops => (arg, now) :: pendingJobs ops
  | _ :: ops => pendingJobs ops

/-- How often `malloc` fails in `thpool_add_work`. -/
def failedMallocs : List Action → Nat
  | [] => 0
  | .mallocFail :: as => failedMallocs as + 1
  | _ :: as => failedMallocs as

/-- The jobs that a step adds. -/
def addedJobs (s : Server) (a : Action) : List (JobParameter × Int) :=
  (s.jobEvents a).filterMap WorkQueue.Event.added

/-- The jobs that a step hands to a worker. -/
def takenJobs (s : Server) (a : Action) : List ((JobParameter × Int) × Nat) :=
  (s.jobEvents a).filterMap WorkQueue.Event.taken

/-- The events of a step of the pool. -/
theorem jobEvents_of {a : Action} {b : Thpool.Action JobParameter} (h : s.poolActions a = [b]) :
    s.jobEvents a = s.pool.jobEvents b := by
  rw [jobEvents, h, System.trace_singleton]

/-- Only `thpool_add_work` adds jobs. -/
private theorem added_eq_nil (p : Thpool JobParameter) {b : Thpool.Action JobParameter}
    (hb : ∀ now arg, b ≠ .addWork now arg) :
    (p.jobEvents b).filterMap WorkQueue.Event.added = [] := by
  cases b with
  | addWork now arg => exact absurd rfl (hb now arg)
  | sweepLocked now timeOut =>
    simp only [Thpool.jobEvents]
    split <;> rfl
  | dequeue w =>
    simp only [Thpool.jobEvents]
    cases p.tail.bind p.entry <;> rfl
  | execute w =>
    simp only [Thpool.jobEvents]
    cases (p.workers w).job.bind p.entry <;> rfl
  | _ => rfl

/-- A step that is not about messages. -/
private theorem no_messages {a : Action} (hops : pendingJobs s'.ops = pendingJobs s.ops)
    (hm : s.messages a = []) (hadd : s.addedJobs a = []) (hf : failedMallocs [a] = 0) :
    ∃ lost, pendingJobs s.ops ++ s.messages a = s.addedJobs a ++ lost ++ pendingJobs s'.ops ∧
      lost.length = failedMallocs [a] := by
  refine ⟨[], ?_, hf.symm⟩
  rw [hops, hm, hadd, List.append_nil, List.append_nil, List.nil_append]

/-- What is pending or received is added, lost because `malloc` fails, or still pending. -/
theorem step_messages {a : Action} (h : s.step a = some s') :
    ∃ lost, pendingJobs s.ops ++ s.messages a = s.addedJobs a ++ lost ++ pendingJobs s'.ops ∧
      lost.length = failedMallocs [a] := by
  have hone : ∀ {b}, s.poolActions a = [b] → (∀ now arg, b ≠ .addWork now arg) →
      s.addedJobs a = [] := by
    intro b hp hb
    rw [addedJobs, jobEvents_of hp, added_eq_nil s.pool hb]
  have hnone : s.poolActions a = [] → s.addedJobs a = [] := by
    intro hp
    rw [addedJobs, jobEvents, hp]
    rfl
  obtain hm | hm | hm := (step_moves h).2
  -- The accept thread has nothing to do with messages
  · cases hm <;> exact no_messages rfl rfl rfl rfl
  · cases hm with
    | wait hl ho => exact no_messages rfl rfl rfl rfl
    | startSweep hl ho => exact no_messages rfl rfl rfl rfl
    | readSlot hl ho hfd =>
      refine no_messages rfl rfl (hnone ?_) rfl
      simp only [poolActions, hl, Fin.is_lt, ↓reduceIte]
    | skipSlot hl ho hfd =>
      refine no_messages rfl rfl (hnone ?_) rfl
      simp only [poolActions, hl, Fin.is_lt, ↓reduceIte]
    | sweepSlot hl ho ht => exact no_messages (by rw [ho]; rfl) rfl rfl rfl
    | sweepKeep hl ho ht => exact no_messages (by rw [ho]) rfl rfl rfl
    | sweepRead hl ho hk hp =>
      refine no_messages rfl rfl (hone (b := .sweepRead) ?_ nofun) rfl
      simp only [poolActions, hl, Nat.not_lt.mpr hk, ↓reduceIte]
    | sweepJobs hl ho hp => exact no_messages (by rw [ho]; rfl) rfl (hone rfl nofun) rfl
    | epollWait hl ho hn hr => exact no_messages rfl rfl rfl rfl
    | endEvents hl ho => exact no_messages rfl rfl rfl rfl
    | invalidRead hl ho hfd => exact no_messages (by rw [ho]; rfl) rfl rfl rfl
    | unmatched hl ho hi => exact no_messages (by rw [ho]; rfl) rfl rfl rfl
    | matched hl ho hi hin => exact no_messages rfl rfl rfl rfl
    -- The steps of an event are chosen here; none of them adds work
    | @errorEvent e es hl ho =>
      refine no_messages ?_ rfl rfl rfl
      rw [ho]
      show pendingJobs (s.errorEventOps e.fd) = []
      unfold errorEventOps
      split <;> rfl
    | recvClosed hl ho hfd =>
      refine no_messages (by rw [ho]; rfl) ?_ rfl rfl
      simp only [messages, hl, hfd]
    | @recv i fd now es conn result hl ho hfd =>
      -- A message that `recv_buffer_from_fd` returns is pending from here on
      cases hrecv : recvBufferFromFd result with
      | none =>
        refine no_messages (by rw [ho]; rfl) ?_ rfl rfl
        simp only [messages, hl, hfd, hrecv]
      | some data =>
        refine ⟨[], ?_, rfl⟩
        simp only [ho, messages, hl, hfd, hrecv, addedJobs, jobEvents, poolActions]
        rfl
    | @op op ops s' ho hop =>
      cases hop with
      | @enqueue now arg pool hp =>
        have hadd : s.addedJobs .op = [(arg, now)] := by
          rw [addedJobs, jobEvents_of (b := .addWork now arg) (by simp only [poolActions, ho])]
          rfl
        refine ⟨[], ?_, rfl⟩
        rw [hadd, ho]
        show pendingJobs (.enqueue now arg :: ops) ++ [] = _
        rw [List.append_nil]
        rfl
      | _ =>
        refine no_messages (by rw [ho]; rfl) rfl (hnone ?_) rfl
        simp only [poolActions, ho]
    -- The one step that loses a message
    | @mallocFail now arg ops ho =>
      refine ⟨[(arg, now)], ?_, rfl⟩
      rw [ho]
      show pendingJobs (.enqueue now arg :: ops) ++ [] = _
      rw [List.append_nil]
      rfl
    | epollDelFail ho => exact no_messages (by rw [ho]; rfl) rfl rfl rfl
  -- The workers only take
  · cases hm with
    | @thread b pool ha hp =>
      refine no_messages rfl rfl (hone rfl ?_) rfl
      intro now arg hb
      rw [hb] at ha
      exact nomatch ha
    | leave hp => exact no_messages rfl rfl (hone rfl nofun) rfl
    | crash _ ha | move ha _ =>
      obtain rfl | rfl | rfl | rfl | ⟨_, rfl⟩ := Action.eq_of_handler ha <;>
        exact no_messages rfl rfl rfl rfl
    | _ => exact no_messages rfl rfl rfl rfl

private theorem failedMallocs_append (as bs : List Action) :
    failedMallocs (as ++ bs) = failedMallocs as + failedMallocs bs := by
  induction as with
  | nil => exact (Nat.zero_add _).symm
  | cons a as ih =>
    cases a with
    | mallocFail =>
      simp only [List.cons_append, failedMallocs, ih]
      omega
    | _ => simpa only [List.cons_append, failedMallocs] using ih

/-- What has been added or is pending has been received, in this order, and `malloc` failed
    for the rest. -/
theorem added_sublist_received {t n : Int} {as : List Action}
    (hr : system.run (start t n) as = some s) :
    (system.trace addedJobs (start t n) as ++ pendingJobs s.ops).Sublist
        (system.trace messages (start t n) as) ∧
      (system.trace messages (start t n) as).length =
        (system.trace addedJobs (start t n) as).length + (pendingJobs s.ops).length +
          failedMallocs as := by
  refine System.run_induction (C := fun _ _ => True)
    (P := fun as s => (system.trace addedJobs (start t n) as ++ pendingJobs s.ops).Sublist
        (system.trace messages (start t n) as) ∧
      (system.trace messages (start t n) as).length =
        (system.trace addedJobs (start t n) as).length + (pendingJobs s.ops).length +
          failedMallocs as) ?_ ?_ (System.meets_of_mem _ (fun _ _ _ => trivial) _) hr
  · exact ⟨.refl [], rfl⟩
  intro as s a s' _ hr ih _ hs
  obtain ⟨hsub, hlen⟩ := ih
  obtain ⟨lost, heq, hlost⟩ := step_messages hs
  rw [System.trace_snoc hr hs, System.trace_snoc hr hs, failedMallocs_append]
  constructor
  · -- The lost message aside, the step only moves messages on
    have hmoved : (s.addedJobs a ++ pendingJobs s'.ops).Sublist
        (pendingJobs s.ops ++ s.messages a) := by
      rw [heq, List.append_assoc]
      exact (List.Sublist.refl _).append (List.sublist_append_right lost _)
    have hmore := hsub.append (.refl (s.messages a))
    rw [List.append_assoc] at hmore ⊢
    exact ((List.Sublist.refl _).append hmoved).trans hmore
  · have hcount := congrArg List.length heq
    simp only [List.length_append] at hcount ⊢
    omega

/-! ### From the queue to the workers -/

/-- A step of the pool: a job added or taken changes `jobN`, and so does the sweep. -/
private theorem pool_jobs {p p' : Thpool JobParameter} {b : Thpool.Action JobParameter}
    {l : List Nat} (hwf : p.Wf l) (hb : b.worker.isSome = true ∨ b = .sweepRead ∨
      ∃ now arg, b = .addWork now arg) (hs : p.step b = some p') :
    ((p.jobEvents b).filterMap WorkQueue.Event.taken).length + p'.jobN =
      ((p.jobEvents b).filterMap WorkQueue.Event.added).length + p.jobN := by
  cases (Thpool.step_moves hs).2 with
  | addWork hm hx =>
    obtain ⟨t, ht, htwf, -⟩ := hwf.addWork _ _
    rw [Thpool.outcome_some ht]
    -- One job more in the queue, one more added
    have hlen := htwf.length
    rw [List.length_append, hwf.length, List.length_singleton] at hlen
    show 0 + t.jobN = 1 + p.jobN
    omega
  | @dequeue w hw hp hx =>
    have htail := hwf.chain.head?
    cases l with
    | nil =>
      -- The worker returns with the mutex locked and takes nothing
      rw [Thpool.outcome_some (hwf.dequeue_empty w)]
      simp only [Thpool.jobEvents, htail, List.head?_nil, Option.bind_none, Option.map_none]
      rfl
    | cons c l =>
      obtain ⟨t, ht, htwf, -⟩ := hwf.dequeue (w := w) (by rw [hp]; rfl)
      -- The last job of the queue is allocated, so its entry is what is taken
      obtain ⟨e, he⟩ : ∃ e, p.entry c = some e := by
        have hlive := (hwf.queued c List.mem_cons_self).1
        rw [Thpool.exists_job_iff] at hlive
        exact Option.isSome_iff_exists.mp hlive
      rw [Thpool.outcome_some ht]
      have hlen := hwf.length
      rw [List.length_cons, htwf.length] at hlen
      simp only [Thpool.jobEvents, htail, List.head?_cons, Option.bind_some, he, Option.map_some]
      show 1 + t.jobN = 0 + p.jobN
      omega
  | @execute w c hw hp =>
    obtain ⟨t, ht, -, -, -, -, -, -, -, -, -, hjob, -⟩ := hwf.execute hp
    rw [Thpool.outcome_some ht, hjob]
    simp only [Thpool.jobEvents]
    cases (p.workers w).job.bind p.entry <;> rfl
  | free hw hp =>
    obtain ⟨t, ht, -, -, -, -, -, -, -, -, -, hjob, -⟩ := hwf.free hp
    rw [Thpool.outcome_some ht, hjob]
    rfl
  | sweepLocked hm hx =>
    obtain hb | hb | ⟨now, arg, hb⟩ := hb
    · cases hb
    · cases hb
    · cases hb
  | empty hm =>
    obtain hb | hb | ⟨now, arg, hb⟩ := hb
    · cases hb
    · cases hb
    · cases hb
  | _ => rfl

/-- Only the sweep counts deleted jobs. -/
private theorem deletedJobs_eq {a : Action} (ha : ∀ now, a ≠ .sweepJobs now)
    (h : s.step a = some s') : s'.deletedJobs = s.deletedJobs := by
  obtain hm | hm | hm := (step_moves h).2
  · cases hm <;> rfl
  · cases hm with
    | sweepJobs hl ho hp => exact absurd rfl (ha _)
    | op ho hop => cases hop <;> rfl
    | _ => rfl
  · exact hm.sameNet.deletedJobs

/-- The steps of the pool, but for the sweep, are one at most. -/
private theorem poolActions_cases {a : Action} (ha : ∀ now, a ≠ .sweepJobs now)
    (h : s.step a = some s') : s.poolActions a = [] ∨ ∃ b, s.poolActions a = [b] ∧
      (b.worker.isSome = true ∨ b = .sweepRead ∨ ∃ now arg, b = .addWork now arg) := by
  obtain hm | hm | hm := (step_moves h).2
  · cases hm <;> exact .inl rfl
  · cases a with
    | sweepJobs now => exact absurd rfl (ha now)
    -- Behind the last slot `delete_timeout_job` is entered
    | sweepSlot =>
      simp only [poolActions]
      split
      · split
        · exact .inl rfl
        · exact .inr ⟨_, rfl, .inr (.inl rfl)⟩
      · exact .inl rfl
    | op =>
      simp only [poolActions]
      split
      · exact .inr ⟨_, rfl, .inr (.inr ⟨_, _, rfl⟩)⟩
      · exact .inl rfl
    | worker b => exact nomatch hm
    | _ => exact .inl rfl
  · cases hm with
    | thread hb hp => exact .inr ⟨_, rfl, .inl hb⟩
    | leave hp => exact .inr ⟨_, rfl, .inl rfl⟩
    | crash _ ha | move ha _ =>
      obtain rfl | rfl | rfl | rfl | ⟨_, rfl⟩ := Action.eq_of_handler ha <;> exact .inl rfl
    | _ => exact .inl rfl

/-- What a step does to the jobs added, taken and deleted so far. -/
theorem step_jobs {a : Action} {l : List Nat} (hwf : s.pool.Wf l) (h : s.step a = some s') :
    (s.takenJobs a).length + s'.pool.jobN + s'.deletedJobs =
      (s.addedJobs a).length + s.pool.jobN + s.deletedJobs := by
  by_cases hsweep : ∃ now, a = .sweepJobs now
  -- The sweep takes and adds nothing; `deletedJobs` counts what it deletes
  · obtain ⟨now, rfl⟩ := hsweep
    have hevents : s.jobEvents (.sweepJobs now) =
        s.pool.jobEvents (.sweepLocked now serverTimeout) := jobEvents_of rfl
    obtain hm | hm | hm := (step_moves h).2
    · cases hm
    · cases hm with
      | @sweepJobs _ pool hl ho hp =>
        have hle := (Thpool.sweepLocked_jobN hp).1
        have htaken : s.takenJobs (.sweepJobs now) = [] := by
          rw [takenJobs, hevents]
          simp only [Thpool.jobEvents]
          split <;> rfl
        have hadded : s.addedJobs (.sweepJobs now) = [] := by
          rw [addedJobs, hevents,
            added_eq_nil s.pool (b := .sweepLocked now serverTimeout) (by simp)]
        rw [htaken, hadded]
        show 0 + pool.jobN + (s.deletedJobs + (s.pool.jobN - pool.jobN)) = _
        rw [List.length_nil]
        omega
    · cases hm with
      | crash _ ha | move ha _ => cases ha
  · have ha : ∀ now, a ≠ .sweepJobs now := fun now heq => hsweep ⟨now, heq⟩
    have hsafe : s.SafeSweeps a := by
      cases a with
      | sweepJobs now => exact absurd rfl (ha now)
      | _ => trivial
    have hrun := (pool_run h hsafe).1
    rw [deletedJobs_eq ha h]
    obtain hp | ⟨b, hp, hb⟩ := poolActions_cases ha h
    · -- The pool is left alone
      rw [hp] at hrun
      rw [takenJobs, addedJobs, jobEvents, hp, ← Option.some.inj hrun]
      rfl
    -- One step of the pool, by the lemma above
    · rw [hp] at hrun
      obtain ⟨p, hs, hrun⟩ := System.run_cons_some hrun
      obtain rfl := Option.some.inj hrun
      have hjobs := pool_jobs hwf hb hs
      rw [takenJobs, addedJobs, jobEvents_of hp]
      omega

/-- Every job added was taken, was deleted by the sweep, or is in the queue. -/
theorem added_accounted {t n : Int} {as : List Action}
    (hsafe : system.Meets SafeSweeps (start t n) as) (hr : system.run (start t n) as = some s) :
    (system.trace addedJobs (start t n) as).length =
      (system.trace takenJobs (start t n) as).length + s.pool.jobN + s.deletedJobs := by
  refine System.run_induction (C := SafeSweeps)
    (P := fun as s => (system.trace addedJobs (start t n) as).length =
      (system.trace takenJobs (start t n) as).length + s.pool.jobN + s.deletedJobs) rfl ?_ hsafe hr
  intro as s a s' hm hr ih _ hs
  -- The pool of a reached state is well formed, as it implements a work queue
  obtain ⟨q, -, himp⟩ := server_simulates.reach (Reach.run (.init ⟨t, n, rfl⟩) hm hr)
  have hjobs := step_jobs himp.wf hs
  rw [System.trace_snoc hr hs, System.trace_snoc hr hs, List.length_append, List.length_append]
  omega

/-- Workers take messages that were received, in this order and each at most once. A message
    received is taken or in the queue, or the event loop is about to add it, or
    `delete_timeout_job` has deleted it, or `malloc` failed for it. -/
theorem messages_delivered {t n : Int} {as : List Action}
    (hsafe : system.Meets SafeSweeps (start t n) as) (hr : system.run (start t n) as = some s) :
    ((system.trace takenJobs (start t n) as).map Prod.fst).Sublist
        (system.trace messages (start t n) as) ∧
      (system.trace messages (start t n) as).length =
        (system.trace takenJobs (start t n) as).length + s.pool.jobN + (pendingJobs s.ops).length +
          s.deletedJobs + failedMallocs as := by
  obtain ⟨q, q', hq, -, hrun, -⟩ := server_simulates.run_init ⟨t, n, rfl⟩ hsafe hr
  obtain rfl : q = .empty := hq
  -- From `recv` to the queue; the queue then hands out in order
  obtain ⟨hsub, hlen⟩ := added_sublist_received hr
  have hadded : system.trace addedJobs (start t n) as =
      (system.trace jobEvents (start t n) as).filterMap WorkQueue.Event.added :=
    System.trace_filterMap _ _ _
  have htaken : system.trace takenJobs (start t n) as =
      (system.trace jobEvents (start t n) as).filterMap WorkQueue.Event.taken :=
    System.trace_filterMap _ _ _
  constructor
  · have horder := (WorkQueue.taken_sublist hrun).map Prod.fst
    rw [← htaken, ← hadded, List.zipIdx_map_fst] at horder
    exact horder.trans ((List.sublist_append_left _ _).trans hsub)
  · have haccount := added_accounted hsafe hr
    omega

/-- Two messages are received, and a worker takes the first. -/
private def deliveryRun : List Action :=
  acceptRun { fd := 5, addr := .zero _, port := 80 } 0 ++ receiveRun 5 (sendUIBytes [97]) 0 ++
    receiveRun 5 (sendUIBytes [98]) 0 ++ takeJobRun 0

set_option maxRecDepth 100000 in
/-- The first message is with the worker, and the other one is in the queue. -/
theorem messages_delivered_two :
    ∃ s, system.run (start 0) deliveryRun = some s ∧ s.pool.jobN = 1 ∧
      ((system.trace takenJobs (start 0) deliveryRun).map Prod.fst).Sublist
        (system.trace messages (start 0) deliveryRun) ∧
      (system.trace messages (start 0) deliveryRun).length =
        (system.trace takenJobs (start 0) deliveryRun).length + s.pool.jobN +
          (pendingJobs s.ops).length + s.deletedJobs + failedMallocs deliveryRun := by
  have hrun : ∃ s, system.run (start 0) deliveryRun = some s ∧ s.pool.jobN = 1 := ⟨_, rfl, rfl⟩
  obtain ⟨s, hs, hjobs⟩ := hrun
  have hsafe : system.Meets SafeSweeps (start 0) deliveryRun := by
    apply System.meets_of_mem
    intro a ha s
    cases a with
    | sweepJobs now =>
      simp [deliveryRun, acceptRun, fillRun, receiveRun, takeJobRun] at ha
    | _ => trivial
  exact ⟨s, hs, hjobs, messages_delivered hsafe hs⟩

end Server

end JQServer
