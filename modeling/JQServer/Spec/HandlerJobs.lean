import JQServer.Spec.Connections
import JQServer.Spec.HandlerMoves
import JQServer.Spec.PoolInvariant

/-!
# Jobs and the handlers that run them

`Carries` says where a job can be, and `WorkerMoves.carries` and `LoopMoves.carries` where
it comes from: of bytes that the event loop received. A handler keeps the descriptor of its
job and reads the message in the job's memory again and again; `parameter_eq` says that it
finds there what it found first, as long as the job is not freed.
-/

namespace JQServer

namespace Server

variable {s s' : Server} {arg : JobParameter}

/-- A job with this parameter is in memory, about to be added, or being run. -/
inductive Carries (s : Server) (arg : JobParameter) : Prop
  | queued {p : Nat} {job : ThpoolJob JobParameter} (h : s.pool.heap p = some job)
      (harg : job.arg = arg)
  | pending {now : Int} (h : .enqueue now arg ∈ s.ops)
  | handled {w : Nat} (h : (s.handlers w).arg = some arg)

/-! ### Where jobs come from -/

/-- A state with the same handlers, in which no other job is in memory or pending. -/
theorem Carries.of_parts (h : s'.Carries arg)
    (hheap : ∀ p job, s'.pool.heap p = some job → s.Carries job.arg)
    (hops : ∀ now, .enqueue now arg ∈ s'.ops → s.Carries arg)
    (hhandlers : s'.handlers = s.handlers) : s.Carries arg := by
  cases h with
  | @queued p job h harg => exact harg ▸ hheap p job h
  | @pending now h => exact hops now h
  | handled h => exact .handled (hhandlers ▸ h)

/-- A state with the same pool and handlers, in which no other job is pending. -/
theorem Carries.of_ops (h : s'.Carries arg) (hpool : s'.pool = s.pool)
    (hops : ∀ now, .enqueue now arg ∈ s'.ops → s.Carries arg)
    (hhandlers : s'.handlers = s.handlers) : s.Carries arg := by
  refine h.of_parts (fun p job hjob => ?_) hops hhandlers
  rw [hpool] at hjob
  exact .queued hjob rfl

/-- A state with the same jobs. -/
theorem Carries.congr (h : s'.Carries arg) (hpool : s'.pool = s.pool)
    (hops : s'.ops = s.ops) (hhandlers : s'.handlers = s.handlers) : s.Carries arg :=
  h.of_ops hpool (fun _ hm => .pending (hops ▸ hm)) hhandlers

/-- There are no jobs at the start. -/
theorem not_carries_start (t n : Int) : ¬ (start t n).Carries arg := by
  intro h
  cases h with
  | queued h _ => exact nomatch h
  | pending h => exact nomatch h
  | handled h => exact nomatch h

/-- The job that a worker runs is carried. -/
theorem carries_of_parameter {w : Nat} (h : s.parameter w = some arg) : s.Carries arg := by
  simp only [parameter] at h
  split at h
  · obtain ⟨job, hjob, rfl⟩ := Option.map_eq_some_iff.mp h
    exact .queued hjob rfl
  · cases h

/-- A step of the pool that adds no job but a pending one. -/
private theorem carries_pool {a : Thpool.Action JobParameter} {pool : Thpool JobParameter}
    (hp : s.pool.step a = some pool)
    (ha : ∀ now arg, a = .addWork now arg → .enqueue now arg ∈ s.ops) (p : Nat)
    (job : ThpoolJob JobParameter) (hjob : pool.heap p = some job) : s.Carries job.arg := by
  rcases Thpool.step_args hp p job hjob with ⟨job', hq, harg⟩ | ⟨-, now, rfl⟩
  · exact .queued hq harg
  · exact .pending (ha now job.arg rfl)

/-- The handler of one worker changes: a job that it runs is carried already. -/
private theorem carries_setHandler {w : Nat} (pc : HandlerPc)
    (hpc : ∀ arg, pc.arg = some arg → s.Carries arg)
    (h : (s.setHandler w pc).Carries arg) : s.Carries arg := by
  cases h with
  | queued h harg => exact .queued h harg
  | pending h => exact .pending h
  | @handled w' h =>
    by_cases hw : w' = w
    · simp only [setHandler, hw, Function.update_self] at h
      exact hpc arg h
    · simp only [setHandler, Function.update_of_ne hw] at h
      exact .handled h

/-- A step of the accept thread leaves the jobs alone. -/
theorem AcceptMoves.carries {a : Action} (hs : s.AcceptMoves a s') (h : s'.Carries arg) :
    s.Carries arg := by
  cases hs <;> exact h.congr rfl rfl rfl

/-- A step of a worker makes no new job. -/
theorem WorkerMoves.carries {a : Action} (hs : s.WorkerMoves a s')
    (h : s'.Carries arg) : s.Carries arg := by
  -- A handler that goes on with its job
  have hgo : ∀ {w : Nat} (q : HandlerPc) {arg'}, (s.handlers w).arg = some arg' →
      (q.arg = none ∨ q.arg = some arg') → (s.setHandler w q).Carries arg → s.Carries arg := by
    intro w q arg' hw hq h
    refine carries_setHandler q (fun arg'' h' => ?_) h
    rcases hq with hq | hq
    · cases hq.symm.trans h'
    · exact .handled (hw.trans (hq.symm.trans h'))
  cases hs with
  | @thread a pool ha hp =>
    refine h.of_parts (carries_pool hp fun now arg heq => ?_) (fun _ hm => .pending hm) rfl
    rw [heq] at ha
    exact nomatch ha
  | @leave w pool hp =>
    have hrest : (s.setHandler w .entered).Carries arg → s.Carries arg :=
      carries_setHandler .entered nofun
    cases h with
    | @queued p job h harg => exact harg ▸ carries_pool hp (fun _ _ heq => nomatch heq) p job h
    | pending h => exact .pending h
    | handled h => exact hrest (.handled h)
  | crash | nullSlot => exact h.congr rfl rfl rfl
  | lookup hw hjob hfd =>
    refine carries_setHandler (.matched ..) (fun arg' heq => ?_) h
    exact Option.some.inj heq ▸ carries_of_parameter hjob
  | @handshake w arg' index hw =>
    exact hgo (w := w) (.sending ..) (by rw [hw]; rfl) (.inr rfl) (h.congr rfl rfl rfl)
  | sendUI hw => exact hgo (.sendUI ..) (by rw [hw]; rfl) (.inr rfl) h
  | @copy w arg' i field hw =>
    refine hgo (w := w) (field.next arg' i) (by rw [hw]; rfl) ?_ (h.congr rfl rfl rfl)
    cases field with
    | userId => exact .inr rfl
    | passwd => exact .inl rfl
  | @move a w pc ha hpc =>
    rcases hpc with rfl | ⟨arg', hpc, hw | ⟨⟨index, hw⟩, -, -⟩⟩
    · exact carries_setHandler .done nofun h
    · exact hgo pc (HandlerPc.arg_of_replying hw) (.inr (HandlerPc.arg_of_replying hpc)) h
    · exact hgo pc (by rw [hw]; rfl) (.inr (HandlerPc.arg_of_replying hpc)) h
  | @sent w arg' pc receiver r hw hpc hfd =>
    refine hgo (w := w) pc (HandlerPc.arg_of_replying hw) ?_ (h.congr rfl rfl rfl)
    rcases hpc with rfl | hpc
    · exact .inl rfl
    · exact .inr (HandlerPc.arg_of_replying hpc)

/-- A step of the event loop makes a job only of bytes that it received. -/
theorem LoopMoves.carries {a : Action} (hs : s.LoopMoves a s') (h : s'.Carries arg) :
    s.Carries arg ∨ ∃ i es, s.loop = .receiving i arg.fd es ∧ s.fds arg.fd = some arg.conn ∧
      ∃ result now data, a = .recv result now ∧ recvBufferFromFd result = some data ∧
        arg = .received data arg.fd arg.conn := by
  cases hs with
  | wait | startSweep | readSlot | skipSlot | epollWait | endEvents | matched =>
    exact .inl (h.congr rfl rfl rfl)
  | sweepSlot | sweepKeep | invalidRead | unmatched =>
    exact .inl (h.of_ops rfl (fun _ hm => by simp at hm) rfl)
  | errorEvent =>
    refine .inl (h.of_ops rfl (fun now hm => ?_) rfl)
    simp only [errorEventOps] at hm
    split at hm
    · simp at hm
    · simp at hm
  | recvClosed => exact .inl (h.of_ops rfl (fun _ hm => by simp [receivedOps] at hm) rfl)
  -- The one step that makes a job
  | @recv i fd now es conn result hl ho hfd =>
    cases hr : recvBufferFromFd result with
    | none => exact .inl (h.of_ops rfl (fun _ hm => by simp [receivedOps, hr] at hm) rfl)
    | some data =>
      cases h with
      | queued h harg => exact .inl (.queued h harg)
      | handled h => exact .inl (.handled h)
      | pending h =>
        -- The only job that is pending now is made of the bytes received
        simp only [receivedOps, hr, List.mem_cons, reduceCtorEq, LoopOp.enqueue.injEq,
          List.not_mem_nil, or_false, false_or] at h
        obtain ⟨-, rfl⟩ := h
        exact .inr ⟨i, es, hl, hfd, result, now, data, rfl, hr, rfl⟩
  | sweepRead hl ho hk hp =>
    exact .inl (h.of_parts (carries_pool hp fun _ _ heq => by cases heq)
      (fun _ hm => .pending hm) rfl)
  | sweepJobs hl ho hp =>
    exact .inl (h.of_parts (carries_pool hp fun _ _ heq => by cases heq)
      (fun _ hm => by simp at hm) rfl)
  | @op op ops s' ho hop =>
    left
    have htail : ∀ now, .enqueue now arg ∈ ops → s.Carries arg := fun now hm =>
      .pending (by rw [ho]; exact List.mem_cons_of_mem op hm)
    cases hop with
    | enqueue hp =>
      -- The job was pending before it is added
      refine h.of_parts (carries_pool (s := s) hp fun now arg' heq => ?_) htail rfl
      cases heq
      rw [ho]
      exact List.mem_cons_self
    | _ => exact h.of_ops rfl htail rfl
  | mallocFail ho | epollDelFail ho =>
    exact .inl (h.of_ops rfl
      (fun _ hm => .pending (by rw [ho]; exact List.mem_cons_of_mem _ hm)) rfl)

/-- The job of every message comes from a connection that was accepted. -/
theorem carried_lt {C : Server → Action → Prop} (h : Transition.Reach system C s)
    (hc : s.Carries arg) : arg.conn < s.conns := by
  refine h.invariant (I := fun s => ∀ arg, s.Carries arg → arg.conn < s.conns) ?_
    (fun s a s' hr hinv _ hs arg hc => ?_) arg hc
  · rintro s ⟨t, n, rfl⟩ arg hc
    exact absurd hc (not_carries_start t n)
  · have hconns : s.conns ≤ s'.conns := by
      rcases step_fds hs with ⟨-, heq, -⟩ | ⟨_, -, -, heq, -⟩ | ⟨_, -, heq, -⟩ <;> omega
    refine Nat.lt_of_lt_of_le ?_ hconns
    obtain hm | hm | hm := (step_moves hs).2
    · exact hinv arg (hm.carries hc)
    · rcases hm.carries hc with hc | ⟨i, es, -, hfd, -⟩
      · exact hinv arg hc
      · -- A new job is of the connection that its descriptor denotes
        exact (lifeInv_of_reach hr).issued arg.fd arg.conn hfd
    · exact hinv arg (hm.carries hc)

/-! ### The job of a handler -/

/-- A handler that has looked at its job runs it, the job is as it was if it is still in
    memory, and the job of CMD_SENDUI is one. -/
structure HandlerInv (s : Server) : Prop where
  live : ∀ p job, s.pool.heap p = some job → p < s.pool.allocated
  job : ∀ w arg, (s.handlers w).arg = some arg → ∃ p, s.pool.workers w = .running p ∧
    p < s.pool.allocated ∧ ∀ job, s.pool.heap p = some job → job.arg = arg
  sendUI : ∀ w arg i field, s.handlers w = .sendUI arg i field → arg.SendsUI

/-- A handler gets its job when it searches its slot. -/
theorem HandlerMoves.arg_eq {a : Action} {w : Nat} {pc : HandlerPc} (h : s.HandlerMoves w a pc)
    (hpc : pc.arg = some arg) : (s.handlers w).arg = some arg ∨
      a = .lookup w ∧ s.handlers w = .entered ∧ s.parameter w = some arg := by
  cases h with
  | same => exact .inl hpc
  | leave | skip | other => cases hpc
  | lookup hw hjob => exact .inr ⟨rfl, hw, Option.some.inj hpc ▸ hjob⟩
  -- The others go on with the job that they have
  | handshake hw | sendUI hw | getRemote hw | getAllUser hw | skipUser hw | fillUser hw
  | filled hw =>
    rw [hw]
    exact .inl hpc
  | @copy arg' i field hw =>
    rw [hw]
    cases field with
    | userId => exact .inl hpc
    | passwd => cases hpc
  | @write arg' reply n r hw =>
    rw [hw]
    cases hn : sendBufferStep n r with
    | none =>
      rw [hn] at hpc
      cases hpc
    | some n' =>
      rw [hn] at hpc
      exact .inl hpc

/-- A worker leaves a handler that is done. -/
private theorem execute_step {a : Action} {w : Nat} (ha : a = .worker (.execute w))
    (hs : s.step a = some s') : s.handlers w = .done := by
  subst ha
  simp only [step] at hs
  split at hs
  · cases hs
  · simp only [workerStep] at hs
    split at hs
    · assumption
    · cases hs

/-- The search for the slot leaves the pool alone. -/
private theorem lookupStep_pool (w : Nat) : (s.lookupStep w).pool = s.pool := by
  unfold lookupStep
  split
  · rfl
  · split <;> rfl

/-- A worker whose handler has looked at its job goes on running it. -/
private theorem running_of_step {a : Action} {w p : Nat} (hs : s.step a = some s')
    (hw : (s.handlers w).arg ≠ none) (hp : s.pool.workers w = .running p) :
    s'.pool.workers w = .running p := by
  rcases pool_step hs with heq | ⟨b, hb, hkind⟩ | ⟨now, arg, ops, -, -, hb⟩
  · rw [heq]
    exact hp
  -- It neither leaves the job nor frees it before its handler is done
  · refine Thpool.running_step hb hp ?_ ?_
    · rintro rfl
      obtain ⟨hkind, -⟩ | hkind | ⟨_, hkind⟩ := hkind
      · rw [execute_step hkind hs] at hw
        exact hw rfl
      · cases hkind
      · cases hkind
    · rintro rfl
      obtain ⟨-, hkind⟩ | hkind | ⟨_, hkind⟩ := hkind <;> exact nomatch hkind
  · exact Thpool.running_step hb hp nofun nofun

/-- An address that was handed out denotes the same job or none. -/
private theorem heap_of_step {a : Action} {p : Nat} {job' : ThpoolJob JobParameter}
    (hs : s.step a = some s') (hlt : p < s.pool.allocated) (hp : s'.pool.heap p = some job') :
    ∃ job, s.pool.heap p = some job ∧ job.arg = job'.arg := by
  have hold : ∀ b, s.pool.step b = some s'.pool →
      ∃ job, s.pool.heap p = some job ∧ job.arg = job'.arg := by
    intro b hb
    rcases Thpool.step_args hb p job' hp with hjob | ⟨rfl, -⟩
    · exact hjob
    -- A new job has a new address
    · exact absurd hlt (Nat.lt_irrefl _)
  rcases pool_step hs with heq | ⟨b, hb, -⟩ | ⟨now, arg, ops, -, -, hb⟩
  · exact ⟨job', heq ▸ hp, rfl⟩
  · exact hold b hb
  · exact hold _ hb

/-- Every job in memory has an address that was handed out. -/
private theorem live_step {a : Action} (hs : s.step a = some s')
    (hlt : ∀ p job, s.pool.heap p = some job → p < s.pool.allocated) :
    s.pool.allocated ≤ s'.pool.allocated ∧
      ∀ p job, s'.pool.heap p = some job → p < s'.pool.allocated := by
  rcases pool_step hs with heq | ⟨b, hb, hkind⟩ | ⟨now, arg, ops, -, -, hb⟩
  · rw [heq]
    exact ⟨Nat.le_refl _, hlt⟩
  · refine ⟨?_, Thpool.live_lt_step hb ?_ hlt⟩
    · obtain ⟨-, hkind⟩ | rfl | ⟨now, rfl⟩ := hkind
      · exact Nat.le_of_eq (Thpool.worker_allocated hkind hb).symm
      · have hmoves := (Thpool.step_moves hb).2
        generalize s'.pool = pool at hmoves
        cases hmoves
        exact Nat.le_refl _
      · exact Nat.le_of_eq (Thpool.sweepLocked_allocated hb).symm
    · rintro rfl
      obtain ⟨-, hkind⟩ | hkind | ⟨_, hkind⟩ := hkind <;> exact nomatch hkind
  · refine ⟨?_, Thpool.live_lt_step hb nofun hlt⟩
    rcases Thpool.addWork_cases hb with heq | ⟨hall, -⟩
    · rw [heq]
    · exact Nat.le_of_lt (hall ▸ Nat.lt_succ_self _)

/-- Every step keeps the invariant. -/
theorem HandlerInv.step {a : Action} (h : s.HandlerInv) (hs : s.step a = some s') :
    s'.HandlerInv := by
  obtain ⟨hle, hlive⟩ := live_step hs h.live
  refine ⟨hlive, fun w arg hw => ?_, fun w arg i field hw => ?_⟩
  · obtain ⟨p, hp, hp', hlt, harg⟩ : ∃ p, s.pool.workers w = .running p ∧
        s'.pool.workers w = .running p ∧ p < s.pool.allocated ∧
        ∀ job, s.pool.heap p = some job → job.arg = arg := by
      rcases (step_handlers hs w).arg_eq hw with hw | ⟨rfl, -, hparam⟩
      · obtain ⟨p, hp, hlt, harg⟩ := h.job w arg hw
        exact ⟨p, hp, running_of_step hs (hw ▸ Option.some_ne_none arg) hp, hlt, harg⟩
      · -- The handler has just read the job, which is in memory
        simp only [parameter] at hparam
        split at hparam
        · rename_i p hp
          obtain ⟨job, hjob, rfl⟩ := Option.map_eq_some_iff.mp hparam
          refine ⟨p, hp, ?_, h.live p job hjob, fun job' hjob' => ?_⟩
          · rw [(lookup_step hs).2, lookupStep_pool]
            exact hp
          · rw [Option.some.inj (hjob.symm.trans hjob')]
        · cases hparam
    refine ⟨p, hp', Nat.lt_of_lt_of_le hlt hle, fun job' hjob' => ?_⟩
    obtain ⟨job, hjob, heq⟩ := heap_of_step hs hlt hjob'
    rw [← heq, harg job hjob]
  -- Only the `switch` leads to the first `strncpy`, and it to the second
  · have hmoves := step_handlers hs w
    rw [hw] at hmoves
    generalize hpc : HandlerPc.sendUI arg i field = pc at hmoves
    cases hmoves with
    | same => exact h.sendUI w arg i field hpc.symm
    | sendUI _ hcmd =>
      cases hpc
      exact hcmd
    | @copy arg' i' field' hold =>
      cases field' with
      | userId =>
        cases hpc
        exact h.sendUI w _ _ _ hold
      | passwd => cases hpc
    | @write _ _ n r =>
      cases hn : sendBufferStep n r with
      | none =>
        rw [hn] at hpc
        cases hpc
      | some n' =>
        rw [hn] at hpc
        cases hpc
    | _ => cases hpc

/-- A handler that reads its job again finds what it found first, or the job was freed. -/
theorem HandlerInv.parameter_eq {w : Nat} (h : s.HandlerInv) (hw : (s.handlers w).arg = some arg) :
    s.parameter w = some arg ∨ s.parameter w = none := by
  obtain ⟨p, hp, -, hjob⟩ := h.job w arg hw
  simp only [parameter, hp]
  cases hheap : s.pool.heap p with
  | none => exact .inr rfl
  | some job => exact .inl (congrArg some (hjob job hheap))

/-- The job of a handler that goes on was in memory before, if it still is. -/
theorem HandlerInv.parameter_step {a : Action} {w : Nat} (h : s.HandlerInv)
    (hs : s.step a = some s') (hw : (s.handlers w).arg = some arg)
    (hparam : s'.parameter w ≠ none) : s.parameter w ≠ none := by
  obtain ⟨p, hp, hlt, -⟩ := h.job w arg hw
  have hp' := running_of_step hs (hw ▸ Option.some_ne_none arg) hp
  simp only [parameter, hp', ne_eq, Option.map_eq_none_iff] at hparam
  obtain ⟨job', hjob'⟩ := Option.ne_none_iff_exists'.mp hparam
  obtain ⟨job, hjob, -⟩ := heap_of_step hs hlt hjob'
  simp only [parameter, hp, hjob, Option.map_some]
  exact Option.some_ne_none _

end Server

end JQServer
