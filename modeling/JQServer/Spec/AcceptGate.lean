import Mathlib.Algebra.Order.BigOperators.Group.List
import JQServer.Spec.ConnectionCount

/-!
# The gate of the accept thread

`accept_thread` accepts a client if the counter is below MAX_EVENTS, and looks for a free slot
afterwards. Other threads change the counter and the table in between, and the event loop
subtracts a connection from the counter before or after it frees the slot. What the event loop
is about to subtract is settled (`settled`), and this number only grows by what the accept thread
counts. So a client that passed the gate is refused only while the event loop is about to free a
slot, unless the counter has drifted; and the gate stops clients only if every slot is occupied
or the event loop is about to subtract (`gate_exact`).
-/

namespace JQServer

namespace Server

variable {s s' : Server} {a : Action}

/-- The counter after the calls that the event loop is about to make. -/
def settled (s : Server) : Int := s.total - (s.ops.map LoopOp.subs).sum

/-- The accept thread is between its gate and the search for a slot. -/
def PassedGate : AcceptPc → Prop
  | .accepting | .accepted _ => True
  | _ => False

/-- No pending call adds to the counter, and a client that passed the gate has room. -/
structure GateInv (s : Server) : Prop where
  subs : ∀ op ∈ s.ops, 0 ≤ op.subs
  room : PassedGate s.accept → s.settled < maxEvents

/-- A call leaves the settled counter alone. -/
private theorem settled_op {op : LoopOp} {ops : List LoopOp} (ho : s.ops = op :: ops)
    (hop : OpMoves { s with ops := ops } op s') : s'.settled = s.settled := by
  simp only [settled, ho, List.map_cons, List.sum_cons]
  cases hop with
  | countSub =>
    simp only [LoopOp.subs]
    omega
  | _ => simp only [LoopOp.subs, Int.zero_add, free, closesocket]

/-- What the event loop decides to do: the calls subtract, or leave the counter alone. -/
private theorem LoopMoves.decide (hs : s.LoopMoves a s') (ho : s.ops = []) :
    s'.total = s.total ∧ ∀ op ∈ s'.ops, 0 ≤ op.subs := by
  have hnil : ∀ op ∈ s.ops, 0 ≤ op.subs := by
    rw [ho]
    intro op hm
    cases hm
  cases hs with
  | wait | startSweep | readSlot | skipSlot | sweepRead | epollWait | endEvents | matched =>
    exact ⟨rfl, hnil⟩
  | sweepSlot => exact ⟨rfl, by simp [LoopOp.subs]⟩
  | sweepKeep => exact ⟨rfl, by simp⟩
  | @sweepJobs now pool _ _ hp =>
    -- It subtracts the number of jobs deleted
    have hle := (Thpool.sweepLocked_jobN hp).1
    refine ⟨rfl, ?_⟩
    simp only [List.mem_singleton, forall_eq, LoopOp.subs]
    omega
  | invalidRead | unmatched => exact ⟨rfl, by simp [LoopOp.subs]⟩
  | errorEvent =>
    refine ⟨rfl, ?_⟩
    simp only [errorEventOps]
    split <;> simp [LoopOp.subs]
  | recvClosed => exact ⟨rfl, by simp [receivedOps, LoopOp.subs]⟩
  | @recv i fd now es conn result =>
    refine ⟨rfl, ?_⟩
    cases recvBufferFromFd result <;> simp [receivedOps, LoopOp.subs]
  | op ho' | mallocFail ho' | epollDelFail ho' =>
    rw [ho] at ho'
    cases ho'

/-- The event loop does not raise the settled counter. -/
private theorem GateInv.loop_step (h : s.GateInv) (hs : s.LoopMoves a s') :
    (∀ op ∈ s'.ops, 0 ≤ op.subs) ∧ s'.settled ≤ s.settled := by
  by_cases ho : s.ops = []
  -- New calls can only subtract, so the settled counter is not above the counter
  · obtain ⟨htotal, hsubs⟩ := hs.decide ho
    refine ⟨hsubs, ?_⟩
    have hsum : 0 ≤ (s'.ops.map LoopOp.subs).sum := by
      apply List.sum_nonneg
      simpa using hsubs
    simp only [settled, htotal, ho, List.map_nil, List.sum_nil]
    omega
  · cases hs with
    | @op op ops _ ho' hop =>
      -- A call that is made moves from the pending ones to the counter
      refine ⟨?_, Int.le_of_eq (settled_op ho' hop)⟩
      have htail : ∀ op' ∈ ops, 0 ≤ op'.subs := by
        intro op' hm
        refine h.subs op' ?_
        rw [ho']
        exact List.mem_cons_of_mem op hm
      cases hop <;> exact htail
    | mallocFail ho' | epollDelFail ho' =>
      constructor
      · intro op hm
        refine h.subs op ?_
        rw [ho']
        exact List.mem_cons_of_mem _ hm
      · simp only [settled, ho', List.map_cons, List.sum_cons, LoopOp.subs, Int.zero_add,
          Int.le_refl]
    | _ => contradiction

/-- The gate lets a client pass if the counter is below MAX_EVENTS. -/
private theorem step_gate (hs : s.step .gate = some s') (hpass : PassedGate s'.accept) :
    s.total < maxEvents := by
  simp only [step] at hs
  split at hs
  · cases hs
  · cases hpc : s.accept with
    | gate =>
      rw [hpc, acceptStep] at hs
      obtain rfl := Option.some.inj hs
      by_contra hlt
      simp only [hlt, ↓reduceIte, PassedGate] at hpass
    | _ => simp only [hpc, acceptStep, reduceCtorEq] at hs

/-- Steps of the accept thread: it lets a client pass below MAX_EVENTS, and adds to the counter
    only at the end of an iteration. -/
private theorem GateInv.accept_step (h : s.GateInv) (hstep : s.step a = some s')
    (hs : s.AcceptMoves a s') : s'.GateInv := by
  have hmove : ∀ pc : AcceptPc, (PassedGate pc → PassedGate s.accept) →
      GateInv { s with accept := pc } := fun pc hpass => ⟨h.subs, fun hpc => h.room (hpass hpc)⟩
  cases hs with
  | gate hpc hpc' =>
    refine ⟨h.subs, fun hpass => ?_⟩
    have hlt := step_gate hstep hpass
    have hsum : 0 ≤ (s.ops.map LoopOp.subs).sum := by
      apply List.sum_nonneg
      simpa using h.subs
    simp only [settled]
    omega
  | accept hpc => exact ⟨h.subs, fun _ => h.room (by rw [hpc]; trivial)⟩
  | acceptError | noSlot | chooseSlot | setNonBlocking | notNonBlocking | setRcvbuf | noRcvbuf
  | initSlot | unlock => exact hmove _ (by rintro ⟨⟩)
  | fill | epollAdd | epollAddFails | countAdd | closeFailed => exact ⟨h.subs, by rintro ⟨⟩⟩

/-- It holds in every state of every run. -/
theorem gateInv_of_reach {C : Server → Action → Prop} (h : Transition.Reach system C s) :
    s.GateInv := by
  refine h.invariant ?_ fun s a s' hr hinv _ hs => ?_
  · rintro s ⟨t, n, rfl⟩
    exact ⟨fun op hm => absurd hm List.not_mem_nil, by rintro ⟨⟩⟩
  · rcases (step_moves hs).2 with hm | hm | hm
    · exact hinv.accept_step hs hm
    · obtain ⟨hsubs, hle⟩ := hinv.loop_step hm
      refine ⟨hsubs, fun hpass => Int.lt_of_le_of_lt hle (hinv.room ?_)⟩
      have haccept : s'.accept = s.accept := by
        cases hm with
        | op _ hop => cases hop <;> rfl
        | _ => rfl
      exact haccept ▸ hpass
    · have hsame := hm.sameNet
      have hsettled : s'.settled = s.settled := by rw [settled, hsame.total, hsame.ops, settled]
      refine ⟨by rw [hsame.ops]; exact hinv.subs, ?_⟩
      rw [hsettled, hsame.accept]
      exact hinv.room

/-- No slot is free if the search finds none. -/
theorem occupied_of_noSlot (hnone : s.table.getEpollConnectFreeEventIndex = none) :
    s.occupied = maxEvents := by
  have hle := s.occupied_le
  have hlt : ¬ s.occupied < maxEvents := by
    rw [occupied_lt_iff]
    rintro ⟨i, hi⟩
    obtain ⟨j, hj⟩ := Fin.exists_firstIndex (p := fun i => (s.table i).connectFd = -1) (i := i)
      (by simpa using hi)
    rw [Table.getEpollConnectFreeEventIndex, hj] at hnone
    cases hnone
  omega

/-- In every state of every run: if the accept thread finds no slot for a client that passed the
    gate, then the event loop is about to free one, or the counter has drifted, because an
    EPOLL_CTL_ADD failed or `delete_timeout_job` deleted a job. And the gate stops clients only
    if every slot is occupied or the event loop is about to subtract from the counter. The search
    for a free slot is one step: no slot is freed in front of it while it runs. -/
theorem gate_exact (h : Transition.Reachable system s) :
    (∀ c, s.accept = .accepted c → s.table.getEpollConnectFreeEventIndex = none →
      (∃ op ∈ s.ops, op.frees = true) ∨ 0 < s.failedAdds + s.deletedJobs) ∧
    (s.accept = .gate → maxEvents ≤ s.total →
      (∀ i, s.fdAt i ≠ -1) ∨ ∃ op ∈ s.ops, 0 < op.subs) := by
  have hcount := countInv_of_reach h
  have hgate := gateInv_of_reach h
  constructor
  · intro c hpc hnone
    have hocc := occupied_of_noSlot hnone
    have hroom := hgate.room (by rw [hpc]; trivial)
    simp only [CountInv, hpc, AcceptPc.uncounted] at hcount
    simp only [settled] at hroom
    by_cases hdrift : 0 < s.failedAdds + s.deletedJobs
    · exact .inr hdrift
    · -- Without drift some occupied slot is not counted any more
      refine .inl (List.countP_pos_iff.mp ?_)
      omega
  · intro hpc hfull
    by_cases hsub : ∃ op ∈ s.ops, 0 < op.subs
    · exact .inr hsub
    · -- Nothing is about to be subtracted, so the table has as many occupied slots
      have hzero : (s.ops.map LoopOp.subs).sum = 0 := by
        apply List.sum_eq_zero
        intro x hx
        obtain ⟨op, hm, rfl⟩ := List.mem_map.mp hx
        have hnonneg := hgate.subs op hm
        have hpos : ¬ 0 < op.subs := fun hpos => hsub ⟨op, hm, hpos⟩
        omega
      simp only [CountInv, hpc, AcceptPc.uncounted, hzero] at hcount
      have hlt : ¬ s.occupied < maxEvents := by omega
      rw [occupied_lt_iff, not_exists] at hlt
      exact .inl hlt

/-- The first client finds a slot. -/
theorem gate_exact_first :
    ∃ s : Server, system.run (start 0) [.gate,
        .accept (some { fd := 5, addr := .zero _, port := 80 })] = some s ∧
      s.table.getEpollConnectFreeEventIndex ≠ none := by
  have hrun : ∃ s : Server, system.run (start 0) [.gate,
        .accept (some { fd := 5, addr := .zero _, port := 80 })] = some s ∧
      s.accept = .accepted { fd := 5, conn := 0, addr := .zero _, port := 80 } ∧ s.ops = [] ∧
      s.failedAdds = 0 ∧ s.deletedJobs = 0 := ⟨_, rfl, rfl, rfl, rfl, rfl⟩
  obtain ⟨s, hs, hpc, ho, hadds, hjobs⟩ := hrun
  refine ⟨s, hs, fun hnone => ?_⟩
  rcases (gate_exact (.of_run ⟨0, 15, rfl⟩ hs)).1 _ hpc hnone with ⟨op, hm, -⟩ | hdrift
  · rw [ho] at hm
    cases hm
  · omega

end Server

end JQServer
