import JQServer.Spec.NetInvariant
import JQServer.Spec.PoolLockup

/-!
# Where the event loop can block

Two waits of the event loop are modelled: for the lock of a slot, which
`init_epoll_connect_by_index` holds over its writes, and for the mutex of the job queue after a
worker has returned with it. The critical sections of the log and of the counter, and those of
workers that unlock the queue, are single steps. The lock of a slot is released after seven steps
of the accept thread at most. The mutex of the queue is free whenever the event loop gets to it,
unless a worker has returned with it: then the event loop stays where it is in every
continuation, while the accept thread goes on accepting connections that nobody serves
(`event_loop_goes_on_iff`).
-/

namespace JQServer

namespace Thpool

variable {α : Type} {s s' : Thpool α}

private theorem removelast_main {r : Int} (h : s.thpoolJobqueueRemovelast = some (r, s')) :
    s'.main = s.main := by
  simp only [thpoolJobqueueRemovelast] at h
  split at h
  · rw [← (Prod.mk.inj (Option.some.inj h)).2]
  · rw [← (Prod.mk.inj (Option.some.inj h)).2]
  · simp only [Option.bind_eq_bind, Option.bind_eq_some_iff] at h
    obtain ⟨_, -, _, -, _, -, _, -, h⟩ := h
    rw [← (Prod.mk.inj (Option.some.inj h)).2]

/-- Workers and `thpool_add_work` leave the main thread where it is. -/
theorem main_of_step {a : Action α} (ha : a.worker.isSome = true ∨ ∃ now arg, a = .addWork now arg)
    (h : s.step a = some s') : s'.main = s.main := by
  -- A step with undefined behaviour leaves the pool as it is
  have hout : ∀ r : Option (Thpool α), (∀ t, r = some t → t.main = s.main) →
      (s.outcome r).main = s.main := by
    intro r hr
    cases r with
    | none => rfl
    | some t => exact hr t rfl
  cases (step_moves h).2 with
  | addWork hm hx =>
    apply hout
    intro t ht
    simp only [thpoolAddWork, thpoolJobEnqueue] at ht
    split at ht
    · rw [← Option.some.inj ht]
    · simp only [Option.bind_eq_bind, Option.bind_eq_some_iff] at ht
      obtain ⟨_, -, _, -, ht⟩ := ht
      rw [← Option.some.inj ht]
  | dequeue hw hp hx =>
    apply hout
    intro t ht
    simp only [threadDequeue] at ht
    split at ht
    · cases ht
    -- The job that is removed, and then the worker's place
    · rename_i r u hu
      rw [← removelast_main hu]
      split at ht
      · rw [← Option.some.inj ht]
        rfl
      · simp only [Option.bind_eq_bind, Option.bind_eq_some_iff] at ht
        obtain ⟨p, -, ht⟩ := ht
        rw [← Option.some.inj ht]
        rfl
  | execute hw hp =>
    apply hout
    intro t ht
    simp only [threadExecute, Option.bind_eq_bind, Option.bind_eq_some_iff] at ht
    obtain ⟨_, -, ht⟩ := ht
    rw [← Option.some.inj ht]
    rfl
  | free hw hp =>
    apply hout
    intro t ht
    simp only [threadFree, Option.bind_eq_bind, Option.bind_eq_some_iff] at ht
    obtain ⟨_, -, ht⟩ := ht
    rw [← Option.some.inj ht]
    rfl
  | test | semWait | retest => rfl
  -- The other steps are those of the main thread itself
  | _ =>
    obtain ha | ⟨now, arg, ha⟩ := ha
    · cases ha
    · cases ha

/-- With the mutex locked `thpool_add_work` and `delete_timeout_job` do not return. -/
theorem step_locked (hx : s.mutex = true) (now timeOut : Int) (arg : α) :
    s.step (.addWork now arg) = none ∧ s.step (.sweepLocked now timeOut) = none := by
  have haddWork : s.mainStep (.addWork now arg) s.main = none := by
    cases hm : s.main <;> simp [mainStep, hx]
  have hsweep : s.mainStep (.sweepLocked now timeOut) s.main = none := by
    cases hm : s.main <;> simp [mainStep, hx]
  constructor
  · simp only [step, Action.worker, haddWork]
    split <;> rfl
  · simp only [step, Action.worker, hsweep]
    split <;> rfl

end Thpool

/-- A step of the event loop that gets on: all of them but the one that gives up a job because
    `malloc` failed. -/
def Action.OfEventLoop : Action → Prop
  | .tick _ | .sweepSlot | .sweepTime | .sweepJobs _ | .epollWait _ | .nextEvent | .recv ..
  | .op | .epollDelFail => True
  | _ => False

/-- A step of `init_epoll_connect_by_index` with the slot locked. -/
def Action.OfFilling (a : Action) : Prop := a = .fill ∨ a = .unlock

namespace Server

open Transition

variable {s s' : Server}

/-- The event loop is at its next `pthread_mutex_lock` of the job queue, and a worker has the
    mutex for good. -/
def LoopBlocked (s : Server) : Prop :=
  s.pool.mutex = true ∧ ((∃ now arg ops, s.ops = .enqueue now arg :: ops) ∨
    s.ops = [] ∧ s.loop = .deleting)

/-- The event loop gets on, after seven steps of a slot being filled at most. -/
def LoopGoesOn (s : Server) : Prop :=
  ∃ as t a s', as.length ≤ 7 ∧ (∀ b ∈ as, b.OfFilling) ∧ system.run s as = some t ∧
    a.OfEventLoop ∧ t.step a = some s'

/-- The main thread is in `delete_timeout_job` as the event loop says. -/
structure MainAgrees (s : Server) : Prop where
  deleting : s.loop = .deleting → (∃ cur, s.pool.main = .sweeping cur) ∧ s.ops = []
  serving : s.loop ≠ .deleting → s.pool.main = .serving

/-- The event loop is where it was, and so is the main thread of the pool. -/
private theorem MainAgrees.congr (h : s.MainAgrees) (hl : s'.loop = s.loop)
    (ho : s'.ops = s.ops) (hm : s'.pool.main = s.pool.main) : s'.MainAgrees where
  deleting hd := by
    rw [hm, ho]
    exact h.deleting (hl ▸ hd)
  serving hd := hm ▸ h.serving (hl ▸ hd)

/-- The event loop moves between places outside `delete_timeout_job`. -/
private theorem MainAgrees.move (h : s.MainAgrees) (hold : s.loop ≠ .deleting)
    (hnew : s'.loop ≠ .deleting) (hm : s'.pool.main = s.pool.main) : s'.MainAgrees where
  deleting hd := absurd hd hnew
  serving _ := hm.trans (h.serving hold)

/-- There are calls to make only outside `delete_timeout_job`. -/
private theorem MainAgrees.not_deleting (h : s.MainAgrees) {op : LoopOp} {ops : List LoopOp}
    (ho : s.ops = op :: ops) : s.loop ≠ .deleting := by
  intro hd
  exact nomatch ho.symm.trans (h.deleting hd).2

theorem MainAgrees.step {a : Action} (h : s.MainAgrees) (hs : s.step a = some s') :
    s'.MainAgrees := by
  obtain hm | hm | hm := (step_moves hs).2
  · cases hm <;> exact h.congr rfl rfl rfl
  · cases hm with
    -- Into `delete_timeout_job`, and out of it: the pool's main thread goes along
    | @sweepRead k now pool hl ho hk hp =>
      refine ⟨fun _ => ⟨?_, ho⟩, fun hd => absurd rfl hd⟩
      cases (Thpool.step_moves hp).2 with
      | sweepRead hm => exact ⟨_, rfl⟩
    | @sweepJobs now pool hl ho hp =>
      refine ⟨nofun, fun _ => ?_⟩
      cases (Thpool.step_moves hp).2 with
      | sweepLocked hm hx => rfl
    | op ho hop =>
      have hold := h.not_deleting ho
      cases hop with
      | enqueue hp => exact h.move hold hold (Thpool.main_of_step (.inr ⟨_, _, rfl⟩) hp)
      | _ => exact h.move hold hold rfl
    | mallocFail ho => exact h.move (h.not_deleting ho) (h.not_deleting ho) rfl
    | epollDelFail ho => exact h.move (h.not_deleting ho) (h.not_deleting ho) rfl
    -- Neither the pool nor the place in `delete_timeout_job` changes
    | wait hl | startSweep hl | readSlot hl | skipSlot hl | sweepSlot hl | sweepKeep hl
    | epollWait hl | endEvents hl | invalidRead hl | unmatched hl | matched hl | errorEvent hl
    | recvClosed hl | recv hl => exact h.move (by rw [hl]; nofun) nofun rfl
  · have hloop : s'.loop = s.loop := hm.sameNet.loop
    refine h.congr hloop hm.sameNet.ops ?_
    cases hm with
    | thread ha hp => exact Thpool.main_of_step (.inl ha) hp
    | leave hp => exact Thpool.main_of_step (.inl rfl) hp
    | _ => rfl

theorem mainAgrees_of_reachable (h : Reachable system s) : s.MainAgrees := by
  refine h.invariant ?_ fun s a s' _ hinv _ hs => hinv.step hs
  intro s hi
  obtain ⟨t, n, rfl⟩ := hi
  exact ⟨nofun, fun _ => rfl⟩

/-! ### The lock of a slot -/

/-- The rest of `init_epoll_connect_by_index`. -/
theorem filling_run {c : Client} {i : Fin maxEvents} {ws : List SlotWrite}
    (hc : s.crashed = none) (hf : s.pool.fault = false) (h : s.accept = .filling c i ws) :
    ∃ as t, as.length = ws.length + 1 ∧ (∀ b ∈ as, b.OfFilling) ∧ system.run s as = some t ∧
      t.accept = .filled c i ∧ t.ops = s.ops ∧ t.crashed = none ∧ t.pool = s.pool := by
  -- On the writes left: each is one step, and behind the last the slot is unlocked
  induction ws generalizing s with
  | nil =>
    refine ⟨[.unlock], { s with accept := .filled c i }, rfl, ?_, ?_, rfl, rfl, hc, rfl⟩
    · intro b hb
      exact .inr (List.mem_singleton.mp hb)
    · simp only [System.run_cons, system, step, hc, hf, h, acceptStep, Option.isSome_none,
        Bool.or_self, Bool.false_eq_true, ↓reduceIte, Option.bind_some, System.run_nil]
  | cons w ws ih =>
    have hs : system.step s .fill = some { s.fillSlot c i w with accept := .filling c i ws } := by
      simp only [system, step, hc, hf, h, acceptStep, Option.isSome_none, Bool.or_self,
        Bool.false_eq_true, ↓reduceIte]
    obtain ⟨as, t, hlen, hfill, hr, haccept, hops, hcrash, hpool⟩ :=
      ih (s := { s.fillSlot c i w with accept := .filling c i ws }) hc hf rfl
    refine ⟨.fill :: as, t, ?_, ?_, ?_, haccept, hops, hcrash, hpool⟩
    · rw [List.length_cons, List.length_cons, hlen]
    · intro b hb
      obtain rfl | hb := List.mem_cons.mp hb
      · exact .inl rfl
      · exact hfill b hb
    · rw [System.run_cons, hs]
      exact hr

/-- After that no slot is locked. -/
theorem slot_unlocks (h : Reachable system s) (hc : s.crashed = none) (hf : s.pool.fault = false) :
    ∃ as t, as.length ≤ 7 ∧ (∀ b ∈ as, b.OfFilling) ∧ system.run s as = some t ∧
      (∀ i, t.slotLocked i = false) ∧ t.ops = s.ops ∧ t.crashed = none ∧ t.pool = s.pool := by
  by_cases hlocked : ∃ c i ws, s.accept = .filling c i ws
  · obtain ⟨c, i, ws, hfilling⟩ := hlocked
    obtain ⟨now, hws⟩ := (netInv_of_reach h).accept.writes c i ws hfilling
    have hle : ws.length ≤ 6 := hws.length_le
    obtain ⟨as, t, hlen, hfill, hr, haccept, hrest⟩ := filling_run hc hf hfilling
    refine ⟨as, t, by omega, hfill, hr, fun j => ?_, hrest⟩
    simp only [slotLocked, haccept]
  · refine ⟨[], s, Nat.zero_le _, nofun, rfl, fun j => ?_, rfl, hc, rfl⟩
    unfold slotLocked
    split
    · rename_i c i ws hfilling
      exact absurd ⟨c, i, ws, hfilling⟩ hlocked
    · rfl

/-! ### The next step -/

/-- The event loop makes its next call, unless a lock keeps it from it. -/
private theorem op_enabled {op : LoopOp} {ops : List LoopOp} (hc : s.crashed = none)
    (hf : s.pool.fault = false) (hm : s.pool.main = .serving) (ho : s.ops = op :: ops)
    (hslot : ∀ i, s.slotLocked i = false)
    (hqueue : ∀ now arg, op = .enqueue now arg → s.pool.mutex = false) :
    ∃ s', s.step .op = some s' := by
  have hop : s.step .op = { s with ops := ops }.opStep op := by
    simp only [step, hc, hf, ho, Option.isSome_none, Bool.or_self, Bool.false_eq_true, ↓reduceIte]
  have hslot' : ∀ i, ({ s with ops := ops } : Server).slotLocked i = false := hslot
  rw [hop]
  cases op with
  -- These take the lock of the slot
  | free i =>
    cases i with
    | none => exact ⟨_, rfl⟩
    | some i =>
      simp only [opStep, hslot', Bool.false_eq_true, ↓reduceIte]
      exact ⟨_, rfl⟩
  | freeMatched fd =>
    simp only [opStep, hslot', Bool.false_eq_true, ↓reduceIte]
    split
    · exact ⟨_, rfl⟩
    · exact ⟨_, rfl⟩
  -- This takes the mutex of the queue
  | enqueue now arg =>
    have hx := hqueue now arg rfl
    simp only [opStep, Thpool.step, hf, Thpool.Action.worker, hm, Thpool.mainStep, hx,
      Bool.false_eq_true, ↓reduceIte, Option.map_some]
    exact ⟨_, rfl⟩
  | _ => exact ⟨_, rfl⟩

/-- The event loop decides what to do next, unless it waits for the mutex. -/
private theorem loop_enabled (hc : s.crashed = none) (hf : s.pool.fault = false)
    (h : s.MainAgrees) (ho : s.ops = []) (hqueue : s.loop = .deleting → s.pool.mutex = false) :
    ∃ a s', a.OfEventLoop ∧ s.step a = some s' := by
  have hstep : ∀ a, a.OfEventLoop → a ≠ .op → a ≠ .epollDelFail →
      s.step a = s.loopStep a s.loop := by
    intro a ha hop hdel
    cases a <;> simp_all [step, Action.OfEventLoop]
  -- In each place any outcome of the system call will do
  cases hl : s.loop with
  | top =>
    refine ⟨.tick 0, ?_⟩
    rw [hstep (.tick 0) trivial (by simp) (by simp), hl]
    simp only [loopStep]
    split <;> exact ⟨_, trivial, rfl⟩
  | sweeping k now =>
    refine ⟨.sweepSlot, ?_⟩
    rw [hstep .sweepSlot trivial (by simp) (by simp), hl]
    simp only [loopStep]
    split
    · exact ⟨_, trivial, rfl⟩
    -- Behind the last slot the loop enters `delete_timeout_job`
    · have hm := h.serving (by rw [hl]; simp)
      simp only [Thpool.step, hf, Thpool.Action.worker, hm, Thpool.mainStep, Bool.false_eq_true,
        ↓reduceIte, Option.map_some]
      exact ⟨_, trivial, rfl⟩
  | checking i fd now =>
    refine ⟨.sweepTime, ?_⟩
    rw [hstep .sweepTime trivial (by simp) (by simp), hl]
    exact ⟨_, trivial, rfl⟩
  | deleting =>
    refine ⟨.sweepJobs 0, ?_⟩
    obtain ⟨⟨cur, hm⟩, -⟩ := h.deleting hl
    have hx := hqueue hl
    rw [hstep (.sweepJobs 0) trivial (by simp) (by simp), hl]
    simp only [loopStep, Thpool.step, hf, Thpool.Action.worker, hm, Thpool.mainStep, hx,
      Bool.false_eq_true, ↓reduceIte, Option.map_some]
    exact ⟨_, trivial, rfl⟩
  | waiting =>
    refine ⟨.epollWait [], ?_⟩
    rw [hstep (.epollWait []) trivial (by simp) (by simp), hl]
    simp [loopStep, Action.OfEventLoop]
  | events es =>
    refine ⟨.nextEvent, ?_⟩
    rw [hstep .nextEvent trivial (by simp) (by simp), hl]
    cases es with
    | nil => exact ⟨_, trivial, rfl⟩
    | cons e es =>
      simp only [loopStep]
      split
      · split
        · exact ⟨_, trivial, rfl⟩
        · split <;> exact ⟨_, trivial, rfl⟩
      · exact ⟨_, trivial, rfl⟩
  | receiving i fd es =>
    refine ⟨.recv none 0, ?_⟩
    rw [hstep (.recv none 0) trivial (by simp) (by simp), hl]
    simp only [loopStep]
    cases s.fds fd with
    | none => exact ⟨_, trivial, rfl⟩
    | some conn =>
      simp only [Option.getD_none, List.length_nil, Nat.zero_le, ↓reduceIte]
      exact ⟨_, trivial, rfl⟩

/-- While it is blocked, no step of the event loop is enabled. -/
private theorem LoopBlocked.not_enabled {a : Action} (h : s.LoopBlocked) (ha : a.OfEventLoop) :
    s.step a = none := by
  obtain ⟨hx, hplace⟩ := h
  cases hstep : s.step a with
  | none => rfl
  | some s' =>
    exfalso
    have hlocked := fun now arg => Thpool.step_locked hx now serverTimeout arg
    obtain hm | hm | hm := (step_moves hstep).2
    · cases hm <;> exact ha
    -- It is at `thpool_add_work` or in `delete_timeout_job`: no other step is its own
    · obtain ⟨now, arg, ops, ho⟩ | ⟨ho, hl⟩ := hplace
      · cases hm with
        | op ho' hop =>
          cases ho.symm.trans ho'
          cases hop with
          | enqueue hp => exact nomatch hp.symm.trans (hlocked now arg).1
        | mallocFail ho' => exact ha
        | epollDelFail ho' => exact nomatch ho.symm.trans ho'
        | wait _ ho' | startSweep _ ho' | readSlot _ ho' | skipSlot _ ho' | sweepSlot _ ho'
        | sweepKeep _ ho' | sweepRead _ ho' | sweepJobs _ ho' | epollWait _ ho' | endEvents _ ho'
        | invalidRead _ ho' | unmatched _ ho' | matched _ ho' | errorEvent _ ho'
        | recvClosed _ ho' | recv _ ho' => exact nomatch ho.symm.trans ho'
      · cases hm with
        | @sweepJobs now pool hl' ho' hp =>
          have hnone := (hlocked now (.received [] 0 0)).2
          exact nomatch hp.symm.trans hnone
        | op ho' | mallocFail ho' | epollDelFail ho' => exact nomatch ho.symm.trans ho'
        | wait hl' | startSweep hl' | readSlot hl' | skipSlot hl' | sweepSlot hl' | sweepKeep hl'
        | sweepRead hl' | epollWait hl' | endEvents hl' | invalidRead hl' | unmatched hl'
        | matched hl' | errorEvent hl' | recvClosed hl' | recv hl' =>
          exact nomatch hl.symm.trans hl'
    · cases hm with
      | crash _ hact | move hact _ =>
        obtain rfl | rfl | rfl | rfl | ⟨_, rfl⟩ := Action.eq_of_handler hact <;> exact ha
      | _ => exact ha

/-- The accept thread and the workers leave the event loop blocked. -/
private theorem LoopBlocked.step {a : Action} (h : s.LoopBlocked) (ha : a ≠ .mallocFail)
    (hs : s.step a = some s') : s'.LoopBlocked ∧ s'.loop = s.loop ∧ s'.ops = s.ops := by
  have hpool : s'.pool.mutex = true := by
    obtain heq | ⟨b, hb, -⟩ | ⟨now, arg, ops, -, -, hb⟩ := pool_step hs
    · rw [heq]
      exact h.1
    · have hrun : (Thpool.system JobParameter).run s.pool [b] = some s'.pool := by
        rw [System.run_cons, show (Thpool.system JobParameter).step s.pool b = some s'.pool from hb]
        rfl
      exact (Thpool.locked_forever h.1 hrun).1.mutex
    · exact nomatch hb.symm.trans (Thpool.step_locked h.1 now 0 arg).1
  have hsame : s'.loop = s.loop ∧ s'.ops = s.ops := by
    obtain hm | hm | hm := (step_moves hs).2
    · cases hm <;> exact ⟨rfl, rfl⟩
    · -- A step of the event loop is not enabled
      have hno : ¬ a.OfEventLoop := fun hact => nomatch hs.symm.trans (h.not_enabled hact)
      cases hm with
      | mallocFail => exact absurd rfl ha
      | _ => exact absurd trivial hno
    · exact ⟨hm.sameNet.loop, hm.sameNet.ops⟩
  refine ⟨⟨hpool, ?_⟩, hsame⟩
  rw [hsame.1, hsame.2]
  exact h.2

/-- It stays blocked, and handles no event in any continuation. -/
theorem LoopBlocked.forever {as : List Action} (h : s.LoopBlocked) (ha : .mallocFail ∉ as)
    (hr : system.run s as = some s') : s'.LoopBlocked ∧ s'.loop = s.loop ∧ s'.ops = s.ops := by
  induction as generalizing s with
  | nil =>
    obtain rfl := Option.some.inj hr
    exact ⟨h, rfl, rfl⟩
  | cons a as ih =>
    obtain ⟨t, hs, hr⟩ := System.run_cons_some hr
    have hne : a ≠ .mallocFail := by
      intro heq
      exact ha (heq ▸ List.mem_cons_self)
    obtain ⟨ht, hl, ho⟩ := h.step hne hs
    obtain ⟨h', hl', ho'⟩ := ih ht (fun hmem => ha (List.mem_cons_of_mem a hmem)) hr
    exact ⟨h', hl'.trans hl, ho'.trans ho⟩

/-- Filling a slot is no step of the event loop. -/
private theorem not_mallocFail {as : List Action} (h : ∀ b ∈ as, b.OfFilling) :
    .mallocFail ∉ as := by
  intro hmem
  obtain hb | hb := h _ hmem
  · exact nomatch hb
  · exact nomatch hb

/-- In every state that the server reaches without undefined behaviour, the event loop gets
    on, after seven steps of the accept thread at most, exactly if it is not at the mutex that
    a worker returned with. If it is, it stays there in every continuation. -/
theorem event_loop_goes_on_iff (h : Reachable system s) (hc : s.crashed = none)
    (hf : s.pool.fault = false) :
    (s.LoopGoesOn ↔ ¬ s.LoopBlocked) ∧
      (s.LoopBlocked → ∀ as s', .mallocFail ∉ as → system.run s as = some s' →
        s'.loop = s.loop ∧ s'.ops = s.ops) := by
  refine ⟨⟨fun hgo hblocked => ?_, fun hfree => ?_⟩, fun hblocked as s' ha hr => ?_⟩
  · obtain ⟨as, t, a, s', -, hfill, hr, hact, hs⟩ := hgo
    obtain ⟨hblocked', -⟩ := hblocked.forever (not_mallocFail hfill) hr
    exact nomatch hs.symm.trans (hblocked'.not_enabled hact)
  · have hmain := mainAgrees_of_reachable h
    cases ho : s.ops with
    | nil =>
      have hqueue : s.loop = .deleting → s.pool.mutex = false := by
        intro hl
        rw [← Bool.not_eq_true]
        exact fun hx => hfree ⟨hx, .inr ⟨ho, hl⟩⟩
      obtain ⟨a, s', hact, hs⟩ := loop_enabled hc hf hmain ho hqueue
      exact ⟨[], s, a, s', Nat.zero_le _, nofun, rfl, hact, hs⟩
    | cons op ops =>
      -- The next call may need the slot that is being filled
      obtain ⟨as, t, hlen, hfill, hr, hslot, hops, hcrash, hpool⟩ := slot_unlocks h hc hf
      have hserving : t.pool.main = .serving := by
        rw [hpool]
        exact hmain.serving (hmain.not_deleting ho)
      have hqueue : ∀ now arg, op = .enqueue now arg → t.pool.mutex = false := by
        intro now arg hop
        rw [hpool, ← Bool.not_eq_true]
        exact fun hx => hfree ⟨hx, .inl ⟨now, arg, ops, hop ▸ ho⟩⟩
      obtain ⟨s', hs⟩ := op_enabled hcrash (hpool ▸ hf) hserving (hops.trans ho) hslot hqueue
      exact ⟨as, t, .op, s', hlen, hfill, hr, trivial, hs⟩
  · obtain ⟨-, hsame⟩ := hblocked.forever ha hr
    exact hsame

/-- The peer hangs up while the accept thread has the next slot locked. -/
theorem event_loop_goes_on_locked :
    ∃ s, system.run (start 0) (acceptRun { fd := 5, addr := .zero _, port := 80 } 0 ++
      [.tick 0, .epollWait [{ fd := 5, epollin := false }], .gate,
        .accept (some { fd := 6, addr := .zero _, port := 81 }), .chooseSlot, .setNonBlocking true,
        .setRcvbuf true, .initSlot 0, .nextEvent, .op]) = some s ∧
      s.ops.head? = some (.freeMatched 5) ∧ s.slotLocked 1 = true ∧
      (s.LoopGoesOn ↔ ¬ s.LoopBlocked) := by
  have hrun : ∃ s, system.run (start 0) (acceptRun { fd := 5, addr := .zero _, port := 80 } 0 ++
      [.tick 0, .epollWait [{ fd := 5, epollin := false }], .gate,
        .accept (some { fd := 6, addr := .zero _, port := 81 }), .chooseSlot, .setNonBlocking true,
        .setRcvbuf true, .initSlot 0, .nextEvent, .op]) = some s ∧
      s.ops.head? = some (.freeMatched 5) ∧ s.slotLocked 1 = true ∧ s.crashed = none ∧
      s.pool.fault = false := ⟨_, rfl, rfl, rfl, rfl, rfl⟩
  obtain ⟨s, hs, hop, hlocked, hc, hf⟩ := hrun
  exact ⟨s, hs, hop, hlocked, (event_loop_goes_on_iff (.of_run ⟨0, 15, rfl⟩ hs) hc hf).1⟩

end Server

end JQServer
