import JQServer.Spec.NetInvariant
import JQServer.Spec.PoolInvariant

/-!
# End of stream

`recv` returns 0 when the peer has closed the connection. `recv_buffer_from_fd` takes
that for a complete message of no bytes and returns 0, so the event loop renews the
time of the slot and queues a job, and keeps the slot, the descriptor and the counter
as they are, whatever the other threads do meanwhile: `peer_close_ignored`. With
edge-triggered epoll the end of stream is reported once, so the connection stays in the
table until the idle sweep finds it.
-/

namespace JQServer

/-- The action adds to `current_connected_total`. -/
def Action.counts : Action → Bool
  | .countAdd => true
  | _ => false

namespace Server

variable {s s' t u : Server}

/-- The event loop takes the end of stream on descriptor `fd` of slot `i`, received in
    state `s`, for the end of the connection: `t` is the state before its next event,
    after the actions `as` of all threads. -/
structure PeerCloseHandled (s t : Server) (i : Fin maxEvents) (fd : Int) (as : List Action) :
    Prop where
  /-- The connection has left the table and does not come back. -/
  gone : ∀ bs u, system.run t bs = some u → u.owner i ≠ s.owner i
  closed : t.fds fd ≠ s.fds fd
  counted : t.total = s.total - 1 + as.countP Action.counts
  notQueued : t.pool.allocated = s.pool.allocated
  /-- Only the accept thread may have filled the slot again. -/
  notRenewed : t.owner i = none → (t.table i).now = (s.table i).now

/-- What the event loop does instead. -/
structure PeerCloseIgnored (s t : Server) (i : Fin maxEvents) (fd now : Int) (as : List Action) :
    Prop where
  held : t.fdAt i = fd
  owner : t.owner i = s.owner i
  opened : t.fds fd = s.fds fd
  total : t.total = s.total + as.countP Action.counts
  renewed : (t.table i).now = now
  queued : t.pool.allocated = s.pool.allocated + 1 ∨ .mallocFail ∈ as ∨ t.pool.fault = true

/-! ### The slot that is being filled -/

/-- A slot that is being filled keeps the descriptor it was given: it is locked. -/
private theorem filling_slot {C : Server → Action → Prop} (h : Transition.Reach system C s) :
    ∀ c i ws, s.accept = .filling c i ws → .connectFd c.fd ∉ ws → s.fdAt i = c.fd := by
  refine h.invariant (I := fun s => ∀ c i ws, s.accept = .filling c i ws →
    .connectFd c.fd ∉ ws → s.fdAt i = c.fd) ?_ fun s a s' hr hinv _ hs => ?_
  · rintro s ⟨t, n, rfl⟩
    rintro _ _ _ ⟨⟩
  intro c i ws hpc hws
  rcases (step_moves hs).2 with hm | hm | hm
  · cases hm with
    | initSlot h =>
      cases hpc
      simp [initEpollConnectByIndex] at hws
    | @fill c' i' w ws' h =>
      cases hpc
      obtain ⟨now, hsuf⟩ := (netInv_of_reach hr).accept.writes c i _ h
      rcases fill_cases hsuf with ⟨rfl, -⟩ | ⟨hw, hiff⟩
      · exact fdAt_filling_self
      · exact (congrFun (fdAt_fillSlot_other (c := c) hw).1 i).trans (hinv c i _ h (mt hiff.mp hws))
    | gate h hpc' =>
      rcases hpc' with rfl | rfl <;> cases hpc
    | _ => cases hpc
  · have hacc : s.accept = .filling c i ws := hm.accept_eq.symm.trans hpc
    -- The loop frees a slot under `connectLock`, so not the one that is being filled
    have hfree : ∀ j, s.slotLocked j = false → j ≠ i := by
      rintro j hl rfl
      simp only [slotLocked, hacc, decide_true, reduceCtorEq] at hl
    rw [← hinv c i ws hacc hws]
    cases hm with
    | op ho hop =>
      cases hop with
      | free hl | freeMatched _ hl =>
        exact (congrFun (fdAt_free _ _) i).trans (Function.update_of_ne (hfree _ hl).symm ..)
      | updateTime => exact congrFun (fdAt_updateTime ..) i
      | _ => rfl
    | _ => rfl
  · rw [hm.sameNet.fdAt i]
    exact hinv c i ws (hm.sameNet.accept.symm.trans hpc) hws

/-- The slot of a registered descriptor is not being filled. -/
private theorem not_filling {i j : Fin maxEvents} {c : Client} {ws : List SlotWrite}
    (h : Transition.Reachable system u) (hreg : u.epoll (u.fdAt i) = true)
    (hpc : u.accept = .filling c j ws) : i ≠ j := by
  rintro rfl
  have hnet := netInv_of_reach h
  by_cases hws : .connectFd c.fd ∈ ws
  · have hfree : u.fdAt i = -1 := hnet.accept.target i (by
      simp only [hpc, AcceptPc.target, hws, ↓reduceIte])
    have hpos := hnet.nonneg _ (hnet.registered _ hreg)
    omega
  · rw [filling_slot h c i ws hpc hws] at hreg
    cases hreg.symm.trans (hnet.accept.client c (by rw [hpc]; rfl)).1

/-! ### Until the next event -/

/-- The end of stream on slot `i` was received at time `now`, and the event loop has not
    gone on to its next event. -/
structure Received (u : Server) (i : Fin maxEvents) (fd now : Int) (arg : JobParameter)
    (es : List Event) : Prop where
  loop : u.loop = .events es
  ops : u.ops <:+ [.updateTime i now, .enqueue now arg]
  held : u.fdAt i = fd
  registered : u.epoll fd = true

/-- The time of slot `i` after the pending call. -/
def dueTime (u : Server) (i : Fin maxEvents) (now : Int) : Int :=
  if u.ops.length = 2 then now else (u.table i).now

/-- The number of jobs allocated after the pending call. -/
def dueJobs (u : Server) : Nat :=
  u.pool.allocated + if u.ops.length = 0 then 0 else 1

/-- What holds from one state to another until the next event. -/
structure Kept (u t : Server) (i : Fin maxEvents) (fd now : Int) (as : List Action) : Prop where
  owner : t.owner i = u.owner i
  opened : t.fds fd = u.fds fd
  total : t.total = u.total + as.countP Action.counts
  time : t.dueTime i now = u.dueTime i now
  jobs : t.dueJobs = u.dueJobs ∨ .mallocFail ∈ as ∨ t.pool.fault = true

variable {i : Fin maxEvents} {fd now : Int} {arg : JobParameter} {es : List Event}

/-- A step of another thread that leaves the slot and its descriptor alone. -/
private theorem Received.frame {a : Action} (h : u.Received i fd now arg es)
    (hfd : t.fdAt i = u.fdAt i) (howner : t.owner i = u.owner i) (hfds : t.fds fd = u.fds fd)
    (hepoll : t.epoll fd = true) (hloop : t.loop = u.loop) (hops : t.ops = u.ops)
    (htotal : t.total = u.total + [a].countP Action.counts)
    (hnow : (t.table i).now = (u.table i).now) (hjobs : t.pool.allocated = u.pool.allocated) :
    t.Received i fd now arg es ∧ u.Kept t i fd now [a] := by
  refine ⟨⟨hloop.trans h.loop, hops ▸ h.ops, hfd.trans h.held, hepoll⟩, howner, hfds, htotal, ?_,
    .inl ?_⟩
  · rw [dueTime, dueTime, hops, hnow]
  · rw [dueJobs, dueJobs, hops, hjobs]

/-- The accept thread works on other slots and descriptors. -/
private theorem Received.accept_step {a : Action} (h : u.Received i fd now arg es)
    (hr : Transition.Reachable system u) (hs : u.AcceptMoves a t) :
    t.Received i fd now arg es ∧ u.Kept t i fd now [a] := by
  have hnet := netInv_of_reach hr
  have hopen : u.fds fd ≠ none := hnet.registered fd h.registered
  have hzero : u.total = u.total + ((0 : Nat) : Int) := (Int.add_zero _).symm
  cases hs with
  | @accept p hpc hfd hfree =>
    -- The kernel gives a number that is not open
    have hne : fd ≠ p.fd := by
      rintro rfl
      exact hopen hfree
    exact h.frame rfl rfl (Function.update_of_ne hne ..) h.registered rfl rfl hzero rfl rfl
  | @fill c j w ws hpc =>
    -- A descriptor is registered only after its slot was filled
    have hne : i ≠ j := not_filling hr (h.held ▸ h.registered) hpc
    have hslot : Function.update u.table j (w.apply (u.table j)) i = u.table i :=
      Function.update_of_ne hne ..
    refine h.frame (congrArg _ hslot) ?_ rfl h.registered rfl rfl hzero (congrArg _ hslot) rfl
    simp only [fillSlot]
    split
    · exact Function.update_of_ne hne ..
    · rfl
  | @epollAdd c j hpc hadd hnew =>
    refine h.frame rfl rfl rfl ?_ rfl rfl hzero rfl rfl
    by_cases hc : fd = c.fd
    · exact hc ▸ Function.update_self ..
    · exact (Function.update_of_ne hc ..).trans h.registered
  | countAdd hpc => exact h.frame rfl rfl rfl h.registered rfl rfl rfl rfl rfl
  | @closeFailed c slot hpc =>
    have hne : fd ≠ c.fd := by
      rintro rfl
      cases h.registered.symm.trans (hnet.accept.client c (by rw [hpc]; rfl)).1
    exact h.frame rfl rfl (Function.update_of_ne hne ..)
      ((Function.update_of_ne hne ..).trans h.registered) rfl rfl hzero rfl rfl
  | _ => exact h.frame rfl rfl rfl h.registered rfl rfl hzero rfl rfl

/-- The event loop makes its two calls. -/
private theorem Received.loop_step {a : Action} (h : u.Received i fd now arg es)
    (ha : a ≠ .nextEvent) (hs : u.LoopMoves a t) :
    t.Received i fd now arg es ∧ u.Kept t i fd now [a] := by
  have hzero : u.total = u.total + ((0 : Nat) : Int) := (Int.add_zero _).symm
  -- What is left is the two calls or the second of them
  have hcases : ∀ {op ops}, u.ops = op :: ops →
      (op = .updateTime i now ∧ ops = [.enqueue now arg]) ∨
        (op = .enqueue now arg ∧ ops = []) := by
    intro op ops ho
    have hsuf := h.ops
    rw [ho] at hsuf
    simpa [List.suffix_cons_iff] using hsuf
  cases hs with
  | @op op ops _ ho hop =>
    have hsuf : ops <:+ [.updateTime i now, .enqueue now arg] :=
      (ho ▸ List.suffix_cons op ops).trans h.ops
    rcases hcases ho with ⟨rfl, rfl⟩ | ⟨rfl, rfl⟩
    · cases hop
      refine ⟨⟨h.loop, hsuf, (congrFun (fdAt_updateTime ..) i).trans h.held, h.registered⟩,
        rfl, rfl, hzero, ?_, .inl ?_⟩
      · simp [dueTime, ho, Table.updateTimeByIndex]
      · simp [dueJobs, ho]
    · cases hop with
      | enqueue hp =>
        refine ⟨⟨h.loop, hsuf, h.held, h.registered⟩, rfl, rfl, hzero, ?_, ?_⟩
        · simp [dueTime, ho]
        · refine (Thpool.addWork_allocated hp).imp (fun hall => ?_) .inr
          simpa [dueJobs, ho] using hall
  -- Then there is no job, but the connection is kept all the same
  | @mallocFail _ _ ops ho =>
    rcases hcases ho with ⟨heq, -⟩ | ⟨-, rfl⟩
    · cases heq
    · refine ⟨⟨h.loop, List.nil_suffix, h.held, h.registered⟩, rfl, rfl, hzero, ?_,
        .inr (.inl List.mem_cons_self)⟩
      simp [dueTime, ho]
  | epollDelFail ho =>
    rcases hcases ho with ⟨heq, -⟩ | ⟨heq, -⟩
    · cases heq
    · cases heq
  | endEvents | invalidRead | unmatched | matched | errorEvent => exact absurd rfl ha
  -- The loop is between two events
  | wait hl | startSweep hl | readSlot hl | skipSlot hl | sweepSlot hl | sweepKeep hl
  | sweepRead hl | sweepJobs hl | epollWait hl | recvClosed hl | recv hl =>
    cases h.loop.symm.trans hl

/-- A worker leaves the slot's time alone and allocates no job. -/
private theorem Received.worker_step {a : Action} (h : u.Received i fd now arg es)
    (hs : u.WorkerMoves a t) : t.Received i fd now arg es ∧ u.Kept t i fd now [a] := by
  have hnet := hs.sameNet
  have hcounts : Action.counts a = false := by
    cases hs with
    | crash _ ha | move ha _ =>
      obtain rfl | rfl | rfl | rfl | ⟨_, rfl⟩ := Action.eq_of_handler ha <;> rfl
    | _ => rfl
  have htotal : t.total = u.total + [a].countP Action.counts := by
    simp [hcounts, hnet.total]
  have hnow : (t.table i).now = (u.table i).now := (hs.slot_frame i).1
  have hjobs : t.pool.allocated = u.pool.allocated := by
    cases hs with
    | thread ha hp => exact Thpool.worker_allocated ha hp
    | leave hp => exact Thpool.worker_allocated rfl hp
    | _ => rfl
  exact h.frame (hnet.fdAt i) (congrFun hnet.owner i) (congrFun hnet.fds fd)
    (hnet.epoll ▸ h.registered) hnet.loop hnet.ops htotal hnow hjobs

/-- Whatever the threads do until the next event, the connection stays. -/
private theorem Received.run {as : List Action} (h : u.Received i fd now arg es)
    (hr : Transition.Reachable system u) (has : .nextEvent ∉ as)
    (hrun : system.run u as = some t) :
    t.Received i fd now arg es ∧ u.Kept t i fd now as := by
  induction as generalizing u with
  | nil =>
    obtain rfl := Option.some.inj hrun
    exact ⟨h, rfl, rfl, (Int.add_zero _).symm, rfl, .inl rfl⟩
  | cons a as ih =>
    obtain ⟨v, hv, hrun⟩ := Transition.System.run_cons_some hrun
    have ha : a ≠ .nextEvent := fun heq => has (heq ▸ List.mem_cons_self)
    obtain ⟨hrec, hfirst⟩ : v.Received i fd now arg es ∧ u.Kept v i fd now [a] := by
      rcases (step_moves hv).2 with hm | hm | hm
      · exact h.accept_step hr hm
      · exact h.loop_step ha hm
      · exact h.worker_step hm
    obtain ⟨hend, hrest⟩ := ih hrec (.step hr trivial hv)
      (fun hm => has (List.mem_cons_of_mem a hm)) hrun
    refine ⟨hend, hrest.owner.trans hfirst.owner, hrest.opened.trans hfirst.opened, ?_,
      hrest.time.trans hfirst.time, ?_⟩
    · rw [hrest.total, hfirst.total, Int.add_assoc, ← Int.natCast_add, ← List.countP_append,
        List.singleton_append]
    · rcases hrest.jobs with hjobs | hmem | hfault
      · rcases hfirst.jobs with hjobs' | hmem | hfault
        · exact .inl (hjobs.trans hjobs')
        · exact .inr (.inl (List.mem_cons.mpr (.inl (List.mem_singleton.mp hmem))))
        · -- A fault ends the run
          cases as with
          | nil => exact .inr (.inr (Option.some.inj hrun ▸ hfault))
          | cons b bs =>
            obtain ⟨x, hx, -⟩ := Transition.System.run_cons_some hrun
            have hstop : system.step v b = none := by simp [system, step, hfault]
            cases hstop.symm.trans hx
      · exact .inr (.inl (List.mem_cons_of_mem a hmem))
      · exact .inr (.inr hfault)

/-! ### The end of stream -/

/-- What the event loop has to do after an end of stream. -/
private theorem recv_nil (hl : s.loop = .receiving i fd es)
    (hs : s.step (.recv (some []) now) = some s') :
    ∃ conn, s' = { s with
      loop := .events es
      ops := [.updateTime i now, .enqueue now (.received [] fd conn)] } := by
  rcases (step_moves hs).2 with hm | hm | hm
  · cases hm
  · cases hm with
    | @recv i' fd' now es' conn result hl' ho hfd =>
      obtain ⟨rfl, rfl, rfl⟩ := LoopPc.receiving.inj (hl.symm.trans hl')
      exact ⟨conn, rfl⟩
  · cases hm with
    | crash _ ha | move ha _ => exact nomatch ha

/-- The event loop keeps the connection whose peer has closed it. -/
theorem peer_close_ignored {as : List Action} (h : Transition.Reachable system s)
    (hl : s.loop = .receiving i fd es) (has : .nextEvent ∉ as)
    (hr : system.run s (.recv (some []) now :: as) = some t) (hdone : t.ops = []) :
    s.PeerCloseIgnored t i fd now as := by
  have hnet := netInv_of_reach h
  obtain ⟨u, hu, hr⟩ := Transition.System.run_cons_some hr
  have hreach : Transition.Reachable system u := .step h trivial hu
  obtain ⟨conn, rfl⟩ := recv_nil hl hu
  have hrec : Received { s with
      loop := .events es
      ops := [.updateTime i now, .enqueue now (.received [] fd conn)] } i fd now
      (.received [] fd conn) es :=
    ⟨rfl, List.suffix_refl _, (hnet.loop.slot i fd (by rw [hl]; rfl)).1,
      (hnet.loop.pending fd (by rw [hl]; exact List.mem_cons_self)).1⟩
  obtain ⟨hend, hkept⟩ := hrec.run hreach has hr
  refine ⟨hend.held, hkept.owner, hkept.opened, hkept.total, ?_, ?_⟩
  · simpa [dueTime, hdone] using hkept.time
  · simpa [dueJobs, hdone] using hkept.jobs

/-- The end of a stream is handled in no reachable state, for no slot and descriptor, and
    in no interleaving: the slot stays occupied and is still listed. -/
theorem peer_close_never_handled {as : List Action} (h : Transition.Reachable system s)
    (hl : s.loop = .receiving i fd es) (has : .nextEvent ∉ as)
    (hr : system.run s (.recv (some []) now :: as) = some t) (hdone : t.ops = []) :
    (t.table.getAllUsersNode i).isSome ∧ ¬ s.PeerCloseHandled t i fd as := by
  have hnet := netInv_of_reach h
  have hreg : s.epoll fd = true := (hnet.loop.pending fd (by rw [hl]; exact List.mem_cons_self)).1
  have hpos := hnet.nonneg fd (hnet.registered fd hreg)
  have hign := peer_close_ignored h hl has hr hdone
  have hocc : (t.table i).connectFd ≠ -1 := by
    rw [show (t.table i).connectFd = fd from hign.held]
    omega
  refine ⟨?_, fun hhandled => hhandled.gone [] t rfl hign.owner⟩
  simp only [Table.getAllUsersNode, hocc, ne_eq, not_false_eq_true, ↓reduceIte, Option.isSome_some]

/-- A client that connects and closes its connection. -/
private def peerCloseRun : List Action :=
  acceptRun { fd := 5, addr := .zero _, port := 80 } 0 ++
    [.tick 0, .epollWait [{ fd := 5, epollin := true }], .nextEvent]

/-- The client stays in the table, while another one connects. -/
theorem peer_close_never_handled_first :
    ∃ s t : Server, system.run (start 0) peerCloseRun = some s ∧
      system.run s [.recv (some []) 7, .gate, .op, .accept none, .op] = some t ∧
      (t.table.getAllUsersNode 0).isSome ∧
        ¬ s.PeerCloseHandled t 0 5 [.gate, .op, .accept none, .op] := by
  have hrun : ∃ s t : Server, system.run (start 0) peerCloseRun = some s ∧
      system.run s [.recv (some []) 7, .gate, .op, .accept none, .op] = some t ∧
      s.loop = .receiving 0 5 [] ∧ t.ops = [] := ⟨_, _, rfl, rfl, rfl, rfl⟩
  obtain ⟨s, t, hs, ht, hl, hdone⟩ := hrun
  exact ⟨s, t, hs, ht, peer_close_never_handled (.of_run ⟨0, 15, rfl⟩ hs) hl (by simp) ht hdone⟩

/-- Not every end of a stream is handled. -/
theorem peer_close_handled_fails :
    ¬ ∀ (s t : Server) (i : Fin maxEvents) (fd now : Int) (es : List Event) (as : List Action),
      Transition.Reachable system s → s.loop = .receiving i fd es → .nextEvent ∉ as →
      system.run s (.recv (some []) now :: as) = some t → t.ops = [] →
      s.PeerCloseHandled t i fd as := by
  intro h
  have hrun : ∃ s t : Server, system.run (start 0) peerCloseRun = some s ∧
      system.run s [.recv (some []) 7, .op, .op] = some t ∧ s.loop = .receiving 0 5 [] ∧
      t.ops = [] ∧ t.owner 0 = s.owner 0 := ⟨_, _, rfl, rfl, rfl, rfl, rfl⟩
  obtain ⟨s, t, hs, ht, hl, hdone, howner⟩ := hrun
  have hclosed := h s t 0 5 7 [] [.op, .op] (.of_run ⟨0, 15, rfl⟩ hs) hl (by simp) ht hdone
  exact hclosed.gone [] t rfl howner

end Server

end JQServer
