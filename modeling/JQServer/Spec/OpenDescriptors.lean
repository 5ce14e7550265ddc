import JQServer.Spec.DescriptorOwnership

/-!
# Open descriptors

A descriptor that `accept` has returned is closed by an error exit of `accept_thread`, or it gets
into a slot, and then it is closed where the slot is freed. So no descriptor is lost: in every
state of every run an open one is in a slot, or of the client that `accept_thread` works on, or
the event loop is about to close it (`no_descriptor_lost`). Where EPOLL_CTL_ADD does not fail,
the slots hold open descriptors, and so the table at rest is the list of the open connections
(`open_iff_occupied`).
-/

namespace JQServer

namespace Server

variable {s s' : Server} {a : Action} {fd : Int} {c : Nat}

/-- An open descriptor that somebody is going to close. -/
def Held (s : Server) (fd : Int) : Prop :=
  (∃ i, s.fdAt i = fd) ∨ (∃ cl, s.accept.unfilled = some cl ∧ cl.fd = fd) ∨
    ∃ x, .close fd x ∈ s.ops

/-- Every open descriptor is held. -/
def OpenHeld (s : Server) : Prop := ∀ fd c, s.fds fd = some c → s.Held fd

/-- It is at the start, where no descriptor is open. -/
theorem openHeld_start (t n : Int) : (start t n).OpenHeld := by
  intro fd c hopen
  cases hopen

/-- Moving the accept thread to a place where it works on the same client. -/
private theorem OpenHeld.moveAccept (h : s.OpenHeld) (hfds : s'.fds = s.fds)
    (htable : s'.table = s.table) (hops : s'.ops = s.ops)
    (hclient : ∀ cl, s.accept.unfilled = some cl → s'.accept.unfilled = some cl) :
    s'.OpenHeld := by
  intro fd c hopen
  rw [hfds] at hopen
  rcases h fd c hopen with ⟨i, hi⟩ | ⟨cl, hcl, hfd⟩ | ⟨x, hx⟩
  · exact .inl ⟨i, by rw [fdAt, htable]; exact hi⟩
  · exact .inr (.inl ⟨cl, hclient cl hcl, hfd⟩)
  · exact .inr (.inr ⟨x, by rw [hops]; exact hx⟩)

/-- The accept thread puts the descriptor of its client into the slot. -/
private theorem OpenHeld.fill {cl : Client} {i : Fin maxEvents} {w : SlotWrite}
    {ws : List SlotWrite} (h : s.OpenHeld) (hnet : s.NetInv)
    (hpc : s.accept = .filling cl i (w :: ws)) :
    OpenHeld { s.fillSlot cl i w with accept := .filling cl i ws } := by
  obtain ⟨now, hsuf⟩ := hnet.accept.writes cl i _ hpc
  rcases fill_cases hsuf with ⟨rfl, hws⟩ | ⟨hw, hws⟩
  · have hfree : s.fdAt i = -1 := hnet.accept.target i (by
      simp only [hpc, AcceptPc.target, List.mem_cons, true_or, ↓reduceIte])
    intro fd c hopen
    have hopen : s.fds fd = some c := hopen
    rcases h fd c hopen with ⟨j, hj⟩ | ⟨cl', hcl', hfd⟩ | hx
    · -- An open descriptor was in another slot, because this one was free
      have hpos := hnet.nonneg fd (by rw [hopen]; exact Option.some_ne_none c)
      have hji : j ≠ i := by
        rintro rfl
        omega
      exact .inl ⟨j, by rw [fdAt_filling_of_ne hji]; exact hj⟩
    -- It was the client's, and is in the slot from here on
    · obtain rfl : cl = cl' := by
        simpa only [hpc, AcceptPc.unfilled, List.mem_cons, true_or, ↓reduceIte,
          Option.some.injEq] using hcl'
      exact .inl ⟨i, fdAt_filling_self.trans hfd⟩
    · exact .inr (.inr hx)
  · have hfd : ({ s.fillSlot cl i w with accept := .filling cl i ws } : Server).fdAt = s.fdAt :=
      (fdAt_fillSlot_other (c := cl) hw).1
    intro fd c hopen
    rcases h fd c hopen with ⟨j, hj⟩ | ⟨cl', hcl', hfd'⟩ | hx
    · exact .inl ⟨j, by rw [hfd]; exact hj⟩
    · refine .inr (.inl ⟨cl', ?_, hfd'⟩)
      rw [hpc] at hcl'
      simpa only [AcceptPc.unfilled, hws] using hcl'
    · exact .inr (.inr hx)

/-- Steps of the accept thread. -/
private theorem OpenHeld.accept_step (h : s.OpenHeld) (hnet : s.NetInv)
    (hs : s.AcceptMoves a s') : s'.OpenHeld := by
  cases hs with
  -- Neither before nor behind these has the thread a client that is in no slot
  | gate hpc _ | acceptError hpc | unlock hpc | epollAdd hpc | epollAddFails hpc | countAdd hpc =>
    refine h.moveAccept rfl rfl rfl ?_
    rw [hpc]
    intro cl hcl
    simp [AcceptPc.unfilled] at hcl
  | noSlot hpc | chooseSlot hpc | setNonBlocking hpc | notNonBlocking hpc | setRcvbuf hpc
  | noRcvbuf hpc =>
    refine h.moveAccept rfl rfl rfl ?_
    rw [hpc]
    exact fun cl hcl => hcl
  | @initSlot cl i now hpc =>
    -- The descriptor is among the writes to come
    have hmem : SlotWrite.connectFd cl.fd ∈ initEpollConnectByIndex now cl.fd cl.addr cl.port := by
      simp [initEpollConnectByIndex]
    refine h.moveAccept rfl rfl rfl ?_
    rw [hpc]
    intro cl' hcl'
    simp only [AcceptPc.unfilled, hmem, ↓reduceIte]
    exact hcl'
  | @accept p hpc hpos hfree =>
    intro fd c hopen
    by_cases hfd : fd = p.fd
    · exact .inr (.inl ⟨_, rfl, hfd.symm⟩)
    · -- The other descriptors were open before, and not of a client of the accept thread
      simp only [Function.update_of_ne hfd] at hopen
      rcases h fd c hopen with hslot | ⟨cl, hcl, -⟩ | hx
      · exact .inl hslot
      · rw [hpc] at hcl
        cases hcl
      · exact .inr (.inr hx)
  | fill hpc => exact h.fill hnet hpc
  | @closeFailed cl slot hpc =>
    intro fd c hopen
    have hfd : fd ≠ cl.fd := by
      rintro rfl
      simp only [closesocket, Function.update_self, reduceCtorEq] at hopen
    simp only [closesocket, Function.update_of_ne hfd] at hopen
    rcases h fd c hopen with hslot | ⟨cl', hcl', hfd'⟩ | hx
    · exact .inl hslot
    · -- The client whose descriptor was in no slot is the one that is closed
      rw [hpc] at hcl'
      cases slot with
      | none =>
        obtain rfl := Option.some.inj hcl'
        exact absurd hfd'.symm hfd
      | some i => cases hcl'
    · exact .inr (.inr hx)

/-- A slot is freed before its descriptor is closed. -/
private theorem OpenHeld.popFree {op : LoopOp} {ops : List LoopOp} {i : Fin maxEvents}
    (h : s.OpenHeld) (ho : s.ops = op :: ops) (hop : op.drops = none)
    (hclose : ∃ x, .close (s.fdAt i) x ∈ s.ops) : OpenHeld ({ s with ops := ops }.free i) := by
  have htail : ∀ fd x, .close fd x ∈ s.ops → .close fd x ∈ ops := by
    intro fd x hm
    rw [ho] at hm
    refine (List.mem_cons.mp hm).resolve_left ?_
    rintro rfl
    cases hop
  intro fd c hopen
  rcases h fd c hopen with ⟨j, hj⟩ | hcl | ⟨x, hx⟩
  -- The slot of the descriptor is the one freed: it is closed by a later call
  · by_cases hji : j = i
    · obtain ⟨x, hx⟩ := hclose
      rw [← hji, hj] at hx
      exact .inr (.inr ⟨x, htail fd x hx⟩)
    · refine .inl ⟨j, ?_⟩
      rw [fdAt_free, Function.update_of_ne hji]
      exact hj
  · exact .inr (.inl hcl)
  · exact .inr (.inr ⟨x, htail fd x hx⟩)

/-- A call that neither frees a slot nor closes a descriptor. -/
private theorem OpenHeld.popOp {op : LoopOp} {ops : List LoopOp} (h : s.OpenHeld)
    (ho : s.ops = op :: ops) (hop : ∀ fd x, op ≠ .close fd x) (hfds : s'.fds = s.fds)
    (hfd : s'.fdAt = s.fdAt) (hops : s'.ops = ops) (haccept : s'.accept = s.accept) :
    s'.OpenHeld := by
  intro fd c hopen
  rw [hfds] at hopen
  rcases h fd c hopen with ⟨i, hi⟩ | hcl | ⟨x, hx⟩
  · exact .inl ⟨i, by rw [hfd]; exact hi⟩
  · exact .inr (.inl (by rw [haccept]; exact hcl))
  · rw [ho] at hx
    refine .inr (.inr ⟨x, ?_⟩)
    rw [hops]
    exact (List.mem_cons.mp hx).resolve_left (Ne.symm (hop fd x))

/-- The calls of the event loop. -/
private theorem OpenHeld.op_step {op : LoopOp} {ops : List LoopOp} (h : s.OpenHeld)
    (hnet : s.NetInv) (ho : s.ops = op :: ops) (hop : OpMoves { s with ops := ops } op s') :
    s'.OpenHeld := by
  have hmem : op ∈ s.ops := by rw [ho]; exact List.mem_cons_self
  cases hop with
  | countSub | freeNone | freeMatchedNone _ | epollDel | enqueue _ =>
    exact h.popOp ho (by simp) rfl rfl rfl rfl
  | updateTime => exact h.popOp ho (by simp) rfl (fdAt_updateTime s.table _ _) rfl rfl
  | @free i _ => exact h.popFree ho rfl (hnet.loop.ops.free i hmem).2
  | @freeMatched fd i hi _ =>
    have hfd : s.fdAt i = fd := Table.getMatchedEventIndexByFd_some hi
    refine h.popFree ho rfl ?_
    rw [hfd]
    exact (hnet.loop.ops.freeMatched fd hmem).2.2
  | @close fd x =>
    -- It is the only descriptor that was about to be closed
    intro fd' c hopen
    have hne : fd' ≠ fd := by
      rintro rfl
      simp only [closesocket, Function.update_self, reduceCtorEq] at hopen
    simp only [closesocket, Function.update_of_ne hne] at hopen
    rcases h fd' c hopen with hslot | hcl | ⟨x', hx'⟩
    · exact .inl hslot
    · exact .inr (.inl hcl)
    · exact absurd (hnet.loop.ops.close_unique hx' hmem).1 hne

/-- Steps of the event loop. -/
private theorem OpenHeld.loop_step (h : s.OpenHeld) (hnet : s.NetInv) (hs : s.LoopMoves a s') :
    s'.OpenHeld := by
  -- A decision is made with nothing pending
  have hdecide : s.ops = [] → s'.fds = s.fds → s'.table = s.table → s'.accept = s.accept →
      s'.OpenHeld := by
    intro ho hfds htable haccept fd c hopen
    rw [hfds] at hopen
    rcases h fd c hopen with ⟨i, hi⟩ | hcl | ⟨x, hx⟩
    · exact .inl ⟨i, by rw [fdAt, htable]; exact hi⟩
    · exact .inr (.inl (by rw [haccept]; exact hcl))
    · rw [ho] at hx
      cases hx
  cases hs with
  | op ho hop => exact h.op_step hnet ho hop
  | mallocFail ho | epollDelFail ho => exact h.popOp ho (by simp) rfl rfl rfl rfl
  | wait _ ho | startSweep _ ho | readSlot _ ho | skipSlot _ ho | sweepSlot _ ho | sweepKeep _ ho
  | sweepRead _ ho | sweepJobs _ ho | epollWait _ ho | endEvents _ ho | invalidRead _ ho
  | unmatched _ ho | matched _ ho | errorEvent _ ho | recvClosed _ ho | recv _ ho =>
    exact hdecide ho rfl rfl rfl

/-- Every open descriptor is held, in every state of every run. -/
theorem openHeld_of_reach {C : Server → Action → Prop} (h : Transition.Reach system C s) :
    s.OpenHeld := by
  refine h.invariant ?_ fun s a s' hr hinv _ hs => ?_
  · rintro s ⟨t, n, rfl⟩
    exact openHeld_start t n
  · have hnet := netInv_of_reach hr
    rcases (step_moves hs).2 with hm | hm | hm
    · exact hinv.accept_step hnet hm
    · exact hinv.loop_step hnet hm
    · have hsame := hm.sameNet
      intro fd c hopen
      rw [hsame.fds] at hopen
      simp only [Held, hsame.fdAt, hsame.accept, hsame.ops]
      exact hinv fd c hopen

/-- A descriptor that is about to be closed is closed last. -/
theorem OpsInv.close_getLast (h : s.OpsInv) {x : Option Nat} (hx : .close fd x ∈ s.ops) :
    s.ops.getLast? = some (.close fd x) := by
  have hne : s.ops ≠ [] := List.ne_nil_of_mem hx
  rw [List.getLast?_eq_some_getLast hne]
  rw [← List.dropLast_append_getLast hne] at hx
  rcases List.mem_append.mp hx with hx | hx
  · exact absurd hx (h.closeLast fd x)
  · exact congrArg some (List.mem_singleton.mp hx).symm

/-- At rest, in a run in which EPOLL_CTL_ADD does not fail on an open descriptor, the open
    connections are those of the occupied slots. -/
theorem open_iff_occupied (h : Transition.Reach system AddSucceeds s) (hq : s.Quiescent)
    (fd : Int) (c : Nat) : s.fds fd = some c ↔ ∃ i, s.fdAt i = fd ∧ s.owner i = some c := by
  have hnet := netInv_of_reach h
  have hown := ownInv_of_reach h
  obtain ⟨hacc, ho, -⟩ := hq
  constructor
  · intro hopen
    rcases openHeld_of_reach h fd c hopen with ⟨i, hi⟩ | ⟨cl, hcl, -⟩ | ⟨x, hx⟩
    -- At rest it is in a slot, which is its connection's
    · have hpos := hnet.nonneg fd (by rw [hopen]; exact Option.some_ne_none c)
      obtain ⟨c', howner, hfds⟩ := hown.opened i (by omega)
      rw [hi, hopen, Option.some.injEq] at hfds
      exact ⟨i, hi, hfds ▸ howner⟩
    · rw [hacc] at hcl
      cases hcl
    · rw [ho] at hx
      cases hx
  · rintro ⟨i, rfl, howner⟩
    obtain ⟨c', howner', hfds⟩ := hown.opened i
      ((hnet.owner i).mpr (by rw [howner]; exact Option.some_ne_none c))
    rw [howner, Option.some.injEq] at howner'
    exact howner' ▸ hfds

/-- No descriptor is lost, in any run: one that is open is in a slot, or it is of the client that
    `accept_thread` works on, or closing it is the last of the calls that the event loop is about
    to make. And where EPOLL_CTL_ADD has not failed on an open descriptor, the open connections
    at rest are exactly those of the occupied slots. -/
theorem no_descriptor_lost (h : Transition.Reachable system s) :
    (∀ fd c, s.fds fd = some c →
      (∃ i, s.fdAt i = fd) ∨ (∃ cl, s.accept.unfilled = some cl ∧ cl.fd = fd) ∨
        ∃ x, s.ops.getLast? = some (.close fd x)) ∧
    (Transition.Reach system AddSucceeds s → s.Quiescent →
      ∀ fd c, s.fds fd = some c ↔ ∃ i, s.fdAt i = fd ∧ s.owner i = some c) := by
  refine ⟨fun fd c hopen => ?_, open_iff_occupied⟩
  rcases openHeld_of_reach h fd c hopen with hslot | hcl | ⟨x, hx⟩
  · exact .inl hslot
  · exact .inr (.inl hcl)
  · exact .inr (.inr ⟨x, (netInv_of_reach h).loop.ops.close_getLast hx⟩)

/-- A client that was refused because its socket could not be made non-blocking, and one that was
    accepted: one descriptor is open, and it is in the table. -/
theorem no_descriptor_lost_second :
    ∃ s : Server, system.run (start 0) ([.gate,
        .accept (some { fd := 5, addr := .zero _, port := 80 }), .chooseSlot,
        .setNonBlocking false, .closeFailed] ++
          acceptRun { fd := 6, addr := .zero _, port := 81 } 0) = some s ∧
      s.fds 5 = none ∧ s.fds 6 = some 1 ∧ ∃ i, s.fdAt i = 6 ∧ s.owner i = some 1 := by
  have hrun : ∃ s : Server, system.run (start 0) ([.gate,
        .accept (some { fd := 5, addr := .zero _, port := 80 }), .chooseSlot,
        .setNonBlocking false, .closeFailed] ++
          acceptRun { fd := 6, addr := .zero _, port := 81 } 0) = some s ∧
      s.fds 5 = none ∧ s.fds 6 = some 1 ∧ s.Quiescent :=
    ⟨_, rfl, rfl, rfl, rfl, rfl, .inl rfl⟩
  obtain ⟨s, hs, hclosed, hopen, hq⟩ := hrun
  have hmeets : system.Meets AddSucceeds (start 0) ([.gate,
      .accept (some { fd := 5, addr := .zero _, port := 80 }), .chooseSlot,
      .setNonBlocking false, .closeFailed] ++
        acceptRun { fd := 6, addr := .zero _, port := 81 } 0) := by
    refine system.meets_of_mem (fun a ha u heq => ?_) _
    subst heq
    simp [acceptRun, fillRun] at ha
  have hreach : Transition.Reach system AddSucceeds s := .run (.init ⟨0, 15, rfl⟩) hmeets hs
  exact ⟨s, hs, hclosed, hopen,
    ((no_descriptor_lost (.of_run ⟨0, 15, rfl⟩ hs)).2 hreach hq 6 1).mp hopen⟩

end Server

end JQServer
