import JQServer.ForStd.Simulation
import JQServer.Spec.OpenDescriptors
import JQServer.Spec.Shadows

/-!
# The server while it shuts down

The threads of a server that gets SIGTERM run as those of the server without the handler, up to
descriptors that are closed (`simulation`). So what `no_descriptor_lost` says of open descriptors
holds of it too, and the handler closes what it finds in the slots. Only the client that the
accept thread was working on can get into a slot behind it: once the handler is done, no
connection but the last one accepted stays open, no other is accepted, and `main` waits for
events once at most before it leaves its loop (`shutdown_closes`).
-/

namespace JQServer

namespace Running

variable {p p' : Running} {t : Server} {a : Action}

/-- What a step can be. -/
inductive Moves (p : Running) : Action → Running → Prop
  | server {a : JQServer.Action} {s : Server} (hp : p.permits a = true)
      (hs : p.server.step a = some s) :
      Moves p (.server a) { p with
        server := s, main := p.mainAfter a, acceptThread := p.acceptThreadAfter a }
  | testExit (h : p.main = .untested) (hl : p.server.loop = .top) (ho : p.server.ops = []) :
      Moves p .testExit { p with main := if p.exitFlag then .left else .passed }
  | testExitAccept (h : p.acceptThread = .untested) (hpc : p.server.accept = .gate) :
      Moves p .testExitAccept
        { p with acceptThread := if p.exitAcceptFlag then .left else .passed }
  | sigterm (h : p.signal = .idle) : Moves p .sigterm { p with signal := .entered }
  | closeListen (h : p.signal = .entered) :
      Moves p .signal { p with listening := false, signal := .listenClosed }
  | setExitFlag (h : p.signal = .listenClosed) :
      Moves p .signal { p with exitFlag := true, signal := .exitFlagSet }
  | setExitAcceptFlag (h : p.signal = .exitFlagSet) :
      Moves p .signal { p with exitAcceptFlag := true, signal := .slots 0 }
  | readSlot {i : Fin maxEvents} (h : p.signal = .slots i) (hfd : p.server.fdAt i ≠ -1) :
      Moves p .signal { p with signal := .closing i (p.server.fdAt i) }
  | skipSlot {i : Fin maxEvents} (h : p.signal = .slots i) (hfd : p.server.fdAt i = -1) :
      Moves p .signal { p with signal := .slots (i + 1) }
  | closeSlot {i : Fin maxEvents} {sockfd : Int} (h : p.signal = .closing i sockfd) :
      Moves p .signal { p with
        server := p.server.signalClose sockfd, signal := .slots (i + 1) }
  | finish {k : Nat} (h : p.signal = .slots k) (hk : maxEvents ≤ k) :
      Moves p .signal { p with signal := .done }
  | mainClose (h : p.main = .left) :
      Moves p .mainExit { p with listening := false, main := .closed }
  | mainExit (h : p.main = .closed) :
      Moves p .mainExit { p with exitAcceptFlag := true, main := .done }
  | acceptExit (h : p.acceptThread = .left) :
      Moves p .acceptExit { p with listening := false, acceptThread := .closed }

private theorem signalStep_moves (h : p.signalStep = some p') : p.Moves .signal p' := by
  cases hpc : p.signal <;> simp only [signalStep, hpc, reduceCtorEq] at h
  case entered => exact Option.some.inj h ▸ .closeListen hpc
  case listenClosed => exact Option.some.inj h ▸ .setExitFlag hpc
  case exitFlagSet => exact Option.some.inj h ▸ .setExitAcceptFlag hpc
  case slots k =>
    split at h
    · rename_i hk
      obtain rfl := Option.some.inj h
      split
      · rename_i hfd
        exact .readSlot (i := ⟨k, hk⟩) hpc hfd
      · rename_i hfd
        exact .skipSlot (i := ⟨k, hk⟩) hpc (not_not.mp hfd)
    · rename_i hk
      exact Option.some.inj h ▸ .finish hpc (Nat.le_of_not_lt hk)
  case closing i sockfd => exact Option.some.inj h ▸ .closeSlot hpc

/-- A step is one of these. -/
theorem step_moves (h : p.step a = some p') : p.Moves a p' := by
  cases a with
  | server a =>
    simp only [step] at h
    split at h
    · rename_i hp
      obtain ⟨s, hs, rfl⟩ := Option.map_eq_some_iff.mp h
      exact .server hp hs
    · cases h
  | testExit =>
    cases hm : p.main <;> cases hl : p.server.loop <;> cases ho : p.server.ops <;>
      simp only [step, hm, hl, ho, reduceCtorEq] at h
    exact Option.some.inj h ▸ .testExit hm hl ho
  | testExitAccept =>
    cases hm : p.acceptThread <;> cases hpc : p.server.accept <;>
      simp only [step, hm, hpc, reduceCtorEq] at h
    exact Option.some.inj h ▸ .testExitAccept hm hpc
  | sigterm =>
    cases hpc : p.signal <;> simp only [step, hpc, reduceCtorEq] at h
    exact Option.some.inj h ▸ .sigterm hpc
  | signal => exact signalStep_moves h
  | mainExit =>
    cases hm : p.main <;> simp only [step, hm, reduceCtorEq] at h
    · exact Option.some.inj h ▸ .mainClose hm
    · exact Option.some.inj h ▸ .mainExit hm
  | acceptExit =>
    cases hm : p.acceptThread <;> simp only [step, hm, reduceCtorEq] at h
    exact Option.some.inj h ▸ .acceptExit hm

/-! ### The server without the handler -/

/-- The handler closes slots after it has closed the listening socket. -/
theorem listening_of_reach (h : Transition.Reachable system p) (hl : p.listening = true) :
    p.signal = .idle ∨ p.signal = .entered := by
  refine h.invariant
    (I := fun p => p.listening = true → p.signal = .idle ∨ p.signal = .entered) ?_ ?_ hl
  · rintro p ⟨t, n, rfl⟩ -
    exact .inl rfl
  · intro p a p' _ hinv _ hs hl
    cases step_moves hs with
    | server | testExit | testExitAccept | mainExit => exact hinv hl
    | sigterm => exact .inr rfl
    | setExitFlag h | setExitAcceptFlag h | readSlot h | skipSlot h | closeSlot h | finish h =>
      rcases hinv hl with h' | h' <;> rw [h'] at h <;> cases h
    | closeListen | mainClose | acceptExit => cases hl

/-- The steps of the threads. -/
def serverSteps (_ : Running) : Action → List JQServer.Action
  | .server a => [a]
  | _ => []

/-- A server that is shut down and one that is not, with threads that have done the same. While
    the socket listens, the handler has closed no descriptor. -/
structure Follows (p : Running) (t : Server) : Prop where
  net : t.NetInv
  shadows : p.server.Shadows t
  listening : p.listening = true → p.server = t

/-- A step of a thread is a step of the server without the handler. -/
private theorem Follows.server {a : JQServer.Action} {s : Server} (h : p.Follows t)
    (hp : p.permits a = true) (hs : p.server.step a = some s) :
    ∃ t', t.step a = some t' ∧ t'.NetInv ∧ s.Shadows t' ∧ (p.listening = true → s = t') := by
  by_cases hl : p.listening = true
  · have heq := h.listening hl
    exact ⟨s, heq ▸ hs, (heq ▸ h.net).step hs, .refl s, fun _ => rfl⟩
  · -- No client is accepted any more
    have haccept : ∀ q, a ≠ .accept (some q) := by
      rintro q rfl
      exact hl hp
    obtain ⟨t', ht, hshadow⟩ := h.shadows.step h.net haccept hs
    exact ⟨t', ht, h.net.step ht, hshadow, fun hl' => absurd hl' hl⟩

/-- The threads of a server that is shut down run as those of a server that is not, but for the
    descriptors that the handler closes. -/
theorem simulation :
    Transition.Simulation system (fun _ _ => True) Server.system (fun _ _ => True) serverSteps
      Follows where
  init := by
    rintro p ⟨t, n, rfl⟩
    exact ⟨Server.start t n, ⟨t, n, rfl⟩, Server.netInv_start t n, .refl _, fun _ => rfl⟩
  step := by
    rintro p a p' t hr - hs h
    have hlistening := listening_of_reach hr
    -- A step that leaves the server alone does not start to listen
    have hstay : p'.server = p.server → (p'.listening = true → p.listening = true) →
        p'.Follows t := by
      intro hserver hl
      exact ⟨h.net, hserver ▸ h.shadows, fun hl' => hserver.trans (h.listening (hl hl'))⟩
    cases step_moves hs with
    | server hp hstep =>
      obtain ⟨t', ht, hnet, hshadow, heq⟩ := h.server hp hstep
      refine ⟨t', ?_, ⟨trivial, fun _ _ => trivial⟩, hnet, hshadow, heq⟩
      rw [serverSteps, Transition.System.run_cons]
      show (t.step _).bind _ = _
      rw [ht]
      rfl
    | closeSlot hpc =>
      refine ⟨t, rfl, trivial, h.net, h.shadows.signalClose _, fun hl => ?_⟩
      rcases hlistening hl with h' | h' <;> rw [h'] at hpc <;> cases hpc
    | closeListen | mainClose | acceptExit =>
      exact ⟨t, rfl, trivial, hstay rfl fun hl => by cases hl⟩
    | testExit | testExitAccept | sigterm | setExitFlag | setExitAcceptFlag | readSlot | skipSlot
    | finish | mainExit => exact ⟨t, rfl, trivial, hstay rfl fun hl => hl⟩

/-- In every state every open descriptor is held. -/
theorem openHeld_of_reach (h : Transition.Reachable system p) : p.server.OpenHeld := by
  obtain ⟨t, ht, hfollows⟩ := simulation.reach h
  obtain ⟨fds, epoll, effects, hserver, hfds, -⟩ := hfollows.shadows
  intro fd c hopen
  rw [hserver] at hopen ⊢
  exact Server.openHeld_of_reach ht fd c (hfds fd c hopen)

/-! ### The last connection -/

end Running

namespace Server

variable {s s' : Server} {a : JQServer.Action}

/-- The descriptor is closed, or it is that of the last connection that was accepted. -/
def Last (s : Server) (fd : Int) : Prop := ∀ c, s.fds fd = some c → c + 1 = s.conns

/-- Where no client is accepted, descriptors are closed only. -/
theorem step_closes (haccept : ∀ q, a ≠ .accept (some q)) (hs : s.step a = some s') :
    s'.conns = s.conns ∧ ∀ fd c, s'.fds fd = some c → s.fds fd = some c := by
  rcases (Server.step_moves hs).2 with hm | hm | hm
  · cases hm with
    | accept => exact absurd rfl (haccept _)
    | closeFailed => exact ⟨rfl, fun _ _ => open_of_close⟩
    | _ => exact ⟨rfl, fun _ _ h => h⟩
  · cases hm with
    | @op op ops _ ho hop =>
      cases hop with
      | close => exact ⟨rfl, fun _ _ => open_of_close⟩
      | _ => exact ⟨rfl, fun _ _ h => h⟩
    | _ => exact ⟨rfl, fun _ _ h => h⟩
  · have hsame := hm.sameNet
    refine ⟨hsame.conns, fun fd c hopen => ?_⟩
    rwa [hsame.fds] at hopen

/-- Such a step leaves the client of the accept thread alone, and a slot that it gives another
    descriptor is freed, or gets that of this client. -/
theorem step_slots (hwrites : ∀ c i ws, s.accept = .filling c i ws →
      ∃ now, ws <:+ initEpollConnectByIndex now c.fd c.addr c.port)
    (haccept : ∀ q, a ≠ .accept (some q)) (hs : s.step a = some s') :
    (∀ cl, s'.accept.unfilled = some cl → s.accept.unfilled = some cl) ∧
    ∀ i, s'.fdAt i = s.fdAt i ∨ s'.fdAt i = -1 ∨
      ∃ cl, s.accept.unfilled = some cl ∧ s'.fdAt i = cl.fd := by
  rcases (Server.step_moves hs).2 with hm | hm | hm
  · cases hm with
    | accept => exact absurd rfl (haccept _)
    -- The thread has no client in these places
    | gate hpc hpc' =>
      refine ⟨?_, fun i => .inl rfl⟩
      rcases hpc' with rfl | rfl <;> rintro _ ⟨⟩
    | acceptError | unlock | epollAdd | epollAddFails | countAdd | closeFailed =>
      exact ⟨by rintro _ ⟨⟩, fun i => .inl rfl⟩
    | noSlot hpc | chooseSlot hpc | setNonBlocking hpc | notNonBlocking hpc | setRcvbuf hpc
    | noRcvbuf hpc =>
      rw [hpc]
      exact ⟨fun _ h => h, fun i => .inl rfl⟩
    -- The client's descriptor is now among the writes to come
    | initSlot hpc =>
      rw [hpc]
      refine ⟨fun cl hcl => ?_, fun i => .inl rfl⟩
      simp only [AcceptPc.unfilled] at hcl
      split at hcl
      · exact hcl
      · cases hcl
    | @fill c i w ws hpc =>
      rw [hpc]
      obtain ⟨now, hsuf⟩ := hwrites c i (w :: ws) hpc
      constructor
      · intro cl hcl
        simp only [AcceptPc.unfilled] at hcl
        split at hcl
        · rename_i hmem
          simp only [AcceptPc.unfilled, List.mem_cons_of_mem w hmem, ↓reduceIte]
          exact hcl
        · cases hcl
      · intro j
        -- The write of the descriptor, or one of the others
        rcases fill_cases hsuf with ⟨rfl, -⟩ | ⟨hw, -⟩
        · by_cases hji : j = i
          · refine .inr (.inr ⟨c, ?_, by rw [hji]; exact fdAt_filling_self⟩)
            simp only [AcceptPc.unfilled, List.mem_cons, true_or, ↓reduceIte]
          · exact .inl (fdAt_filling_of_ne hji)
        · exact .inl (congrFun (fdAt_fillSlot_other (c := c) hw).1 j)
  · cases hm with
    | @op op ops _ ho hop =>
      cases hop with
      | @free i _ | @freeMatched _ i _ _ =>
        refine ⟨fun _ h => h, fun j => ?_⟩
        rw [fdAt_free]
        by_cases hji : j = i
        · rw [hji, Function.update_self]
          exact .inr (.inl rfl)
        · exact .inl (Function.update_of_ne hji ..)
      | updateTime => exact ⟨fun _ h => h, fun j => .inl (congrFun (fdAt_updateTime s.table _ _) j)⟩
      | _ => exact ⟨fun _ h => h, fun j => .inl rfl⟩
    | _ => exact ⟨fun _ h => h, fun j => .inl rfl⟩
  · have hsame := hm.sameNet
    rw [hsame.accept]
    exact ⟨fun _ h => h, fun i => .inl (hsame.fdAt i)⟩

/-- At the top the event loop can only begin a round. -/
theorem step_top (hl : s.loop = .top) (ho : s.ops = []) (htick : ∀ now, a ≠ .tick now)
    (hs : s.step a = some s') : s'.loop = .top ∧ s'.ops = [] := by
  rcases (Server.step_moves hs).2 with hm | hm | hm
  · cases hm <;> exact ⟨hl, ho⟩
  · cases hm with
    | wait | startSweep => exact absurd rfl (htick _)
    | op ho' | mallocFail ho' | epollDelFail ho' => cases ho.symm.trans ho'
    | readSlot hl' | skipSlot hl' | sweepSlot hl' | sweepKeep hl' | sweepRead hl' | sweepJobs hl'
    | epollWait hl' | endEvents hl' | invalidRead hl' | unmatched hl' | matched hl'
    | errorEvent hl' | recvClosed hl' | recv hl' => cases hl.symm.trans hl'
  · have hsame := hm.sameNet
    exact ⟨hsame.loop.trans hl, hsame.ops.trans ho⟩

end Server

/-- The slots that the handler is past. -/
def SignalPc.passed : SignalPc → Fin maxEvents → Prop
  | .slots k, i => i.val < k
  | .closing k _, i => i.val < k.val
  | .done, _ => True
  | _, _ => False

namespace Running

variable {p p' : Running} {a : Action}

/-- Behind the handler only the last connection can be open, the one that the accept thread
    works on. -/
structure LastInv (p : Running) : Prop where
  client : ∀ cl, p.server.accept.unfilled = some cl → p.server.Last cl.fd
  passed : ∀ i, p.signal.passed i → p.server.Last (p.server.fdAt i)
  /-- The slot whose descriptor the handler closes may have got another one since. -/
  closing : ∀ i fd, p.signal = .closing i fd →
    p.server.fdAt i = fd ∨ p.server.Last (p.server.fdAt i)

/-- It holds at the start. -/
theorem lastInv_start (t n : Int) : (start t n).LastInv where
  client := by rintro _ ⟨⟩
  passed := by rintro _ ⟨⟩
  closing := by rintro _ _ ⟨⟩

/-- No slot is behind the handler while the socket listens. -/
private theorem not_passed_of_listening (h : Transition.Reachable system p)
    (hl : p.listening = true) : (∀ i, ¬ p.signal.passed i) ∧ ∀ i fd, p.signal ≠ .closing i fd := by
  rcases listening_of_reach h hl with hpc | hpc <;> rw [hpc]
  · exact ⟨fun i h => h, fun i fd h => by cases h⟩
  · exact ⟨fun i h => h, fun i fd h => by cases h⟩

/-- No connection has the descriptor of a free slot. -/
private theorem last_free (h : Transition.Reachable system p) : p.server.Last (-1) := by
  obtain ⟨t, ht, hfollows⟩ := simulation.reach h
  obtain ⟨fds, epoll, effects, hserver, hfds, -⟩ := hfollows.shadows
  intro c hc
  rw [hserver] at hc
  have := hfollows.net.nonneg (-1) (by rw [hfds (-1) c hc]; exact Option.some_ne_none c)
  omega

/-- Steps of the threads. -/
private theorem LastInv.server {a : JQServer.Action} {s : Server} {main acceptThread : LoopTest}
    (h : p.LastInv) (hr : Transition.Reachable system p) (hp : p.permits a = true)
    (hs : p.server.step a = some s) :
    LastInv { p with server := s, main := main, acceptThread := acceptThread } := by
  by_cases haccept : ∀ q, a ≠ .accept (some q)
  · obtain ⟨t, ht, hfollows⟩ := simulation.reach hr
    obtain ⟨fds, epoll, effects, hserver, -⟩ := hfollows.shadows
    obtain ⟨hconns, hopen⟩ := Server.step_closes haccept hs
    obtain ⟨hclient, hslots⟩ := Server.step_slots
      (by rw [hserver]; exact hfollows.net.accept.writes) haccept hs
    have hlast : ∀ fd, p.server.Last fd → s.Last fd := by
      intro fd hfd c hc
      rw [hconns]
      exact hfd c (hopen fd c hc)
    -- A slot keeps its descriptor, is freed, or is now the client's
    have hslot : ∀ i, s.fdAt i = p.server.fdAt i ∨ s.Last (s.fdAt i) := by
      intro i
      rcases hslots i with heq | heq | ⟨cl, hcl, heq⟩
      · exact .inl heq
      · exact .inr (heq ▸ hlast _ (last_free hr))
      · exact .inr (heq ▸ hlast cl.fd (h.client cl hcl))
    refine ⟨fun cl hcl => hlast cl.fd (h.client cl (hclient cl hcl)), fun i hi => ?_,
      fun i fd hpc => ?_⟩
    · rcases hslot i with heq | hl
      · exact heq ▸ hlast _ (h.passed i hi)
      · exact hl
    · rcases hslot i with heq | hl
      · rcases h.closing i fd hpc with hfd | hl
        · exact .inl (heq.trans hfd)
        · exact .inr (heq ▸ hlast _ hl)
      · exact .inr hl
  · -- A client is accepted, so the handler has not come to the slots
    rw [not_forall] at haccept
    obtain ⟨q, hq⟩ := haccept
    obtain rfl := not_not.mp hq
    obtain ⟨hpassed, hclosing⟩ := not_passed_of_listening hr hp
    refine ⟨fun cl hcl => ?_, fun i hi => absurd hi (hpassed i), fun i fd hpc =>
      absurd hpc (hclosing i fd)⟩
    rcases (Server.step_moves hs).2 with hm | hm | hm
    · cases hm with
      | accept =>
        obtain rfl := Option.some.inj hcl
        intro c hc
        simp only [Function.update_self, Option.some.injEq] at hc
        exact hc ▸ rfl
    · cases hm
    · cases hm with
      | crash _ ha | move ha _ => cases ha

/-- The handler closes the descriptor of a slot. -/
private theorem LastInv.closeSlot {i : Fin maxEvents} {sockfd : Int} (h : p.LastInv)
    (hpc : p.signal = .closing i sockfd) :
    LastInv { p with server := p.server.signalClose sockfd, signal := .slots (i + 1) } := by
  have hlast : ∀ fd, p.server.Last fd → (p.server.signalClose sockfd).Last fd := by
    intro fd hfd c hc
    exact hfd c (Server.open_of_close hc)
  refine ⟨fun cl hcl => hlast cl.fd (h.client cl hcl), fun j hj => ?_, by rintro _ _ ⟨⟩⟩
  by_cases hji : j = i
  · subst hji
    rcases h.closing j sockfd hpc with hfd | hl
    · -- The slot still has the descriptor that is closed now
      intro c hc
      have hc : Function.update p.server.fds sockfd none (p.server.fdAt j) = some c := hc
      rw [hfd, Function.update_self] at hc
      cases hc
    · exact hlast _ hl
  · have hj : j.val < i + 1 := hj
    have hne : j.val ≠ i.val := fun heq => hji (Fin.ext heq)
    refine hlast _ (h.passed j ?_)
    rw [hpc]
    show j.val < i.val
    omega

/-- It holds in every state. -/
theorem lastInv_of_reach (h : Transition.Reachable system p) : p.LastInv := by
  refine h.invariant ?_ fun p a p' hr hinv _ hs => ?_
  · rintro p ⟨t, n, rfl⟩
    exact lastInv_start t n
  · -- A step of the handler that comes past no slot
    have hstay : ∀ {signal : SignalPc} {listening exitFlag exitAcceptFlag : Bool},
        (∀ i, signal.passed i → p.signal.passed i ∨ p.server.Last (p.server.fdAt i)) →
        (∀ i fd, signal = .closing i fd → p.server.fdAt i = fd) →
        LastInv { p with
          signal := signal
          listening := listening
          exitFlag := exitFlag
          exitAcceptFlag := exitAcceptFlag } := by
      intro signal _ _ _ hpassed hclosing
      exact ⟨hinv.client, fun i hi => (hpassed i hi).elim (hinv.passed i) id,
        fun i fd hpc => .inl (hclosing i fd hpc)⟩
    cases step_moves hs with
    | server hp hstep => exact hinv.server hr hp hstep
    | testExit | testExitAccept | mainClose | mainExit | acceptExit =>
      exact ⟨hinv.client, hinv.passed, hinv.closing⟩
    | closeSlot hpc => exact hinv.closeSlot hpc
    | sigterm | closeListen | setExitFlag =>
      exact hstay (by rintro _ ⟨⟩) (by rintro _ _ ⟨⟩)
    | setExitAcceptFlag =>
      exact hstay (fun i hi => absurd hi (Nat.not_lt_zero _)) (by rintro _ _ ⟨⟩)
    -- The slot is not passed before its descriptor is closed
    | @readSlot i hpc hfd =>
      refine hstay (fun j hj => .inl (by rw [hpc]; exact hj)) fun j fd heq => ?_
      obtain ⟨rfl, rfl⟩ := SignalPc.closing.inj heq
      rfl
    | @skipSlot i hpc hfd =>
      refine hstay (fun j hj => ?_) (by rintro _ _ ⟨⟩)
      -- A free slot holds no descriptor that could be open
      by_cases hji : j = i
      · rw [hji, hfd]
        exact .inr (last_free hr)
      · have hj : j.val < i + 1 := hj
        have hne : j.val ≠ i.val := fun heq => hji (Fin.ext heq)
        rw [hpc]
        exact .inl (show j.val < i.val by omega)
    | finish hpc hk =>
      refine hstay (fun j _ => .inl ?_) (by rintro _ _ ⟨⟩)
      rw [hpc]
      exact Nat.lt_of_lt_of_le j.isLt hk

/-! ### The rounds that are left -/

/-- The action is the return of `epoll_wait`. -/
def isEpollWait : Action → Bool
  | .server (.epollWait _) => true
  | _ => false

/-- How often `epoll_wait` can still return before the event loop is at its top. -/
def loopWaits : LoopPc → Nat
  | .top | .events _ | .receiving .. => 0
  | .sweeping .. | .checking .. | .deleting | .waiting => 1

/-- The test of `exit_flag` has let `main` into a round. -/
def testWaits : LoopTest → Nat
  | .passed => 1
  | _ => 0

/-- How often `epoll_wait` can still return once `exit_flag` is set. -/
def waits (p : Running) : Nat := testWaits p.main + loopWaits p.server.loop

/-- The listening socket is closed and `exit_flag` set. -/
def SignalSet (p : Running) : Prop := p.exitFlag = true ∧ p.listening = false

/-- What a thread does uses up a return of `epoll_wait`, or the test that the next one needs. -/
private theorem waits_server {a : JQServer.Action} {s : Server} (hp : p.permits a = true)
    (hs : p.server.step a = some s) :
    (isEpollWait (.server a)).toNat + testWaits (p.mainAfter a) + loopWaits s.loop ≤ p.waits := by
  have hstay : isEpollWait (.server a) = false → p.mainAfter a = p.main →
      s.loop = p.server.loop → (isEpollWait (.server a)).toNat + testWaits (p.mainAfter a) +
        loopWaits s.loop ≤ p.waits := by
    intro hwait hmain hloop
    rw [hwait, hmain, hloop, Bool.toNat_false, Nat.zero_add, waits]
  rcases (Server.step_moves hs).2 with hm | hm | hm
  · cases hm <;> exact hstay rfl rfl rfl
  · cases hm with
    -- The test that let `main` in is used up, and a wait is to come
    | wait hl | startSweep hl =>
      have hmain : p.main = .passed := of_decide_eq_true hp
      rw [waits, hl, hmain]
      exact Nat.le_refl _
    -- The wait is over: no other comes before the top
    | epollWait hl =>
      rw [waits, hl]
      simp only [isEpollWait, mainAfter, loopWaits, Bool.toNat_true]
      omega
    | readSlot hl | skipSlot hl | sweepSlot hl | sweepKeep hl | sweepRead hl | sweepJobs hl
    | endEvents hl | invalidRead hl | unmatched hl | matched hl | errorEvent hl | recvClosed hl
    | recv hl =>
      rw [waits, hl]
      simp only [isEpollWait, mainAfter, loopWaits, Bool.toNat_false]
      omega
    | op _ hop => cases hop <;> exact hstay rfl rfl rfl
    | mallocFail | epollDelFail => exact hstay rfl rfl rfl
  · have hloop := hm.sameNet.loop
    cases hm with
    | crash _ ha | move ha _ =>
      obtain rfl | rfl | rfl | rfl | ⟨_, rfl⟩ := Action.eq_of_handler ha <;>
        exact hstay rfl rfl hloop
    | _ => exact hstay rfl rfl hloop

/-- Once the flag is set and the socket closed, they stay so, no client is accepted, and returns of
    `epoll_wait` are used up. -/
private theorem waits_step (hset : p.SignalSet) (hs : p.step a = some p') :
    p'.SignalSet ∧ p'.server.conns = p.server.conns ∧
      (isEpollWait a).toNat + p'.waits ≤ p.waits := by
  obtain ⟨hexit, hlisten⟩ := hset
  have hle : ∀ {q : Running}, q.main = p.main → q.server.loop = p.server.loop →
      0 + q.waits ≤ p.waits := by
    intro q hmain hloop
    rw [waits, hmain, hloop, waits, Nat.zero_add]
  cases step_moves hs with
  | @server a s hp hstep =>
    have haccept : ∀ q, a ≠ .accept (some q) := by
      rintro q rfl
      cases hlisten.symm.trans hp
    refine ⟨⟨hexit, hlisten⟩, (Server.step_closes haccept hstep).1, ?_⟩
    have hwaits := waits_server hp hstep
    rwa [Nat.add_assoc] at hwaits
  -- The flag is set, so `main` leaves its loop
  | testExit hmain =>
    refine ⟨⟨hexit, hlisten⟩, rfl, ?_⟩
    simp only [waits, hexit, ↓reduceIte, hmain, testWaits, isEpollWait, Bool.toNat_false]
    omega
  | closeListen | acceptExit => exact ⟨⟨hexit, rfl⟩, rfl, hle rfl rfl⟩
  | mainClose hmain =>
    refine ⟨⟨hexit, rfl⟩, rfl, ?_⟩
    simp [waits, hmain, testWaits, isEpollWait]
  | setExitFlag => exact ⟨⟨rfl, hlisten⟩, rfl, hle rfl rfl⟩
  | testExitAccept | sigterm | setExitAcceptFlag | readSlot | skipSlot | closeSlot | finish =>
    exact ⟨⟨hexit, hlisten⟩, rfl, hle rfl rfl⟩
  | mainExit hmain =>
    refine ⟨⟨hexit, hlisten⟩, rfl, ?_⟩
    simp [waits, hmain, testWaits, isEpollWait]

/-- The same of a run: no more returns of `epoll_wait` than are left. -/
private theorem waits_run {as : List Action} (hset : p.SignalSet)
    (hr : system.run p as = some p') :
    p'.server.conns = p.server.conns ∧ as.countP isEpollWait + p'.waits ≤ p.waits := by
  induction as generalizing p with
  | nil =>
    obtain rfl := Option.some.inj hr
    exact ⟨rfl, by simp⟩
  | cons a as ih =>
    obtain ⟨q, hs, hr⟩ := Transition.System.run_cons_some hr
    obtain ⟨hset', hconns, hle⟩ := waits_step hset hs
    obtain ⟨hconns', hle'⟩ := ih hset' hr
    refine ⟨hconns'.trans hconns, ?_⟩
    rw [List.countP_cons]
    cases hw : isEpollWait a with
    | false =>
      rw [hw, Bool.toNat_false] at hle
      simp only [Bool.false_eq_true, ↓reduceIte]
      omega
    | true =>
      rw [hw, Bool.toNat_true] at hle
      simp only [↓reduceIte]
      omega

/-- What is known of `main` when it has tested its flag, and of the flag when the handler has set
    it. -/
structure FlagInv (p : Running) : Prop where
  main : p.main = .passed → p.server.loop = .top ∧ p.server.ops = []
  exitFlag : p.signal ≠ .idle → p.signal ≠ .entered → p.signal ≠ .listenClosed →
    p.exitFlag = true

/-- It holds in every state. -/
theorem flagInv_of_reach (h : Transition.Reachable system p) : p.FlagInv := by
  refine h.invariant ?_ fun p a p' hr hinv _ hs => ?_
  · rintro p ⟨t, n, rfl⟩
    exact ⟨by rintro ⟨⟩, fun hidle => absurd rfl hidle⟩
  · cases step_moves hs with
    | @server a s hp hstep =>
      refine ⟨fun hmain => ?_, hinv.exitFlag⟩
      -- Only the start of a round makes `main` untested again
      have htick : ∀ now, a ≠ .tick now := by
        rintro now rfl
        cases hmain
      have hmain : p.main = .passed := by
        cases a with
        | tick now => exact absurd rfl (htick now)
        | _ => exact hmain
      obtain ⟨hl, ho⟩ := hinv.main hmain
      exact Server.step_top hl ho htick hstep
    | testExit hmain hl ho => exact ⟨fun _ => ⟨hl, ho⟩, hinv.exitFlag⟩
    | testExitAccept => exact ⟨hinv.main, hinv.exitFlag⟩
    | sigterm => exact ⟨hinv.main, fun _ h => absurd rfl h⟩
    | closeListen => exact ⟨hinv.main, fun _ _ h => absurd rfl h⟩
    | setExitFlag => exact ⟨hinv.main, fun _ _ _ => rfl⟩
    | setExitAcceptFlag hpc | readSlot hpc | skipSlot hpc | closeSlot hpc | finish hpc =>
      have hexit := hinv.exitFlag (by simp [hpc]) (by simp [hpc]) (by simp [hpc])
      exact ⟨hinv.main, fun _ _ _ => hexit⟩
    | mainClose | mainExit => exact ⟨by rintro ⟨⟩, hinv.exitFlag⟩
    | acceptExit => exact ⟨hinv.main, hinv.exitFlag⟩

/-- Once the handler is done, the flag is set and the socket closed. -/
theorem signalSet_of_reach (h : Transition.Reachable system p) (hdone : p.signal = .done) :
    p.SignalSet := by
  refine ⟨(flagInv_of_reach h).exitFlag (by simp [hdone]) (by simp [hdone]) (by simp [hdone]), ?_⟩
  by_contra hl
  rcases listening_of_reach h (by simpa using hl) with hpc | hpc <;> rw [hdone] at hpc <;> cases hpc

/-- `epoll_wait` returns once at most, wherever the event loop is. -/
theorem waits_le (h : Transition.Reachable system p) : p.waits ≤ 1 := by
  have hinv := (flagInv_of_reach h).main
  rw [waits]
  cases hm : p.main with
  | passed =>
    rw [(hinv hm).1]
    exact Nat.le_refl _
  | _ =>
    simp only [testWaits, Nat.zero_add]
    cases p.server.loop <;> simp only [loopWaits] <;> omega

/-- Once the handler of SIGTERM is done, in every run of any number of workers, no connection is
    open but the last one that was accepted, and one that the event loop is about to close; and
    from there on no client is accepted, and `epoll_wait` returns at most once. -/
theorem shutdown_closes (h : Transition.Reachable system p) (hdone : p.signal = .done) :
    (∀ fd c, p.server.fds fd = some c → c + 1 = p.server.conns ∨
      ∃ x, p.server.ops.getLast? = some (.close fd x)) ∧
    ∀ as p', system.run p as = some p' →
      p'.server.conns = p.server.conns ∧ as.countP isEpollWait ≤ 1 := by
  have hlast := lastInv_of_reach h
  constructor
  · intro fd c hopen
    rcases openHeld_of_reach h fd c hopen with ⟨i, hi⟩ | ⟨cl, hcl, hfd⟩ | ⟨x, hx⟩
    · refine .inl (hlast.passed i ?_ c (by rw [hi]; exact hopen))
      rw [hdone]
      trivial
    · exact .inl (hlast.client cl hcl c (by rw [hfd]; exact hopen))
    · obtain ⟨t, ht, hfollows⟩ := simulation.reach h
      obtain ⟨fds, epoll, effects, hserver, -⟩ := hfollows.shadows
      rw [hserver] at hx ⊢
      exact .inr ⟨x, hfollows.net.loop.ops.close_getLast hx⟩
  · intro as p' hr
    obtain ⟨hconns, hle⟩ := waits_run (signalSet_of_reach h hdone) hr
    have hone := waits_le h
    exact ⟨hconns, by omega⟩

/-- The handler passes the free slots at the end of the table. -/
private theorem run_skip_slots {k n : Nat} (hkn : k + n = maxEvents) (hpc : p.signal = .slots k)
    (hfree : ∀ i : Fin maxEvents, k ≤ i → p.server.fdAt i = -1) :
    system.run p (List.replicate n .signal) = some { p with signal := .slots maxEvents } := by
  induction n generalizing p k with
  | zero =>
    obtain rfl : k = maxEvents := hkn
    rw [List.replicate_zero, Transition.System.run_nil, ← hpc]
  | succ n ih =>
    have hk : k < maxEvents := by omega
    have hstep : system.step p .signal = some { p with signal := .slots (k + 1) } := by
      have hfd : (p.server.table ⟨k, hk⟩).connectFd = -1 := hfree ⟨k, hk⟩ (Nat.le_refl k)
      show p.signalStep = _
      simp only [signalStep, hpc, hk, ↓reduceDIte, hfd, ne_eq, not_true_eq_false, ↓reduceIte]
    rw [List.replicate_succ, Transition.System.run_cons, hstep, Option.bind_some]
    exact ih (by omega) rfl fun i hi => hfree i (by omega)

/-- Two clients are accepted, and SIGTERM comes. -/
def terminateRun : List Action :=
  [.testExitAccept] ++ (Server.acceptRun { fd := 5, addr := .zero _, port := 80 } 0).map .server ++
    [.testExitAccept] ++
    (Server.acceptRun { fd := 6, addr := .zero _, port := 81 } 0).map .server ++
    [.sigterm, .signal, .signal, .signal, .signal, .signal, .signal, .signal]

/-- Then the first client is not connected any more. -/
theorem shutdown_closes_two :
    ∃ p, system.run (start 0) (terminateRun ++ (List.replicate 10238 .signal ++ [.signal])) =
      some p ∧ p.server.conns = 2 ∧ ∀ fd, p.server.fds fd ≠ some 0 := by
  have hrun : ∃ q : Running, system.run (start 0) terminateRun = some q ∧
      q.signal = .slots 2 ∧ q.server.conns = 2 ∧ q.server.ops = [] ∧
      ∀ k hk, q.server.fdAt ⟨k + 2, hk⟩ = -1 := ⟨_, rfl, rfl, rfl, rfl, fun _ _ => rfl⟩
  obtain ⟨q, hq, hpc, hconns, hops, hfree⟩ := hrun
  have hscan := run_skip_slots (n := 10238) rfl hpc fun i hi => by
    obtain ⟨k, hk⟩ := i
    obtain ⟨k, rfl⟩ := Nat.exists_eq_add_of_le' hi
    exact hfree k hk
  have hrun : system.run (start 0) (terminateRun ++ (List.replicate 10238 .signal ++ [.signal])) =
      some { q with signal := .done } := by
    rw [Transition.System.run_append, hq, Option.bind_some]
    exact Transition.System.run_snoc hscan rfl
  refine ⟨_, hrun, hconns, fun fd hopen => ?_⟩
  rcases (shutdown_closes (.of_run ⟨0, 15, rfl⟩ hrun) rfl).1 fd 0 hopen with hlast | ⟨x, hx⟩
  · rw [show ({ q with signal := .done } : Running).server.conns = 2 from hconns] at hlast
    cases hlast
  · rw [show ({ q with signal := .done } : Running).server.ops = [] from hops] at hx
    cases hx

end Running

end JQServer
