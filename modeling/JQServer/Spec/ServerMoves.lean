import JQServer.Native.Server

/-!
# What a step of the server can be

`step_moves` says once what a step of the accept thread, of the event loop and of a
worker can be, one constructor for each outcome. A step of a worker leaves the
network side of the server alone (`WorkerMoves.sameNet`).
-/

namespace JQServer

/-- The job logs its connection in. -/
def JobParameter.SendsUI (arg : JobParameter) : Prop :=
  Command.ofBuffer arg.recvBuffer = .sendUI (.ofBuffer arg.recvBuffer)

/-- The job asks for the address of its connection. -/
def JobParameter.Handshakes (arg : JobParameter) : Prop :=
  ∃ greetings, Command.ofBuffer arg.recvBuffer = .handshake greetings

/-- The job is answered. -/
def JobParameter.Replies (arg : JobParameter) : Prop :=
  match Command.ofBuffer arg.recvBuffer with
  | .handshake _ | .getRemote _ | .getAllUser => True
  | .sendUI _ | .other _ => False

/-- A job that asks for an address is answered. -/
theorem JobParameter.Handshakes.replies {arg : JobParameter} (h : arg.Handshakes) :
    arg.Replies := by
  obtain ⟨greetings, hcmd⟩ := h
  simp only [Replies, hcmd]

/-- The message of a login is that of the buffer. -/
theorem SendUIMessage.eq_ofBuffer {buffer : CharArray 1024} {msg : SendUIMessage}
    (h : Command.ofBuffer buffer = .sendUI msg) : msg = .ofBuffer buffer := by
  simp only [Command.ofBuffer] at h
  split at h
  · cases h
  · split at h
    · exact (Command.sendUI.inj h).symm
    · split at h
      · cases h
      · split at h <;> cases h

/-- A command is CMD_SENDUI exactly if it is so with the message of the buffer. -/
theorem JobParameter.sendsUI_of_eq {arg : JobParameter} {msg : SendUIMessage}
    (h : Command.ofBuffer arg.recvBuffer = .sendUI msg) : arg.SendsUI :=
  h.trans (congrArg Command.sendUI (SendUIMessage.eq_ofBuffer h))

/-- The job that a handler is answering. -/
def HandlerPc.replying : HandlerPc → Option JobParameter
  | .filling arg .. | .sending arg .. => some arg
  | .entered | .matched .. | .sendUI .. | .done => none

/-- A handler that answers a job runs it. -/
theorem HandlerPc.arg_of_replying {pc : HandlerPc} {arg : JobParameter}
    (h : pc.replying = some arg) : pc.arg = some arg := by
  cases pc with
  | filling | sending => exact h
  | entered | matched | sendUI | done => cases h

/-- The worker whose handler takes the step. -/
def Action.handler : Action → Option Nat
  | .lookup w | .dispatch w | .copy w | .fillUser w | .write w _ => some w
  | _ => none

/-- The steps of a handler. -/
theorem Action.eq_of_handler {a : Action} {w : Nat} (ha : a.handler = some w) :
    a = .lookup w ∨ a = .dispatch w ∨ a = .copy w ∨ a = .fillUser w ∨ ∃ r, a = .write w r := by
  cases a with
  | lookup => exact .inl (congrArg _ (Option.some.inj ha))
  | dispatch => exact .inr (.inl (congrArg _ (Option.some.inj ha)))
  | copy => exact .inr (.inr (.inl (congrArg _ (Option.some.inj ha))))
  | fillUser => exact .inr (.inr (.inr (.inl (congrArg _ (Option.some.inj ha)))))
  | write w' r =>
    exact .inr (.inr (.inr (.inr ⟨r, congrArg (Action.write · r) (Option.some.inj ha)⟩)))
  | _ => cases ha

namespace Server

variable {s s' : Server}

/-- `connect_fd` of slot `i`. -/
abbrev fdAt (s : Server) (i : Fin maxEvents) : Int := (s.table i).connectFd

/-- Writing the descriptor of slot `i`. -/
theorem fdAt_fillSlot (c : Client) (i : Fin maxEvents) (fd : Int) :
    (s.fillSlot c i (.connectFd fd)).fdAt = Function.update s.fdAt i fd := by
  funext j
  by_cases hj : j = i
  · subst hj
    simp only [fdAt, fillSlot, SlotWrite.apply, Function.update_self]
  · simp only [fdAt, fillSlot, Function.update_of_ne hj]

/-- The slot that gets the descriptor, while the accept thread goes on. -/
theorem fdAt_filling_self {c : Client} {i : Fin maxEvents} {accept : AcceptPc} :
    ({ s.fillSlot c i (.connectFd c.fd) with accept := accept } : Server).fdAt i = c.fd :=
  (congrFun (fdAt_fillSlot c i c.fd) i).trans (Function.update_self ..)

/-- The other slots keep their descriptors. -/
theorem fdAt_filling_of_ne {c : Client} {i j : Fin maxEvents} {accept : AcceptPc} (hj : j ≠ i) :
    ({ s.fillSlot c i (.connectFd c.fd) with accept := accept } : Server).fdAt j = s.fdAt j :=
  (congrFun (fdAt_fillSlot c i c.fd) j).trans (Function.update_of_ne hj ..)

/-- Writing another field of a slot changes no descriptor and no owner. -/
theorem fdAt_fillSlot_other {c : Client} {i : Fin maxEvents} {w : SlotWrite}
    (hw : ∀ fd, w ≠ .connectFd fd) :
    (s.fillSlot c i w).fdAt = s.fdAt ∧ (s.fillSlot c i w).owner = s.owner := by
  constructor
  · funext j
    by_cases hj : j = i
    · subst hj
      simp only [fdAt, fillSlot, Function.update_self]
      cases w <;> first | rfl | exact absurd rfl (hw _)
    · simp only [fdAt, fillSlot, Function.update_of_ne hj]
  · cases w <;> first | rfl | exact absurd rfl (hw _)

/-- Freeing slot `i`. -/
theorem fdAt_free (s : Server) (i : Fin maxEvents) :
    (s.free i).fdAt = Function.update s.fdAt i (-1) := by
  funext j
  by_cases hj : j = i
  · subst hj
    simp only [fdAt, free, Table.freeEventByIndex, Function.update_self]
  · simp only [fdAt, free, Table.freeEventByIndex, Function.update_of_ne hj]

/-- Updating the time of a slot changes no descriptor. -/
theorem fdAt_updateTime (t : Table) (i : Fin maxEvents) (now : Int) :
    (fun j => (t.updateTimeByIndex i now j).connectFd) = fun j => (t j).connectFd := by
  funext j
  by_cases hj : j = i
  · subst hj
    simp only [Table.updateTimeByIndex, Function.update_self]
  · simp only [Table.updateTimeByIndex, Function.update_of_ne hj]

/-- A `strncpy` of CMD_SENDUI changes the strings of its slot and nothing else in the table. -/
theorem storeField_frame (arg : JobParameter) (i : Fin maxEvents) (field : SendUIField)
    (j : Fin maxEvents) :
    ((s.storeField arg i field).table j).now = (s.table j).now ∧
      ((s.storeField arg i field).table j).clientIpAddr = (s.table j).clientIpAddr ∧
      ((s.storeField arg i field).table j).clientPort = (s.table j).clientPort ∧
      ((s.storeField arg i field).table j).connectFd = (s.table j).connectFd := by
  by_cases hj : j = i
  · subst hj
    simp only [storeField, Function.update_self]
    cases field <;> exact ⟨rfl, rfl, rfl, rfl⟩
  · simp only [storeField, Function.update_of_ne hj, and_self]

/-- A `strncpy` of CMD_SENDUI changes no descriptor. -/
theorem fdAt_storeField (arg : JobParameter) (i : Fin maxEvents) (field : SendUIField) :
    (s.storeField arg i field).fdAt = s.fdAt :=
  funext fun j => (storeField_frame arg i field j).2.2.2

/-- Steps of the accept thread. -/
inductive AcceptMoves (s : Server) : Action → Server → Prop
  | gate {pc : AcceptPc} (h : s.accept = .gate) (hpc : pc = .gate ∨ pc = .accepting) :
      AcceptMoves s .gate { s with accept := pc }
  | acceptError (h : s.accept = .accepting) :
      AcceptMoves s (.accept none) { s with accept := .gate }
  | accept {p : Peer} (h : s.accept = .accepting) (hfd : 0 ≤ p.fd) (hfree : s.fds p.fd = none) :
      AcceptMoves s (.accept (some p)) { s with
        fds := Function.update s.fds p.fd (some s.conns)
        conns := s.conns + 1
        accept := .accepted { fd := p.fd, conn := s.conns, addr := p.addr, port := p.port } }
  | noSlot {c : Client} (h : s.accept = .accepted c) :
      AcceptMoves s .chooseSlot { s with accept := .failing c none }
  | chooseSlot {c : Client} {i : Fin maxEvents} (h : s.accept = .accepted c)
      (hi : s.fdAt i = -1) : AcceptMoves s .chooseSlot { s with accept := .chosen c i }
  | setNonBlocking {c : Client} {i : Fin maxEvents} (h : s.accept = .chosen c i) :
      AcceptMoves s (.setNonBlocking true) { s with accept := .nonBlocking c i }
  | notNonBlocking {c : Client} {i : Fin maxEvents} (h : s.accept = .chosen c i) :
      AcceptMoves s (.setNonBlocking false) { s with accept := .failing c none }
  | setRcvbuf {c : Client} {i : Fin maxEvents} (h : s.accept = .nonBlocking c i) :
      AcceptMoves s (.setRcvbuf true) { s with accept := .ready c i }
  | noRcvbuf {c : Client} {i : Fin maxEvents} (h : s.accept = .nonBlocking c i) :
      AcceptMoves s (.setRcvbuf false) { s with accept := .failing c none }
  | initSlot {c : Client} {i : Fin maxEvents} {now : Int} (h : s.accept = .ready c i) :
      AcceptMoves s (.initSlot now)
        { s with accept := .filling c i (initEpollConnectByIndex now c.fd c.addr c.port) }
  | fill {c : Client} {i : Fin maxEvents} {w : SlotWrite} {ws : List SlotWrite}
      (h : s.accept = .filling c i (w :: ws)) :
      AcceptMoves s .fill { s.fillSlot c i w with accept := .filling c i ws }
  | unlock {c : Client} {i : Fin maxEvents} (h : s.accept = .filling c i []) :
      AcceptMoves s .unlock { s with accept := .filled c i }
  | epollAdd {c : Client} {i : Fin maxEvents} (h : s.accept = .filled c i)
      (hopen : s.fds c.fd ≠ none) (hnew : s.epoll c.fd = false) :
      AcceptMoves s (.epollAdd true)
        { s with epoll := Function.update s.epoll c.fd true, accept := .added }
  | epollAddFails {c : Client} {i : Fin maxEvents} (h : s.accept = .filled c i) :
      AcceptMoves s (.epollAdd false)
        { s with failedAdds := s.failedAdds + 1, accept := .failing c (some i) }
  | countAdd (h : s.accept = .added) :
      AcceptMoves s .countAdd { s with total := s.total + 1, accept := .gate }
  | closeFailed {c : Client} {slot : Option (Fin maxEvents)} (h : s.accept = .failing c slot) :
      AcceptMoves s .closeFailed { s.closesocket c.fd (.acceptClosed c.conn) with accept := .gate }

/-- Calls of the event loop, in a state whose `ops` are those that follow. -/
inductive OpMoves (s : Server) : LoopOp → Server → Prop
  | countSub {value : Int} : OpMoves s (.countSub value) { s with total := s.total - value }
  | freeNone : OpMoves s (.free none) s
  | free {i : Fin maxEvents} (hl : s.slotLocked i = false) : OpMoves s (.free (some i)) (s.free i)
  | freeMatchedNone {fd : Int} (h : s.table.getMatchedEventIndexByFd fd = none) :
      OpMoves s (.freeMatched fd) s
  | freeMatched {fd : Int} {i : Fin maxEvents} (h : s.table.getMatchedEventIndexByFd fd = some i)
      (hl : s.slotLocked i = false) : OpMoves s (.freeMatched fd) (s.free i)
  | epollDel {fd : Int} :
      OpMoves s (.epollDel fd) { s with epoll := Function.update s.epoll fd false }
  | close {fd : Int} {conn : Option Nat} :
      OpMoves s (.close fd conn) (s.closesocket fd (.closed conn))
  | updateTime {i : Fin maxEvents} {now : Int} :
      OpMoves s (.updateTime i now) { s with table := s.table.updateTimeByIndex i now }
  | enqueue {now : Int} {arg : JobParameter} {pool : Thpool JobParameter}
      (hp : s.pool.step (.addWork now arg) = some pool) :
      OpMoves s (.enqueue now arg) { s with pool := pool }

/-- Steps of the event loop. -/
inductive LoopMoves (s : Server) : Action → Server → Prop
  | wait {now : Int} (h : s.loop = .top) (ho : s.ops = []) :
      LoopMoves s (.tick now) { s with loop := .waiting }
  | startSweep {now : Int} (h : s.loop = .top) (ho : s.ops = []) :
      LoopMoves s (.tick now) { s with eventTime := now, loop := .sweeping 0 now }
  | readSlot {now : Int} {i : Fin maxEvents} (h : s.loop = .sweeping i now) (ho : s.ops = [])
      (hfd : s.fdAt i ≠ -1) :
      LoopMoves s .sweepSlot { s with loop := .checking i (s.fdAt i) now }
  | skipSlot {now : Int} {i : Fin maxEvents} (h : s.loop = .sweeping i now) (ho : s.ops = [])
      (hfd : s.fdAt i = -1) : LoopMoves s .sweepSlot { s with loop := .sweeping (i + 1) now }
  | sweepSlot {i : Fin maxEvents} {fd now : Int} (h : s.loop = .checking i fd now)
      (ho : s.ops = []) (ht : s.timedOut i now = true) :
      LoopMoves s .sweepTime { s with
        loop := .sweeping (i + 1) now
        ops := [.free (some i), .epollDel fd, .countSub 1, .close fd (s.owner i)] }
  | sweepKeep {i : Fin maxEvents} {fd now : Int} (h : s.loop = .checking i fd now)
      (ho : s.ops = []) (ht : s.timedOut i now = false) :
      LoopMoves s .sweepTime { s with loop := .sweeping (i + 1) now, ops := [] }
  | sweepRead {k : Nat} {now : Int} {pool : Thpool JobParameter} (h : s.loop = .sweeping k now)
      (ho : s.ops = []) (hk : maxEvents ≤ k) (hp : s.pool.step .sweepRead = some pool) :
      LoopMoves s .sweepSlot { s with pool := pool, loop := .deleting }
  | sweepJobs {now : Int} {pool : Thpool JobParameter} (h : s.loop = .deleting)
      (ho : s.ops = []) (hp : s.pool.step (.sweepLocked now serverTimeout) = some pool) :
      LoopMoves s (.sweepJobs now) { s with
        pool := pool
        loop := .waiting
        ops := [.countSub (s.pool.jobN - pool.jobN)]
        deletedJobs := s.deletedJobs + (s.pool.jobN - pool.jobN) }
  | epollWait {es : List Event} (h : s.loop = .waiting) (ho : s.ops = [])
      (hnodup : (es.map (·.fd)).Nodup) (hreg : ∀ e ∈ es, s.epoll e.fd = true) :
      LoopMoves s (.epollWait es) { s with loop := .events es }
  | endEvents (h : s.loop = .events []) (ho : s.ops = []) :
      LoopMoves s .nextEvent { s with loop := .top }
  | invalidRead {e : Event} {es : List Event} (h : s.loop = .events (e :: es)) (ho : s.ops = [])
      (hfd : e.fd < 0) : LoopMoves s .nextEvent { s with loop := .events es, ops := [.countSub 1] }
  | unmatched {e : Event} {es : List Event} (h : s.loop = .events (e :: es)) (ho : s.ops = [])
      (hnone : s.table.getMatchedEventIndexByFd e.fd = none) :
      LoopMoves s .nextEvent
        { s with loop := .events es, ops := [.countSub 1, .free none, .close e.fd none] }
  | matched {e : Event} {es : List Event} {i : Fin maxEvents} (h : s.loop = .events (e :: es))
      (ho : s.ops = []) (hi : s.fdAt i = e.fd) (hin : e.epollin = true) :
      LoopMoves s .nextEvent { s with loop := .receiving i e.fd es }
  | errorEvent {e : Event} {es : List Event} (h : s.loop = .events (e :: es)) (ho : s.ops = []) :
      LoopMoves s .nextEvent { s with loop := .events es, ops := s.errorEventOps e.fd }
  | recvClosed {i : Fin maxEvents} {fd now : Int} {es : List Event}
      (h : s.loop = .receiving i fd es) (ho : s.ops = []) (hfd : s.fds fd = none) :
      LoopMoves s (.recv none now)
        { s with loop := .events es, ops := s.receivedOps i fd now 0 none }
  | recv {i : Fin maxEvents} {fd now : Int} {es : List Event} {conn : Nat}
      {result : Option (List UInt8)} (h : s.loop = .receiving i fd es) (ho : s.ops = [])
      (hfd : s.fds fd = some conn) :
      LoopMoves s (.recv result now) { s with
        loop := .events es
        ops := s.receivedOps i fd now conn (recvBufferFromFd result) }
  | op {op : LoopOp} {ops : List LoopOp} {s' : Server} (ho : s.ops = op :: ops)
      (h : OpMoves { s with ops := ops } op s') : LoopMoves s .op s'
  | mallocFail {now : Int} {arg : JobParameter} {ops : List LoopOp}
      (ho : s.ops = .enqueue now arg :: ops) : LoopMoves s .mallocFail { s with ops := ops }
  | epollDelFail {fd : Int} {ops : List LoopOp} (ho : s.ops = .epollDel fd :: ops) :
      LoopMoves s .epollDelFail { s with ops := ops }

/-- Steps of the workers. -/
inductive WorkerMoves (s : Server) : Action → Server → Prop
  | thread {a : Thpool.Action JobParameter} {pool : Thpool JobParameter}
      (ha : a.worker.isSome = true) (hp : s.pool.step a = some pool) :
      WorkerMoves s (.worker a) { s with pool := pool }
  | leave {w : Nat} {pool : Thpool JobParameter} (hp : s.pool.step (.execute w) = some pool) :
      WorkerMoves s (.worker (.execute w))
        { s with pool := pool, handlers := Function.update s.handlers w .entered }
  | crash {a : Action} {w : Nat} {c : Crash} (hc : c ≠ .nullSlot) (ha : a.handler = some w) :
      WorkerMoves s a { s with crashed := some c }
  | nullSlot {w : Nat} {arg : JobParameter} (h : s.handlers w = .matched arg none)
      (hcmd : arg.SendsUI) : WorkerMoves s (.dispatch w) { s with crashed := some .nullSlot }
  | lookup {w : Nat} {arg : JobParameter} (h : s.handlers w = .entered)
      (hjob : s.parameter w = some arg) (hfd : arg.fd ≠ -1) :
      WorkerMoves s (.lookup w)
        (s.setHandler w (.matched arg (s.table.getMatchedEventIndexByFd arg.fd)))
  | handshake {w : Nat} {arg : JobParameter} {index : Option (Fin maxEvents)}
      (h : s.handlers w = .matched arg index) (hparam : s.parameter w ≠ none)
      (hcmd : arg.Handshakes) : WorkerMoves s (.dispatch w) (s.handshakeStep w arg index)
  | sendUI {w : Nat} {arg : JobParameter} {i : Fin maxEvents}
      (h : s.handlers w = .matched arg (some i)) (hparam : s.parameter w ≠ none)
      (hcmd : arg.SendsUI) : WorkerMoves s (.dispatch w) (s.setHandler w (.sendUI arg i .userId))
  | copy {w : Nat} {arg : JobParameter} {i : Fin maxEvents} {field : SendUIField}
      (h : s.handlers w = .sendUI arg i field) (hparam : s.parameter w ≠ none) :
      WorkerMoves s (.copy w) ((s.storeField arg i field).setHandler w (field.next arg i))
  | move {a : Action} {w : Nat} {pc : HandlerPc} (ha : a.handler = some w)
      (hpc : pc = .done ∨ ∃ arg, pc.replying = some arg ∧
        ((s.handlers w).replying = some arg ∨
          (∃ index, s.handlers w = .matched arg index) ∧ s.parameter w ≠ none ∧ arg.Replies)) :
      WorkerMoves s a (s.setHandler w pc)
  | sent {w : Nat} {arg : JobParameter} {pc : HandlerPc} {receiver : Nat} {r : WriteResult}
      (h : (s.handlers w).replying = some arg) (hpc : pc = .done ∨ pc.replying = some arg)
      (hfd : s.fds arg.fd = some receiver) :
      WorkerMoves s (.write w r)
        { s.setHandler w pc with effects := .sent arg.conn (some receiver) :: s.effects }

/-! ### Inversion -/

private theorem acceptStep_moves {a : Action} (h : s.acceptStep a s.accept = some s') :
    s.AcceptMoves a s' := by
  -- One case for each call of the iteration, with its outcomes
  cases hpc : s.accept <;> cases a <;>
    simp only [acceptStep, hpc, reduceCtorEq] at h
  case gate.gate =>
    refine Option.some.inj h ▸ .gate hpc ?_
    split
    · exact .inr rfl
    · exact .inl rfl
  case accepting.accept peer =>
    cases peer with
    | none => exact Option.some.inj h ▸ .acceptError hpc
    | some p =>
      simp only at h
      split at h
      · rename_i hp
        exact Option.some.inj h ▸ .accept hpc hp.1 hp.2
      · exact nomatch h
  case accepted.chooseSlot c =>
    obtain rfl := Option.some.inj h
    -- -1 refuses the client
    cases hi : s.table.getEpollConnectFreeEventIndex with
    | none => exact .noSlot hpc
    | some i => exact .chooseSlot hpc (Table.getEpollConnectFreeEventIndex_some hi)
  case chosen.setNonBlocking c i ok =>
    cases ok with
    | true => exact Option.some.inj h ▸ .setNonBlocking hpc
    | false => exact Option.some.inj h ▸ .notNonBlocking hpc
  -- Both calls on the socket can fail, and then it is closed
  case nonBlocking.setRcvbuf c i ok =>
    cases ok with
    | true => exact Option.some.inj h ▸ .setRcvbuf hpc
    | false => exact Option.some.inj h ▸ .noRcvbuf hpc
  case ready.initSlot c i now => exact Option.some.inj h ▸ .initSlot hpc
  -- The slot is unlocked when the last field is written
  case filling.fill c i ws =>
    cases ws with
    | nil => exact nomatch h
    | cons w ws => exact Option.some.inj h ▸ .fill hpc
  case filling.unlock c i ws =>
    cases ws with
    | nil => exact Option.some.inj h ▸ .unlock hpc
    | cons w ws => exact nomatch h
  case filled.epollAdd c i ok =>
    cases ok with
    | true =>
      simp only at h
      split at h
      · rename_i hadd
        exact Option.some.inj h ▸ .epollAdd hpc hadd.1 hadd.2
      · exact nomatch h
    | false => exact Option.some.inj h ▸ .epollAddFails hpc
  case added.countAdd => exact Option.some.inj h ▸ .countAdd hpc
  case failing.closeFailed c slot => exact Option.some.inj h ▸ .closeFailed hpc

private theorem opStep_moves {op : LoopOp} (h : s.opStep op = some s') : s.OpMoves op s' := by
  cases op with
  | countSub value => exact Option.some.inj h ▸ .countSub
  | free i =>
    cases i with
    | none => exact Option.some.inj h ▸ .freeNone
    | some i =>
      simp only [opStep] at h
      split at h
      · exact nomatch h
      · rename_i hl
        exact Option.some.inj h ▸ .free (by simpa using hl)
  -- The slot is searched when the call is made; its lock is waited for
  | freeMatched fd =>
    simp only [opStep] at h
    split at h
    · rename_i hn
      exact Option.some.inj h ▸ .freeMatchedNone hn
    · rename_i i hi
      split at h
      · exact nomatch h
      · rename_i hl
        exact Option.some.inj h ▸ .freeMatched hi (by simpa using hl)
  | epollDel fd => exact Option.some.inj h ▸ .epollDel
  | close fd conn => exact Option.some.inj h ▸ .close
  | updateTime i now => exact Option.some.inj h ▸ .updateTime
  | enqueue now arg =>
    obtain ⟨pool, hp, rfl⟩ := Option.map_eq_some_iff.mp h
    exact .enqueue hp

private theorem loopStep_moves {a : Action} (ho : s.ops = [])
    (h : s.loopStep a s.loop = some s') : s.LoopMoves a s' := by
  cases hpc : s.loop <;> cases a <;> simp only [loopStep, hpc, reduceCtorEq] at h
  case top.tick now =>
    split at h
    · exact Option.some.inj h ▸ .startSweep hpc ho
    · exact Option.some.inj h ▸ .wait hpc ho
  case sweeping.sweepSlot k now =>
    -- The next slot, or the end of the table
    split at h
    · rename_i hk
      obtain rfl := Option.some.inj h
      split
      · rename_i hfd
        exact .readSlot (i := ⟨k, hk⟩) hpc ho hfd
      · rename_i hfd
        exact .skipSlot (i := ⟨k, hk⟩) hpc ho (not_not.mp hfd)
    · obtain ⟨pool, hp, rfl⟩ := Option.map_eq_some_iff.mp h
      exact .sweepRead hpc ho (by omega) hp
  case checking.sweepTime i fd now =>
    obtain rfl := Option.some.inj h
    split
    · rename_i ht
      exact .sweepSlot hpc ho ht
    · rename_i ht
      exact .sweepKeep hpc ho (eq_false_of_ne_true ht)
  case deleting.sweepJobs now =>
    obtain ⟨pool, hp, rfl⟩ := Option.map_eq_some_iff.mp h
    exact .sweepJobs hpc ho hp
  case waiting.epollWait es =>
    split at h
    · rename_i hes
      exact Option.some.inj h ▸ .epollWait hpc ho hes.1 hes.2
    · exact nomatch h
  case events.nextEvent es =>
    -- The flags of the event are tested first, then its descriptor, then its slot
    cases es with
    | nil => exact Option.some.inj h ▸ .endEvents hpc ho
    | cons e es =>
      simp only at h
      split at h
      · rename_i hin
        split at h
        · exact Option.some.inj h ▸ .invalidRead hpc ho (by assumption)
        · split at h
          · exact Option.some.inj h ▸ .unmatched hpc ho (by assumption)
          · rename_i i hi
            exact Option.some.inj h ▸
              .matched hpc ho (Table.getMatchedEventIndexByFd_some hi) hin
      · exact Option.some.inj h ▸ .errorEvent hpc ho
  -- `recv` on a descriptor that is closed returns an error
  case receiving.recv i fd es result now =>
    split at h
    · exact nomatch h
    · exact Option.some.inj h ▸ .recvClosed hpc ho (by assumption)
    · split at h
      · exact Option.some.inj h ▸ .recv hpc ho (by assumption)
      · exact nomatch h

private theorem workerStep_moves {a : Thpool.Action JobParameter} (h : s.workerStep a = some s') :
    s.WorkerMoves (.worker a) s' := by
  cases a with
  | execute w =>
    simp only [workerStep] at h
    split at h
    · obtain ⟨pool, hp, rfl⟩ := Option.map_eq_some_iff.mp h
      exact .leave hp
    · exact nomatch h
  -- The steps outside of a handler are those of the thread pool
  | test w | semWait w | retest w | dequeue w | free w =>
    obtain ⟨pool, hp, rfl⟩ := Option.map_eq_some_iff.mp h
    exact .thread rfl hp
  | _ => exact nomatch h

private theorem lookupStep_moves {w : Nat} (h : s.handlers w = .entered) :
    s.WorkerMoves (.lookup w) (s.lookupStep w) := by
  simp only [lookupStep]
  split
  -- The job was freed meanwhile
  · exact .crash nofun rfl
  · rename_i arg hjob
    split
    · exact .move rfl (.inl rfl)
    · rename_i hfd
      exact .lookup h hjob hfd

private theorem dispatchStep_moves {w : Nat} {arg : JobParameter} {index : Option (Fin maxEvents)}
    (h : s.handlers w = .matched arg index) :
    s.WorkerMoves (.dispatch w) (s.dispatchStep w arg index) := by
  simp only [dispatchStep, switchMessageType]
  cases hjob : s.parameter w with
  | none => exact .crash nofun rfl
  | some parameter =>
    have hparam : s.parameter w ≠ none := hjob ▸ Option.some_ne_none parameter
    have hreply : ∀ pc : HandlerPc, pc.replying = some arg → arg.Replies →
        s.WorkerMoves (.dispatch w) (s.setHandler w pc) :=
      fun pc hpc hcmd => .move rfl (.inr ⟨arg, hpc, .inr ⟨⟨index, h⟩, hparam, hcmd⟩⟩)
    -- One branch for each command; CMD_SENDUI is the one that needs a slot
    cases hcmd : Command.ofBuffer arg.recvBuffer with
    | handshake greetings => exact .handshake h hparam ⟨greetings, hcmd⟩
    | sendUI msg =>
      cases index with
      | none => exact .nullSlot h (arg.sendsUI_of_eq hcmd)
      | some i => exact .sendUI h hparam (arg.sendsUI_of_eq hcmd)
    | getRemote grMsg => exact hreply _ rfl (by simp only [JobParameter.Replies, hcmd])
    | getAllUser => exact hreply _ rfl (by simp only [JobParameter.Replies, hcmd])
    | other t => exact .move rfl (.inl rfl)

private theorem copyStep_moves {w : Nat} {arg : JobParameter} {i : Fin maxEvents}
    {field : SendUIField} (h : s.handlers w = .sendUI arg i field) :
    s.WorkerMoves (.copy w) (s.copyStep w arg i field) := by
  simp only [copyStep]
  split
  -- The job was freed meanwhile
  · exact .crash nofun rfl
  · rename_i parameter hjob
    exact .copy h (hjob ▸ Option.some_ne_none parameter)

private theorem fillUserStep_moves {w : Nat} {arg : JobParameter} {cnt k : Nat}
    {node : List JQUserNode} (h : s.handlers w = .filling arg cnt k node) :
    s.WorkerMoves (.fillUser w) (s.fillUserStep w arg cnt k node) := by
  have hreply : ∀ pc : HandlerPc, pc.replying = some arg →
      s.WorkerMoves (.fillUser w) (s.setHandler w pc) :=
    fun pc hpc => .move rfl (.inr ⟨arg, hpc, .inl (by rw [h]; rfl)⟩)
  simp only [fillUserStep]
  split
  · split
    · exact hreply _ rfl
    · split
      · exact hreply _ rfl
      -- More users than the buffer has room for
      · exact .crash nofun rfl
  · exact hreply _ rfl

private theorem writeStep_moves {w : Nat} {arg : JobParameter} {reply : Reply} {n : Nat}
    {r : WriteResult} (h : s.handlers w = .sending arg reply n)
    (hs : s.writeStep w arg reply n r = some s') : s.WorkerMoves (.write w r) s' := by
  have hreplying : (s.handlers w).replying = some arg := by rw [h]; rfl
  -- Whatever `write` returns, the handler goes on with the reply or is done
  have hpc : ∀ (r : WriteResult) (pc : HandlerPc),
      pc = (sendBufferStep n r).elim .done (.sending arg reply) →
        pc = .done ∨ pc.replying = some arg := by
    rintro r pc rfl
    cases sendBufferStep n r with
    | none => exact .inl rfl
    | some n' => exact .inr rfl
  have hmove : ∀ r : WriteResult, s.WorkerMoves (.write w r)
      (s.setHandler w ((sendBufferStep n r).elim .done (.sending arg reply))) :=
    fun r => .move rfl ((hpc r _ rfl).imp_right fun hpc => ⟨arg, hpc, .inl hreplying⟩)
  simp only [writeStep] at hs
  split at hs
  · exact Option.some.inj hs ▸ hmove .error
  · exact Option.some.inj hs ▸ hmove .error
  · exact Option.some.inj hs ▸ hmove .eagain
  · rename_i receiver nwrite hfd
    split at hs
    · exact Option.some.inj hs ▸ .sent hreplying (hpc _ _ rfl) hfd
    · cases hs
  · cases hs

private theorem handlerStep_moves {a : Action} {w : Nat} (ha : a.handler = some w)
    (h : s.handlerStep w a (s.handlers w) = some s') : s.WorkerMoves a s' := by
  cases hpc : s.handlers w <;> rw [hpc] at h <;> cases a <;>
    simp only [handlerStep, reduceCtorEq, Option.some.injEq] at h <;> cases ha
  case entered.lookup =>
    split at h
    · exact Option.some.inj h ▸ lookupStep_moves hpc
    · cases h
  case matched.dispatch => exact h ▸ dispatchStep_moves hpc
  case sendUI.copy => exact h ▸ copyStep_moves hpc
  case filling.fillUser => exact h ▸ fillUserStep_moves hpc
  case sending.write => exact writeStep_moves hpc h

/-- Every step is a move of one of the threads, taken before any undefined behaviour. -/
theorem step_moves {a : Action} (h : s.step a = some s') :
    s.crashed = none ∧ (s.AcceptMoves a s' ∨ s.LoopMoves a s' ∨ s.WorkerMoves a s') := by
  simp only [step] at h
  split at h
  · exact nomatch h
  · rename_i hc
    refine ⟨by simp only [Bool.or_eq_true, not_or] at hc; simpa using hc.1, ?_⟩
    -- The thread of the step decides: a worker, the event loop or the accept thread
    cases a
    case lookup | dispatch | copy | fillUser | write =>
      exact .inr (.inr (handlerStep_moves rfl h))
    case worker a => exact .inr (.inr (workerStep_moves h))
    case op =>
      simp only at h
      split at h
      · exact nomatch h
      · exact .inr (.inl (.op (by assumption) (opStep_moves h)))
    case mallocFail =>
      simp only at h
      split at h
      · exact Option.some.inj h ▸ .inr (.inl (.mallocFail (by assumption)))
      · exact nomatch h
    case epollDelFail =>
      simp only at h
      split at h
      · exact Option.some.inj h ▸ .inr (.inl (.epollDelFail (by assumption)))
      · cases h
    case tick | sweepSlot | sweepTime | sweepJobs | epollWait | nextEvent | recv =>
      simp only at h
      split at h
      · rename_i ho
        exact .inr (.inl (loopStep_moves (List.isEmpty_iff.mp ho) h))
      · exact nomatch h
    all_goals exact .inl (acceptStep_moves h)

/-- The pool has not faulted before a step. -/
theorem not_fault_of_step {a : Action} (hs : s.step a = some s') :
    s.pool.fault = false := by
  cases hf : s.pool.fault with
  | false => rfl
  | true => simp only [step, hf, Bool.or_true, ↓reduceIte, reduceCtorEq] at hs

/-- What a step can do to the thread pool: the event loop adds the job of its pending call,
    or nothing is added. -/
theorem pool_step {a : Action} (h : s.step a = some s') :
    s'.pool = s.pool ∨
      (∃ b, s.pool.step b = some s'.pool ∧ (a = .worker b ∧ b.worker.isSome = true ∨
        b = .sweepRead ∨ ∃ now, b = .sweepLocked now serverTimeout)) ∨
      ∃ now arg ops, a = .op ∧ s.ops = .enqueue now arg :: ops ∧
        s.pool.step (.addWork now arg) = some s'.pool := by
  rcases (step_moves h).2 with hm | hm | hm
  · cases hm <;> exact .inl rfl
  · cases hm with
    -- The event loop sweeps the queue and adds to it
    | sweepRead _ _ _ hp => exact .inr (.inl ⟨_, hp, .inr (.inl rfl)⟩)
    | sweepJobs _ _ hp => exact .inr (.inl ⟨_, hp, .inr (.inr ⟨_, rfl⟩)⟩)
    | op ho hop =>
      cases hop with
      | enqueue hp => exact .inr (.inr ⟨_, _, _, rfl, ho, hp⟩)
      | _ => exact .inl rfl
    | _ => exact .inl rfl
  · cases hm with
    | thread ha hp => exact .inr (.inl ⟨_, hp, .inl ⟨rfl, ha⟩⟩)
    | leave hp => exact .inr (.inl ⟨_, hp, .inl ⟨rfl, rfl⟩⟩)
    | _ => exact .inl rfl

/-- The event loop leaves the accept thread where it is. -/
theorem LoopMoves.accept_eq {a : Action} (hs : s.LoopMoves a s') : s'.accept = s.accept := by
  cases hs with
  | op _ hop => cases hop <;> rfl
  | _ => rfl

/-! ### Workers and the network -/

/-- The network side of two states is the same: descriptors, the counter, the owners
    and the descriptors of slots, and where the accept thread and the event loop are. -/
structure SameNet (s s' : Server) : Prop where
  fdAt : ∀ i, s'.fdAt i = s.fdAt i
  total : s'.total = s.total
  fds : s'.fds = s.fds
  epoll : s'.epoll = s.epoll
  conns : s'.conns = s.conns
  accept : s'.accept = s.accept
  loop : s'.loop = s.loop
  ops : s'.ops = s.ops
  owner : s'.owner = s.owner
  failedAdds : s'.failedAdds = s.failedAdds
  deletedJobs : s'.deletedJobs = s.deletedJobs

/-- A worker leaves the network side alone. -/
theorem WorkerMoves.sameNet {a : Action} (h : s.WorkerMoves a s') : s.SameNet s' := by
  cases h with
  | @copy w arg i field =>
    exact ⟨congrFun (fdAt_storeField arg i field), rfl, rfl, rfl, rfl, rfl, rfl, rfl, rfl, rfl, rfl⟩
  | _ => exact ⟨fun _ => rfl, rfl, rfl, rfl, rfl, rfl, rfl, rfl, rfl, rfl, rfl⟩

/-- Of a slot a worker writes the user id and the password only. -/
theorem WorkerMoves.slot_frame {a : Action} (h : s.WorkerMoves a s') (i : Fin maxEvents) :
    (s'.table i).now = (s.table i).now ∧
      (s'.table i).clientIpAddr = (s.table i).clientIpAddr ∧
      (s'.table i).clientPort = (s.table i).clientPort := by
  cases h with
  | @copy w arg j field =>
    obtain ⟨hnow, haddr, hport, -⟩ := storeField_frame (s := s) arg j field i
    exact ⟨hnow, haddr, hport⟩
  | _ => exact ⟨rfl, rfl, rfl⟩

/-- A worker closes no descriptor. -/
theorem WorkerMoves.mem_effects {a : Action} {e : Effect} (h : s.WorkerMoves a s')
    (hm : e ∈ s'.effects) : e ∈ s.effects ∨ (∃ c x, e = .wrote c x) ∨ (∃ c x, e = .described c x) ∨
      ∃ c x, e = .sent c x := by
  cases h with
  | copy =>
    exact (List.mem_cons.mp hm).symm.imp_right fun he => .inl ⟨_, _, he⟩
  | @handshake w arg index =>
    cases index with
    | none => exact .inl hm
    | some i => exact (List.mem_cons.mp hm).symm.imp_right fun he => .inr (.inl ⟨_, _, he⟩)
  | sent =>
    exact (List.mem_cons.mp hm).symm.imp_right fun he => .inr (.inr ⟨_, _, he⟩)
  | _ => exact .inl hm

/-- A step of a handler, while the server runs. -/
theorem step_handler {a : Action} {w : Nat} (ha : a.handler = some w) (hc : s.crashed = none)
    (hf : s.pool.fault = false) : s.step a = s.handlerStep w a (s.handlers w) := by
  cases a <;> simp only [Action.handler, Option.some.injEq, reduceCtorEq] at ha <;> subst ha <;>
    simp only [step, hc, hf, Option.isSome_none, Bool.or_self, Bool.false_eq_true, ↓reduceIte]

/-- A step of a handler that is taken. -/
theorem handlerStep_of_step {a : Action} {w : Nat} (ha : a.handler = some w)
    (hs : s.step a = some s') : s.handlerStep w a (s.handlers w) = some s' :=
  (step_handler ha (step_moves hs).1 (not_fault_of_step hs)).symm.trans hs

/-! ### Runs of one thread -/

/-- The steps of `accept_thread` from its gate until the slot of a new peer is
    filled, when every call before that succeeds. -/
def fillRun (p : Peer) (now : Int) : List Action :=
  [.gate, .accept (some p), .chooseSlot, .setNonBlocking true, .setRcvbuf true, .initSlot now,
    .fill, .fill, .fill, .fill, .fill, .fill, .unlock]

/-- An iteration of `accept_thread` in which every call succeeds. -/
def acceptRun (p : Peer) (now : Int) : List Action :=
  fillRun p now ++ [.epollAdd true, .countAdd]

/-- An iteration of the event loop that receives bytes and queues a job. -/
def receiveRun (fd : Int) (data : List UInt8) (now : Int) : List Action :=
  [.tick now, .epollWait [{ fd := fd, epollin := true }], .nextEvent, .recv (some data) now,
    .op, .op, .nextEvent]

/-- An iteration of the event loop that handles an error event. -/
def hangUpRun (fd : Int) (now : Int) : List Action :=
  [.tick now, .epollWait [{ fd := fd, epollin := false }], .nextEvent, .op, .op, .op, .nextEvent]

/-- A worker takes a job and searches its slot. -/
def takeJobRun (w : Nat) : List Action :=
  [.worker (.test w), .worker (.semWait w), .worker (.retest w), .worker (.dequeue w), .lookup w]

/-- A worker runs CMD_SENDUI on the slot found. -/
def sendUIRun (w : Nat) : List Action := [.dispatch w, .copy w, .copy w]

/-- The start of a CMD_SENDUI message with a user id, which NULs follow. -/
def sendUIBytes (userId : List UInt8) : List UInt8 :=
  [0xfe, 0xff, 0, 0, 25, 0, 0, 0] ++ userId

end Server

end JQServer
