import JQServer.Native.NetUpdate
import JQServer.Native.ThreadPool

/-!
# The server (`server/g_net_update.c`)

The accept thread, the event loop of `main` and the workers of the thread pool as
one transition system, from the start of the event loop until shutdown. A step is
one system call, one access to a counter, slot or queue that another thread can
see, or one search of the table. A critical section is one step, except that
`init_epoll_connect_by_index` keeps its slot locked over several writes.

A handler reads its message in the job each time it uses it, and the job may have been
freed by then. The program counter has what the job held at the search: a job does not
change while it is in memory.

The kernel is part of the state: `fds` says which connection an open descriptor
denotes, `epoll` which descriptors are registered. A descriptor number that was
closed can be returned by a later `accept`.

`owner`, `login`, `failedAdds`, `deletedJobs`, `effects` and the connection numbers
are bookkeeping of the model; no step looks at them. Logging is left out.
-/

namespace JQServer

/-- A connection that `accept` returned, with its descriptor and peer address. -/
structure Client where
  fd : Int
  conn : Nat
  addr : CharArray ipAddrLength
  port : Int

/-- Program counter of `accept_thread`. -/
inductive AcceptPc where
  /-- At `if (current_connected_total < MAX_EVENTS)`. -/
  | gate
  /-- In `accept`. -/
  | accepting
  /-- At `get_epoll_connect_free_event_index`. -/
  | accepted (c : Client)
  /-- At `set_non_blocking`, slot `i` chosen. -/
  | chosen (c : Client) (i : Fin maxEvents)
  /-- At `setsockopt`. -/
  | nonBlocking (c : Client) (i : Fin maxEvents)
  /-- At `init_epoll_connect_by_index`. -/
  | ready (c : Client) (i : Fin maxEvents)
  /-- In `init_epoll_connect_by_index`, slot `i` locked, with these writes to go. -/
  | filling (c : Client) (i : Fin maxEvents) (ws : List SlotWrite)
  /-- At `epoll_ctl`. -/
  | filled (c : Client) (i : Fin maxEvents)
  /-- At `connect_total_count_add`. -/
  | added
  /-- At the `closesocket` of an error exit; `slot` is the slot filled before. -/
  | failing (c : Client) (slot : Option (Fin maxEvents))

/-- An event of `epoll_wait`. -/
structure Event where
  fd : Int
  epollin : Bool

/-- A call that the event loop has still to make before its next decision. -/
inductive LoopOp where
  /-- `connect_total_count_sub` -/
  | countSub (value : Int)
  /-- `free_event_by_index` -/
  | free (index : Option (Fin maxEvents))
  /-- `free_event_by_index(get_matched_event_index_by_fd(fd))` -/
  | freeMatched (fd : Int)
  /-- `epoll_ctl(EPOLL_CTL_DEL)` -/
  | epollDel (fd : Int)
  /-- `closesocket`; `conn` is the connection of the slot that `fd` was taken from. -/
  | close (fd : Int) (conn : Option Nat)
  /-- `update_time_by_index` -/
  | updateTime (index : Fin maxEvents) (now : Int)
  /-- `thpool_add_work` from `malloc` on. -/
  | enqueue (now : Int) (arg : JobParameter)

/-- Program counter of the event loop. -/
inductive LoopPc where
  /-- At the top, before `time`. -/
  | top
  /-- In `recycle_timeout_confd` at slot `index`. -/
  | sweeping (index : Nat) (now : Int)
  /-- There, with the descriptor of the slot read and its time not yet. -/
  | checking (index : Fin maxEvents) (fd : Int) (now : Int)
  /-- In `delete_timeout_job`, the tail read. -/
  | deleting
  /-- In `epoll_wait`. -/
  | waiting
  /-- Events not processed yet. -/
  | events (es : List Event)
  /-- In `recv_buffer_from_fd` for slot `index`. -/
  | receiving (index : Fin maxEvents) (fd : Int) (es : List Event)

/-- Program counter of `respons_stb_info` in a worker that runs a job. -/
inductive HandlerPc where
  /-- Entered, before the search for the slot. -/
  | entered
  /-- At the `switch`, with the slot found. -/
  | matched (arg : JobParameter) (matchedEventIndex : Option (Fin maxEvents))
  /-- In CMD_SENDUI, at the `strncpy` of `field` to slot `index`. -/
  | sendUI (arg : JobParameter) (index : Fin maxEvents) (field : SendUIField)
  /-- In the filling pass of `get_all_users`, at slot `index`. -/
  | filling (arg : JobParameter) (cnt index : Nat) (node : List JQUserNode)
  /-- In `send_buffer_to_fd`, with `n` bytes left. -/
  | sending (arg : JobParameter) (reply : Reply) (n : Nat)
  | done

/-- The connection whose job a handler runs, with the descriptor it uses. -/
def HandlerPc.arg : HandlerPc → Option JobParameter
  | .matched arg _ | .sendUI arg .. | .filling arg .. | .sending arg .. => some arg
  | .entered | .done => none

/-- Where CMD_SENDUI goes on after the `strncpy` of a field. -/
def SendUIField.next (arg : JobParameter) (index : Fin maxEvents) : SendUIField → HandlerPc
  | .userId => .sendUI arg index .passwd
  | .passwd => .done

/-- What the threads have done to connections. -/
inductive Effect where
  /-- A SENDUI job of connection `job` wrote a slot that `owner` occupied. -/
  | wrote (job : Nat) (owner : Option Nat)
  /-- A HANDSHAKE job of connection `job` built its reply from a slot that `owner`
      occupied. -/
  | described (job : Nat) (owner : Option Nat)
  /-- A job of connection `job` sent bytes to `receiver`. -/
  | sent (job : Nat) (receiver : Option Nat)
  /-- The event loop closed a descriptor that denoted `actual`; it was meant for the
      connection `expected`. -/
  | closed (expected actual : Option Nat)
  /-- The accept thread closed a descriptor that denoted `actual`, on an error exit
      for connection `conn`. -/
  | acceptClosed (conn : Nat) (actual : Option Nat)
  deriving DecidableEq

/-- Undefined behaviour that ends a run. -/
inductive Crash where
  /-- A field of a NULL slot pointer was accessed. -/
  | nullSlot
  /-- The parameter of a freed job was read. -/
  | freedJob
  /-- `get_all_users` wrote past its buffer. -/
  | heapOverflow
  deriving DecidableEq

/-- The server. -/
structure Server where
  table : Table
  /-- `current_connected_total` -/
  total : Int
  fds : Int → Option Nat
  epoll : Int → Bool
  conns : Nat
  accept : AcceptPc
  loop : LoopPc
  ops : List LoopOp
  eventTime : Int
  pool : Thpool JobParameter
  handlers : Nat → HandlerPc
  /-- The connection that occupies a slot. -/
  owner : Fin maxEvents → Option Nat
  /-- The SENDUI of a connection that copied a field last. -/
  login : SendUIField → Nat → Option SendUIMessage
  /-- How often `EPOLL_CTL_ADD` failed. -/
  failedAdds : Nat
  /-- How many jobs `delete_timeout_job` deleted. -/
  deletedJobs : Nat
  effects : List Effect
  crashed : Option Crash

/-- A peer that connects: descriptor, address as `inet_ntoa` returns it, port. -/
structure Peer where
  fd : Int
  addr : CharArray ipAddrLength
  port : Int

/-- Steps of the server. -/
inductive Action where
  /-- The accept thread reads `current_connected_total`. -/
  | gate
  /-- `accept` returns, `none` being an error. -/
  | accept (peer : Option Peer)
  /-- `get_epoll_connect_free_event_index` -/
  | chooseSlot
  /-- `set_non_blocking` -/
  | setNonBlocking (ok : Bool)
  /-- `setsockopt` -/
  | setRcvbuf (ok : Bool)
  /-- `init_epoll_connect_by_index` reads the time and locks the slot. -/
  | initSlot (now : Int)
  /-- It makes its next write. -/
  | fill
  /-- It unlocks the slot. -/
  | unlock
  /-- `epoll_ctl(EPOLL_CTL_ADD)` -/
  | epollAdd (ok : Bool)
  /-- `connect_total_count_add` -/
  | countAdd
  /-- `closesocket` of an error exit. -/
  | closeFailed
  /-- The event loop reads the time at its top. -/
  | tick (now : Int)
  /-- `recycle_timeout_confd` reads the descriptor of its next slot. -/
  | sweepSlot
  /-- It reads the time of the slot. -/
  | sweepTime
  /-- The critical section of `delete_timeout_job`, with the time it read. -/
  | sweepJobs (now : Int)
  /-- `epoll_wait` returns. -/
  | epollWait (es : List Event)
  /-- The event loop goes to its next event. -/
  | nextEvent
  /-- `recv` returns; `now` is the time `thpool_add_work` reads. -/
  | recv (result : Option (List UInt8)) (now : Int)
  /-- The event loop makes its next call. -/
  | op
  /-- `malloc` fails in `thpool_add_work`. -/
  | mallocFail
  /-- `epoll_ctl(EPOLL_CTL_DEL)` fails. -/
  | epollDelFail
  /-- A worker steps outside `respons_stb_info`. -/
  | worker (a : Thpool.Action JobParameter)
  /-- The handler of worker `w` searches its slot. -/
  | lookup (w : Nat)
  /-- It runs the branch of its command up to the reply, or to the first `strncpy`. -/
  | dispatch (w : Nat)
  /-- It makes the next `strncpy` of CMD_SENDUI. -/
  | copy (w : Nat)
  /-- It looks at its next slot in `get_all_users`. -/
  | fillUser (w : Nat)
  /-- A `write` of it returns. -/
  | write (w : Nat) (r : WriteResult)

namespace Server

/-- The server at the start of the event loop, `prevTime` being the time read there.
    The source starts 15 workers. -/
def start (prevTime : Int) (threadPoolNumbers : Int := 15) : Server where
  table := initEpollConnect
  total := 0
  fds := fun _ => none
  epoll := fun _ => false
  conns := 0
  accept := .gate
  loop := .top
  ops := []
  eventTime := prevTime
  pool := Thpool.thpoolInit threadPoolNumbers
  handlers := fun _ => .entered
  owner := fun _ => none
  login := fun _ _ => none
  failedAdds := 0
  deletedJobs := 0
  effects := []
  crashed := none

/-- `closesocket` -/
def closesocket (s : Server) (fd : Int) (effect : Option Nat → Effect) : Server :=
  { s with
    fds := Function.update s.fds fd none
    epoll := Function.update s.epoll fd false
    effects := effect (s.fds fd) :: s.effects }

/-- `free_event_by_index` -/
def free (s : Server) (i : Fin maxEvents) : Server :=
  { s with
    table := s.table.freeEventByIndex (some i)
    owner := Function.update s.owner i none }

/-- One write of `init_epoll_connect_by_index` for client `c`. -/
def fillSlot (s : Server) (c : Client) (i : Fin maxEvents) (w : SlotWrite) : Server :=
  { s with
    table := Function.update s.table i (w.apply (s.table i))
    owner := match w with
      | .connectFd _ => Function.update s.owner i (some c.conn)
      | _ => s.owner }

/-! ### The accept thread -/

/-- Steps of the accept thread. -/
def acceptStep (s : Server) : Action → AcceptPc → Option Server
  | .gate, .gate =>
    some { s with accept := if s.total < maxEvents then .accepting else .gate }
  | .accept none, .accepting => some { s with accept := .gate }
  | .accept (some p), .accepting =>
    -- The kernel may give a number again that was closed
    if 0 ≤ p.fd ∧ s.fds p.fd = none then
      some { s with
        fds := Function.update s.fds p.fd (some s.conns)
        conns := s.conns + 1
        accept := .accepted { fd := p.fd, conn := s.conns, addr := p.addr, port := p.port } }
    else none
  | .chooseSlot, .accepted c =>
    some { s with accept := match s.table.getEpollConnectFreeEventIndex with
      | none => .failing c none
      | some i => .chosen c i }
  | .setNonBlocking ok, .chosen c i =>
    some { s with accept := if ok then .nonBlocking c i else .failing c none }
  | .setRcvbuf ok, .nonBlocking c i =>
    some { s with accept := if ok then .ready c i else .failing c none }
  -- `time` is called before the mutex of the slot is locked
  | .initSlot now, .ready c i =>
    some { s with accept := .filling c i (initEpollConnectByIndex now c.fd c.addr c.port) }
  | .fill, .filling c i (w :: ws) => some { s.fillSlot c i w with accept := .filling c i ws }
  | .unlock, .filling c i [] => some { s with accept := .filled c i }
  | .epollAdd true, .filled c _ =>
    -- `EPOLL_CTL_ADD` fails on a descriptor that is closed or registered
    if s.fds c.fd ≠ none ∧ s.epoll c.fd = false then
      some { s with epoll := Function.update s.epoll c.fd true, accept := .added }
    else none
  -- The slot stays filled
  | .epollAdd false, .filled c i =>
    some { s with failedAdds := s.failedAdds + 1, accept := .failing c (some i) }
  | .countAdd, .added => some { s with total := s.total + 1, accept := .gate }
  | .closeFailed, .failing c _ =>
    some { s.closesocket c.fd (.acceptClosed c.conn) with accept := .gate }
  | _, _ => none

/-! ### The event loop -/

/-- `abs` of a difference of times, cut to an `int`. Of `INT_MIN`, where `abs` is undefined, it
    gives 2 ^ 31. -/
def absInt (x : Int) : Nat := (x.bmod 0x100000000).natAbs

/-- The test of `recycle_timeout_confd` on the time of a slot. -/
def timedOut (s : Server) (i : Fin maxEvents) (now : Int) : Bool :=
  now - (s.table i).now > serverTimeout

/-- The calls made for an event without EPOLLIN. -/
def errorEventOps (s : Server) (fd : Int) : List LoopOp :=
  -- The counter goes down before the descriptor is tested
  if fd < 0 then [.countSub 1]
  else
    [.countSub 1, .freeMatched fd,
      .close fd ((s.table.getMatchedEventIndexByFd fd).bind s.owner)]

/-- The calls made after `recv_buffer_from_fd`. -/
def receivedOps (s : Server) (i : Fin maxEvents) (fd : Int) (now : Int) (conn : Nat) :
    Option (List UInt8) → List LoopOp
  -- `thpool_add_work` writes the time of the slot before it tests what `malloc` gave
  | some data => [.updateTime i now, .enqueue now (.received data fd conn)]
  | none => [.countSub 1, .free (some i), .close fd (s.owner i)]

/-- Steps of the event loop that decide what to do next. -/
def loopStep (s : Server) : Action → LoopPc → Option Server
  | .tick now, .top =>
    if 60 ≤ absInt (now - s.eventTime) then
      some { s with eventTime := now, loop := .sweeping 0 now }
    else some { s with loop := .waiting }
  | .sweepSlot, .sweeping k now =>
    if h : k < maxEvents then
      let fd := (s.table ⟨k, h⟩).connectFd
      some { s with loop := if fd ≠ -1 then .checking ⟨k, h⟩ fd now else .sweeping (k + 1) now }
    else (s.pool.step .sweepRead).map fun pool => { s with pool := pool, loop := .deleting }
  | .sweepTime, .checking i fd now =>
    some { s with
      loop := .sweeping (i + 1) now
      ops := if s.timedOut i now then
          -- The slot is free before its descriptor is closed
          [.free (some i), .epollDel fd, .countSub 1, .close fd (s.owner i)]
        else [] }
  | .sweepJobs now, .deleting =>
    (s.pool.step (.sweepLocked now serverTimeout)).map fun pool =>
      { s with
        pool := pool
        loop := .waiting
        ops := [.countSub (s.pool.jobN - pool.jobN)]
        deletedJobs := s.deletedJobs + (s.pool.jobN - pool.jobN) }
  | .epollWait es, .waiting =>
    -- One event at most for each registered descriptor
    if (es.map (·.fd)).Nodup ∧ ∀ e ∈ es, s.epoll e.fd = true then
      some { s with loop := .events es }
    else none
  | .nextEvent, .events [] => some { s with loop := .top }
  | .nextEvent, .events (e :: es) =>
    if e.epollin then
      if e.fd < 0 then some { s with loop := .events es, ops := [.countSub 1] }
      else match s.table.getMatchedEventIndexByFd e.fd with
        | none =>
          -- `free_event_by_index(-1)` does nothing
          some { s with loop := .events es, ops := [.countSub 1, .free none, .close e.fd none] }
        | some i => some { s with loop := .receiving i e.fd es }
    else some { s with loop := .events es, ops := s.errorEventOps e.fd }
  | .recv result now, .receiving i fd es =>
    match s.fds fd, result with
    -- `recv` on a closed descriptor returns an error
    | none, some _ => none
    | none, none => some { s with loop := .events es, ops := s.receivedOps i fd now 0 none }
    | some conn, _ =>
      if (result.getD []).length ≤ bufLen then
        some { s with
          loop := .events es
          ops := s.receivedOps i fd now conn (recvBufferFromFd result) }
      else none
  | _, _ => none

/-- The accept thread has slot `i` locked. -/
def slotLocked (s : Server) (i : Fin maxEvents) : Bool :=
  match s.accept with
  | .filling _ j _ => i = j
  | _ => false

/-- The event loop makes a call. -/
def opStep (s : Server) : LoopOp → Option Server
  | .countSub value => some { s with total := s.total - value }
  | .free none => some s
  | .free (some i) => if s.slotLocked i then none else some (s.free i)
  | .freeMatched fd =>
    -- Searched again: it need not be the slot of the event
    match s.table.getMatchedEventIndexByFd fd with
    | none => some s
    | some i => if s.slotLocked i then none else some (s.free i)
  | .epollDel fd => some { s with epoll := Function.update s.epoll fd false }
  | .close fd conn => some (s.closesocket fd (.closed conn))
  | .updateTime i now => some { s with table := s.table.updateTimeByIndex i now }
  | .enqueue now arg => (s.pool.step (.addWork now arg)).map fun pool => { s with pool := pool }

/-! ### The workers -/

/-- A worker steps outside `respons_stb_info`; it leaves it when the handler is done. -/
def workerStep (s : Server) (a : Thpool.Action JobParameter) : Option Server :=
  match a with
  | .execute w =>
    match s.handlers w with
    | .done =>
      (s.pool.step a).map fun pool =>
        { s with pool := pool, handlers := Function.update s.handlers w .entered }
    -- The event loop owns the rest of the pool's steps
    | _ => none
  | .test _ | .semWait _ | .retest _ | .dequeue _ | .free _ =>
    (s.pool.step a).map fun pool => { s with pool := pool }
  | _ => none

/-- The handler of worker `w` moves to `pc`. -/
def setHandler (s : Server) (w : Nat) (pc : HandlerPc) : Server :=
  { s with handlers := Function.update s.handlers w pc }

/-- The parameter of the job that worker `w` runs, while the job is in memory. -/
def parameter (s : Server) (w : Nat) : Option JobParameter :=
  match s.pool.workers w with
  | .running p => (s.pool.heap p).map (·.arg)
  | _ => none

/-- The search for the slot by worker `w`. -/
def lookupStep (s : Server) (w : Nat) : Server :=
  match s.parameter w with
  | none => { s with crashed := some .freedJob }
  | some arg =>
    if arg.fd = -1 then s.setHandler w .done
    else s.setHandler w (.matched arg (s.table.getMatchedEventIndexByFd arg.fd))

/-- CMD_HANDSHAKE on the slot found. -/
def handshakeStep (s : Server) (w : Nat) (arg : JobParameter)
    (matchedEventIndex : Option (Fin maxEvents)) : Server :=
  let reply := .handshakeAck (responsHandshake s.table matchedEventIndex)
  { s.setHandler w (.sending arg reply reply.iMessageLen) with
    effects := match matchedEventIndex with
      | none => s.effects
      | some i => .described arg.conn (s.owner i) :: s.effects }

/-- The `switch` of `respons_stb_info`, up to a reply or to the first `strncpy`. -/
def switchMessageType (s : Server) (w : Nat) (arg : JobParameter)
    (matchedEventIndex : Option (Fin maxEvents)) : Server :=
  match Command.ofBuffer arg.recvBuffer, matchedEventIndex with
  | .handshake _, _ => s.handshakeStep w arg matchedEventIndex
  -- `get_connect_prv_by_index(-1)` is NULL, and its fields are written
  | .sendUI _, none => { s with crashed := some .nullSlot }
  | .sendUI _, some i => s.setHandler w (.sendUI arg i .userId)
  | .getRemote grMsg, _ =>
    let reply := .getRemoteAck (responsGetRemote s.table grMsg)
    s.setHandler w (.sending arg reply reply.iMessageLen)
  | .getAllUser, _ => s.setHandler w (.filling arg s.table.getAllUsersCount 0 [])
  | .other _, _ => s.setHandler w .done

/-- A handler comes to its `switch`. -/
def dispatchStep (s : Server) (w : Nat) (arg : JobParameter)
    (matchedEventIndex : Option (Fin maxEvents)) : Server :=
  match s.parameter w with
  -- `msgHead` points into the job
  | none => { s with crashed := some .freedJob }
  | some _ => s.switchMessageType w arg matchedEventIndex

/-- CMD_SENDUI stores a field in slot `i`. -/
def storeField (s : Server) (arg : JobParameter) (i : Fin maxEvents) (field : SendUIField) :
    Server :=
  let sendUIMsg := .ofBuffer arg.recvBuffer
  { s with
    table := Function.update s.table i (field.strncpy (s.table i) sendUIMsg)
    login := Function.update s.login field
      (Function.update (s.login field) arg.conn (some sendUIMsg))
    effects := .wrote arg.conn (s.owner i) :: s.effects }

/-- A `strncpy` of CMD_SENDUI. -/
def copyStep (s : Server) (w : Nat) (arg : JobParameter) (i : Fin maxEvents) (field : SendUIField) :
    Server :=
  match s.parameter w with
  -- `sendUIMsg` points into the job
  | none => { s with crashed := some .freedJob }
  | some _ => (s.storeField arg i field).setHandler w (field.next arg i)

/-- One slot of the filling pass of `get_all_users`. -/
def fillUserStep (s : Server) (w : Nat) (arg : JobParameter) (cnt k : Nat)
    (node : List JQUserNode) : Server :=
  if h : k < maxEvents then
    match s.table.getAllUsersNode ⟨k, h⟩ with
    | none => s.setHandler w (.filling arg cnt (k + 1) node)
    | some n =>
      -- `malloc` was given the count of the first pass
      if node.length < cnt then s.setHandler w (.filling arg cnt (k + 1) (node ++ [n]))
      else { s with crashed := some .heapOverflow }
  else
    s.setHandler w (.sending arg (.getAllUserAck cnt node)
      (Reply.getAllUserAck cnt node).iMessageLen)

/-- A `write` of `send_buffer_to_fd` on a descriptor that may have been closed. -/
def writeStep (s : Server) (w : Nat) (arg : JobParameter) (reply : Reply) (n : Nat)
    (r : WriteResult) : Option Server :=
  let pc := (sendBufferStep n r).elim HandlerPc.done (.sending arg reply)
  match s.fds arg.fd, r with
  | none, .error | some _, .error | some _, .eagain => some (s.setHandler w pc)
  | some receiver, .accepted nwrite =>
    if nwrite ≤ n then
      some { s.setHandler w pc with effects := .sent arg.conn (some receiver) :: s.effects }
    else none
  | none, _ => none

/-- Steps of the handler of worker `w`. -/
def handlerStep (s : Server) (w : Nat) : Action → HandlerPc → Option Server
  | .lookup _, .entered =>
    match s.pool.workers w with
    | .running _ => some (s.lookupStep w)
    | _ => none
  | .dispatch _, .matched arg index => some (s.dispatchStep w arg index)
  | .copy _, .sendUI arg i field => some (s.copyStep w arg i field)
  | .fillUser _, .filling arg cnt k node => some (s.fillUserStep w arg cnt k node)
  | .write _ r, .sending arg reply n => s.writeStep w arg reply n r
  | _, _ => none

/-! ### The server -/

/-- One step of the server. After undefined behaviour the model stops. -/
def step (s : Server) (a : Action) : Option Server :=
  if s.crashed.isSome || s.pool.fault then none
  else match a with
    | .lookup w | .dispatch w | .copy w | .fillUser w | .write w _ =>
      s.handlerStep w a (s.handlers w)
    | .worker a => s.workerStep a
    | .op =>
      match s.ops with
      | [] => none
      | op :: ops => { s with ops := ops }.opStep op
    | .mallocFail =>
      match s.ops with
      | .enqueue .. :: ops => some { s with ops := ops }
      | _ => none
    | .epollDelFail =>
      match s.ops with
      | .epollDel _ :: ops => some { s with ops := ops }
      | _ => none
    | .tick _ | .sweepSlot | .sweepTime | .sweepJobs _ | .epollWait _ | .nextEvent | .recv .. =>
      -- First the calls that are left to make
      if s.ops.isEmpty then s.loopStep a s.loop else none
    | _ => s.acceptStep a s.accept

/-- The server as a transition system, started at any time with any number of workers. -/
def system : Transition.System Server Action where
  init s := ∃ prevTime threadPoolNumbers, s = start prevTime threadPoolNumbers
  step := step

/-- The accept thread is between two iterations and the event loop between two
    events, with no call to make. -/
def Quiescent (s : Server) : Prop :=
  s.accept = .gate ∧ s.ops = [] ∧
    (s.loop = .top ∨ s.loop = .waiting ∨ ∃ es, s.loop = .events es)

end Server

end JQServer
