import JQServer.Native.Server

/-!
# The table field by field (`server/epoll_connect.c`, `server/g_net_update.c`)

The table of connections with the threads that use it: the accept thread fills slots,
the event loop frees them and workers run `respons_stb_info`. Here a step is one look at
a slot or one copy of a field, where a step of `Server` searches the whole table or
copies a whole slot. Only `init_epoll_connect_by_index` and `free_event_by_index` lock
the slot.

The event loop may free any slot at any time, and a job may have any descriptor and any
bytes. The table is arbitrary at first. `writer`, the connection numbers and
`JobParameter.conn` are bookkeeping of the model; no step looks at them. The handler
goes on when it writes past the user nodes that it allocated.
-/

namespace JQServer

/-- A field of a slot that replies are made of. -/
inductive SlotField where
  | now
  | clientIpAddr
  | clientPort
  | usrhashId
  | passwd
  deriving DecidableEq

/-- What a copy of a field holds. -/
inductive FieldValue where
  | int (x : Int)
  | str (s : List UInt8)
  deriving DecidableEq

/-- The copy of a field. -/
def SlotField.copy (c : EpollConnect) : SlotField → FieldValue
  | .now => .int c.now
  | .clientIpAddr => .str c.clientIpAddr.str
  | .clientPort => .int c.clientPort
  | .usrhashId => .str c.usrhashIdStr
  | .passwd => .str c.passwd.str

/-- A field with the copy that was made of it. -/
abbrev FieldCopy := SlotField × FieldValue

/-- The field that a write of `init_epoll_connect_by_index` goes to, if replies copy it. -/
def SlotWrite.field : SlotWrite → Option SlotField
  | .now _ => some .now
  | .clientIpAddr _ => some .clientIpAddr
  | .clientPort _ => some .clientPort
  | .connectFd _ | .socketStatus _ => none

/-- The writes of `free_event_by_index`. -/
def freeEventByIndexWrites : List SlotWrite := [.connectFd (-1), .socketStatus 0]

/-- The text of a HANDSHAKE_ACK. -/
def handshakeInfo (addr : List UInt8) (port : Int) : CharArray 256 :=
  .snprintf 256 (CString.ascii "addr:" ++ addr ++ CString.ascii " port:" ++ decimal port ++
    CString.ascii " ")

/-- The GETREMOTE_ACK for a user that is not found. -/
def getRemoteNotFound : GetRemoteAckMessage where
  flag := false
  info := .snprintf 256 (CString.ascii
    "Not Found client event index,  may be caused by the client being offline")

/-- The reply for which a handler copies a slot. For GETALLUSER these are the allocated
    nodes and those written before. -/
inductive ReplyKind where
  | handshake
  | getRemote
  | getAllUser (cnt : Nat) (node : List JQUserNode)

/-- The fields that the reply is made of, in the order in which they are copied. The
    arguments of a `snprintf` are evaluated before it reads the address. -/
def ReplyKind.fields : ReplyKind → List SlotField
  | .handshake => [.clientPort, .clientIpAddr]
  | .getRemote => [.clientIpAddr, .clientPort, .clientPort, .clientIpAddr]
  | .getAllUser .. => [.now, .clientIpAddr, .clientPort, .usrhashId, .passwd]

namespace SharedTable

/-- Program counter of `accept_thread`. -/
inductive AcceptPc where
  /-- Where it does not use the table. -/
  | idle
  /-- In `get_epoll_connect_free_event_index`, at slot `iIndex`. -/
  | searching (c : Client) (iIndex : Nat)
  /-- Before `init_epoll_connect_by_index`, slot `i` chosen. -/
  | chosen (c : Client) (i : Fin maxEvents)
  /-- In `init_epoll_connect_by_index`, slot `i` locked, with these writes to go. -/
  | filling (c : Client) (i : Fin maxEvents) (ws : List SlotWrite)

/-- Program counter of the event loop. -/
inductive LoopPc where
  | idle
  /-- In `free_event_by_index`, slot `i` locked, with these writes to go. -/
  | freeing (i : Fin maxEvents) (ws : List SlotWrite)

/-- Program counter of `respons_stb_info` in a worker. -/
inductive HandlerPc where
  | idle
  /-- In `get_matched_event_index_by_fd`, at slot `iIndex`. -/
  | searchingFd (arg : JobParameter) (iIndex : Nat)
  /-- At the first `strncpy` of CMD_SENDUI. -/
  | sendUI (conn : Nat) (i : Fin maxEvents) (sendUIMsg : SendUIMessage)
  /-- At the second. -/
  | sendUIPasswd (conn : Nat) (i : Fin maxEvents) (sendUIMsg : SendUIMessage)
  /-- In `get_matched_event_index_by_UsrHashId`, at slot `iIndex`. -/
  | searchingUsrHashId (usrHashId : List UInt8) (iIndex : Nat)
  /-- In the counting pass of `get_all_users`, at slot `iIndex`. -/
  | counting (iIndex cnt : Nat)
  /-- At the `malloc` of CMD_GETALLUSER. -/
  | allocating (cnt : Nat)
  /-- In the filling pass of `get_all_users`, at slot `iIndex`. -/
  | filling (cnt iIndex : Nat) (node : List JQUserNode)
  /-- Copying slot `i`, with the copies made and the fields to go. -/
  | copying (kind : ReplyKind) (i : Fin maxEvents) (copied : List FieldCopy)
      (todo : List SlotField)
  /-- At `send_buffer_to_fd`. -/
  | replied (reply : Reply)

end SharedTable

/-- The table, with the threads that use it. -/
structure SharedTable where
  table : Table
  conns : Nat
  accept : SharedTable.AcceptPc
  loop : SharedTable.LoopPc
  handlers : Nat → SharedTable.HandlerPc
  /-- The connection for which a field was written last. -/
  writer : Fin maxEvents → SlotField → Option Nat

namespace SharedTable

/-- Steps of the threads. -/
inductive Action where
  /-- `accept` returns. -/
  | accept (peer : Peer)
  /-- The accept thread looks at its next slot. -/
  | search
  /-- It leaves by an error exit. -/
  | giveUp
  /-- `init_epoll_connect_by_index` reads the time and locks the slot. -/
  | initSlot (now : Int)
  /-- It makes its next write. -/
  | fill
  /-- It unlocks the slot. -/
  | unlock
  /-- `free_event_by_index` locks slot `i`. -/
  | free (i : Fin maxEvents)
  /-- It makes its next write. -/
  | freeWrite
  /-- It unlocks the slot. -/
  | freeUnlock
  /-- `update_time_by_index` -/
  | updateTime (i : Fin maxEvents) (now : Int)
  /-- Worker `w` calls `respons_stb_info`. -/
  | start (w : Nat) (arg : JobParameter)
  /-- It makes its next step there. -/
  | handle (w : Nat)

/-! ### The handler -/

/-- The `switch` of `respons_stb_info`. SENDUI without a slot has no step: it is
    undefined. -/
def dispatch (arg : JobParameter) (matchedEventIndex : Option (Fin maxEvents)) :
    Option HandlerPc :=
  match Command.ofBuffer arg.recvBuffer, matchedEventIndex with
  | .handshake _, none =>
    some (.replied (.handshakeAck (handshakeInfo (CString.ascii "0.0.0.0") (-1))))
  | .handshake _, some i => some (.copying .handshake i [] ReplyKind.handshake.fields)
  | .sendUI _, none => none
  | .sendUI sendUIMsg, some i => some (.sendUI arg.conn i sendUIMsg)
  | .getRemote grMsg, _ =>
    let usrHashId : CharArray 10 := .strncpy 10 grMsg.userId.bytes
    some (.searchingUsrHashId usrHashId.bytes 0)
  | .getAllUser, _ => some (.counting 0 0)
  | .other _, _ => some .idle

/-- Slot `i` is copied: the handler goes to its reply or to the next slot. -/
def copied (i : Fin maxEvents) : ReplyKind → List FieldCopy → Option HandlerPc
  | .handshake, [(.clientPort, .int port), (.clientIpAddr, .str addr)] =>
    some (.replied (.handshakeAck (handshakeInfo addr port)))
  | .getRemote, [(.clientIpAddr, .str addr), (.clientPort, .int port),
      (.clientPort, .int infoPort), (.clientIpAddr, .str infoAddr)] =>
    some (.replied (.getRemoteAck {
      flag := true
      ip := inetAddr addr
      port := port
      info := .snprintf 256 (CString.ascii "clientIp:" ++ infoAddr ++
        CString.ascii " clientPort:" ++ decimal infoPort) }))
  | .getAllUser cnt node, [(.now, .int now), (.clientIpAddr, .str addr),
      (.clientPort, .int port), (.usrhashId, .str usrhashId), (.passwd, .str passwd)] =>
    some (.filling cnt (i + 1) (node ++ [{
      now := now
      clientIpAddr := addr
      clientPort := port
      usrhashId := usrhashId
      passwd := passwd }]))
  | _, _ => none

/-- The steps of a handler that read the table. -/
def look (t : Table) : HandlerPc → Option HandlerPc
  | .searchingFd arg iIndex =>
    if h : iIndex < maxEvents then
      if (t ⟨iIndex, h⟩).connectFd = arg.fd then dispatch arg (some ⟨iIndex, h⟩)
      else some (.searchingFd arg (iIndex + 1))
    -- No slot has the number: `matched_event_index` is -1
    else dispatch arg none
  | .searchingUsrHashId usrHashId iIndex =>
    if h : iIndex < maxEvents then
      if CString.strncmp 9 (t ⟨iIndex, h⟩).usrhashId.bytes usrHashId = 0 then
        some (.copying .getRemote ⟨iIndex, h⟩ [] ReplyKind.getRemote.fields)
      else some (.searchingUsrHashId usrHashId (iIndex + 1))
    else some (.replied (.getRemoteAck getRemoteNotFound))
  | .counting iIndex cnt =>
    if h : iIndex < maxEvents then
      some (.counting (iIndex + 1) (if t.Occupied ⟨iIndex, h⟩ then cnt + 1 else cnt))
    else some (.allocating cnt)
  -- `malloc` is given the count of the first pass
  | .allocating cnt => some (.filling cnt 0 [])
  | .filling cnt iIndex node =>
    if h : iIndex < maxEvents then
      if t.Occupied ⟨iIndex, h⟩ then
        some (.copying (.getAllUser cnt node) ⟨iIndex, h⟩ [] (ReplyKind.getAllUser cnt node).fields)
      else some (.filling cnt (iIndex + 1) node)
    else some (.replied (.getAllUserAck cnt node))
  | .copying kind i done (f :: todo) => some (.copying kind i (done ++ [(f, f.copy (t i))]) todo)
  | .copying kind i done [] => copied i kind done
  | .idle | .sendUI .. | .sendUIPasswd .. | .replied _ => none

/-! ### The threads -/

/-- The threads outside of the table, which is as it is. -/
def start (table : Table) : SharedTable where
  table := table
  conns := 0
  accept := .idle
  loop := .idle
  handlers := fun _ => .idle
  writer := fun _ _ => none

/-- A write to a field of slot `i`. -/
def write (s : SharedTable) (i : Fin maxEvents) (w : SlotWrite) : SharedTable :=
  { s with table := Function.update s.table i (w.apply (s.table i)) }

/-- Field `f` of slot `i` is now that of connection `conn`. -/
def tag (s : SharedTable) (i : Fin maxEvents) (f : SlotField) (conn : Nat) : SharedTable :=
  { s with writer := Function.update s.writer i (Function.update (s.writer i) f (some conn)) }

/-- A write of `init_epoll_connect_by_index` for client `c`. -/
def fillWrite (s : SharedTable) (c : Client) (i : Fin maxEvents) (w : SlotWrite) : SharedTable :=
  match w.field with
  | some f => (s.write i w).tag i f c.conn
  | none => s.write i w

/-- The accept thread has slot `i` locked. -/
def acceptLocks (s : SharedTable) (i : Fin maxEvents) : Bool :=
  match s.accept with
  | .filling _ j _ => i = j
  | _ => false

/-- The event loop has slot `i` locked. -/
def loopLocks (s : SharedTable) (i : Fin maxEvents) : Bool :=
  match s.loop with
  | .freeing j _ => i = j
  | .idle => false

/-- The handler of worker `w` moves to `pc`. -/
def setHandler (s : SharedTable) (w : Nat) (pc : HandlerPc) : SharedTable :=
  { s with handlers := Function.update s.handlers w pc }

/-- Steps of the accept thread. -/
def acceptStep (s : SharedTable) : Action → AcceptPc → Option SharedTable
  | .accept p, .idle =>
    if 0 ≤ p.fd then
      some { s with
        conns := s.conns + 1
        accept := .searching { fd := p.fd, conn := s.conns, addr := p.addr, port := p.port } 0 }
    else none
  -- The search takes no lock; without a free slot the client is refused
  | .search, .searching c iIndex =>
    some { s with
      accept :=
        if h : iIndex < maxEvents then
          if (s.table ⟨iIndex, h⟩).connectFd = -1 then .chosen c ⟨iIndex, h⟩
          else .searching c (iIndex + 1)
        else .idle }
  | .giveUp, .chosen _ _ => some { s with accept := .idle }
  | .initSlot now, .chosen c i =>
    if s.loopLocks i then none
    else some { s with accept := .filling c i (initEpollConnectByIndex now c.fd c.addr c.port) }
  | .fill, .filling c i (w :: ws) => some { s.fillWrite c i w with accept := .filling c i ws }
  | .unlock, .filling _ _ [] => some { s with accept := .idle }
  | _, _ => none

/-- Steps of the event loop. -/
def loopStep (s : SharedTable) : Action → LoopPc → Option SharedTable
  | .free i, .idle =>
    if s.acceptLocks i then none
    else some { s with loop := .freeing i freeEventByIndexWrites }
  | .freeWrite, .freeing i (w :: ws) => some { s.write i w with loop := .freeing i ws }
  | .freeUnlock, .freeing _ [] => some { s with loop := .idle }
  -- `update_time_by_index` takes no lock
  | .updateTime i now, .idle => some { s with table := s.table.updateTimeByIndex i now }
  | _, _ => none

/-- The first `strncpy` of CMD_SENDUI. -/
def copyUserId (s : SharedTable) (conn : Nat) (i : Fin maxEvents) (sendUIMsg : SendUIMessage) :
    SharedTable :=
  { s.tag i .usrhashId conn with
    table := Function.update s.table i
      { s.table i with usrhashId := .strncpy 10 sendUIMsg.userId.bytes } }

/-- The second. -/
def copyPasswd (s : SharedTable) (conn : Nat) (i : Fin maxEvents) (sendUIMsg : SendUIMessage) :
    SharedTable :=
  { s.tag i .passwd conn with
    table := Function.update s.table i
      { s.table i with passwd := .strncpy 7 sendUIMsg.passwd.bytes } }

/-- A step of worker `w` in `respons_stb_info`. -/
def handleStep (s : SharedTable) (w : Nat) : HandlerPc → Option SharedTable
  | .sendUI conn i sendUIMsg =>
    some ((s.copyUserId conn i sendUIMsg).setHandler w (.sendUIPasswd conn i sendUIMsg))
  | .sendUIPasswd conn i sendUIMsg =>
    some ((s.copyPasswd conn i sendUIMsg).setHandler w .idle)
  -- The slots are read without their locks
  | pc => (look s.table pc).map (s.setHandler w)

/-- Worker `w` calls `respons_stb_info`, having sent the reply to its last job. -/
def startStep (s : SharedTable) (w : Nat) (arg : JobParameter) : HandlerPc → Option SharedTable
  | .idle | .replied _ =>
    some (s.setHandler w (if arg.fd = -1 then .idle else .searchingFd arg 0))
  | _ => none

/-- One step of a thread. -/
def step (s : SharedTable) (a : Action) : Option SharedTable :=
  match a with
  | .start w arg => s.startStep w arg (s.handlers w)
  | .handle w => s.handleStep w (s.handlers w)
  | .free _ | .freeWrite | .freeUnlock | .updateTime _ _ => s.loopStep a s.loop
  | _ => s.acceptStep a s.accept

/-- The threads as a transition system, started on any table. -/
def system : Transition.System SharedTable Action where
  init s := ∃ table, s = start table
  step := step

end SharedTable

end JQServer
