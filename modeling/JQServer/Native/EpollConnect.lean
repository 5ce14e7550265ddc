import JQServer.ForStd.Fin
import JQServer.Native.Proto
import Mathlib.Logic.Function.Basic

/-!
# Connection table (`server/epoll_connect.c`)

The table `epoll_connect_client` maps slot numbers below `MAX_EVENTS` to slots. An
index that the source keeps in an `int` is -1 or the number of a slot; here it is
`none` or that number. A search of the table is one step.

`init_epoll_connect_by_index` fills a slot field by field, and other threads read
the table without a lock meanwhile. So it is the list of its writes, which the
accept thread makes one by one.
-/

namespace JQServer

/-- `MAX_EVENTS` -/
abbrev maxEvents : Nat := 10240

instance : NeZero maxEvents := ⟨by decide⟩

/-- `IP_ADDR_LENGTH` -/
abbrev ipAddrLength : Nat := 20

/-- `EPOLL_CONNECT` without its mutex. -/
structure EpollConnect where
  connectFd : Int
  socketStatus : Int
  now : Int
  clientIpAddr : CharArray ipAddrLength
  clientPort : Int
  usrhashId : CharArray 10
  passwd : CharArray 7
  deriving DecidableEq

/-- The C string that starts at `UsrhashId`. Without a NUL in that field it runs on into
    `passwd`; what follows `passwd` is padding, which is zero. -/
def EpollConnect.usrhashIdStr (c : EpollConnect) : List UInt8 :=
  CString.str (c.usrhashId.bytes ++ c.passwd.bytes)

/-- `epoll_connect_client` -/
abbrev Table := Fin maxEvents → EpollConnect

/-- `init_epoll_connect`: every slot is free and otherwise zero. -/
def initEpollConnect : Table := fun _ => {
  connectFd := -1
  socketStatus := 0
  now := 0
  clientIpAddr := .zero _
  clientPort := 0
  usrhashId := .zero _
  passwd := .zero _ }

/-- One write to a field of a slot. -/
inductive SlotWrite where
  | now (now : Int)
  | clientIpAddr (ip : CharArray ipAddrLength)
  | clientPort (port : Int)
  | connectFd (fd : Int)
  | socketStatus (status : Int)
  deriving DecidableEq

/-- The slot after a write. -/
def SlotWrite.apply (c : EpollConnect) : SlotWrite → EpollConnect
  | .now t => { c with now := t }
  | .clientIpAddr ip => { c with clientIpAddr := ip }
  | .clientPort port => { c with clientPort := port }
  | .connectFd fd => { c with connectFd := fd }
  | .socketStatus status => { c with socketStatus := status }

/-- `init_epoll_connect_by_index`, `now` being the time it reads. -/
def initEpollConnectByIndex (now iConnectFD : Int) (uiClientIP : CharArray ipAddrLength)
    (cliPort : Int) : List SlotWrite :=
  [.now now, .clientIpAddr (.zero _), .clientIpAddr uiClientIP, .clientPort cliPort,
    .connectFd iConnectFD, .socketStatus 1]

namespace Table

/-- `get_epoll_connect_free_event_index` -/
def getEpollConnectFreeEventIndex (t : Table) : Option (Fin maxEvents) :=
  Fin.firstIndex fun i => (t i).connectFd = -1

/-- `get_matched_event_index_by_fd` -/
def getMatchedEventIndexByFd (t : Table) (iConnectFD : Int) : Option (Fin maxEvents) :=
  Fin.firstIndex fun i => (t i).connectFd = iConnectFD

/-- `get_matched_event_index_by_UsrHashId` -/
def getMatchedEventIndexByUsrHashId (t : Table) (usrHashId : List UInt8) :
    Option (Fin maxEvents) :=
  Fin.firstIndex fun i => CString.strncmp 9 (t i).usrhashId.bytes usrHashId = 0

/-- The counting pass of `get_all_users`, with a NULL buffer. -/
def getAllUsersCount (t : Table) : Nat :=
  (Finset.univ.filter fun i => (t i).connectFd ≠ -1).card

/-- The entry that the filling pass of `get_all_users` writes for a slot. -/
def getAllUsersNode (t : Table) (i : Fin maxEvents) : Option JQUserNode :=
  if (t i).connectFd ≠ -1 then
    some {
      now := (t i).now
      clientIpAddr := (t i).clientIpAddr.str
      clientPort := (t i).clientPort
      usrhashId := (t i).usrhashIdStr
      passwd := (t i).passwd.str }
  else none

/-- `update_time_by_index` -/
def updateTimeByIndex (t : Table) (i : Fin maxEvents) (now : Int) : Table :=
  Function.update t i { t i with now := now }

/-- `free_event_by_index` -/
def freeEventByIndex (t : Table) : Option (Fin maxEvents) → Table
  | none => t
  | some i => Function.update t i { t i with connectFd := -1, socketStatus := 0 }

/-- `get_client_addr_by_index`, as a C string. -/
def getClientAddrByIndex (t : Table) : Option (Fin maxEvents) → List UInt8
  | none => CString.ascii "0.0.0.0"
  | some i => (t i).clientIpAddr.str

/-- `get_client_port_by_index` -/
def getClientPortByIndex (t : Table) : Option (Fin maxEvents) → Int
  | none => -1
  | some i => (t i).clientPort

/-- A slot is occupied while its `connect_fd` is not -1. -/
def Occupied (t : Table) (i : Fin maxEvents) : Prop := (t i).connectFd ≠ -1

instance (t : Table) (i : Fin maxEvents) : Decidable (t.Occupied i) :=
  inferInstanceAs (Decidable (_ ≠ _))

/-- The slot found by descriptor holds that descriptor. -/
theorem getMatchedEventIndexByFd_some {t : Table} {fd : Int} {i : Fin maxEvents}
    (h : t.getMatchedEventIndexByFd fd = some i) : (t i).connectFd = fd := by
  simpa using Fin.firstIndex_spec h

/-- Some slot is found by descriptor if one holds it. -/
theorem exists_getMatchedEventIndexByFd {t : Table} {fd : Int} {i : Fin maxEvents}
    (h : (t i).connectFd = fd) : ∃ j, t.getMatchedEventIndexByFd fd = some j :=
  Fin.exists_firstIndex (i := i) (by simpa using h)

/-- The slot chosen for a new connection is free. -/
theorem getEpollConnectFreeEventIndex_some {t : Table} {i : Fin maxEvents}
    (h : t.getEpollConnectFreeEventIndex = some i) : (t i).connectFd = -1 := by
  simpa using Fin.firstIndex_spec h

end Table

end JQServer
