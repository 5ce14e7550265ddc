import JQServer.Native.EpollConnect

/-!
# Receiving, sending and answering (`server/g_net_update.c`)

The parts of `g_net_update.c` that run to completion by themselves: what
`recv_buffer_from_fd` makes of the result of `recv`, what one `write` means for the
loop of `send_buffer_to_fd`, and the branches of `respons_stb_info` as functions of
the table.
-/

namespace JQServer

/-- `BUFLEN` -/
def bufLen : Nat := 1024

/-- `SERVER_TIMEOUT` -/
def serverTimeout : Int := 60

/-- `recv_buffer_from_fd` on the result of its only `recv`, `none` being an error:
    the bytes received when it returns 0, and `none` when it returns -1. -/
def recvBufferFromFd (recv : Option (List UInt8)) : Option (List UInt8) :=
  match recv with
  | none => none
  | some data => if data.length < bufLen then some data else none

/-- What `sprintf("%02x")` prints for a byte. -/
def hexByte (b : UInt8) : List UInt8 :=
  let digit (d : Nat) : UInt8 := if d < 10 then (48 + d).toUInt8 else (87 + d).toUInt8
  [digit (b.toNat / 16), digit (b.toNat % 16)]

/-- The loop of `dumpInfo`, with the text printed so far: every `sprintf` writes two
    digits and a NUL behind it. `none` is a write past the 128 bytes of `buffer`. -/
def dumpInfoLoop (buffer : List UInt8) : List UInt8 → Option (List UInt8)
  | [] => some buffer
  | b :: info =>
    if buffer.length + 3 ≤ 128 then dumpInfoLoop (buffer ++ hexByte b) info else none

/-- `dumpInfo`: the text that it logs. -/
def dumpInfo (info : List UInt8) : Option (List UInt8) := dumpInfoLoop [] info

/-- `thpool_job_funcion_parameter`. `conn` is bookkeeping of the model: the
    connection that the bytes were received on. -/
structure JobParameter where
  recvBuffer : CharArray 1024
  fd : Int
  conn : Nat

/-- The job parameter made of received bytes: the buffer starts out zero. -/
def JobParameter.received (data : List UInt8) (fd : Int) (conn : Nat) : JobParameter where
  recvBuffer := .ofBytes 1024 data
  fd := fd
  conn := conn

/-- The outcome of a `write`. -/
inductive WriteResult where
  | accepted (nwrite : Nat)
  | eagain
  | error
  deriving DecidableEq

/-- One iteration of `send_buffer_to_fd` with `n` bytes left: the new `n` if the loop
    goes on. On EAGAIN the -1 that `write` returned is subtracted from `n`. -/
def sendBufferStep (n : Nat) : WriteResult → Option Nat
  | .accepted nwrite => if n - nwrite = 0 then none else some (n - nwrite)
  | .eagain => some (n + 1)
  | .error => none

/-- The text of an `int` printed with `%d`. -/
def decimal (x : Int) : List UInt8 := CString.ascii (toString x)

/-- `inet_ntoa`, which the accept thread calls on the address of a peer; the address is in
    network byte order, as a little-endian `int` holds it. -/
def inetNtoa (addr : Nat) : List UInt8 :=
  [46].intercalate ([addr % 256, addr / 0x100 % 256, addr / 0x10000 % 256,
    addr / 0x1000000 % 256].map fun b : Nat => decimal b)

/-- The reply to CMD_HANDSHAKE. -/
def responsHandshake (t : Table) (matchedEventIndex : Option (Fin maxEvents)) :
    CharArray 256 :=
  .snprintf 256 (CString.ascii "addr:" ++ t.getClientAddrByIndex matchedEventIndex ++
    CString.ascii " port:" ++ decimal (t.getClientPortByIndex matchedEventIndex) ++
    CString.ascii " ")

/-- The fields that CMD_SENDUI copies, in this order. -/
inductive SendUIField where
  | userId
  | passwd
  deriving DecidableEq

/-- The `strncpy` of a field to the slot `pCon` points to. -/
def SendUIField.strncpy (pCon : EpollConnect) (sendUIMsg : SendUIMessage) :
    SendUIField → EpollConnect
  | .userId => { pCon with usrhashId := .strncpy 10 sendUIMsg.userId.bytes }
  | .passwd => { pCon with passwd := .strncpy 7 sendUIMsg.passwd.bytes }

/-- CMD_SENDUI on the slot `pCon` points to. -/
def responsSendUI (pCon : EpollConnect) (sendUIMsg : SendUIMessage) : EpollConnect :=
  { pCon with
    usrhashId := .strncpy 10 sendUIMsg.userId.bytes
    passwd := .strncpy 7 sendUIMsg.passwd.bytes }

/-- The reply to CMD_GETREMOTE. -/
def responsGetRemote (t : Table) (grMsg : GetRemoteMessage) : GetRemoteAckMessage :=
  let usrHashId : CharArray 10 := .strncpy 10 grMsg.userId.bytes
  match t.getMatchedEventIndexByUsrHashId usrHashId.bytes with
  | none => {
      flag := false
      info := .snprintf 256 (CString.ascii
        "Not Found client event index,  may be caused by the client being offline") }
  | some evIdx => {
      flag := true
      ip := inetAddr (t evIdx).clientIpAddr.str
      port := (t evIdx).clientPort
      info := .snprintf 256 (CString.ascii "clientIp:" ++ (t evIdx).clientIpAddr.str ++
        CString.ascii " clientPort:" ++ decimal (t evIdx).clientPort) }

end JQServer
