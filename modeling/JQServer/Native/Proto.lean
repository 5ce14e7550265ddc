import JQServer.ForStd.CString

/-!
# Message formats (`server/proto.h`)

Every message starts with `struct stJQMessage`, two `int`s: the message type and
the message length. Words are little-endian and `int` has 32 bits.

`Command.ofBuffer` is what the casts and the `switch` of `respons_stb_info` make of
a received buffer: the command, with the payload its branch reads.
-/

namespace JQServer

def cmdSendUI : Nat := 0xfffe
def cmdGetRemote : Nat := 0xfffd
def cmdGetRemoteAck : Nat := 0xfffc
def cmdHandshake : Nat := 0xfffb
def cmdHandshakeAck : Nat := 0xfffa
def cmdGetAllUser : Nat := 0xfff9
def cmdGetAllUserAck : Nat := 0xfff8
def cmdHeartbeat : Nat := 0xfff1

/-- `sizeof(struct stJQMessage)` -/
def sizeofStJQMessage : Nat := 8

/-- `sizeof(struct JQUserNode)`, with an 8-byte `time_t` and its alignment. -/
def sizeofJQUserNode : Nat := 56

/-- `struct SendUIMessage` -/
structure SendUIMessage where
  userId : CharArray 10
  passwd : CharArray 7
  deriving DecidableEq

/-- `struct GetRemoteMessage` -/
structure GetRemoteMessage where
  userId : CharArray 10
  passwd : CharArray 7
  deriving DecidableEq

/-- `struct GetRemoteAckMessage`; `ip` is the unsigned value of its bytes. -/
structure GetRemoteAckMessage where
  flag : Bool
  ip : Nat := 0
  port : Int := 0
  info : CharArray 256
  deriving DecidableEq

/-- `struct JQUserNode`, with the strings that `strcpy` puts into its arrays. -/
structure JQUserNode where
  now : Int
  clientIpAddr : List UInt8
  clientPort : Int
  usrhashId : List UInt8
  passwd : List UInt8
  deriving DecidableEq

/-- A command as `respons_stb_info` dispatches it. Heartbeats and unknown message
    types have no branch of their own. -/
inductive Command where
  | handshake (greetings : List UInt8)
  | sendUI (msg : SendUIMessage)
  | getRemote (msg : GetRemoteMessage)
  | getAllUser
  | other (iMessageType : Nat)
  deriving DecidableEq

/-- The `struct SendUIMessage` in a receive buffer. -/
def SendUIMessage.ofBuffer (recvBuffer : CharArray 1024) : SendUIMessage where
  userId := recvBuffer.field sizeofStJQMessage 10
  passwd := recvBuffer.field (sizeofStJQMessage + 10) 7

/-- The command in a receive buffer. -/
def Command.ofBuffer (recvBuffer : CharArray 1024) : Command :=
  let iMessageType := leNat (recvBuffer.field 0 4).bytes
  if iMessageType = cmdHandshake then
    .handshake (CString.str (recvBuffer.bytes.drop sizeofStJQMessage))
  else if iMessageType = cmdSendUI then .sendUI (.ofBuffer recvBuffer)
  else if iMessageType = cmdGetRemote then
    .getRemote {
      userId := recvBuffer.field sizeofStJQMessage 10
      passwd := recvBuffer.field (sizeofStJQMessage + 10) 7 }
  else if iMessageType = cmdGetAllUser then .getAllUser
  else .other iMessageType

/-- A reply, before it is written to the socket. -/
inductive Reply where
  | handshakeAck (info : CharArray 256)
  | getRemoteAck (msg : GetRemoteAckMessage)
  | getAllUserAck (cnt : Nat) (node : List JQUserNode)
  deriving DecidableEq

/-- `iMessageLen` of a reply, the number of bytes that are sent. -/
def Reply.iMessageLen : Reply → Nat
  | .handshakeAck _ => sizeofStJQMessage + 256
  | .getRemoteAck _ => sizeofStJQMessage + (3 * 4 + 256)
  | .getAllUserAck cnt _ => sizeofStJQMessage + 4 + sizeofJQUserNode * cnt

/-! ### `inet_addr` -/

/-- The value of a non-empty sequence of digits. -/
def inetDigits (base : Nat) (ds : List UInt8) : Option Nat :=
  let digit (c : UInt8) : Option Nat :=
    let v := if 48 ≤ c ∧ c ≤ 57 then some (c.toNat - 48)
      else if 97 ≤ c ∧ c ≤ 102 then some (c.toNat - 87)
      else if 65 ≤ c ∧ c ≤ 70 then some (c.toNat - 55)
      else none
    v.filter (· < base)
  if ds = [] then none
  else ds.foldlM (fun acc c => (digit c).map fun d => acc * base + d) 0

/-- One number of an address: hexadecimal after 0x, octal after 0, else decimal. -/
def inetNumber : List UInt8 → Option Nat
  | 48 :: x :: ds => if x = 120 ∨ x = 88 then inetDigits 16 ds else inetDigits 8 (x :: ds)
  | ds => inetDigits 10 ds

/-- `INADDR_NONE` -/
def inaddrNone : Nat := 0xffffffff

/-- An address in network byte order, as a little-endian `int` holds it. -/
def htonl (x : Nat) : Nat :=
  x / 0x1000000 % 256 + 256 * (x / 0x10000 % 256) + 0x10000 * (x / 0x100 % 256) +
    0x1000000 * (x % 256)

/-- `inet_addr`: one to four numbers, of which the last fills the bytes left over. -/
def inetAddr (cp : List UInt8) : Nat :=
  let isspace (c : UInt8) : Bool := c = 32 || (9 ≤ c && c ≤ 13)
  match ((cp.takeWhile fun c => !isspace c).splitOn 46).mapM inetNumber with
  | some [a] => if a < 0x100000000 then htonl a else inaddrNone
  | some [a, b] => if a < 256 ∧ b < 0x1000000 then htonl (a * 0x1000000 + b) else inaddrNone
  | some [a, b, c] =>
    if a < 256 ∧ b < 256 ∧ c < 0x10000 then htonl (a * 0x1000000 + b * 0x10000 + c) else inaddrNone
  | some [a, b, c, d] =>
    if a < 256 ∧ b < 256 ∧ c < 256 ∧ d < 256 then
      htonl (a * 0x1000000 + b * 0x10000 + c * 0x100 + d)
    else inaddrNone
  | _ => inaddrNone

end JQServer
