import JQServer.Native.NetUpdate
import JQServer.Native.ReplyBytes

/-!
# Receiving a reply (`Win32ClientTest/Win32ClientTest.cpp`)

`recv_func` receives into `recvBuf`, which has 256 bytes, and asks for up to 1024. After each
`recv` it decodes what is at the start of the buffer. The model knows the bytes of the reply
that have been stored so far; a store behind the buffer and a read of any other byte are
`none`. The replies are those of the server, in the pieces that TCP delivers.
-/

namespace JQServer

/-- What `recv_func` prints for a message. -/
inductive Printed where
  | handshakeAck (info : List UInt8)
  | getRemoteAck (info : List UInt8)
  | userList (node : List JQUserNode)
  | other (text : List UInt8)

namespace RecvFunc

/-- `sizeof(recvBuf)` -/
def sizeofRecvBuf : Nat := 256

/-- How many bytes `recv` is asked for. -/
def recvLen : Nat := 1024

/-- A field of `k` bytes. -/
def readBytes (recvBuf : List UInt8) (offset k : Nat) : Option (List UInt8) :=
  if offset + k ≤ recvBuf.length then some (Memory.read recvBuf offset k) else none

/-- An `int`. -/
def readInt (recvBuf : List UInt8) (offset : Nat) : Option Int :=
  (readBytes recvBuf offset 4).map leInt

/-- A string, as `printf` reads it. -/
def readStr (recvBuf : List UInt8) (offset : Nat) : Option (List UInt8) :=
  if 0 ∈ recvBuf.drop offset then some (CString.str (recvBuf.drop offset)) else none

/-- The fields of `gauaMsg->node[i]`, whose address is `node`. -/
def readNode (recvBuf : List UInt8) (node : Nat) : Option JQUserNode := do
  let usrhashId ← readStr recvBuf (node + 32)
  let passwd ← readStr recvBuf (node + 42)
  let clientIpAddr ← readStr recvBuf (node + 8)
  let clientPort ← readInt recvBuf (node + 28)
  let now ← readBytes recvBuf node 8
  some {
    now := leInt now, clientIpAddr := clientIpAddr, clientPort := clientPort
    usrhashId := usrhashId, passwd := passwd }

/-- The branch CMD_GETALLUSER_ACK. -/
def readUserList (recvBuf : List UInt8) : Option (List JQUserNode) := do
  let cnt ← readInt recvBuf sizeofStJQMessage
  (List.range cnt.toNat).mapM fun i =>
    readNode recvBuf (sizeofStJQMessage + offsetofNode + sizeofJQUserNode * i)

/-- The `switch`, on what is at the start of the buffer. -/
def decode (recvBuf : List UInt8) : Option Printed := do
  let iMessageType ← readInt recvBuf 0
  if iMessageType = cmdHandshakeAck then
    (readStr recvBuf sizeofStJQMessage).map .handshakeAck
  else if iMessageType = cmdGetRemoteAck then
    (readStr recvBuf (sizeofStJQMessage + 12)).map .getRemoteAck
  else if iMessageType = cmdGetAllUserAck then (readUserList recvBuf).map .userList
  else (readStr recvBuf sizeofStJQMessage).map .other

/-- The buffer after `recv` has stored a piece at its start. -/
def overlay (piece recvBuf : List UInt8) : List UInt8 := piece ++ recvBuf.drop piece.length

/-- The loop of `recv_func`, for the pieces of a reply that are still to come. -/
def recvFunc : List UInt8 → List (List UInt8) → Option (List Printed)
  | _, [] => some []
  | recvBuf, piece :: pieces =>
    if piece.length ≤ sizeofRecvBuf then do
      let printed ← decode (overlay piece recvBuf)
      let rest ← recvFunc (overlay piece recvBuf) pieces
      some (printed :: rest)
    else none

end RecvFunc

/-- A reply that the server produces: for a table and the slot of the client, for a table and a
    query, or for a table and the memory that `malloc` finds. -/
inductive ServerReply where
  | handshakeAck (t : Table) (matchedEventIndex : Option (Fin maxEvents))
  | getRemoteAck (t : Table) (grMsg : GetRemoteMessage)
  | getAllUserAck (t : Table) (garbage : List UInt8)

/-- The bytes of the reply. -/
def ServerReply.bytes : ServerReply → List UInt8
  | handshakeAck t matchedEventIndex =>
    (Reply.handshakeAck (responsHandshake t matchedEventIndex)).bytes []
  | getRemoteAck t grMsg => (Reply.getRemoteAck (responsGetRemote t grMsg)).bytes []
  | getAllUserAck t garbage =>
    (Reply.getAllUserAck t.getAllUsersCount
      ((List.finRange maxEvents).filterMap t.getAllUsersNode)).bytes garbage

/-- The pieces in which a reply arrives, none larger than `recv` is asked for. -/
structure Delivery (bytes : List UInt8) where
  first : List UInt8
  rest : List (List UInt8)
  flatten_eq : first ++ rest.flatten = bytes
  first_ne : first ≠ []
  rest_ne : ∀ piece ∈ rest, piece ≠ []
  first_le : first.length ≤ RecvFunc.recvLen
  rest_le : ∀ piece ∈ rest, piece.length ≤ RecvFunc.recvLen

end JQServer
