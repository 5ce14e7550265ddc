import JQServer.ForStd.Memory
import JQServer.Native.EpollConnect

/-!
# The user list in bytes (`server/g_net_update.c`, `Win32ClientTest.cpp`)

CMD_GETALLUSER on a table that does not change meanwhile: the reply is written into an
allocation whose bytes are arbitrary at first, and a write outside it is `none`. `int`
has 4 bytes, `time_t` has 8 and their alignment, on both sides: `node` is at offset 8 of
`struct GetAllUserAckMessage`, behind `cnt` and 4 bytes of padding.
-/

namespace JQServer

/-- `offsetof(struct GetAllUserAckMessage, node)` -/
def offsetofNode : Nat := 8

/-- The writes of `get_all_users` to `userNode[cnt]`, whose address is `node`. -/
def writeUserNode (node : Nat) (n : JQUserNode) (buf : List UInt8) : Option (List UInt8) := do
  let buf ← Memory.write buf node (toLEInt 8 n.now)
  let buf ← Memory.write buf (node + 8) (n.clientIpAddr ++ [0])
  let buf ← Memory.write buf (node + 28) (toLEInt 4 n.clientPort)
  let buf ← Memory.write buf (node + 32) (n.usrhashId ++ [0])
  Memory.write buf (node + 42) (n.passwd ++ [0])

/-- The filling pass of `get_all_users` from some slot on, with `cnt` nodes written. -/
def Table.getAllUsers (t : Table) (userNode : Nat) :
    List (Fin maxEvents) → Nat → List UInt8 → Option (List UInt8)
  | [], _, buf => some buf
  | iIndex :: rest, cnt, buf =>
    match t.getAllUsersNode iIndex with
    | none => t.getAllUsers userNode rest cnt buf
    | some n => do
      let buf ← writeUserNode (userNode + sizeofJQUserNode * cnt) n buf
      t.getAllUsers userNode rest (cnt + 1) buf

/-- How many bytes CMD_GETALLUSER allocates and sends. -/
def Table.getAllUserLen (t : Table) : Nat :=
  sizeofStJQMessage + 4 + sizeofJQUserNode * t.getAllUsersCount

/-- CMD_GETALLUSER with the allocation `sendBuf`: the bytes that it sends. -/
def Table.responsGetAllUser (t : Table) (sendBuf : List UInt8) : Option (List UInt8) := do
  let cnt := t.getAllUsersCount
  let buf ← Memory.write sendBuf 0 (toLEInt 4 cmdGetAllUserAck)
  let buf ← Memory.write buf sizeofStJQMessage (toLEInt 4 cnt)
  let buf ← t.getAllUsers (sizeofStJQMessage + offsetofNode) (List.finRange maxEvents) 0 buf
  let len := sizeofStJQMessage + 4 + sizeofJQUserNode * cnt
  let buf ← Memory.write buf 4 (toLEInt 4 len)
  some (Memory.read buf 0 len)

/-- `node[i]` as the client reads it, its address being `node`. -/
def recvUserNode (recvBuf : List UInt8) (node : Nat) : JQUserNode where
  now := leInt (Memory.read recvBuf node 8)
  clientIpAddr := CString.str (Memory.read recvBuf (node + 8) ipAddrLength)
  clientPort := leInt (Memory.read recvBuf (node + 28) 4)
  usrhashId := CString.str (Memory.read recvBuf (node + 32) 10)
  passwd := CString.str (Memory.read recvBuf (node + 42) 7)

/-- The branch CMD_GETALLUSER_ACK of `recv_func`: the nodes that it prints. -/
def recvGetAllUserAck (recvBuf : List UInt8) : List JQUserNode :=
  let cnt := leInt (Memory.read recvBuf sizeofStJQMessage 4)
  (List.range cnt.toNat).map fun i =>
    recvUserNode recvBuf (sizeofStJQMessage + offsetofNode + sizeofJQUserNode * i)

end JQServer
