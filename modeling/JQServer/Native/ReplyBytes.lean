import JQServer.Native.GetAllUser

/-!
# Replies in bytes (`server/g_net_update.c`)

The bytes that `respons_stb_info` hands to `send_buffer_to_fd`. The buffer of a
GETALLUSER_ACK comes from `malloc`, so its bytes are arbitrary at first, and once a write
has left it they are arbitrary again. The other replies are built in an array of zeros.
-/

namespace JQServer

/-- `iMessageType` of a reply. -/
def Reply.iMessageType : Reply → Nat
  | .handshakeAck _ => cmdHandshakeAck
  | .getRemoteAck _ => cmdGetRemoteAck
  | .getAllUserAck .. => cmdGetAllUserAck

/-- `malloc`, with the bytes that it finds there. -/
def malloc (size : Nat) (garbage : List UInt8) : List UInt8 :=
  (CharArray.ofBytes size garbage).bytes

/-- The filling pass of `get_all_users`, for the nodes that it writes from `cnt` on. -/
def writeUserNodes (userNode : Nat) : List JQUserNode → Nat → List UInt8 → Option (List UInt8)
  | [], _, buf => some buf
  | n :: node, cnt, buf => do
    let buf ← writeUserNode (userNode + sizeofJQUserNode * cnt) n buf
    writeUserNodes userNode node (cnt + 1) buf

/-- The writes of CMD_GETALLUSER to its allocation. -/
def writeGetAllUserAck (cnt : Nat) (node : List JQUserNode) (sendBuf : List UInt8) :
    Option (List UInt8) := do
  let buf ← Memory.write sendBuf 0 (toLEInt 4 cmdGetAllUserAck)
  let buf ← Memory.write buf sizeofStJQMessage (toLEInt 4 cnt)
  let buf ← writeUserNodes (sizeofStJQMessage + offsetofNode) node 0 buf
  Memory.write buf 4 (toLEInt 4 (Reply.getAllUserAck cnt node).iMessageLen)

/-- The bytes of a reply; `garbage` is what `malloc` finds in its memory. -/
def Reply.bytes (garbage : List UInt8) (reply : Reply) : List UInt8 :=
  let header := toLE 4 reply.iMessageType ++ toLE 4 reply.iMessageLen
  match reply with
  | .handshakeAck info => header ++ info.bytes
  | .getRemoteAck msg =>
    header ++ toLE 4 (if msg.flag then 1 else 0) ++ toLE 4 msg.ip ++ toLEInt 4 msg.port ++
      msg.info.bytes
  | .getAllUserAck cnt node =>
    let sendBuf := malloc reply.iMessageLen garbage
    (writeGetAllUserAck cnt node sendBuf).getD sendBuf

/-! ### Layout -/

/-- Writing a node keeps the size of the allocation. -/
private theorem writeUserNode_length {node : Nat} {n : JQUserNode} {buf buf' : List UInt8}
    (h : writeUserNode node n buf = some buf') : buf'.length = buf.length := by
  simp only [writeUserNode, Option.bind_eq_bind, Option.bind_eq_some_iff] at h
  obtain ⟨b1, h1, b2, h2, b3, h3, b4, h4, h5⟩ := h
  rw [Memory.length_write h5, Memory.length_write h4, Memory.length_write h3,
    Memory.length_write h2, Memory.length_write h1]

/-- The filling pass keeps the size of the allocation. -/
private theorem writeUserNodes_length {userNode : Nat} {node : List JQUserNode} {cnt : Nat}
    {buf buf' : List UInt8} (h : writeUserNodes userNode node cnt buf = some buf') :
    buf'.length = buf.length := by
  induction node generalizing cnt buf with
  | nil => rw [← Option.some.inj h]
  | cons n node ih =>
    obtain ⟨b, hb, h⟩ := Option.bind_eq_some_iff.mp h
    exact (ih h).trans (writeUserNode_length hb)

/-- A reply has as many bytes as its header says. -/
theorem Reply.bytes_length (garbage : List UInt8) (reply : Reply) :
    (reply.bytes garbage).length = reply.iMessageLen := by
  cases reply with
  | handshakeAck info =>
    simp only [bytes, iMessageLen, List.length_append, toLE_length, CharArray.size_eq,
      sizeofStJQMessage]
  | getRemoteAck msg =>
    simp only [bytes, iMessageLen, List.length_append, toLE_length, toLEInt_length,
      CharArray.size_eq, sizeofStJQMessage]
  | getAllUserAck cnt node =>
    have hsize : (malloc (Reply.getAllUserAck cnt node).iMessageLen garbage).length =
        (Reply.getAllUserAck cnt node).iMessageLen := CharArray.size_eq _
    simp only [bytes]
    cases hw : writeGetAllUserAck cnt node
        (malloc (Reply.getAllUserAck cnt node).iMessageLen garbage) with
    | none => exact hsize
    | some buf =>
      simp only [writeGetAllUserAck, Option.bind_eq_bind, Option.bind_eq_some_iff] at hw
      obtain ⟨b1, h1, b2, h2, b3, h3, h4⟩ := hw
      rw [Option.getD_some, Memory.length_write h4, writeUserNodes_length h3,
        Memory.length_write h2, Memory.length_write h1, hsize]

/-- The filling pass over a table that does not change writes the nodes of its slots. -/
private theorem getAllUsers_eq (t : Table) (userNode : Nat) (slots : List (Fin maxEvents))
    (cnt : Nat) (buf : List UInt8) : t.getAllUsers userNode slots cnt buf =
      writeUserNodes userNode (slots.filterMap t.getAllUsersNode) cnt buf := by
  induction slots generalizing cnt buf with
  | nil => rfl
  | cons i slots ih =>
    cases hn : t.getAllUsersNode i with
    | none =>
      rw [List.filterMap_cons_none hn, ← ih]
      simp only [Table.getAllUsers, hn]
    | some n =>
      rw [List.filterMap_cons_some hn]
      simp only [Table.getAllUsers, hn, writeUserNodes, ih]

/-- On a table that does not change CMD_GETALLUSER sends the bytes of the reply that lists
    its slots. -/
theorem responsGetAllUser_eq {t : Table} {garbage bs : List UInt8}
    (h : t.responsGetAllUser (malloc t.getAllUserLen garbage) = some bs) :
    bs = (Reply.getAllUserAck t.getAllUsersCount
      ((List.finRange maxEvents).filterMap t.getAllUsersNode)).bytes garbage := by
  simp only [Table.responsGetAllUser, getAllUsers_eq, Option.bind_eq_bind,
    Option.bind_eq_some_iff] at h
  obtain ⟨b1, h1, b2, h2, b3, h3, b4, h4, h⟩ := h
  have hlen : b4.length = t.getAllUserLen := by
    rw [Memory.length_write h4, writeUserNodes_length h3, Memory.length_write h2,
      Memory.length_write h1, malloc, CharArray.size_eq]
  have hack : writeGetAllUserAck t.getAllUsersCount
      ((List.finRange maxEvents).filterMap t.getAllUsersNode)
      (malloc t.getAllUserLen garbage) = some b4 := by
    simp only [writeGetAllUserAck, h1, h2, h3, Option.bind_eq_bind, Option.bind_some]
    exact h4
  have hsize : (Reply.getAllUserAck t.getAllUsersCount
      ((List.finRange maxEvents).filterMap t.getAllUsersNode)).iMessageLen = t.getAllUserLen := rfl
  rw [← Option.some.inj h, Memory.read, List.drop_zero]
  simp only [Reply.bytes, hsize, hack, Option.getD_some]
  exact List.take_of_length_le (Nat.le_of_eq hlen)

end JQServer
