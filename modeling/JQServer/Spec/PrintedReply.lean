import JQServer.Spec.RecvReply

/-!
# What the client prints

`decode` reads from the start of the buffer, and more bytes behind do not change what it has
read (`decode_of_isPrefix`). On a whole reply it gives back what the server has put in
(`decode_bytes`). So however TCP cuts a reply, if `recv_func` receives it safely, the first
thing that it prints is the text or the user list of the server (`first_printed`); and it prints
once more for every further piece.
-/

namespace JQServer

open RecvFunc

/-- What the server says: the text of the reply, or the users in the occupied slots. -/
def ServerReply.printed : ServerReply → Printed
  | handshakeAck t matchedEventIndex => .handshakeAck (responsHandshake t matchedEventIndex).str
  | getRemoteAck t grMsg => .getRemoteAck (responsGetRemote t grMsg).info.str
  | getAllUserAck t _ => .userList t.nodes

/-- The slots that a user list shows are well-formed. -/
def ServerReply.WellFormed : ServerReply → Prop
  | handshakeAck .. | getRemoteAck .. => True
  | getAllUserAck t _ => ∀ i, t.Occupied i → (t i).WellFormed

variable {f m : List UInt8} {off : Nat}

/-! ### More bytes behind -/

theorem readBytes_of_isPrefix (hf : f <+: m) {k : Nat} {bs : List UInt8}
    (h : readBytes f off k = some bs) : readBytes m off k = some bs := by
  obtain ⟨hle, hbs⟩ := Option.ite_none_right_eq_some.mp h
  rw [readBytes, if_pos (Nat.le_trans hle hf.length_le), ← read_of_isPrefix hf hle]
  exact hbs

theorem readInt_of_isPrefix (hf : f <+: m) {x : Int} (h : readInt f off = some x) :
    readInt m off = some x := by
  obtain ⟨bs, hbs, rfl⟩ := Option.map_eq_some_iff.mp h
  rw [readInt, readBytes_of_isPrefix hf hbs, Option.map_some]

/-- A string ends at its first NUL. -/
theorem readStr_of_isPrefix (hf : f <+: m) {s : List UInt8} (h : readStr f off = some s) :
    readStr m off = some s := by
  obtain ⟨hmem, hs⟩ := Option.ite_none_right_eq_some.mp h
  obtain ⟨rest, rfl⟩ := hf
  have hle : off ≤ f.length := by
    by_contra hlt
    rw [List.drop_of_length_le (by omega)] at hmem
    cases hmem
  rw [readStr, List.drop_append_of_le_length hle, if_pos (List.mem_append_left rest hmem),
    CString.str_append_of_mem hmem]
  exact hs

theorem readNode_of_isPrefix (hf : f <+: m) {node : Nat} {n : JQUserNode}
    (h : readNode f node = some n) : readNode m node = some n := by
  simp only [readNode, Option.bind_eq_bind, Option.bind_eq_some_iff] at h
  obtain ⟨usrhashId, hid, passwd, hpw, ip, hip, port, hport, now, hnow, hn⟩ := h
  simp only [readNode, readStr_of_isPrefix hf hid, readStr_of_isPrefix hf hpw,
    readStr_of_isPrefix hf hip, readInt_of_isPrefix hf hport, readBytes_of_isPrefix hf hnow,
    Option.bind_eq_bind, Option.bind_some, hn]

/-- A loop that succeeds has the same results in a loop that has them for each element. -/
theorem mapM_of_forall {α β : Type} {g g' : α → Option β} {l : List α} {bs : List β}
    (hg : ∀ a b, g a = some b → g' a = some b) (h : l.mapM g = some bs) :
    l.mapM g' = some bs := by
  induction l generalizing bs with
  | nil => exact h
  | cons a l ih =>
    simp only [List.mapM_cons, Option.bind_eq_bind, Option.bind_eq_some_iff] at h ⊢
    obtain ⟨b, hb, bs', hbs, h⟩ := h
    exact ⟨b, hg a b hb, bs', ih hbs, h⟩

theorem readUserList_of_isPrefix (hf : f <+: m) {node : List JQUserNode}
    (h : readUserList f = some node) : readUserList m = some node := by
  obtain ⟨cnt, hcnt, h⟩ := Option.bind_eq_some_iff.mp h
  rw [readUserList, readInt_of_isPrefix hf hcnt]
  exact mapM_of_forall (fun i n hn => readNode_of_isPrefix hf hn) h

/-- What is decoded from the first bytes of a message is decoded from all of it. -/
theorem decode_of_isPrefix (hf : f <+: m) {p : Printed} (h : decode f = some p) :
    decode m = some p := by
  obtain ⟨iMessageType, htype, h⟩ := Option.bind_eq_some_iff.mp h
  rw [decode, readInt_of_isPrefix hf htype, Option.bind_eq_bind, Option.bind_some]
  -- The piece holds the type, so both take the same branch
  split
  · rename_i hack
    rw [if_pos hack] at h
    obtain ⟨s, hs, rfl⟩ := Option.map_eq_some_iff.mp h
    rw [readStr_of_isPrefix hf hs, Option.map_some]
  · rename_i hack
    rw [if_neg hack] at h
    split
    · rename_i hremote
      rw [if_pos hremote] at h
      obtain ⟨s, hs, rfl⟩ := Option.map_eq_some_iff.mp h
      rw [readStr_of_isPrefix hf hs, Option.map_some]
    · rename_i hremote
      rw [if_neg hremote] at h
      split
      · rename_i hlist
        rw [if_pos hlist] at h
        obtain ⟨node, hnode, rfl⟩ := Option.map_eq_some_iff.mp h
        rw [readUserList_of_isPrefix hf hnode, Option.map_some]
      · rename_i hlist
        rw [if_neg hlist] at h
        obtain ⟨s, hs, rfl⟩ := Option.map_eq_some_iff.mp h
        rw [readStr_of_isPrefix hf hs, Option.map_some]

/-! ### A whole reply -/

/-- A string that was stored with its NUL is read. -/
theorem readStr_of_read {s : List UInt8} (h : Memory.read m off (s.length + 1) = s ++ [0])
    (hs : 0 ∉ s) : readStr m off = some s := by
  have hdrop : m.drop off = s ++ 0 :: (m.drop off).drop (s.length + 1) := by
    have hsplit := List.take_append_drop (s.length + 1) (m.drop off)
    rw [show (m.drop off).take (s.length + 1) = s ++ [0] from h, List.append_assoc] at hsplit
    exact hsplit.symm
  have hmem : 0 ∈ m.drop off := by
    rw [hdrop]
    exact List.mem_append_right _ List.mem_cons_self
  rw [readStr, if_pos hmem, hdrop, CString.str_append_zero hs]

/-- The client reads a node that fits. -/
theorem readNode_of_nodeAt {node : Nat} {n : JQUserNode} (hlen : node + 49 ≤ m.length)
    (h : NodeAt m node n) (hn : n.Fits) : readNode m node = some n := by
  have hport := readInt_of_le (show node + 28 + 4 ≤ m.length by omega)
  have hnow : readBytes m node 8 = some (Memory.read m node 8) := if_pos (by omega)
  -- The numbers are those that the client reads in the fields
  have hrecv := h.recv hn
  have hclientPort : leInt (Memory.read m (node + 28) 4) = n.clientPort :=
    congrArg JQUserNode.clientPort hrecv
  have hnow' : leInt (Memory.read m node 8) = n.now := congrArg JQUserNode.now hrecv
  simp only [readNode, readStr_of_read h.usrhashId hn.usrhashId.1,
    readStr_of_read h.passwd hn.passwd.1, readStr_of_read h.clientIpAddr hn.clientIpAddr.1,
    hport, hnow, hclientPort, hnow', Option.bind_eq_bind, Option.bind_some]

/-- A loop over indices that finds the elements of a list. -/
theorem mapM_range {β : Type} {g : Nat → Option β} {bs : List β}
    (hg : ∀ j b, bs[j]? = some b → g j = some b) : (List.range bs.length).mapM g = some bs := by
  induction bs generalizing g with
  | nil => rfl
  | cons b bs ih =>
    have hrest : (List.range bs.length).mapM (fun j => g (j + 1)) = some bs :=
      ih fun j b' hj => hg (j + 1) b' hj
    rw [List.length_cons, List.range_succ_eq_map, List.mapM_cons, hg 0 b rfl, List.mapM_map]
    simp only [Function.comp_def, Nat.succ_eq_add_one, hrest, Option.bind_eq_bind,
      Option.bind_some]
    rfl

/-- The nodes in the user list of the server. -/
theorem nodeAt_getAllUserAck (t : Table) (garbage : List UInt8)
    (hwf : ∀ i, t.Occupied i → (t i).WellFormed) {j : Nat} {n : JQUserNode}
    (hj : t.nodes[j]? = some n) :
    NodeAt (ServerReply.getAllUserAck t garbage).bytes (16 + 56 * j) n ∧ n.Fits := by
  have hmax : t.getAllUsersCount ≤ maxEvents :=
    (Finset.card_le_univ _).trans_eq (Fintype.card_fin _)
  have hcount : ((List.finRange maxEvents).filter fun i => t.Occupied i).length =
      t.getAllUsersCount := by
    rw [← t.length_nodes, Table.nodes, List.length_map]
  have h4 : ∀ x : Int, (toLEInt 4 x).length = 4 := toLEInt_length 4
  let sendBuf := malloc t.getAllUserLen garbage
  have hsize : sendBuf.length = 12 + 56 * t.getAllUsersCount := CharArray.size_eq _
  -- The type, the count, the nodes and then the message length are written
  obtain ⟨b1, w1, l1, -⟩ := Memory.exists_write_read sendBuf 0 (toLEInt 4 cmdGetAllUserAck)
    (by rw [h4]; omega)
  obtain ⟨b2, w2, l2, -⟩ := Memory.exists_write_read b1 sizeofStJQMessage
    (toLEInt 4 t.getAllUsersCount) (by rw [h4, sizeofStJQMessage]; omega)
  obtain ⟨b3, w3, l3, -, n3⟩ := exists_getAllUsers b2 hwf (sizeofStJQMessage + offsetofNode)
    (List.finRange maxEvents) 0 (by
      rw [hcount, sizeofStJQMessage, offsetofNode, sizeofJQUserNode]
      omega)
  obtain ⟨b4, w4, l4, -, f4⟩ := Memory.exists_write_read b3 4
    (toLEInt 4 ((sizeofStJQMessage + 4 + sizeofJQUserNode * t.getAllUsersCount : Nat) : Int))
    (by rw [h4]; omega)
  have hbytes : (ServerReply.getAllUserAck t garbage).bytes = b4 := by
    have hsend : t.responsGetAllUser sendBuf = some (Memory.read b4 0
        (sizeofStJQMessage + 4 + sizeofJQUserNode * t.getAllUsersCount)) := by
      simp only [Table.responsGetAllUser, w1, w2, w3, w4, Option.bind_eq_bind, Option.bind_some]
    have hall : Memory.read b4 0 (sizeofStJQMessage + 4 + sizeofJQUserNode * t.getAllUsersCount) =
        b4 := by
      apply List.take_of_length_le
      rw [List.drop_zero, sizeofStJQMessage, sizeofJQUserNode]
      omega
    rw [hall] at hsend
    exact (responsGetAllUser_eq hsend).symm
  rw [Table.nodes, List.getElem?_map] at hj
  obtain ⟨i, hi, rfl⟩ := Option.map_eq_some_iff.mp hj
  obtain ⟨hj', hget⟩ := List.getElem?_eq_some_iff.mp hi
  have hslot := hwf i (of_decide_eq_true (List.mem_filter.mp (List.mem_of_getElem? hi)).2)
  have hat := n3 j hj'
  rw [hget, Nat.zero_add] at hat
  rw [hbytes]
  -- The message length is written before the nodes
  refine ⟨hat.congr hslot.fits fun off k hlo _ => f4 off k (.inr ?_), hslot.fits⟩
  rw [h4]
  rw [sizeofStJQMessage, offsetofNode] at hlo
  omega

/-- The client decodes a list of users. -/
theorem UserReply.decode_eq {cnt : Nat} {passwdLen : Nat → Nat} {nodes : List JQUserNode}
    (h : UserReply m cnt passwdLen) (hlen : nodes.length = cnt)
    (hnode : ∀ j n, nodes[j]? = some n → NodeAt m (16 + 56 * j) n ∧ n.Fits) :
    decode m = some (.userList nodes) := by
  have hm := h.length
  -- The nodes stand behind the header and the count, 56 bytes each
  have hread : ∀ j n, nodes[j]? = some n → readNode m (16 + 56 * j) = some n := by
    intro j n hj
    obtain ⟨hat, hfits⟩ := hnode j n hj
    have hlt := (List.getElem?_eq_some_iff.mp hj).1
    exact readNode_of_nodeAt (by omega) hat hfits
  have hnodes := mapM_range hread
  have hlist : readUserList m = some nodes := by
    have hcnt := readInt_of_le (show 8 + 4 ≤ m.length by omega)
    rw [h.count, ← hlen] at hcnt
    rw [readUserList, sizeofStJQMessage, hcnt]
    exact hnodes
  have htype := readInt_of_le (show 0 + 4 ≤ m.length by omega)
  rw [h.type] at htype
  rw [decode, htype, Option.bind_eq_bind, Option.bind_some, if_neg (by decide), if_neg (by decide),
    if_pos rfl, hlist]
  rfl

/-- The client decodes a text of the server. -/
theorem TextReply.decode_eq {len : Nat} (h : TextReply m off len) :
    decode m = some (if off = 8 then .handshakeAck (CString.str (m.drop 8))
      else .getRemoteAck (CString.str (m.drop 20))) := by
  have hmem : 0 ∈ m.drop off := by
    have hget : (m.drop off)[len]? = some 0 := by
      rw [List.getElem?_drop]
      exact h.text.nul
    exact List.mem_of_getElem? hget
  -- A text with an end in the message leaves room for the header
  have hlen : 8 ≤ m.length := by
    have hoff := h.le_off
    by_contra hlt
    rw [List.drop_of_length_le (by omega)] at hmem
    cases hmem
  have htype := readInt_of_le (show 0 + 4 ≤ m.length by omega)
  rw [decode, htype, Option.bind_eq_bind, Option.bind_some]
  rcases h.type with ⟨hack, rfl⟩ | ⟨hack, rfl⟩
  · rw [hack, if_pos rfl, if_pos rfl, readStr, sizeofStJQMessage, if_pos hmem]
    rfl
  · rw [hack, if_neg (by decide), if_pos rfl, if_neg (by decide), readStr, sizeofStJQMessage,
      if_pos hmem]
    rfl

/-- On a whole reply the client decodes what the server has put in. -/
theorem decode_bytes (reply : ServerReply) (hwf : reply.WellFormed) :
    decode reply.bytes = some reply.printed := by
  cases reply with
  | handshakeAck t matchedEventIndex =>
    rw [(handshakeAck_textReply t matchedEventIndex).decode_eq, if_pos rfl]
    have hdrop : (ServerReply.handshakeAck t matchedEventIndex).bytes.drop 8 =
        (responsHandshake t matchedEventIndex).bytes := by
      apply List.drop_left'
      rw [List.length_append, toLE_length, toLE_length]
    rw [hdrop]
    rfl
  | getRemoteAck t grMsg =>
    rw [(getRemoteAck_textReply t grMsg).decode_eq, if_neg (by decide)]
    have hdrop : (ServerReply.getRemoteAck t grMsg).bytes.drop 20 =
        (responsGetRemote t grMsg).info.bytes := by
      apply List.drop_left'
      simp only [List.length_append, toLE_length, toLEInt_length]
    rw [hdrop]
    rfl
  | getAllUserAck t garbage =>
    exact (getAllUserAck_userReply t garbage).decode_eq t.length_nodes
      fun j n hj => nodeAt_getAllUserAck t garbage hwf hj

/-! ### A reply in pieces -/

/-- The client prints once for each piece. -/
theorem recvFunc_length {pieces : List (List UInt8)} {recvBuf : List UInt8} {ps : List Printed}
    (h : recvFunc recvBuf pieces = some ps) : ps.length = pieces.length := by
  induction pieces generalizing recvBuf ps with
  | nil =>
    obtain rfl := Option.some.inj h
    rfl
  | cons piece pieces ih =>
    obtain ⟨-, h⟩ := Option.ite_none_right_eq_some.mp h
    simp only [Option.bind_eq_bind, Option.bind_eq_some_iff] at h
    obtain ⟨p, -, rest, hrest, h⟩ := h
    obtain rfl := Option.some.inj h
    rw [List.length_cons, List.length_cons, ih hrest]

/-- If `recv_func` receives a reply safely, in whatever pieces, it first prints what the server
    has put in, and then once more for every other piece. -/
theorem first_printed (reply : ServerReply) (hwf : reply.WellFormed) (d : Delivery reply.bytes)
    {ps : List Printed} (h : recvFunc [] (d.first :: d.rest) = some ps) :
    ∃ later, ps = reply.printed :: later ∧ later.length = d.rest.length := by
  have hlen := recvFunc_length h
  obtain ⟨-, h⟩ := Option.ite_none_right_eq_some.mp h
  simp only [Option.bind_eq_bind, Option.bind_eq_some_iff] at h
  obtain ⟨p, hp, later, -, h⟩ := h
  obtain rfl := Option.some.inj h
  -- The first piece is all that the client has by then
  rw [overlay_nil] at hp
  have hfirst := decode_of_isPrefix d.first_isPrefix hp
  rw [decode_bytes reply hwf] at hfirst
  obtain rfl := Option.some.inj hfirst
  exact ⟨later, rfl, Nat.succ.inj hlen⟩

/-- A HANDSHAKE_ACK whose last 8 bytes come in a piece of their own: the client prints the text,
    and then the zeros. -/
theorem first_printed_two : ∃ later,
    recvFunc [] [(ServerReply.handshakeAck oneUserTable (some 0)).bytes.take 256,
      List.replicate 8 0] =
        some (.handshakeAck (CString.ascii "addr:10.0.0.1 port:4000 ") :: later) ∧
      later.length = 1 := by
  let reply := ServerReply.handshakeAck oneUserTable (some 0)
  have hsplit : reply.bytes.take 256 ++ [List.replicate 8 0].flatten = reply.bytes := by
    decide +kernel
  let d : Delivery reply.bytes := {
    first := reply.bytes.take 256, rest := [List.replicate 8 0]
    flatten_eq := hsplit
    first_ne := by decide +kernel
    rest_ne := by decide
    first_le := List.length_take_le _ _ |>.trans (by decide)
    rest_le := by decide }
  have hsafe : (recvFunc [] [reply.bytes.take 256, List.replicate 8 0]).isSome = true := by
    decide +kernel
  obtain ⟨ps, hps⟩ := Option.isSome_iff_exists.mp hsafe
  obtain ⟨later, rfl, hlater⟩ := first_printed reply trivial d hps
  have htext : (responsHandshake oneUserTable (some 0)).str =
      CString.ascii "addr:10.0.0.1 port:4000 " := by
    decide +kernel
  refine ⟨later, ?_, hlater⟩
  rw [← htext]
  exact hps

end JQServer
