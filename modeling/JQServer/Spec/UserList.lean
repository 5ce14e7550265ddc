import JQServer.Native.GetAllUser

/-!
# The user list round trip

CMD_GETALLUSER sizes its allocation without the 4 bytes of padding before `node`, so
the last node reaches 4 bytes beyond it; it is saved by the 7 bytes of padding at the
end of a node, which nobody writes or reads. `getAllUser_round_trip` shows this for
every table whose strings end within their fields, and that the client reads back the
occupied slots in order.
-/

namespace JQServer

/-- The integers of a slot fit their C types, and its strings end within their fields. -/
structure EpollConnect.WellFormed (c : EpollConnect) : Prop where
  now : -0x8000000000000000 ≤ c.now ∧ c.now < 0x8000000000000000
  clientPort : -0x80000000 ≤ c.clientPort ∧ c.clientPort < 0x80000000
  clientIpAddr : 0 ∈ c.clientIpAddr.bytes
  usrhashId : 0 ∈ c.usrhashId.bytes
  passwd : 0 ∈ c.passwd.bytes

/-- The integers of a node fit their C types, and its strings fit their fields with a
    NUL behind them. -/
structure JQUserNode.Fits (n : JQUserNode) : Prop where
  now : -0x8000000000000000 ≤ n.now ∧ n.now < 0x8000000000000000
  clientPort : -0x80000000 ≤ n.clientPort ∧ n.clientPort < 0x80000000
  clientIpAddr : 0 ∉ n.clientIpAddr ∧ n.clientIpAddr.length < ipAddrLength
  usrhashId : 0 ∉ n.usrhashId ∧ n.usrhashId.length < 10
  passwd : 0 ∉ n.passwd ∧ n.passwd.length < 7

/-- The node that shows a slot. -/
def EpollConnect.node (c : EpollConnect) : JQUserNode where
  now := c.now
  clientIpAddr := c.clientIpAddr.str
  clientPort := c.clientPort
  usrhashId := c.usrhashId.str
  passwd := c.passwd.str

/-- A string that ends within its field is shorter than it. -/
theorem CharArray.length_str_lt {n : Nat} {a : CharArray n} (h : 0 ∈ a.bytes) :
    a.str.length < n :=
  (CString.length_str_lt h).trans_eq a.size_eq

/-- The node of a well-formed slot fits. -/
theorem EpollConnect.WellFormed.fits {c : EpollConnect} (h : c.WellFormed) : c.node.Fits where
  now := h.now
  clientPort := h.clientPort
  clientIpAddr := ⟨CString.zero_notMem_str _, CharArray.length_str_lt h.clientIpAddr⟩
  usrhashId := ⟨CString.zero_notMem_str _, CharArray.length_str_lt h.usrhashId⟩
  passwd := ⟨CString.zero_notMem_str _, CharArray.length_str_lt h.passwd⟩

namespace Table

variable {t : Table}

/-- What `get_all_users` writes for a well-formed slot that is occupied. -/
theorem getAllUsersNode_eq {i : Fin maxEvents} (hwf : t.Occupied i → (t i).WellFormed) :
    t.getAllUsersNode i = if t.Occupied i then some (t i).node else none := by
  unfold getAllUsersNode
  by_cases hocc : t.Occupied i
  · have hid : (t i).usrhashIdStr = (t i).usrhashId.str :=
      CString.str_append_of_mem (hwf hocc).usrhashId _
    refine (if_pos hocc).trans ?_
    rw [if_pos hocc, hid]
    rfl
  · refine (if_neg hocc).trans ?_
    rw [if_neg hocc]

/-- The nodes of the occupied slots, in order. -/
def nodes (t : Table) : List JQUserNode :=
  ((List.finRange maxEvents).filter fun i => t.Occupied i).map fun i => (t i).node

/-- The counting pass counts them. -/
theorem length_nodes (t : Table) : t.nodes.length = t.getAllUsersCount := by
  rw [nodes, List.length_map, getAllUsersCount, ← List.toFinset_card_of_nodup]
  · refine congrArg Finset.card (Finset.ext fun i => ?_)
    simp only [List.mem_toFinset, List.mem_filter, List.mem_finRange, true_and, Finset.mem_filter,
      Finset.mem_univ]
    exact decide_eq_true_iff
  · exact (List.nodup_finRange _).filter _

end Table

/-- The bytes of a node are in the memory at address `node`. -/
structure NodeAt (buf : List UInt8) (node : Nat) (n : JQUserNode) : Prop where
  now : Memory.read buf node 8 = toLEInt 8 n.now
  clientIpAddr : Memory.read buf (node + 8) (n.clientIpAddr.length + 1) = n.clientIpAddr ++ [0]
  clientPort : Memory.read buf (node + 28) 4 = toLEInt 4 n.clientPort
  usrhashId : Memory.read buf (node + 32) (n.usrhashId.length + 1) = n.usrhashId ++ [0]
  passwd : Memory.read buf (node + 42) (n.passwd.length + 1) = n.passwd ++ [0]

section

variable {buf buf' : List UInt8} {n : JQUserNode} {node : Nat}

/-- A node is read back as it was. -/
theorem NodeAt.recv (h : NodeAt buf node n) (hn : n.Fits) : recvUserNode buf node = n := by
  have hnow : leInt (toLEInt 8 n.now) = n.now :=
    leInt_toLEInt (Int.le_trans (by decide) hn.now.1) (Int.lt_of_lt_of_le hn.now.2 (by decide))
  have hport : leInt (toLEInt 4 n.clientPort) = n.clientPort :=
    leInt_toLEInt (Int.le_trans (by decide) hn.clientPort.1)
      (Int.lt_of_lt_of_le hn.clientPort.2 (by decide))
  rw [recvUserNode, h.now, hnow, h.clientPort, hport,
    Memory.str_read h.clientIpAddr hn.clientIpAddr.1 hn.clientIpAddr.2,
    Memory.str_read h.usrhashId hn.usrhashId.1 hn.usrhashId.2,
    Memory.str_read h.passwd hn.passwd.1 hn.passwd.2]

/-- A node stays where it is while its 49 bytes are left alone. -/
theorem NodeAt.congr (h : NodeAt buf node n) (hn : n.Fits)
    (hread : ∀ off k, node ≤ off → off + k ≤ node + 49 →
      Memory.read buf' off k = Memory.read buf off k) : NodeAt buf' node n := by
  have hip := hn.clientIpAddr.2
  have hid := hn.usrhashId.2
  have hpw := hn.passwd.2
  have h20 : ipAddrLength = 20 := rfl
  exact ⟨(hread _ _ (by omega) (by omega)).trans h.now,
    (hread _ _ (by omega) (by omega)).trans h.clientIpAddr,
    (hread _ _ (by omega) (by omega)).trans h.clientPort,
    (hread _ _ (by omega) (by omega)).trans h.usrhashId,
    (hread _ _ (by omega) (by omega)).trans h.passwd⟩

/-- The writes of `get_all_users` for one node stay before the end of its longest string. The
    password is there in any case, the whole node if it fits. -/
theorem exists_writeUserNode_within (buf : List UInt8) (node e : Nat)
    (hip : 8 + n.clientIpAddr.length + 1 ≤ e) (hid : 32 + n.usrhashId.length + 1 ≤ e)
    (hpw : 42 + n.passwd.length + 1 ≤ e) (hlen : node + e ≤ buf.length) :
    ∃ buf', writeUserNode node n buf = some buf' ∧ buf'.length = buf.length ∧
      Memory.read buf' (node + 42) (n.passwd.length + 1) = n.passwd ++ [0] ∧
      (n.Fits → NodeAt buf' node n) ∧
      ∀ off k, off + k ≤ node ∨ node + e ≤ off →
        Memory.read buf' off k = Memory.read buf off k := by
  have h8 : (toLEInt 8 n.now).length = 8 := toLEInt_length 8 _
  have h4 : (toLEInt 4 n.clientPort).length = 4 := toLEInt_length 4 _
  have hstr : ∀ x : List UInt8, (x ++ [0]).length = x.length + 1 := fun x => by
    rw [List.length_append, List.length_singleton]
  -- The five writes, in the order of the source
  obtain ⟨b1, w1, l1, r1, f1⟩ := Memory.exists_write_read buf node
    (toLEInt 8 n.now) (by omega)
  obtain ⟨b2, w2, l2, r2, f2⟩ := Memory.exists_write_read b1 (node + 8)
    (n.clientIpAddr ++ [0]) (by rw [hstr]; omega)
  obtain ⟨b3, w3, l3, r3, f3⟩ := Memory.exists_write_read b2 (node + 28)
    (toLEInt 4 n.clientPort) (by omega)
  obtain ⟨b4, w4, l4, r4, f4⟩ := Memory.exists_write_read b3 (node + 32)
    (n.usrhashId ++ [0]) (by rw [hstr]; omega)
  obtain ⟨b5, w5, l5, r5, f5⟩ := Memory.exists_write_read b4 (node + 42)
    (n.passwd ++ [0]) (by rw [hstr]; omega)
  rw [h8] at r1 f1
  rw [h4] at r3 f3
  rw [hstr] at r2 f2 r4 f4 r5 f5
  refine ⟨b5, ?_, by omega, r5, fun hn => ?_, fun off k hd => ?_⟩
  · simp only [writeUserNode, w1, w2, w3, w4, w5, Option.bind_eq_bind, Option.bind_some]
  · -- Each field is left alone by the writes that follow it
    have hip' := hn.clientIpAddr.2
    have hid' := hn.usrhashId.2
    have h20 : ipAddrLength = 20 := rfl
    exact {
      now := by
        rw [f5 _ _ (by omega), f4 _ _ (by omega), f3 _ _ (by omega), f2 _ _ (by omega), r1]
      clientIpAddr := by
        rw [f5 _ _ (by omega), f4 _ _ (by omega), f3 _ _ (by omega), r2]
      clientPort := by
        rw [f5 _ _ (by omega), f4 _ _ (by omega), r3]
      usrhashId := by
        rw [f5 _ _ (by omega), r4]
      passwd := r5 }
  · rw [f5 _ _ (by omega), f4 _ _ (by omega), f3 _ _ (by omega), f2 _ _ (by omega),
      f1 _ _ (by omega)]

/-- The writes for a node that fits stay within its 49 bytes, and put it there. -/
theorem exists_writeUserNode (buf : List UInt8) (node : Nat) (hn : n.Fits)
    (hlen : node + 49 ≤ buf.length) :
    ∃ buf', writeUserNode node n buf = some buf' ∧ buf'.length = buf.length ∧
      NodeAt buf' node n ∧
      ∀ off k, off + k ≤ node ∨ node + 49 ≤ off →
        Memory.read buf' off k = Memory.read buf off k := by
  have hip := hn.clientIpAddr.2
  have hid := hn.usrhashId.2
  have hpw := hn.passwd.2
  have h20 : ipAddrLength = 20 := rfl
  obtain ⟨buf', hwrite, hsize, -, hat, hframe⟩ := exists_writeUserNode_within (n := n) buf node 49
    (by omega) (by omega) (by omega) hlen
  exact ⟨buf', hwrite, hsize, hat hn, hframe⟩

/-- The filling pass, over slots whose nodes fit: it writes the nodes of the occupied ones
    one behind the other, and nothing else. -/
theorem exists_getAllUsers {t : Table} (buf : List UInt8)
    (hwf : ∀ i, t.Occupied i → (t i).WellFormed)
    (userNode : Nat) (is : List (Fin maxEvents)) (cnt : Nat)
    (hlen : userNode + sizeofJQUserNode * (cnt + (is.filter fun i => t.Occupied i).length) ≤
      buf.length + 7) :
    ∃ buf', t.getAllUsers userNode is cnt buf = some buf' ∧ buf'.length = buf.length ∧
      (∀ off k, off + k ≤ userNode + sizeofJQUserNode * cnt →
        Memory.read buf' off k = Memory.read buf off k) ∧
      ∀ j (hj : j < (is.filter fun i => t.Occupied i).length),
        NodeAt buf' (userNode + sizeofJQUserNode * (cnt + j))
          (t (is.filter fun i => t.Occupied i)[j]).node := by
  induction is generalizing cnt buf with
  -- No slot is left
  | nil => exact ⟨buf, rfl, rfl, fun _ _ _ => rfl, fun j hj => absurd hj (Nat.not_lt_zero j)⟩
  | cons i is ih =>
    by_cases hocc : t.Occupied i
    · -- An occupied slot takes a place behind those written
      have hfilter : (i :: is).filter (fun i => t.Occupied i) =
          i :: is.filter fun i => t.Occupied i := List.filter_cons_of_pos (by simpa using hocc)
      rw [hfilter] at hlen ⊢
      rw [List.length_cons] at hlen
      simp only [sizeofJQUserNode] at hlen
      obtain ⟨b1, w1, l1, n1, f1⟩ := exists_writeUserNode buf
        (userNode + sizeofJQUserNode * cnt) (hwf i hocc).fits
        (by simp only [sizeofJQUserNode]; omega)
      obtain ⟨b2, w2, l2, f2, n2⟩ := ih b1 (cnt + 1)
        (by simp only [sizeofJQUserNode]; omega)
      refine ⟨b2, ?_, by omega, fun off k hle => ?_, fun j hj => ?_⟩
      · simp only [Table.getAllUsers, Table.getAllUsersNode_eq (hwf i), if_pos hocc, w1,
          Option.bind_eq_bind, Option.bind_some, w2]
      · rw [f2 off k (by simp only [sizeofJQUserNode] at hle ⊢; omega), f1 off k (.inl hle)]
      · cases j with
        -- The first node stays: the rest of the pass writes behind it
        | zero =>
          refine n1.congr (hwf i hocc).fits fun off k _ hhi => f2 off k ?_
          simp only [sizeofJQUserNode] at hhi ⊢
          omega
        | succ j =>
          have := n2 j (Nat.lt_of_succ_lt_succ hj)
          rwa [Nat.add_right_comm, Nat.add_assoc] at this
    · -- A free slot is passed over
      have hfilter : (i :: is).filter (fun i => t.Occupied i) =
          is.filter fun i => t.Occupied i := List.filter_cons_of_neg (by simpa using hocc)
      rw [hfilter] at hlen ⊢
      obtain ⟨b2, w2, l2, f2, n2⟩ := ih _ cnt hlen
      refine ⟨b2, ?_, l2, f2, n2⟩
      simp only [Table.getAllUsers, Table.getAllUsersNode_eq (hwf i), if_neg hocc, w2]

/-- For every table whose strings end within their fields, and whatever the allocation of
    `getAllUserLen` bytes holds at first: every write of CMD_GETALLUSER stays inside, the
    message length says how many bytes are sent, and the client reads the occupied slots,
    in order. -/
theorem getAllUser_round_trip (t : Table) (sendBuf : List UInt8)
    (hwf : ∀ i, t.Occupied i → (t i).WellFormed) (hsize : sendBuf.length = t.getAllUserLen) :
    ∃ bs, t.responsGetAllUser sendBuf = some bs ∧ bs.length = t.getAllUserLen ∧
      leInt (Memory.read bs 0 4) = cmdGetAllUserAck ∧
      leInt (Memory.read bs 4 4) = bs.length ∧ recvGetAllUserAck bs = t.nodes := by
  -- The count fits in an `int`
  have hcnt : (t.getAllUsersCount : Nat) ≤ maxEvents :=
    (Finset.card_le_univ _).trans_eq (Fintype.card_fin _)
  have hcount : ((List.finRange maxEvents).filter fun i => t.Occupied i).length =
      t.getAllUsersCount := by
    rw [← t.length_nodes, Table.nodes, List.length_map]
  have hmax : maxEvents = 10240 := rfl
  have h4 : ∀ x : Int, (toLEInt 4 x).length = 4 := toLEInt_length 4
  simp only [Table.getAllUserLen, sizeofStJQMessage, sizeofJQUserNode] at hsize
  -- The type, the count, the nodes and then the message length are written
  obtain ⟨b1, w1, l1, r1, f1⟩ := Memory.exists_write_read sendBuf 0
    (toLEInt 4 cmdGetAllUserAck) (by rw [h4]; omega)
  obtain ⟨b2, w2, l2, r2, f2⟩ := Memory.exists_write_read b1 sizeofStJQMessage
    (toLEInt 4 t.getAllUsersCount) (by rw [h4, sizeofStJQMessage]; omega)
  obtain ⟨b3, w3, l3, f3, n3⟩ := exists_getAllUsers b2 hwf
    (sizeofStJQMessage + offsetofNode) (List.finRange maxEvents) 0 (by
      rw [hcount, sizeofStJQMessage, offsetofNode, sizeofJQUserNode]; omega)
  obtain ⟨b4, w4, l4, r4, f4⟩ := Memory.exists_write_read b3 4
    (toLEInt 4 ((sizeofStJQMessage + 4 + sizeofJQUserNode * t.getAllUsersCount : Nat) : Int))
    (by rw [h4]; omega)
  rw [h4] at r1 f1 r2 f2 r4 f4
  simp only [sizeofStJQMessage, offsetofNode, sizeofJQUserNode, Nat.mul_zero, Nat.add_zero,
    Nat.zero_add] at w2 r2 f2 w3 f3 n3 w4 r4
  -- What is sent is the whole buffer
  have hall : Memory.read b4 0 (8 + 4 + 56 * t.getAllUsersCount) = b4 := by
    rw [Memory.read, List.drop_zero, List.take_of_length_le (by omega)]
  have hb4 : b4.length = t.getAllUserLen := by
    rw [Table.getAllUserLen, sizeofStJQMessage, sizeofJQUserNode]
    omega
  refine ⟨b4, ?_, hb4, ?_, ?_, ?_⟩
  · simp only [Table.responsGetAllUser, sizeofStJQMessage, offsetofNode, sizeofJQUserNode,
      Option.bind_eq_bind, w1, Option.bind_some, w2, w3, w4, hall]
  · -- Command type: no later write touches it
    rw [f4 0 4 (.inl (by omega)), f3 0 4 (by omega), f2 0 4 (.inl (by omega)), r1]
    exact leInt_toLEInt_natCast (by decide)
  · -- The message length is the size of the allocation
    rw [r4, leInt_toLEInt_natCast (by omega)]
    omega
  · -- The client reads the count, and then as many nodes
    have hread : leInt (Memory.read b4 8 4) = t.getAllUsersCount := by
      rw [f4 8 4 (.inr (by omega)), f3 8 4 (by omega), r2]
      exact leInt_toLEInt_natCast (by omega)
    simp only [recvGetAllUserAck, sizeofStJQMessage, hread, Int.toNat_natCast]
    refine List.ext_getElem (by rw [List.length_map, List.length_range, t.length_nodes])
      fun j hj hj' => ?_
    rw [List.length_map, List.length_range] at hj
    have hj : j < ((List.finRange maxEvents).filter fun i => t.Occupied i).length :=
      hcount.symm ▸ hj
    have hjn := hwf _ (of_decide_eq_true (List.mem_filter.mp (List.getElem_mem hj)).2)
    -- The message length is written before the nodes
    have hat : NodeAt b4 _ _ := (n3 j hj).congr hjn.fits
      fun off k hlo _ => f4 off k (.inr (by omega))
    simp only [List.getElem_map, List.getElem_range, Table.nodes, offsetofNode, sizeofJQUserNode]
    exact hat.recv hjn.fits

/-- A table with one user, who is logged in as "ab". -/
def oneUserTable : Table := Function.update initEpollConnect 0 {
  connectFd := 5
  socketStatus := 1
  now := 100
  clientIpAddr := .ofBytes _ (CString.ascii "10.0.0.1")
  clientPort := 4000
  usrhashId := .ofBytes _ (CString.ascii "ab")
  passwd := .ofBytes _ (CString.ascii "pw") }

/-- Only slot 0 of it is occupied. -/
theorem oneUserTable_occupied (i : Fin maxEvents) : oneUserTable.Occupied i ↔ i = 0 := by
  constructor
  · intro hocc
    by_contra hi
    refine hocc ?_
    rw [oneUserTable, Function.update_of_ne hi]
    rfl
  · rintro rfl
    simp [Table.Occupied, oneUserTable]

/-- Its only node. -/
theorem nodes_oneUserTable : oneUserTable.nodes = [(oneUserTable 0).node] := by
  have hfilter : (List.finRange maxEvents).filter (fun i => oneUserTable.Occupied i) = [0] := by
    rw [List.finRange_succ, List.filter_cons_of_pos (by
      exact decide_eq_true ((oneUserTable_occupied 0).mpr rfl))]
    refine congrArg (0 :: ·) (List.filter_eq_nil_iff.mpr fun i hi hocc => ?_)
    obtain ⟨j, -, rfl⟩ := List.mem_map.mp hi
    exact Fin.succ_ne_zero j ((oneUserTable_occupied _).mp (of_decide_eq_true hocc))
  rw [Table.nodes, hfilter, List.map_singleton]

/-- The user list of one user, in 68 bytes of memory that hold 0xff at first. -/
theorem getAllUser_round_trip_one :
    ∃ bs, oneUserTable.responsGetAllUser (List.replicate 68 0xff) = some bs ∧ bs.length = 68 ∧
      recvGetAllUserAck bs = [{
        now := 100
        clientIpAddr := CString.ascii "10.0.0.1"
        clientPort := 4000
        usrhashId := CString.ascii "ab"
        passwd := CString.ascii "pw" }] := by
  have hlen : oneUserTable.getAllUserLen = 68 := by
    rw [Table.getAllUserLen, ← Table.length_nodes, nodes_oneUserTable]
    rfl
  obtain ⟨bs, hbs, hl, -, -, hrecv⟩ := getAllUser_round_trip oneUserTable
    (List.replicate 68 0xff) (fun i hi => by
      obtain rfl := (oneUserTable_occupied i).mp hi
      exact ⟨by decide, by decide, by decide, by decide, by decide⟩) (by
      rw [hlen, List.length_replicate])
  refine ⟨bs, hbs, hl.trans hlen, hrecv.trans ?_⟩
  rw [nodes_oneUserTable]
  decide

end

end JQServer
