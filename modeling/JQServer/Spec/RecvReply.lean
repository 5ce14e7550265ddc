import JQServer.Native.RecvFunc
import JQServer.Spec.UserList

/-!
# When `recv_func` receives a reply safely

A piece of more than 256 bytes is stored behind `recvBuf`, and a piece is decoded before the
rest of the reply has come. So a reply is received safely exactly if no piece is too large and
the first one reaches as far as the decode of the reply reads. What comes later is decoded as
well: behind a text there are zeros only, but behind the last user of a GETALLUSER_ACK there
are up to 9 bytes that the server has not written, and they may look like another header.
-/

namespace JQServer

open RecvFunc

/-- The end of the last password of a user list, or of the count if there are no users. -/
def lastPasswdEnd (cnt : Nat) (node : List JQUserNode) : Nat :=
  match node.getLast? with
  | none => sizeofStJQMessage + 4
  | some n => sizeofStJQMessage + offsetofNode + sizeofJQUserNode * (cnt - 1) + 42 +
      n.passwd.length + 1

/-- How far the decode of the reply reads: to the end of the text, or of the last password. -/
def ServerReply.textEnd : ServerReply → Nat
  | handshakeAck t matchedEventIndex =>
    sizeofStJQMessage + (responsHandshake t matchedEventIndex).str.length + 1
  | getRemoteAck t grMsg => sizeofStJQMessage + 12 + (responsGetRemote t grMsg).info.str.length + 1
  | getAllUserAck t _ =>
    lastPasswdEnd t.getAllUsersCount ((List.finRange maxEvents).filterMap t.getAllUsersNode)

/-- The bytes behind the last user are not another GETALLUSER_ACK, with more users. -/
def ServerReply.CountKept (rest : List (List UInt8)) : ServerReply → Prop
  | handshakeAck .. | getRemoteAck .. => True
  | getAllUserAck t _ => ∀ piece ∈ rest, piece.length = 9 →
      leInt (Memory.read piece 0 4) = cmdGetAllUserAck →
      (CString.byteAt piece 8).toNat ≤ t.getAllUsersCount % 256

/-! ### Reads -/

variable {buf m f : List UInt8} {off len : Nat}

theorem readStr_isSome : (readStr buf off).isSome ↔ ∃ i, off ≤ i ∧ buf[i]? = some 0 := by
  unfold readStr
  split
  · rename_i hmem
    obtain ⟨i, hi⟩ := List.mem_iff_getElem?.mp hmem
    rw [List.getElem?_drop] at hi
    exact iff_of_true rfl ⟨off + i, Nat.le_add_right _ _, hi⟩
  · rename_i hmem
    refine iff_of_false nofun ?_
    rintro ⟨i, hle, hi⟩
    obtain ⟨k, rfl⟩ := Nat.exists_eq_add_of_le hle
    exact hmem (List.mem_iff_getElem?.mpr ⟨k, by rwa [List.getElem?_drop]⟩)

theorem readBytes_isSome {k : Nat} : (readBytes buf off k).isSome ↔ off + k ≤ buf.length := by
  unfold readBytes
  split
  · exact iff_of_true rfl ‹_›
  · exact iff_of_false nofun ‹_›

theorem readInt_of_le (h : off + 4 ≤ buf.length) :
    readInt buf off = some (leInt (Memory.read buf off 4)) := by
  rw [readInt, readBytes, if_pos h]
  rfl

theorem readInt_of_lt (h : buf.length < off + 4) : readInt buf off = none := by
  rw [readInt, readBytes, if_neg (Nat.not_le.mpr h)]
  rfl

/-- A node can be read if there is a NUL in or behind its last string. -/
theorem readNode_isSome {node : Nat} :
    (readNode buf node).isSome ↔ ∃ i, node + 42 ≤ i ∧ buf[i]? = some 0 := by
  constructor
  · intro h
    obtain ⟨n, hn⟩ := Option.isSome_iff_exists.mp h
    simp only [readNode, Option.bind_eq_bind, Option.bind_eq_some_iff] at hn
    obtain ⟨-, -, passwd, hpasswd, -⟩ := hn
    exact readStr_isSome.mp (Option.isSome_of_eq_some hpasswd)
  · rintro ⟨i, hle, hi⟩
    have hlen : i < buf.length := (List.getElem?_eq_some_iff.mp hi).1
    -- The other fields lie before this NUL, and their strings end there at the latest
    obtain ⟨id, hid⟩ := Option.isSome_iff_exists.mp
      (readStr_isSome.mpr ⟨i, show node + 32 ≤ i by omega, hi⟩)
    obtain ⟨pw, hpw⟩ := Option.isSome_iff_exists.mp (readStr_isSome.mpr ⟨i, hle, hi⟩)
    obtain ⟨ip, hip⟩ := Option.isSome_iff_exists.mp
      (readStr_isSome.mpr ⟨i, show node + 8 ≤ i by omega, hi⟩)
    obtain ⟨now, hnow⟩ := Option.isSome_iff_exists.mp
      (readBytes_isSome.mpr (show node + 8 ≤ buf.length by omega))
    simp only [readNode, hid, hpw, hip, readInt_of_le (show node + 28 + 4 ≤ buf.length by omega),
      hnow, Option.bind_eq_bind, Option.bind_some, Option.isSome_some]

/-- A loop over a list succeeds if it does for each element. -/
theorem isSome_mapM {α β : Type} {g : α → Option β} {l : List α} :
    (l.mapM g).isSome ↔ ∀ a ∈ l, (g a).isSome := by
  induction l with
  | nil => exact iff_of_true rfl nofun
  | cons a l ih =>
    rw [List.forall_mem_cons, ← ih, List.mapM_cons]
    cases g a with
    | none => exact iff_of_false nofun fun h => nomatch h.1
    | some b =>
      cases l.mapM g with
      | none => exact iff_of_false nofun fun h => nomatch h.2
      | some bs => exact iff_of_true rfl ⟨rfl, rfl⟩

/-- The user list can be read if the count is there, and for each user a NUL in or behind the
    password. -/
theorem readUserList_isSome (h : 12 ≤ buf.length) {cnt : Nat}
    (hcnt : leInt (Memory.read buf 8 4) = cnt) :
    (readUserList buf).isSome ↔
      ∀ j < cnt, ∃ i, 16 + 56 * j + 42 ≤ i ∧ buf[i]? = some 0 := by
  rw [readUserList, sizeofStJQMessage, readInt_of_le h, hcnt, Option.bind_eq_bind,
    Option.bind_some, isSome_mapM, Int.toNat_natCast]
  simp only [List.mem_range, readNode_isSome]
  rfl

theorem decode_isSome (h : 4 ≤ buf.length) :
    (decode buf).isSome ↔
      if leInt (Memory.read buf 0 4) = cmdHandshakeAck then (readStr buf 8).isSome = true
      else if leInt (Memory.read buf 0 4) = cmdGetRemoteAck then (readStr buf 20).isSome = true
      else if leInt (Memory.read buf 0 4) = cmdGetAllUserAck then (readUserList buf).isSome = true
      else (readStr buf 8).isSome = true := by
  rw [decode, readInt_of_le (show 0 + 4 ≤ buf.length by omega), Option.bind_eq_bind,
    Option.bind_some]
  split
  · rw [Option.isSome_map]
    rfl
  · split
    · rw [Option.isSome_map]
      rfl
    · split
      · rw [Option.isSome_map]
      · rw [Option.isSome_map]
        rfl

theorem decode_of_lt (h : buf.length < 4) : decode buf = none := by
  rw [decode, readInt_of_lt (show buf.length < 0 + 4 by omega)]
  rfl

/-! ### The first piece -/

/-- A text of `len` characters starts at an offset, with its NUL. -/
structure TextAt (m : List UInt8) (off len : Nat) : Prop where
  nul : m[off + len]? = some 0
  chars : ∀ i < len, m[off + i]? ≠ some 0

theorem TextAt.of_append {s : List UInt8} (hm : m.drop off = s ++ 0 :: buf) (hs : 0 ∉ s) :
    TextAt m off s.length := by
  constructor
  · rw [← List.getElem?_drop, hm, List.getElem?_append_right (Nat.le_refl _), Nat.sub_self]
    rfl
  · intro i hi hzero
    rw [← List.getElem?_drop, hm, List.getElem?_append_left hi] at hzero
    exact hs (List.mem_of_getElem? hzero)

/-- A string that is read with its NUL. -/
theorem TextAt.of_read {s : List UInt8} (h : Memory.read m off (s.length + 1) = s ++ [0])
    (hs : 0 ∉ s) : TextAt m off s.length := by
  have hdrop : m.drop off = s ++ 0 :: (m.drop off).drop (s.length + 1) := by
    have hsplit := List.take_append_drop (s.length + 1) (m.drop off)
    rw [show (m.drop off).take (s.length + 1) = s ++ [0] from h, List.append_assoc] at hsplit
    exact hsplit.symm
  exact .of_append hdrop hs

theorem getElem?_of_isPrefix (hf : f <+: m) {i : Nat} (hi : i < f.length) : f[i]? = m[i]? := by
  obtain ⟨rest, rfl⟩ := hf
  rw [List.getElem?_append_left hi]

theorem read_of_isPrefix (hf : f <+: m) {k : Nat} (h : off + k ≤ f.length) :
    Memory.read f off k = Memory.read m off k := by
  obtain ⟨rest, rfl⟩ := hf
  rw [Memory.read, Memory.read, List.drop_append_of_le_length (by omega),
    List.take_append_of_le_length (by rw [List.length_drop]; omega)]

/-- A NUL behind the start of a text is found exactly if the piece reaches its end. -/
theorem TextAt.exists_nul (h : TextAt m off len) (hf : f <+: m) :
    (∃ i, off ≤ i ∧ f[i]? = some 0) ↔ off + len + 1 ≤ f.length := by
  constructor
  · rintro ⟨i, hle, hi⟩
    have hlen : i < f.length := (List.getElem?_eq_some_iff.mp hi).1
    by_contra hlt
    obtain ⟨k, rfl⟩ := Nat.exists_eq_add_of_le hle
    rw [getElem?_of_isPrefix hf hlen] at hi
    exact h.chars k (by omega) hi
  · intro hlen
    refine ⟨off + len, Nat.le_add_right _ _, ?_⟩
    rw [getElem?_of_isPrefix hf (by omega)]
    exact h.nul

/-! ### A reply with a text -/

/-- A reply whose type is decoded as a text at an offset; behind the text there are zeros. -/
structure TextReply (m : List UInt8) (off len : Nat) : Prop where
  type : leInt (Memory.read m 0 4) = cmdHandshakeAck ∧ off = 8 ∨
    leInt (Memory.read m 0 4) = cmdGetRemoteAck ∧ off = 20
  text : TextAt m off len
  zeros : ∀ b ∈ m.drop (off + len), b = 0

/-- A message that starts with a header and some words, and ends with a text in an array. -/
theorem TextReply.of_append {head : List UInt8} {cmd : Nat} {n : Nat} {text : List UInt8}
    (hm : m = toLE 4 cmd ++ head ++ (CharArray.snprintf (n + 1) text).bytes)
    (htype : leInt (toLE 4 cmd) = cmdHandshakeAck ∧ head.length = 4 ∨
      leInt (toLE 4 cmd) = cmdGetRemoteAck ∧ head.length = 16) :
    TextReply m (4 + head.length) (CharArray.snprintf (n + 1) text).str.length := by
  have hlen : (toLE 4 cmd ++ head).length = 4 + head.length := by
    rw [List.length_append, toLE_length]
  have hdrop : m.drop (4 + head.length) = (CharArray.snprintf (n + 1) text).str ++
      0 :: List.replicate (n - (CharArray.snprintf (n + 1) text).str.length) 0 := by
    rw [hm, List.drop_left' hlen, CharArray.snprintf_bytes]
  have hread : Memory.read m 0 4 = toLE 4 cmd := by
    rw [Memory.read, List.drop_zero, hm, List.append_assoc, List.take_left' (toLE_length 4 cmd)]
  refine ⟨?_, .of_append hdrop (CString.zero_notMem_str _), fun b hb => ?_⟩
  · rw [hread]
    rcases htype with ⟨htype, hhead⟩ | ⟨htype, hhead⟩
    · exact .inl ⟨htype, by omega⟩
    · exact .inr ⟨htype, by omega⟩
  · rw [← List.drop_drop, hdrop, List.drop_left' rfl, ← List.replicate_succ] at hb
    exact List.eq_of_mem_replicate hb

theorem handshakeAck_textReply (t : Table) (matchedEventIndex : Option (Fin maxEvents)) :
    TextReply (ServerReply.handshakeAck t matchedEventIndex).bytes 8
      (responsHandshake t matchedEventIndex).str.length :=
  .of_append rfl (.inl ⟨show leInt (toLE 4 cmdHandshakeAck) = cmdHandshakeAck by decide, rfl⟩)

theorem getRemoteAck_textReply (t : Table) (grMsg : GetRemoteMessage) :
    TextReply (ServerReply.getRemoteAck t grMsg).bytes 20
      (responsGetRemote t grMsg).info.str.length := by
  have hinfo : ∃ text, (responsGetRemote t grMsg).info = .snprintf 256 text := by
    unfold responsGetRemote
    simp only
    split
    · exact ⟨_, rfl⟩
    · exact ⟨_, rfl⟩
  obtain ⟨text, hinfo⟩ := hinfo
  let msg := responsGetRemote t grMsg
  have hbytes : (ServerReply.getRemoteAck t grMsg).bytes = toLE 4 cmdGetRemoteAck ++
      (toLE 4 (Reply.getRemoteAck msg).iMessageLen ++ toLE 4 (if msg.flag then 1 else 0) ++
        toLE 4 msg.ip ++ toLEInt 4 msg.port) ++ (CharArray.snprintf (255 + 1) text).bytes := by
    rw [← hinfo]
    simp only [ServerReply.bytes, Reply.bytes, Reply.iMessageType, List.append_assoc, msg]
  rw [hinfo]
  exact .of_append hbytes
    (.inr ⟨show leInt (toLE 4 cmdGetRemoteAck) = cmdGetRemoteAck by decide, rfl⟩)

theorem TextReply.le_off (h : TextReply m off len) : 8 ≤ off := by
  rcases h.type with ⟨-, rfl⟩ | ⟨-, rfl⟩
  · exact Nat.le_refl _
  · decide

/-- The first piece of a reply with a text is decoded safely if it reaches the end of it. -/
theorem TextReply.decode_first (h : TextReply m off len) (hf : f <+: m) :
    (decode f).isSome ↔ off + len + 1 ≤ f.length := by
  by_cases h4 : 4 ≤ f.length
  · have hread : Memory.read f 0 4 = Memory.read m 0 4 := read_of_isPrefix hf (by omega)
    have hnul := h.text.exists_nul hf
    rw [decode_isSome h4, hread]
    rcases h.type with ⟨htype, rfl⟩ | ⟨htype, rfl⟩
    · rw [htype, if_pos rfl, readStr_isSome, hnul]
    · rw [htype, if_neg (by decide), if_pos rfl, readStr_isSome, hnul]
  · have hoff := h.le_off
    rw [decode_of_lt (by omega)]
    exact iff_of_false nofun (by omega)

/-! ### Later pieces -/

theorem recvFunc_cons (piece : List UInt8) (pieces : List (List UInt8)) :
    (recvFunc buf (piece :: pieces)).isSome ↔ piece.length ≤ sizeofRecvBuf ∧
      (decode (overlay piece buf)).isSome ∧ (recvFunc (overlay piece buf) pieces).isSome := by
  rw [recvFunc]
  split
  · rename_i hle
    cases decode (overlay piece buf) with
    | none => exact iff_of_false nofun fun h => nomatch h.2.1
    | some printed =>
      cases recvFunc (overlay piece buf) pieces with
      | none => exact iff_of_false nofun fun h => nomatch h.2.2
      | some rest => exact iff_of_true rfl ⟨hle, rfl, rfl⟩
  · rename_i hle
    exact iff_of_false nofun fun h => hle h.1

/-- A word whose first byte is zero is no type of a reply. -/
theorem type_of_zero {bs : List UInt8} (h : bs.length = 4) (h0 : CString.byteAt bs 0 = 0) :
    leInt bs ≠ cmdHandshakeAck ∧ leInt bs ≠ cmdGetRemoteAck ∧ leInt bs ≠ cmdGetAllUserAck := by
  have hbyte : (CString.byteAt bs 0).toNat = 0 := by
    rw [h0]
    rfl
  have hnat := leNat_four h
  rw [hbyte] at hnat
  rw [leInt, h, Int.bmod_def]
  simp only [cmdHandshakeAck, cmdGetRemoteAck, cmdGetAllUserAck]
  omega

/-- The byte at an index after a piece is stored. -/
theorem getElem?_overlay (piece : List UInt8) (i : Nat) :
    (overlay piece buf)[i]? = if i < piece.length then piece[i]? else buf[i]? := by
  unfold overlay
  split
  · rw [List.getElem?_append_left ‹_›]
  · rw [List.getElem?_append_right (by omega), List.getElem?_drop]
    congr 1
    omega

theorem length_overlay (piece : List UInt8) :
    (overlay piece buf).length = max piece.length buf.length := by
  rw [overlay, List.length_append, List.length_drop]
  omega

/-- Zeros behind a text that has been received are received safely if they fit. -/
theorem recvFunc_zeros {rest : List (List UInt8)} (hne : ∀ piece ∈ rest, piece ≠ [])
    (hzero : ∀ piece ∈ rest, ∀ b ∈ piece, b = 0) (h4 : 4 ≤ buf.length)
    (hnul : ∃ i, 8 ≤ i ∧ buf[i]? = some 0) :
    (recvFunc buf rest).isSome ↔ ∀ piece ∈ rest, piece.length ≤ sizeofRecvBuf := by
  induction rest generalizing buf with
  | nil => exact iff_of_true rfl nofun
  | cons piece rest ih =>
    obtain ⟨hpiece, hne⟩ := List.forall_mem_cons.mp hne
    obtain ⟨hpieceZero, hzero⟩ := List.forall_mem_cons.mp hzero
    have hget : ∀ i < piece.length, piece[i]? = some 0 := fun i hi => by
      rw [List.getElem?_eq_getElem hi, hpieceZero _ (List.getElem_mem hi)]
    have hlen : 4 ≤ (overlay piece buf).length := by
      rw [length_overlay]
      omega
    have hnul' : ∃ i, 8 ≤ i ∧ (overlay piece buf)[i]? = some 0 := by
      obtain ⟨i, hle, hi⟩ := hnul
      refine ⟨i, hle, ?_⟩
      rw [getElem?_overlay]
      split
      · exact hget i ‹_›
      · exact hi
    -- What is decoded is no reply, but a text that ends
    have hdecode : (decode (overlay piece buf)).isSome := by
      have hbyte : CString.byteAt (Memory.read (overlay piece buf) 0 4) 0 = 0 := by
        rw [CString.byteAt, List.getD_eq_getElem?_getD, Memory.read, List.drop_zero,
          List.getElem?_take_of_lt (by decide), getElem?_overlay,
          if_pos (List.length_pos_iff.mpr hpiece), hget 0 (List.length_pos_iff.mpr hpiece)]
        rfl
      have hread : (Memory.read (overlay piece buf) 0 4).length = 4 := by
        rw [Memory.read, List.drop_zero, List.length_take, Nat.min_eq_left hlen]
      obtain ⟨h1, h2, h3⟩ := type_of_zero hread hbyte
      rw [decode_isSome hlen, if_neg h1, if_neg h2, if_neg h3, readStr_isSome]
      exact hnul'
    rw [recvFunc_cons, List.forall_mem_cons, ih hne hzero hlen hnul']
    exact ⟨fun h => ⟨h.1, h.2.2⟩, fun h => ⟨h.1, hdecode, h.2⟩⟩

theorem overlay_nil (piece : List UInt8) : overlay piece [] = piece := by
  rw [overlay, List.drop_nil, List.append_nil]

/-- What comes behind the first piece is what the reply has behind it. -/
theorem Delivery.flatten_rest (d : Delivery m) : d.rest.flatten = m.drop d.first.length := by
  have h := congrArg (List.drop d.first.length) d.flatten_eq
  rwa [List.drop_left' rfl] at h

theorem Delivery.first_isPrefix (d : Delivery m) : d.first <+: m := ⟨_, d.flatten_eq⟩

theorem TextReply.safe_iff (h : TextReply m off len) (d : Delivery m) :
    (recvFunc [] (d.first :: d.rest)).isSome ↔
      (∀ piece ∈ d.first :: d.rest, piece.length ≤ sizeofRecvBuf) ∧
        off + len + 1 ≤ d.first.length := by
  rw [recvFunc_cons, overlay_nil, h.decode_first d.first_isPrefix, List.forall_mem_cons]
  by_cases hlen : off + len + 1 ≤ d.first.length
  · have hoff := h.le_off
    have hzero : ∀ piece ∈ d.rest, ∀ b ∈ piece, b = 0 := by
      intro piece hpiece b hb
      apply h.zeros
      have hmem : b ∈ m.drop d.first.length := by
        rw [← d.flatten_rest]
        exact List.mem_flatten_of_mem hpiece hb
      have hsplit : m.drop d.first.length =
          (m.drop (off + len)).drop (d.first.length - (off + len)) := by
        rw [List.drop_drop]
        congr 1
        omega
      rw [hsplit] at hmem
      exact List.mem_of_mem_drop hmem
    have hnul : ∃ i, 8 ≤ i ∧ d.first[i]? = some 0 := by
      obtain ⟨i, hi, hz⟩ := (h.text.exists_nul d.first_isPrefix).mpr hlen
      exact ⟨i, hoff.trans hi, hz⟩
    rw [recvFunc_zeros d.rest_ne hzero (by omega) hnul]
    exact ⟨fun hs => ⟨⟨hs.1, hs.2.2⟩, hlen⟩, fun hs => ⟨hs.1.1, hlen, hs.1.2⟩⟩
  · exact iff_of_false (fun hs => hlen hs.2.1) fun hs => hlen hs.2

/-! ### A reply with users -/

/-- A list of `cnt` users with passwords of certain lengths, as CMD_GETALLUSER sends it. -/
structure UserReply (m : List UInt8) (cnt : Nat) (passwdLen : Nat → Nat) : Prop where
  length : m.length = 12 + 56 * cnt
  small : cnt ≤ maxEvents
  type : leInt (Memory.read m 0 4) = cmdGetAllUserAck
  count : leInt (Memory.read m 8 4) = cnt
  passwd : ∀ j < cnt, TextAt m (16 + 56 * j + 42) (passwdLen j)

/-- The end of the last password. -/
def usersEnd (cnt : Nat) (passwdLen : Nat → Nat) : Nat :=
  if cnt = 0 then 12 else 16 + 56 * (cnt - 1) + 42 + passwdLen (cnt - 1) + 1

variable {cnt : Nat} {passwdLen : Nat → Nat}

/-- The first piece of a user list has its type. -/
theorem UserReply.decode_list (h : UserReply m cnt passwdLen) (hf : f <+: m) (h4 : 4 ≤ f.length) :
    (decode f).isSome ↔ (readUserList f).isSome := by
  have htype : leInt (Memory.read f 0 4) = cmdGetAllUserAck := by
    rw [read_of_isPrefix hf (by omega)]
    exact h.type
  rw [decode_isSome h4, htype, if_neg (by decide), if_neg (by decide), if_pos rfl]

/-- The first piece of a user list is decoded safely if it reaches the end of the last
    password. -/
theorem UserReply.decode_first (h : UserReply m cnt passwdLen) (hf : f <+: m) :
    (decode f).isSome ↔ usersEnd cnt passwdLen ≤ f.length := by
  have hend : 12 ≤ usersEnd cnt passwdLen := by
    unfold usersEnd
    split
    · exact Nat.le_refl _
    · omega
  by_cases h12 : 12 ≤ f.length
  · have hcount : leInt (Memory.read f 8 4) = cnt := by
      rw [read_of_isPrefix hf (by omega)]
      exact h.count
    rw [h.decode_list hf (by omega), readUserList_isSome h12 hcount, usersEnd]
    split
    · rename_i hzero
      exact iff_of_true (fun j hj => absurd hj (by omega)) h12
    · rename_i hzero
      -- A NUL behind the last password is behind the other ones too
      have hlast := (h.passwd (cnt - 1) (by omega)).exists_nul hf
      constructor
      · exact fun hall => hlast.mp (hall (cnt - 1) (by omega))
      · intro hlen j hj
        obtain ⟨i, hle, hi⟩ := hlast.mpr hlen
        exact ⟨i, by omega, hi⟩
  · refine iff_of_false (fun hs => ?_) (by omega)
    by_cases h4 : 4 ≤ f.length
    · rw [h.decode_list hf h4, readUserList, readInt_of_lt (by rw [sizeofStJQMessage]; omega)]
        at hs
      cases hs
    · rw [decode_of_lt (by omega)] at hs
      cases hs

/-- A buffer that still has the users is decoded safely unless it says that there are more. -/
theorem UserReply.decode_again (h : UserReply m cnt passwdLen) (hf : f <+: m) (hcnt : 0 < cnt)
    (hend : usersEnd cnt passwdLen ≤ f.length) (hlen : buf.length = f.length)
    (hsame : ∀ i, 9 ≤ i → buf[i]? = f[i]?) {cnt' : Nat}
    (hcount : leInt (Memory.read buf 8 4) = cnt') :
    (decode buf).isSome ↔ (leInt (Memory.read buf 0 4) = cmdGetAllUserAck → cnt' ≤ cnt) := by
  rw [usersEnd, if_neg (by omega)] at hend
  have hfm : f.length ≤ m.length := hf.length_le
  rw [h.length] at hfm
  -- The NUL of the last password is in the buffer, and ends every other string
  have hlast : ∃ i, 16 + 56 * (cnt - 1) + 42 ≤ i ∧ buf[i]? = some 0 := by
    obtain ⟨i, hle, hi⟩ := ((h.passwd (cnt - 1) (by omega)).exists_nul hf).mpr hend
    exact ⟨i, hle, (hsame i (by omega)).trans hi⟩
  have hstr : ∀ off, off ≤ 20 → (readStr buf off).isSome = true := by
    intro off hoff
    obtain ⟨i, hle, hi⟩ := hlast
    exact readStr_isSome.mpr ⟨i, by omega, hi⟩
  rw [decode_isSome (by omega)]
  split
  · rename_i htype
    refine iff_of_true (hstr 8 (by omega)) fun hother => ?_
    exact absurd (htype.symm.trans hother) (by decide)
  · split
    · rename_i htype
      refine iff_of_true (hstr 20 (by omega)) fun hother => ?_
      exact absurd (htype.symm.trans hother) (by decide)
    · split
      · rename_i htype
        rw [readUserList_isSome (by omega) hcount]
        constructor
        · -- One more node would begin behind the reply
          intro hall _
          by_contra hlt
          obtain ⟨i, hle, hi⟩ := hall cnt (by omega)
          have hi := (List.getElem?_eq_some_iff.mp hi).1
          omega
        · intro hle j hj
          have hle := hle htype
          obtain ⟨i, hi, hzero⟩ := hlast
          exact ⟨i, by omega, hzero⟩
      · rename_i htype
        exact iff_of_true (hstr 8 (by omega)) fun hother => absurd hother htype

/-- A small number in a word. -/
theorem leInt_eq_iff {bs : List UInt8} (h : bs.length = 4) {x : Nat} (hx : x < 0x80000000) :
    leInt bs = x ↔ leNat bs = x := by
  have hnat := leNat_four h
  have h0 := (CString.byteAt bs 0).toNat_lt
  have h1 := (CString.byteAt bs 1).toNat_lt
  have h2 := (CString.byteAt bs 2).toNat_lt
  have h3 := (CString.byteAt bs 3).toNat_lt
  rw [leInt, h, Int.bmod_def]
  omega

/-- The count after its low byte is overwritten. -/
theorem UserReply.count_overlay (h : UserReply m cnt passwdLen) (hf : f <+: m)
    (hlen : 12 ≤ f.length) (hsame : ∀ i, 9 ≤ i → buf[i]? = f[i]?) (hbuf : 12 ≤ buf.length) :
    leInt (Memory.read buf 8 4) =
      ((cnt - cnt % 256 + (CString.byteAt buf 8).toNat : Nat) : Int) := by
  have hmax : cnt ≤ 10240 := h.small
  have hsize : ∀ x : List UInt8, 12 ≤ x.length → (Memory.read x 8 4).length = 4 := by
    intro x hx
    rw [Memory.read, List.length_take, List.length_drop]
    omega
  have hbyte : ∀ (x : List UInt8), ∀ i < 4,
      CString.byteAt (Memory.read x 8 4) i = CString.byteAt x (8 + i) := by
    intro x i hi
    rw [CString.byteAt, CString.byteAt, List.getD_eq_getElem?_getD, List.getD_eq_getElem?_getD,
      Memory.read, List.getElem?_take_of_lt hi, List.getElem?_drop]
  -- The three high bytes are those of the reply
  have hrest : ∀ i, 9 ≤ i → CString.byteAt buf i = CString.byteAt f i := fun i hi =>
    CString.byteAt_congr (hsame i hi)
  have hcount : leNat (Memory.read f 8 4) = cnt := by
    rw [← leInt_eq_iff (hsize f hlen) (by omega), read_of_isPrefix hf (by omega)]
    exact h.count
  have hnat := leNat_four (hsize f hlen)
  have hnat' := leNat_four (hsize buf hbuf)
  rw [hbyte _ 0 (by omega), hbyte _ 1 (by omega), hbyte _ 2 (by omega), hbyte _ 3 (by omega)]
    at hnat hnat'
  rw [Nat.add_zero] at hnat hnat'
  rw [hrest (8 + 1) (by omega), hrest (8 + 2) (by omega), hrest (8 + 3) (by omega)] at hnat'
  have h0 := (CString.byteAt f 8).toNat_lt
  have h0' := (CString.byteAt buf 8).toNat_lt
  rw [leInt_eq_iff (hsize buf hbuf) (by omega)]
  omega

/-- The piece does not look like the header of a list with more users. -/
def KeepsCount (cnt : Nat) (piece : List UInt8) : Prop :=
  piece.length = 9 → leInt (Memory.read piece 0 4) = cmdGetAllUserAck →
    (CString.byteAt piece 8).toNat ≤ cnt % 256

/-- A piece of the bytes behind the last password is decoded safely unless it looks like a
    header with a larger count. -/
theorem UserReply.decode_tail (h : UserReply m cnt passwdLen) (hf : f <+: m) (hcnt : 0 < cnt)
    (hend : usersEnd cnt passwdLen ≤ f.length) {piece : List UInt8} (hpiece : piece.length ≤ 9)
    (hlen : buf.length = f.length) (hsame : ∀ i, 8 ≤ i → buf[i]? = f[i]?) :
    (decode (overlay piece buf)).isSome ↔ KeepsCount cnt piece := by
  have hend' := hend
  rw [usersEnd, if_neg (by omega)] at hend'
  have hlen' : (overlay piece buf).length = f.length := by
    rw [length_overlay]
    omega
  have hsame' : ∀ i, 9 ≤ i → (overlay piece buf)[i]? = f[i]? := by
    intro i hi
    rw [getElem?_overlay, if_neg (by omega)]
    exact hsame i (by omega)
  have hcount := h.count_overlay hf (by omega) hsame' (by omega)
  rw [h.decode_again hf hcnt hend hlen' hsame' hcount]
  by_cases h9 : piece.length = 9
  · -- The type and the low byte of the count are those of the piece
    have hread : Memory.read (overlay piece buf) 0 4 = Memory.read piece 0 4 := by
      rw [Memory.read, Memory.read, List.drop_zero, List.drop_zero, overlay,
        List.take_append_of_le_length (by omega)]
    have hbyte : CString.byteAt (overlay piece buf) 8 = CString.byteAt piece 8 :=
      CString.byteAt_append_left (by omega)
    rw [hread, hbyte]
    constructor
    · intro hkept _ htype
      have hle := hkept htype
      omega
    · intro hkept htype
      have hle := hkept h9 htype
      omega
  · -- The count is as it was
    have hbyte : CString.byteAt (overlay piece buf) 8 = CString.byteAt f 8 := by
      refine CString.byteAt_congr ?_
      rw [getElem?_overlay, if_neg (by omega)]
      exact hsame 8 (Nat.le_refl _)
    have hlow : leInt (Memory.read f 8 4) =
        ((cnt - cnt % 256 + (CString.byteAt f 8).toNat : Nat) : Int) :=
      h.count_overlay hf (by omega) (fun _ _ => rfl) (by omega)
    rw [read_of_isPrefix hf (by omega), h.count] at hlow
    rw [hbyte]
    exact iff_of_true (fun _ => by omega) fun heq => absurd heq h9

/-- Nothing is left to come if no bytes are. -/
theorem eq_nil_of_flatten {rest : List (List UInt8)} (hne : ∀ piece ∈ rest, piece ≠ [])
    (h : rest.flatten.length = 0) : rest = [] := by
  cases rest with
  | nil => rfl
  | cons piece rest =>
    have hpiece := List.length_pos_iff.mpr (hne piece List.mem_cons_self)
    rw [List.flatten_cons, List.length_append] at h
    omega

/-- The bytes behind the last password are received safely unless they come at once and look
    like a header with a larger count. -/
theorem UserReply.recvFunc_tail (h : UserReply m cnt passwdLen) (hf : f <+: m) (hcnt : 0 < cnt)
    (hend : usersEnd cnt passwdLen ≤ f.length) {rest : List (List UInt8)}
    (hne : ∀ piece ∈ rest, piece ≠ []) (htail : rest.flatten.length ≤ 9)
    (hlen : buf.length = f.length) (hsame : ∀ i, 8 ≤ i → buf[i]? = f[i]?) :
    (recvFunc buf rest).isSome ↔
      (∀ piece ∈ rest, piece.length ≤ sizeofRecvBuf) ∧ ∀ piece ∈ rest, KeepsCount cnt piece := by
  have hend' := hend
  rw [usersEnd, if_neg (by omega)] at hend'
  induction rest generalizing buf with
  | nil => exact iff_of_true rfl ⟨nofun, nofun⟩
  | cons piece rest ih =>
    obtain ⟨hpiece, hne⟩ := List.forall_mem_cons.mp hne
    rw [List.flatten_cons, List.length_append] at htail
    have htail' : (recvFunc (overlay piece buf) rest).isSome ↔
        (∀ piece ∈ rest, piece.length ≤ sizeofRecvBuf) ∧ ∀ piece ∈ rest, KeepsCount cnt piece := by
      by_cases h9 : piece.length = 9
      · -- Nothing comes behind it
        rw [eq_nil_of_flatten hne (by omega)]
        exact iff_of_true rfl ⟨nofun, nofun⟩
      · refine ih hne (by omega) (by rw [length_overlay]; omega) fun i hi => ?_
        rw [getElem?_overlay, if_neg (by omega)]
        exact hsame i hi
    rw [recvFunc_cons, h.decode_tail hf hcnt hend (by omega) hlen hsame, htail',
      List.forall_mem_cons, List.forall_mem_cons]
    constructor
    · rintro ⟨hle, hkept, hall, hkepts⟩
      exact ⟨⟨hle, hall⟩, hkept, hkepts⟩
    · rintro ⟨⟨hle, hall⟩, hkept, hkepts⟩
      exact ⟨hle, hkept, hall, hkepts⟩

theorem UserReply.safe_iff (h : UserReply m cnt passwdLen) (d : Delivery m) :
    (recvFunc [] (d.first :: d.rest)).isSome ↔
      (∀ piece ∈ d.first :: d.rest, piece.length ≤ sizeofRecvBuf) ∧
        usersEnd cnt passwdLen ≤ d.first.length ∧ ∀ piece ∈ d.rest, KeepsCount cnt piece := by
  rw [recvFunc_cons, overlay_nil, h.decode_first d.first_isPrefix, List.forall_mem_cons]
  by_cases hend : usersEnd cnt passwdLen ≤ d.first.length
  · have htail : d.rest.flatten.length = 12 + 56 * cnt - d.first.length := by
      rw [d.flatten_rest, List.length_drop, h.length]
    by_cases hcnt : cnt = 0
    · -- Without users the reply has come as a whole
      have hend' := hend
      rw [usersEnd, if_pos hcnt] at hend'
      rw [eq_nil_of_flatten d.rest_ne (by omega)]
      exact ⟨fun hs => ⟨⟨hs.1, nofun⟩, hend, nofun⟩, fun hs => ⟨hs.1.1, hend, rfl⟩⟩
    · have hend' := hend
      rw [usersEnd, if_neg hcnt] at hend'
      rw [h.recvFunc_tail d.first_isPrefix (by omega) hend d.rest_ne (by omega) rfl fun _ _ => rfl]
      exact ⟨fun hs => ⟨⟨hs.1, hs.2.2.1⟩, hs.2.1, hs.2.2.2⟩,
        fun hs => ⟨hs.1.1, hs.2.1, hs.1.2, hs.2.2⟩⟩
  · exact iff_of_false (fun hs => hend hs.2.1) fun hs => hend hs.2.1

/-! ### What CMD_GETALLUSER sends -/

/-- The strings of a node that `get_all_users` writes: they may leave their fields, not the
    node. -/
structure JQUserNode.Bounded (n : JQUserNode) : Prop where
  clientIpAddr : n.clientIpAddr.length ≤ 20
  usrhashId : n.usrhashId.length ≤ 17
  passwd : n.passwd.length ≤ 7 ∧ 0 ∉ n.passwd

/-- The filling pass writes the nodes one behind the other, and nothing else. -/
theorem exists_writeUserNodes (userNode : Nat) (node : List JQUserNode)
    (hn : ∀ n ∈ node, n.Bounded) (cnt : Nat) (buf : List UInt8)
    (hlen : userNode + 56 * (cnt + node.length) ≤ buf.length + 6) :
    ∃ buf', writeUserNodes userNode node cnt buf = some buf' ∧ buf'.length = buf.length ∧
      (∀ off k, off + k ≤ userNode + 56 * cnt →
        Memory.read buf' off k = Memory.read buf off k) ∧
      ∀ j n, node[j]? = some n →
        Memory.read buf' (userNode + 56 * (cnt + j) + 42) (n.passwd.length + 1) =
          n.passwd ++ [0] := by
  induction node generalizing cnt buf with
  | nil => exact ⟨buf, rfl, rfl, fun _ _ _ => rfl, nofun⟩
  | cons n node ih =>
    obtain ⟨hn, hnode⟩ := List.forall_mem_cons.mp hn
    rw [List.length_cons] at hlen
    -- A string that is not terminated is written over by the field behind it
    have hip := hn.clientIpAddr
    have hid := hn.usrhashId
    have hpw := hn.passwd.1
    obtain ⟨b1, w1, l1, r1, -, f1⟩ := exists_writeUserNode_within (n := n) buf
      (userNode + 56 * cnt) 50 (by omega) (by omega) (by omega) (by omega)
    obtain ⟨b2, w2, l2, f2, r2⟩ := ih hnode (cnt + 1) b1 (by omega)
    refine ⟨b2, ?_, by omega, fun off k hle => ?_, fun j n' hj => ?_⟩
    · simp only [writeUserNodes, sizeofJQUserNode, w1, w2, Option.bind_eq_bind, Option.bind_some]
    · rw [f2 off k (by omega), f1 off k (.inl hle)]
    · cases j with
      | zero =>
        -- The rest of the pass writes behind the first node
        obtain rfl := Option.some.inj hj
        have hpw := hn.passwd.1
        rw [f2 _ _ (by omega)]
        exact r1
      | succ j =>
        have hread := r2 j n' hj
        have hidx : cnt + 1 + j = cnt + (j + 1) := by omega
        rwa [hidx] at hread

/-- The strings of a slot fit, whether they are terminated or not. -/
theorem Table.bounded_getAllUsersNode {t : Table} {i : Fin maxEvents} {n : JQUserNode}
    (h : t.getAllUsersNode i = some n) : n.Bounded := by
  have hstr : ∀ (bs : List UInt8), (CString.str bs).length ≤ bs.length := fun bs =>
    (List.takeWhile_prefix _).length_le
  obtain ⟨-, h⟩ := Option.ite_none_right_eq_some.mp h
  rw [← Option.some.inj h]
  constructor
  · exact (hstr _).trans (Nat.le_of_eq (t i).clientIpAddr.size_eq)
  · refine (hstr _).trans (Nat.le_of_eq ?_)
    rw [List.length_append, CharArray.size_eq, CharArray.size_eq]
  · exact ⟨(hstr _).trans (Nat.le_of_eq (t i).passwd.size_eq), CString.zero_notMem_str _⟩

/-- The filling pass finds as many slots as the counting pass. -/
theorem Table.length_getAllUsersNode (t : Table) :
    ((List.finRange maxEvents).filterMap t.getAllUsersNode).length = t.getAllUsersCount := by
  have hnode : ∀ i, (t.getAllUsersNode i).isSome = decide ((t i).connectFd ≠ -1) := by
    intro i
    unfold getAllUsersNode
    split
    · exact (decide_eq_true ‹_›).symm
    · exact (decide_eq_false ‹_›).symm
  rw [List.length_filterMap_eq_countP, List.countP_eq_length_filter, ← t.length_nodes, nodes,
    List.length_map]
  exact congrArg List.length (List.filter_congr fun i _ => hnode i)

/-- The length of the password of a node, by its index. -/
def passwdLength (node : List JQUserNode) (j : Nat) : Nat :=
  (node[j]?.map fun n => n.passwd.length).getD 0

/-- CMD_GETALLUSER writes the type, the count and the users into its allocation. -/
theorem getAllUserAck_bytes {node : List JQUserNode} (hn : ∀ n ∈ node, n.Bounded)
    (hcount : node.length = cnt) (hmax : cnt ≤ maxEvents) (garbage : List UInt8) :
    UserReply ((Reply.getAllUserAck cnt node).bytes garbage) cnt (passwdLength node) := by
  have hmaxEvents : maxEvents = 10240 := rfl
  let reply := Reply.getAllUserAck cnt node
  let sendBuf := malloc reply.iMessageLen garbage
  have hsize : sendBuf.length = 12 + 56 * cnt := CharArray.size_eq _
  have h4 : ∀ x : Int, (toLEInt 4 x).length = 4 := toLEInt_length 4
  -- The type, the count, the nodes and then the message length are written
  obtain ⟨b1, w1, l1, r1, f1⟩ := Memory.exists_write_read sendBuf 0
    (toLEInt 4 cmdGetAllUserAck) (by rw [h4]; omega)
  obtain ⟨b2, w2, l2, r2, f2⟩ := Memory.exists_write_read b1 sizeofStJQMessage
    (toLEInt 4 cnt) (by rw [h4, sizeofStJQMessage]; omega)
  obtain ⟨b3, w3, l3, f3, r3⟩ := exists_writeUserNodes (sizeofStJQMessage + offsetofNode) node hn 0
    b2 (by rw [sizeofStJQMessage, offsetofNode, hcount]; omega)
  obtain ⟨b4, w4, l4, r4, f4⟩ := Memory.exists_write_read b3 4
    (toLEInt 4 reply.iMessageLen) (by rw [h4]; omega)
  rw [h4] at r1 f1 r2 f2 r4 f4
  simp only [sizeofStJQMessage, offsetofNode, Nat.mul_zero, Nat.add_zero, Nat.zero_add]
    at r2 f2 f3 r3
  have hwrite : writeGetAllUserAck cnt node sendBuf = some b4 := by
    simp only [writeGetAllUserAck, w1, w2, w3, w4, Option.bind_eq_bind, Option.bind_some, reply]
  have hbytes : (Reply.getAllUserAck cnt node).bytes garbage = b4 := by
    show (writeGetAllUserAck cnt node sendBuf).getD sendBuf = b4
    rw [hwrite, Option.getD_some]
  rw [hbytes]
  refine ⟨by omega, hmax, ?_, ?_, fun j hj => ?_⟩
  · rw [f4 0 4 (.inl (by omega)), f3 0 4 (by omega), f2 0 4 (.inl (by omega)), r1]
    exact leInt_toLEInt_natCast (by decide)
  · rw [f4 8 4 (.inr (by omega)), f3 8 4 (by omega), r2]
    exact leInt_toLEInt_natCast (by omega)
  · have hj' : j < node.length := hcount.symm ▸ hj
    have hget : node[j]? = some node[j] := List.getElem?_eq_getElem hj'
    rw [passwdLength, hget]
    refine .of_read ?_ (hn _ (List.getElem_mem hj')).passwd.2
    rw [f4 _ _ (.inr (by omega))]
    exact r3 j _ hget

theorem getAllUserAck_userReply (t : Table) (garbage : List UInt8) :
    UserReply (ServerReply.getAllUserAck t garbage).bytes t.getAllUsersCount
      (passwdLength ((List.finRange maxEvents).filterMap t.getAllUsersNode)) := by
  refine getAllUserAck_bytes (fun n hmem => ?_) t.length_getAllUsersNode ?_ garbage
  · obtain ⟨i, -, hi⟩ := List.mem_filterMap.mp hmem
    exact Table.bounded_getAllUsersNode hi
  · exact (Finset.card_le_univ _).trans_eq (Fintype.card_fin _)

/-- The last password ends where the last node says. -/
theorem usersEnd_eq {node : List JQUserNode} (hcount : node.length = cnt) :
    usersEnd cnt (passwdLength node) = lastPasswdEnd cnt node := by
  rw [usersEnd, lastPasswdEnd, List.getLast?_eq_getElem?, hcount, passwdLength]
  cases hlast : node[cnt - 1]? with
  | none =>
    rw [List.getElem?_eq_none_iff] at hlast
    exact if_pos (by omega)
  | some n =>
    have hlt := (List.getElem?_eq_some_iff.mp hlast).1
    exact if_neg (by omega)

/-- Exactly when `recv_func` receives a reply safely. -/
theorem recvFunc_safe_iff (reply : ServerReply) (d : Delivery reply.bytes) :
    (recvFunc [] (d.first :: d.rest)).isSome ↔
      (∀ piece ∈ d.first :: d.rest, piece.length ≤ sizeofRecvBuf) ∧
        reply.textEnd ≤ d.first.length ∧ reply.CountKept d.rest := by
  cases reply with
  | handshakeAck t matchedEventIndex =>
    rw [(handshakeAck_textReply t matchedEventIndex).safe_iff d]
    exact and_congr_right fun _ => (and_iff_left trivial).symm
  | getRemoteAck t grMsg =>
    rw [(getRemoteAck_textReply t grMsg).safe_iff d]
    exact and_congr_right fun _ => (and_iff_left trivial).symm
  | getAllUserAck t garbage =>
    rw [(getAllUserAck_userReply t garbage).safe_iff d, usersEnd_eq t.length_getAllUsersNode]
    simp only [ServerReply.textEnd, ServerReply.CountKept, KeepsCount]

/-- TCP may deliver a HANDSHAKE_ACK in one piece of 264 bytes, of which 8 are stored behind
    `recvBuf`. -/
theorem recvFunc_safe_fails :
    ¬ ∀ (reply : ServerReply) (d : Delivery reply.bytes),
      (recvFunc [] (d.first :: d.rest)).isSome := by
  intro h
  let reply := ServerReply.handshakeAck oneUserTable (some 0)
  have hlen : reply.bytes.length = 264 := by
    show ((Reply.handshakeAck _).bytes []).length = 264
    rw [Reply.bytes_length]
    rfl
  let d : Delivery reply.bytes := {
    first := reply.bytes, rest := []
    flatten_eq := List.append_nil _
    first_ne := fun hnil => by rw [hnil] at hlen; cases hlen
    rest_ne := nofun
    first_le := by rw [hlen]; decide
    rest_le := nofun }
  have hsafe := h reply d
  have hlarge : ¬ d.first.length ≤ sizeofRecvBuf := by
    show ¬ reply.bytes.length ≤ 256
    omega
  rw [recvFunc, if_neg hlarge] at hsafe
  cases hsafe

end JQServer
