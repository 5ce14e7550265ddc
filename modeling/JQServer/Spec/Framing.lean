import JQServer.ForStd.Chunks
import JQServer.Native.ClientPackets
import JQServer.Native.NetUpdate
import JQServer.Spec.Receiving

/-!
# Commands and the cuts of the stream

The server makes one job of what one `recv` returns, and the handler reads one
command at the start of the job's buffer. The message length in the header is never
read. So a packet is understood only if a `recv` starts at it and returns it all, but
for NULs at its end and the length word; a second packet in the same buffer is lost.
`dispatched_iff` says for which cuts of the stream every packet is dispatched.
-/

namespace JQServer

open CString (byteAt)

/-- The command that the handler dispatches for received bytes, if it is one it knows. -/
def dispatchedCommand (data : List UInt8) : Option Command :=
  match Command.ofBuffer (.ofBytes 1024 data) with
  | .other _ => none
  | cmd => some cmd

/-- The commands dispatched for the results of `recv` on one connection, one job for
    each, taken in queue order. `none` if the connection is closed, or `dumpInfo` writes
    past its buffer. -/
def dispatched (fd : Int) (conn : Nat) : List (List UInt8) → Option (List Command)
  | [] => some []
  | result :: results => do
    let data ← recvBufferFromFd (some result)
    let _ ← dumpInfo data
    let cmds ← dispatched fd conn results
    match Command.ofBuffer (JobParameter.received data fd conn).recvBuffer with
    | .other _ => some cmds
    | cmd => some (cmd :: cmds)

/-- The bytes hold all of the packet that the handler reads: what is missing is NUL, or
    in the message length. -/
def Packet.Covered (p : Packet) (data : List UInt8) : Prop :=
  ∀ i, data.length ≤ i → ¬ (4 ≤ i ∧ i < 8) → byteAt p.bytes i = 0

/-! ### Bytes of packets -/

/-- The low byte of the type of a message that has an answer. -/
def IsLead (b : UInt8) : Prop := b = 0xfb ∨ b = 0xfe ∨ b = 0xfd ∨ b = 0xf9

theorem IsLead.ne_zero {b : UInt8} (h : IsLead b) : b ≠ 0 := by
  rcases h with rfl | rfl | rfl | rfl <;> decide

theorem IsLead.ne_ff {b : UInt8} (h : IsLead b) : b ≠ 0xff := by
  rcases h with rfl | rfl | rfl | rfl <;> decide

theorem Packet.isLead_lead (p : Packet) : IsLead p.lead := by
  cases p <;> simp [IsLead, lead]

/-- The bytes of a header, in a buffer or a stream. -/
structure StartsHeader (bs : List UInt8) : Prop where
  lead : IsLead (byteAt bs 0)
  ff : byteAt bs 1 = 0xff
  type2 : byteAt bs 2 = 0
  type3 : byteAt bs 3 = 0
  len : ¬ (byteAt bs 4 = 0 ∧ byteAt bs 5 = 0)
  len1 : (byteAt bs 5).toNat ≤ 2
  len2 : byteAt bs 6 = 0
  len3 : byteAt bs 7 = 0

/-- A packet starts with a header. -/
theorem Packet.startsHeader (p : Packet) (tail : List UInt8) : StartsHeader (p.bytes ++ tail) := by
  have hlen := p.payload_length_le
  have hbyte : ∀ i < 8, byteAt (p.bytes ++ tail) i = byteAt p.header i := by
    intro i hi
    rw [p.bytes_eq, List.append_assoc, CString.byteAt_append_left (by simpa using hi)]
  -- The length has two bytes at most
  have h2 : (sizeofStJQMessage + p.payload.length) / 256 / 256 = 0 := by
    rw [sizeofStJQMessage]
    omega
  refine ⟨?_, ?_, ?_, ?_, ?_, ?_, ?_, ?_⟩
  · rw [hbyte 0 (by omega)]
    exact p.isLead_lead
  · rw [hbyte 1 (by omega)]
    rfl
  · rw [hbyte 2 (by omega)]
    rfl
  · rw [hbyte 3 (by omega)]
    rfl
  · rw [hbyte 4 (by omega), hbyte 5 (by omega)]
    rintro ⟨h4, h5⟩
    have h4 := congrArg UInt8.toNat
      (show (sizeofStJQMessage + p.payload.length).toUInt8 = 0 from h4)
    have h5 := congrArg UInt8.toNat
      (show ((sizeofStJQMessage + p.payload.length) / 256).toUInt8 = 0 from h5)
    simp only [Nat.toUInt8_eq, UInt8.toNat_ofNat', UInt8.toNat_zero, sizeofStJQMessage] at h4 h5
    omega
  · rw [hbyte 5 (by omega), show byteAt p.header 5 =
      ((sizeofStJQMessage + p.payload.length) / 256).toUInt8 from rfl]
    simp only [Nat.toUInt8_eq, UInt8.toNat_ofNat', sizeofStJQMessage]
    omega
  · rw [hbyte 6 (by omega), show byteAt p.header 6 =
      ((sizeofStJQMessage + p.payload.length) / 256 / 256).toUInt8 from rfl, h2]
    rfl
  · rw [hbyte 7 (by omega), show byteAt p.header 7 =
      ((sizeofStJQMessage + p.payload.length) / 256 / 256 / 256).toUInt8 from rfl, h2]
    rfl

/-- The bytes after the header. -/
theorem Packet.byteAt_payload (p : Packet) (tail : List UInt8) (i : Nat) :
    byteAt (p.bytes ++ tail) (8 + i) = byteAt (p.payload ++ tail) i := by
  have h := CString.byteAt_append_right p.header (p.payload ++ tail) i
  rwa [p.header_length, ← List.append_assoc, ← p.bytes_eq] at h

theorem Packet.bytes_length (p : Packet) : p.bytes.length = 8 + p.payload.length := by
  rw [p.bytes_eq, List.length_append, p.header_length]

/-! ### What the handler reads -/

/-- The bytes are the type of a message with low byte `lo`. -/
def HasType (data : List UInt8) (lo : UInt8) : Prop :=
  byteAt data 0 = lo ∧ byteAt data 1 = 0xff ∧ byteAt data 2 = 0 ∧ byteAt data 3 = 0

/-- The message type in a receive buffer. -/
private theorem iMessageType_eq_iff (data : List UInt8) (lo : UInt8) :
    leNat ((CharArray.ofBytes 1024 data).field 0 4).bytes = 0xff00 + lo.toNat ↔
      HasType data lo := by
  have hbyte : ∀ i < 4, byteAt ((CharArray.ofBytes 1024 data).field 0 4).bytes i =
      byteAt data i := by
    intro i hi
    rw [CharArray.byteAt_field hi, Nat.zero_add, CharArray.byteAt_ofBytes (by omega)]
  rw [leNat_four (CharArray.size_eq _), hbyte 0 (by omega), hbyte 1 (by omega),
    hbyte 2 (by omega), hbyte 3 (by omega)]
  have h0 := (byteAt data 0).toNat_lt
  have h1 := (byteAt data 1).toNat_lt
  have h2 := (byteAt data 2).toNat_lt
  have h3 := (byteAt data 3).toNat_lt
  have hlo := lo.toNat_lt
  simp only [HasType, ← UInt8.toNat_inj]
  have hff : (0xff : UInt8).toNat = 255 := rfl
  have hz : (0 : UInt8).toNat = 0 := rfl
  rw [hff, hz]
  omega

/-- The handler knows a command by the first bytes. -/
theorem dispatchedCommand_some {data : List UInt8} {cmd : Command}
    (h : dispatchedCommand data = some cmd) : IsLead (byteAt data 0) := by
  simp only [dispatchedCommand, Command.ofBuffer] at h
  by_cases h1 : leNat ((CharArray.ofBytes 1024 data).field 0 4).bytes = cmdHandshake
  · exact .inl ((iMessageType_eq_iff data 0xfb).mp h1).1
  · by_cases h2 : leNat ((CharArray.ofBytes 1024 data).field 0 4).bytes = cmdSendUI
    · exact .inr (.inl ((iMessageType_eq_iff data 0xfe).mp h2).1)
    · by_cases h3 : leNat ((CharArray.ofBytes 1024 data).field 0 4).bytes = cmdGetRemote
      · exact .inr (.inr (.inl ((iMessageType_eq_iff data 0xfd).mp h3).1))
      · by_cases h4 : leNat ((CharArray.ofBytes 1024 data).field 0 4).bytes = cmdGetAllUser
        · exact .inr (.inr (.inr ((iMessageType_eq_iff data 0xf9).mp h4).1))
        · rw [if_neg h1, if_neg h2, if_neg h3, if_neg h4] at h
          exact nomatch h

/-- A string field of a message, as the handler reads it. -/
private theorem field_eq_iff {k offset : Nat} (data : List UInt8) (x : CStr k)
    (hoff : offset + k ≤ 1024) :
    (CharArray.ofBytes 1024 data).field offset k = .ofBytes k x.chars ↔
      ∀ i < k, byteAt data (offset + i) = byteAt (CharArray.ofBytes k x.chars).bytes i := by
  have hbyte : ∀ i < k, byteAt ((CharArray.ofBytes 1024 data).field offset k).bytes i =
      byteAt data (offset + i) := by
    intro i hi
    rw [CharArray.byteAt_field hi, CharArray.byteAt_ofBytes (by omega)]
  constructor
  · intro h i hi
    rw [← hbyte i hi, h]
  · intro h
    exact CharArray.ext_byteAt fun i hi => by rw [hbyte i hi, h i hi]

/-- The two fields of a user message are read exactly if its payload is there. -/
private theorem user_fields_iff (data : List UInt8) (u : CStr 10) (w : CStr 7) :
    ((CharArray.ofBytes 1024 data).field 8 10 = .ofBytes 10 u.chars ∧
      (CharArray.ofBytes 1024 data).field 18 7 = .ofBytes 7 w.chars) ↔
      ∀ i < 17, byteAt data (8 + i) = byteAt ((CharArray.ofBytes 10 u.chars).bytes ++
        (CharArray.ofBytes 7 w.chars).bytes) i := by
  have h10 : (CharArray.ofBytes 10 u.chars).bytes.length = 10 := CharArray.size_eq _
  have hleft : ∀ i < 10, byteAt ((CharArray.ofBytes 10 u.chars).bytes ++
      (CharArray.ofBytes 7 w.chars).bytes) i = byteAt (CharArray.ofBytes 10 u.chars).bytes i :=
    fun i hi => CString.byteAt_append_left (by omega)
  have hright : ∀ i, byteAt ((CharArray.ofBytes 10 u.chars).bytes ++
      (CharArray.ofBytes 7 w.chars).bytes) (10 + i) =
        byteAt (CharArray.ofBytes 7 w.chars).bytes i := fun i => by
    have := CString.byteAt_append_right (CharArray.ofBytes 10 u.chars).bytes
      (CharArray.ofBytes 7 w.chars).bytes i
    rwa [h10] at this
  rw [field_eq_iff data u (by omega), field_eq_iff data w (by omega)]
  constructor
  · rintro ⟨hu, hw⟩ i hi
    by_cases hi10 : i < 10
    · rw [hleft i hi10, hu i hi10]
    · obtain ⟨j, rfl⟩ := Nat.exists_eq_add_of_le (Nat.not_lt.mp hi10)
      rw [hright, ← hw j (by omega), ← Nat.add_assoc]
  · intro h
    constructor
    · intro i hi
      rw [h i (by omega), hleft i hi]
    · intro i hi
      rw [← hright i, ← h (10 + i) (by omega), ← Nat.add_assoc]

/-- The handler dispatches the command of a packet exactly if it finds the type and the
    payload of the packet. -/
theorem dispatchedCommand_eq_iff (p : Packet) (data : List UInt8) :
    dispatchedCommand data = some p.command ↔ HasType data p.lead ∧
      ∀ i < p.payload.length, byteAt data (8 + i) = byteAt p.payload i := by
  simp only [dispatchedCommand, Command.ofBuffer, ← iMessageType_eq_iff]
  -- A branch of the `switch` for each type, and in it only the packet of this type
  generalize leNat ((CharArray.ofBytes 1024 data).field 0 4).bytes = t
  by_cases h1 : t = cmdHandshake
  · rw [if_pos h1, h1]
    cases p with
    | handshake g =>
      have hg := g.fits
      have hbyte : ∀ i ≤ g.chars.length, byteAt ((CharArray.ofBytes 1024 data).bytes.drop 8) i =
          byteAt data (8 + i) := by
        intro i hi
        rw [CString.byteAt_drop, CharArray.byteAt_ofBytes (by omega)]
      have hpay : ∀ i, byteAt (g.chars ++ [0]) i = byteAt g.chars i :=
        fun i => CString.byteAt_append_replicate g.chars 1 i
      have htype : cmdHandshake = 0xff00 + (0xfb : UInt8).toNat := rfl
      simp only [Packet.command, Packet.lead, Packet.payload, Option.some.injEq, htype,
        Command.handshake.injEq, sizeofStJQMessage, CString.str_eq_iff g.nulFree, true_and,
        List.length_append, List.length_singleton, hpay, Nat.lt_succ_iff]
      exact forall₂_congr fun i hi => by rw [hbyte i hi]
    | sendUI | getRemote | getAllUser =>
      refine iff_of_false (by rintro ⟨⟩) fun h => ?_
      simp only [Packet.lead] at h
      exact absurd h.1 (by decide)
  · rw [if_neg h1]
    by_cases h2 : t = cmdSendUI
    · rw [if_pos h2, h2]
      cases p with
      | sendUI u w =>
        have htype : cmdSendUI = 0xff00 + (0xfe : UInt8).toNat := rfl
        simp only [Packet.command, Packet.lead, Packet.payload, Option.some.injEq, htype,
          Command.sendUI.injEq, SendUIMessage.ofBuffer, SendUIMessage.mk.injEq,
          sizeofStJQMessage, true_and, List.length_append, CharArray.size_eq]
        exact user_fields_iff data u w
      | handshake | getRemote | getAllUser =>
        refine iff_of_false (by rintro ⟨⟩) fun h => ?_
        simp only [Packet.lead] at h
        exact absurd h.1 (by decide)
    · rw [if_neg h2]
      by_cases h3 : t = cmdGetRemote
      · rw [if_pos h3, h3]
        cases p with
        | getRemote u w =>
          have htype : cmdGetRemote = 0xff00 + (0xfd : UInt8).toNat := rfl
          simp only [Packet.command, Packet.lead, Packet.payload, Option.some.injEq, htype,
            Command.getRemote.injEq, GetRemoteMessage.mk.injEq, sizeofStJQMessage, true_and,
            List.length_append, CharArray.size_eq]
          exact user_fields_iff data u w
        | handshake | sendUI | getAllUser =>
          refine iff_of_false (by rintro ⟨⟩) fun h => ?_
          simp only [Packet.lead] at h
          exact absurd h.1 (by decide)
      · rw [if_neg h3]
        by_cases h4 : t = cmdGetAllUser
        · rw [if_pos h4, h4]
          cases p with
          | getAllUser => exact iff_of_true rfl ⟨rfl, by rintro _ ⟨⟩⟩
          | handshake | sendUI | getRemote =>
            refine iff_of_false (by rintro ⟨⟩) fun h => ?_
            simp only [Packet.lead] at h
            exact absurd h.1 (by decide)
        · rw [if_neg h4]
          refine iff_of_false (by rintro ⟨⟩) fun h => ?_
          cases p
          · exact h1 h.1
          · exact h2 h.1
          · exact h3 h.1
          · exact h4 h.1

/-! ### A packet that is read from its start -/

/-- The type of a packet in a stream. -/
private theorem Packet.hasType (p : Packet) (tail : List UInt8) :
    HasType (p.bytes ++ tail) p.lead := by
  have hbyte : ∀ i < 8, byteAt (p.bytes ++ tail) i = byteAt p.header i := by
    intro i hi
    rw [p.bytes_eq, List.append_assoc, CString.byteAt_append_left (by simpa using hi)]
  exact ⟨hbyte 0 (by omega), hbyte 1 (by omega), hbyte 2 (by omega), hbyte 3 (by omega)⟩

/-- The command that the handler finds in a packet. -/
theorem Packet.ofBuffer_bytes (p : Packet) :
    Command.ofBuffer (CharArray.ofBytes 1024 p.bytes) = p.command := by
  have htype := p.hasType []
  have hpay := p.byteAt_payload []
  simp only [List.append_nil] at htype hpay
  have h := (dispatchedCommand_eq_iff p p.bytes).mpr ⟨htype, fun i _ => hpay i⟩
  unfold dispatchedCommand at h
  split at h
  · cases h
  · exact Option.some.inj h

/-- The start of a packet decodes to it exactly if it holds all that is read. -/
private theorem head_iff (p : Packet) (h z : List UInt8) (hbytes : p.bytes = h ++ z) :
    dispatchedCommand h = some p.command ↔ p.Covered h := by
  have hpre : ∀ i < h.length, byteAt h i = byteAt p.bytes i := fun i hi => by
    rw [hbytes, CString.byteAt_append_left hi]
  have hpay : ∀ i, byteAt p.bytes (8 + i) = byteAt p.payload i := fun i => by
    simpa using p.byteAt_payload [] i
  have htype : HasType p.bytes p.lead := by simpa using p.hasType []
  rw [dispatchedCommand_eq_iff]
  constructor
  · rintro ⟨⟨h0, h1, h2, h3⟩, hall⟩ i hi hlen
    have hzero : byteAt h i = 0 := CString.byteAt_of_length_le hi
    rw [← hzero]
    -- A byte that is missing was read as NUL, so it is NUL in the packet
    by_cases hi8 : i < 8
    · obtain rfl | rfl | rfl | rfl : i = 0 ∨ i = 1 ∨ i = 2 ∨ i = 3 := by omega
      · exact htype.1.trans h0.symm
      · exact htype.2.1.trans h1.symm
      · exact htype.2.2.1.trans h2.symm
      · exact htype.2.2.2.trans h3.symm
    · obtain ⟨j, rfl⟩ := Nat.exists_eq_add_of_le (Nat.not_lt.mp hi8)
      rw [hpay]
      by_cases hj : j < p.payload.length
      · exact (hall j hj).symm
      · rw [hzero]
        exact CString.byteAt_of_length_le (Nat.not_lt.mp hj)
  · intro hcov
    -- Outside of the length all bytes that are read agree
    have hsame : ∀ i, ¬ (4 ≤ i ∧ i < 8) → byteAt h i = byteAt p.bytes i := by
      intro i hi
      by_cases hlt : i < h.length
      · exact hpre i hlt
      · rw [hcov i (Nat.not_lt.mp hlt) hi]
        exact CString.byteAt_of_length_le (Nat.not_lt.mp hlt)
    refine ⟨⟨?_, ?_, ?_, ?_⟩, fun i _ => by rw [hsame _ (by omega), hpay]⟩
    · rw [hsame 0 (by omega)]; exact htype.1
    · rw [hsame 1 (by omega)]; exact htype.2.1
    · rw [hsame 2 (by omega)]; exact htype.2.2.1
    · rw [hsame 3 (by omega)]; exact htype.2.2.2

/-- A packet whose payload is NUL is short. -/
private theorem Packet.len_of_payload_zero {p : Packet} (h : ∀ i, byteAt p.payload i = 0) :
    ¬ IsLead (byteAt p.bytes 4) := by
  have hlen : byteAt p.bytes 4 = (sizeofStJQMessage + p.payload.length).toUInt8 := by
    rw [p.bytes_eq, CString.byteAt_append_left (by simp)]
    rfl
  rw [hlen]
  cases p with
  | handshake g =>
    have hg : g.chars = [] := by
      by_contra hne
      have hpos := List.length_pos_iff.mpr hne
      refine CString.byteAt_ne_zero g.nulFree hpos ?_
      rw [← CString.byteAt_append_replicate g.chars 1]
      exact h 0
    simp only [payload, hg, List.nil_append, List.length_singleton, sizeofStJQMessage]
    rintro (h | h | h | h) <;> exact absurd h (by decide)
  | sendUI | getRemote =>
    simp only [payload, List.length_append, CharArray.size_eq, sizeofStJQMessage]
    rintro (h | h | h | h) <;> exact absurd h (by decide)
  | getAllUser => rintro (h | h | h | h) <;> exact absurd h (by decide)

/-- What follows the start of a packet that was understood is no command. -/
private theorem rest_none (p : Packet) (ps : List Packet) (h x z c r : List UInt8)
    (hbytes : p.bytes = h ++ (x ++ z)) (hcov : p.Covered h) (hz : z ≠ []) (hc : c ≠ [])
    (hcut : c ++ r = z ++ Chunks.stream Packet.bytes ps) : dispatchedCommand c = none := by
  have hstart := p.startsHeader []
  rw [List.append_nil] at hstart
  -- The first byte of the chunk is one of the packet's
  have hbyte : byteAt c 0 = byteAt p.bytes (h.length + x.length) := by
    have h1 : byteAt (c ++ r) 0 = byteAt c 0 :=
      CString.byteAt_append_left (List.length_pos_iff.mpr hc)
    have h2 : byteAt (z ++ Chunks.stream Packet.bytes ps) 0 = byteAt z 0 :=
      CString.byteAt_append_left (List.length_pos_iff.mpr hz)
    have h3 := CString.byteAt_append_right (h ++ x) z 0
    rw [List.length_append, Nat.add_zero, List.append_assoc, ← hbytes] at h3
    rw [← h1, hcut, h2, h3]
  have hnot : ¬ IsLead (byteAt c 0) := by
    rw [hbyte]
    generalize ho : h.length + x.length = o
    by_cases hlen : 4 ≤ o ∧ o < 8
    · obtain rfl | rfl | rfl | rfl : o = 4 ∨ o = 5 ∨ o = 6 ∨ o = 7 := by omega
      · refine Packet.len_of_payload_zero fun i => ?_
        have hpay := p.byteAt_payload [] i
        rw [List.append_nil, List.append_nil] at hpay
        rw [← hpay]
        exact hcov (8 + i) (by omega) (by omega)
      · intro hlead
        have := hstart.len1
        rcases hlead with h | h | h | h <;> rw [h] at this <;> exact absurd this (by decide)
      · exact fun hlead => hlead.ne_zero hstart.len2
      · exact fun hlead => hlead.ne_zero hstart.len3
    · exact fun hlead => hlead.ne_zero (hcov o (by omega) hlen)
  cases hd : dispatchedCommand c with
  | none => rfl
  | some cmd => exact absurd (dispatchedCommand_some hd) hnot

/-! ### A packet whose start is lost -/

/-- Past the end of a C string in its array there are NULs only. -/
private theorem byteAt_mono {k : Nat} (x : CStr k) {i j : Nat} (hij : i ≤ j)
    (h : byteAt x.chars i = 0) : byteAt x.chars j = 0 := by
  refine CString.byteAt_of_length_le (Nat.le_trans ?_ hij)
  by_contra hlt
  exact CString.byteAt_ne_zero x.nulFree (Nat.not_le.mp hlt) h

/-- An array has a NUL at its end. -/
private theorem byteAt_last {k : Nat} (x : CStr (k + 1)) : byteAt x.chars k = 0 :=
  CString.byteAt_of_length_le (Nat.le_of_lt_succ x.fits)

/-- A stream that has a byte starts with a header. -/
private theorem stream_startsHeader {ps : List Packet} {i : Nat}
    (h : byteAt (Chunks.stream Packet.bytes ps) i ≠ 0) :
    StartsHeader (Chunks.stream Packet.bytes ps) := by
  cases ps with
  | nil => exact absurd (CString.byteAt_nil i) h
  | cons q qs => exact q.startsHeader _

/-- After six NULs where a payload starts, its seventh byte is NUL, or there is none. -/
private theorem payload_byte6 (q : Packet) (qs : List Packet)
    (h : ∀ i ≤ 5, byteAt (q.payload ++ Chunks.stream Packet.bytes qs) i = 0) :
    byteAt (q.payload ++ Chunks.stream Packet.bytes qs) 6 = 0 := by
  by_contra h6
  cases q with
  | getAllUser =>
    simp only [Packet.payload, List.nil_append] at h h6
    exact (stream_startsHeader h6).lead.ne_zero (h 0 (by omega))
  | handshake g =>
    -- The greeting is empty, so its NUL is followed by the next packet
    have hg : g.chars = [] := by
      by_contra hne
      have hpos := List.length_pos_iff.mpr hne
      refine CString.byteAt_ne_zero g.nulFree hpos ?_
      rw [← h 0 (by omega), Packet.payload, List.append_assoc, CString.byteAt_append_left hpos]
    simp only [Packet.payload, hg, List.nil_append, List.singleton_append] at h h6
    rw [CString.byteAt_cons_succ] at h6
    exact (stream_startsHeader h6).lead.ne_zero (h 1 (by omega))
  | sendUI u w | getRemote u w =>
    -- The user id ends at its first NUL
    have hbyte : ∀ i < 10, byteAt (Packet.payload (.sendUI u w) ++
        Chunks.stream Packet.bytes qs) i = byteAt u.chars i := by
      intro i hi
      rw [Packet.payload, List.append_assoc,
        CString.byteAt_append_left (by rw [CharArray.size_eq]; exact hi),
        CharArray.byteAt_ofBytes hi]
    refine h6 ((hbyte 6 (by omega)).trans (byteAt_mono u (Nat.zero_le 6) ?_))
    rw [← hbyte 0 (by omega)]
    exact h 0 (by omega)

/-- A chunk that starts in the greeting of a handshake is not this handshake. -/
private theorem handshake_inside {g : CStr 504} {ps : List Packet} {c : List UInt8} {y : Nat}
    (hy : y < g.chars.length + 1)
    (hget : ∀ i < c.length, byteAt c i =
      byteAt (g.chars ++ [0] ++ Chunks.stream Packet.bytes ps) (y + i))
    (htype : HasType c 0xfb) (hpay : ∀ i < g.chars.length + 1,
      byteAt c (8 + i) = byteAt (g.chars ++ [0]) i) : False := by
  obtain ⟨h0, h1, h2, h3⟩ := htype
  have hnul : ∀ i, byteAt (g.chars ++ [0]) i = byteAt g.chars i :=
    fun i => CString.byteAt_append_replicate g.chars 1 i
  have hbyte : ∀ i < g.chars.length + 1,
      byteAt (g.chars ++ [0] ++ Chunks.stream Packet.bytes ps) i = byteAt g.chars i := by
    intro i hi
    rw [CString.byteAt_append_left (by simpa using hi), hnul]
  have hmem : ∀ i, byteAt g.chars i ≠ 0 → i < g.chars.length :=
    fun i => CString.lt_length_of_byteAt_ne
  have hc1 : 1 < c.length := CString.lt_length_of_byteAt_ne (by rw [h1]; decide)
  have hy0 : byteAt g.chars y ≠ 0 := by
    rw [← hbyte y hy, ← Nat.add_zero y, ← hget 0 (by omega), h0]
    decide
  have hylt := hmem y hy0
  have hy1 : byteAt g.chars (y + 1) ≠ 0 := by
    rw [← hbyte (y + 1) (by omega), ← hget 1 hc1, h1]
    decide
  have hy1lt := hmem (y + 1) hy1
  -- The greeting is not empty, so its first byte follows in the chunk
  have hc8 : 8 < c.length := by
    refine CString.lt_length_of_byteAt_ne ?_
    rw [← Nat.add_zero 8, hpay 0 (by omega), hnul]
    exact CString.byteAt_ne_zero g.nulFree (by omega)
  have hy2 : g.chars.length = y + 2 := by
    by_contra hne
    refine CString.byteAt_ne_zero g.nulFree (show y + 2 < g.chars.length by omega) ?_
    rw [← hbyte (y + 2) (by omega), ← hget 2 (by omega), h2]
  -- Behind the greeting's NUL the type of the next packet would have to be NUL
  have hnext : ∀ j, 3 + j < c.length →
      byteAt c (3 + j) = byteAt (Chunks.stream Packet.bytes ps) j := by
    intro j hj
    have h := CString.byteAt_append_right (g.chars ++ [0]) (Chunks.stream Packet.bytes ps) j
    rw [hget (3 + j) hj, ← h, List.length_append, List.length_singleton]
    congr 1
    omega
  have hstream : byteAt (Chunks.stream Packet.bytes ps) 5 ≠ 0 := by
    rw [← hnext 5 hc8, show 3 + 5 = 8 + 0 from rfl, hpay 0 (by omega), hnul]
    exact CString.byteAt_ne_zero g.nulFree (by omega)
  refine (stream_startsHeader hstream).lead.ne_zero ?_
  rw [← hnext 0 (by omega), ← h3]

/-- A chunk `c` that starts at byte `y` of the payload of a user message and seems to be this
    message: its bytes are those of the user id, the password and the next packets, and those
    from byte 8 on are the user id and the password again. -/
private structure UserInside (u : CStr 10) (w : CStr 7) (ps : List Packet) (c : List UInt8)
    (y : Nat) (lo : UInt8) : Prop where
  lo_ne : lo ≠ 0
  type : HasType c lo
  userId : ∀ i < c.length, y + i < 10 → byteAt c i = byteAt u.chars (y + i)
  passwd : ∀ i < c.length, ∀ k < 7, y + i = 10 + k → byteAt c i = byteAt w.chars k
  next : ∀ i < c.length, ∀ k, y + i = 17 + k →
    byteAt c i = byteAt (Chunks.stream Packet.bytes ps) k
  ownUserId : ∀ i < 10, byteAt c (8 + i) = byteAt u.chars i
  ownPasswd : ∀ i < 7, byteAt c (18 + i) = byteAt w.chars i

section UserInside

variable {u : CStr 10} {w : CStr 7} {ps : List Packet} {c : List UInt8} {y : Nat} {lo : UInt8}

/-- The bytes of such a chunk, by the fields they come from. -/
private theorem userInside_of_get (hlo : lo ≠ 0)
    (hget : ∀ i < c.length, byteAt c i = byteAt ((CharArray.ofBytes 10 u.chars).bytes ++
      (CharArray.ofBytes 7 w.chars).bytes ++ Chunks.stream Packet.bytes ps) (y + i))
    (htype : HasType c lo)
    (hpay : ∀ i < 17, byteAt c (8 + i) = byteAt ((CharArray.ofBytes 10 u.chars).bytes ++
      (CharArray.ofBytes 7 w.chars).bytes) i) : UserInside u w ps c y lo := by
  have hlen10 : (CharArray.ofBytes 10 u.chars).bytes.length = 10 := CharArray.size_eq _
  have hlen7 : (CharArray.ofBytes 7 w.chars).bytes.length = 7 := CharArray.size_eq _
  exact {
    lo_ne := hlo
    type := htype
    userId := by
      intro i hi hy
      rw [hget i hi, List.append_assoc, CString.byteAt_append_left (by omega),
        CharArray.byteAt_ofBytes hy]
    passwd := by
      intro i hi k hk hy
      have h := CString.byteAt_append_right (CharArray.ofBytes 10 u.chars).bytes
        ((CharArray.ofBytes 7 w.chars).bytes ++ Chunks.stream Packet.bytes ps) k
      rw [hlen10] at h
      rw [hget i hi, hy, List.append_assoc, h, CString.byteAt_append_left (by omega),
        CharArray.byteAt_ofBytes hk]
    next := by
      intro i hi k hy
      have h := CString.byteAt_append_right ((CharArray.ofBytes 10 u.chars).bytes ++
        (CharArray.ofBytes 7 w.chars).bytes) (Chunks.stream Packet.bytes ps) k
      rw [List.length_append, hlen10, hlen7] at h
      rw [hget i hi, hy, h]
    ownUserId := by
      intro i hi
      rw [hpay i (by omega), CString.byteAt_append_left (by omega), CharArray.byteAt_ofBytes hi]
    ownPasswd := by
      intro i hi
      have h := CString.byteAt_append_right (CharArray.ofBytes 10 u.chars).bytes
        (CharArray.ofBytes 7 w.chars).bytes i
      rw [hlen10, CharArray.byteAt_ofBytes hi, ← hpay (10 + i) (by omega), ← Nat.add_assoc] at h
      exact h }

/-- It has a type. -/
private theorem UserInside.one_lt_length (h : UserInside u w ps c y lo) : 1 < c.length := by
  refine CString.lt_length_of_byteAt_ne ?_
  rw [h.type.2.1]
  decide

/-- If the password is not empty, the chunk goes on up to it. -/
private theorem UserInside.lt_length_of_passwd (h : UserInside u w ps c y lo) {k : Nat}
    (hk : byteAt w.chars k ≠ 0) : 18 < c.length ∧ byteAt c 18 ≠ 0 := by
  have h18 : byteAt c 18 ≠ 0 := by
    rw [← Nat.add_zero 18, h.ownPasswd 0 (by omega)]
    exact fun h0 => hk (byteAt_mono w (Nat.zero_le k) h0)
  exact ⟨CString.lt_length_of_byteAt_ne h18, h18⟩

/-- It does not start in the user id. -/
private theorem UserInside.not_userId (h : UserInside u w ps c y lo) (hy : y < 10) : False := by
  obtain ⟨h0, h1, h2, -⟩ := h.type
  have hc1 := h.one_lt_length
  have hu9 := byteAt_last u
  have huy : byteAt u.chars y ≠ 0 := by
    have hread := h.userId 0 (by omega) hy
    rw [h0, Nat.add_zero] at hread
    exact hread ▸ h.lo_ne
  -- Both bytes of the type are before the NUL of the user id
  have hy7 : y ≤ 7 := by
    by_contra hgt
    obtain rfl | rfl : y = 8 ∨ y = 9 := by omega
    · rw [h.userId 1 hc1 (by omega), hu9] at h1
      exact absurd h1 (by decide)
    · exact huy hu9
  have hc8 : byteAt c 8 ≠ 0 := by
    rw [← Nat.add_zero 8, h.ownUserId 0 (by omega)]
    exact fun hu0 => huy (byteAt_mono u (Nat.zero_le y) hu0)
  have hlt8 : 8 < c.length := CString.lt_length_of_byteAt_ne hc8
  obtain rfl | rfl | hy2 : y = 0 ∨ y = 1 ∨ 2 ≤ y := by omega
  · -- The third byte of the type is NUL, so byte 8 of the user id is
    rw [h.userId 8 hlt8 (by omega)] at hc8
    refine hc8 (byteAt_mono u (show 2 ≤ 0 + 8 by omega) ?_)
    rw [← Nat.zero_add 2, ← h.userId 2 (by omega) (by omega), h2]
  · rw [h.userId 8 hlt8 (by omega)] at hc8
    exact hc8 hu9
  · -- The chunk goes on with the password and the next packet
    obtain ⟨k, rfl⟩ := Nat.exists_eq_add_of_le hy2
    rw [h.passwd 8 hlt8 k (by omega) (by omega)] at hc8
    obtain ⟨hlt18, hc18⟩ := h.lt_length_of_passwd hc8
    rw [h.next 18 hlt18 (k + 3) (by omega)] at hc18
    -- The NUL of the password and the next packet would both be in the user id
    have hzero : byteAt u.chars (6 - k) = 0 := by
      rw [← h.ownUserId (6 - k) (by omega), h.passwd _ (by omega) 6 (by omega) (by omega)]
      exact byteAt_last w
    have hlead : byteAt u.chars (7 - k) = byteAt (Chunks.stream Packet.bytes ps) 0 := by
      rw [← h.ownUserId (7 - k) (by omega), h.next _ (by omega) 0 (by omega)]
    exact (stream_startsHeader hc18).lead.ne_zero
      (hlead.symm.trans (byteAt_mono u (by omega) hzero))

/-- It does not start in the password. -/
private theorem UserInside.not_passwd {k : Nat} (h : UserInside u w ps c (10 + k) lo) (hk : k < 7) :
    False := by
  obtain ⟨h0, h1, -, h3⟩ := h.type
  have hc1 := h.one_lt_length
  have hw6 := byteAt_last w
  have hwk : byteAt w.chars k ≠ 0 := by
    have hread := h.passwd 0 (by omega) k hk rfl
    rw [h0] at hread
    exact hread ▸ h.lo_ne
  -- Both bytes of the type are before the NUL of the password
  have hk4 : k ≤ 4 := by
    by_contra hgt
    obtain rfl | rfl : k = 5 ∨ k = 6 := by omega
    · rw [h.passwd 1 hc1 6 (by omega) rfl, hw6] at h1
      exact absurd h1 (by decide)
    · exact hwk hw6
  obtain ⟨hlt18, hlast⟩ := h.lt_length_of_passwd hwk
  rw [h.next 18 hlt18 (k + 11) (by omega)] at hlast
  have hstart := stream_startsHeader hlast
  -- The user id would be bytes of the next packet, which has a NUL in its type
  have huser : ∀ i < 10, byteAt u.chars i =
      byteAt (Chunks.stream Packet.bytes ps) (k + 1 + i) := by
    intro i hi
    rw [← h.ownUserId i hi, h.next (8 + i) (by omega) (k + 1 + i) (by omega)]
  have hlen : ∀ i, i + k ≤ 3 → byteAt u.chars i ≠ 0 := by
    intro i hik hi
    have h4 := huser (3 - k) (by omega)
    have h5 := huser (4 - k) (by omega)
    rw [byteAt_mono u (show i ≤ 3 - k by omega) hi, show k + 1 + (3 - k) = 4 by omega] at h4
    rw [byteAt_mono u (show i ≤ 4 - k by omega) hi, show k + 1 + (4 - k) = 5 by omega] at h5
    exact hstart.len ⟨h4.symm, h5.symm⟩
  obtain rfl | rfl | rfl | rfl | rfl : k = 0 ∨ k = 1 ∨ k = 2 ∨ k = 3 ∨ k = 4 := by omega
  · exact hlen 1 (by omega) ((huser 1 (by omega)).trans hstart.type2)
  · exact hlen 0 (by omega) ((huser 0 (by omega)).trans hstart.type2)
  · exact hlen 0 (by omega) ((huser 0 (by omega)).trans hstart.type3)
  · -- The user id ends in the length, so the payload of the next packet starts with NULs
    have hu2 : byteAt u.chars 2 = 0 := (huser 2 (by omega)).trans hstart.len2
    cases ps with
    | nil => exact hlast (CString.byteAt_nil _)
    | cons q qs =>
      refine hlast ((q.byteAt_payload _ 6).trans (payload_byte6 q qs fun i hi => ?_))
      rw [← q.byteAt_payload _ i, ← byteAt_mono u (show 2 ≤ 4 + i by omega) hu2,
        huser (4 + i) (by omega)]
      congr 1
      omega
  · -- The type of the next packet would start with the last byte of this one
    exact hstart.lead.ne_zero ((h.next 3 (by omega) 0 rfl).symm.trans h3)

/-- A chunk that starts in the payload of a user message is not this message. -/
private theorem user_inside (hy : y < 17) (hlo : lo ≠ 0)
    (hget : ∀ i < c.length, byteAt c i = byteAt ((CharArray.ofBytes 10 u.chars).bytes ++
      (CharArray.ofBytes 7 w.chars).bytes ++ Chunks.stream Packet.bytes ps) (y + i))
    (htype : HasType c lo)
    (hpay : ∀ i < 17, byteAt c (8 + i) = byteAt ((CharArray.ofBytes 10 u.chars).bytes ++
      (CharArray.ofBytes 7 w.chars).bytes) i) : False := by
  have h := userInside_of_get hlo hget htype hpay
  by_cases hy10 : y < 10
  · exact h.not_userId hy10
  · obtain ⟨k, rfl⟩ := Nat.exists_eq_add_of_le (Nat.not_lt.mp hy10)
    exact h.not_passwd (by omega)

end UserInside

/-- A chunk that starts inside a packet does not decode to this packet. -/
private theorem inside_ne (p : Packet) (ps : List Packet) (a b c r : List UInt8)
    (hbytes : p.bytes = a ++ b) (ha : a ≠ []) (hb : b ≠ [])
    (hcut : c ++ r = b ++ Chunks.stream Packet.bytes ps) :
    dispatchedCommand c ≠ some p.command := by
  intro hd
  obtain ⟨⟨h0, h1, h2, h3⟩, hpay⟩ := (dispatchedCommand_eq_iff p c).mp hd
  have hstart := p.startsHeader (Chunks.stream Packet.bytes ps)
  have hlead := p.isLead_lead
  have hc1 : 1 < c.length := CString.lt_length_of_byteAt_ne (by rw [h1]; decide)
  have hget : ∀ i < c.length, byteAt c i =
      byteAt (p.bytes ++ Chunks.stream Packet.bytes ps) (a.length + i) := by
    intro i hi
    rw [hbytes, List.append_assoc, CString.byteAt_append_right, ← hcut,
      CString.byteAt_append_left hi]
  have hapos := List.length_pos_iff.mpr ha
  have hbpos := List.length_pos_iff.mpr hb
  have halen : a.length < 8 + p.payload.length := by
    rw [← p.bytes_length, hbytes, List.length_append]
    omega
  -- The chunk starts at offset `o` of the packet, with the bytes of a type
  generalize a.length = o at hget hapos halen
  have ho0 : byteAt (p.bytes ++ Chunks.stream Packet.bytes ps) o = p.lead := by
    rw [← h0, hget 0 (by omega), Nat.add_zero]
  have ho1 : byteAt (p.bytes ++ Chunks.stream Packet.bytes ps) (o + 1) = 0xff := by
    rw [← h1, hget 1 hc1]
  by_cases ho8 : o < 8
  · -- No byte of a header is followed by 0xff but the first
    have hlen1 : (0xff : UInt8).toNat = 255 := rfl
    obtain rfl | rfl | rfl | rfl | rfl | rfl | rfl :
        o = 1 ∨ o = 2 ∨ o = 3 ∨ o = 4 ∨ o = 5 ∨ o = 6 ∨ o = 7 := by omega
    · exact hlead.ne_ff (ho0.symm.trans hstart.ff)
    · exact hlead.ne_zero (ho0.symm.trans hstart.type2)
    · exact hlead.ne_zero (ho0.symm.trans hstart.type3)
    · have := hstart.len1
      rw [ho1, hlen1] at this
      omega
    · exact absurd (ho1.symm.trans hstart.len2) (by decide)
    · exact hlead.ne_zero (ho0.symm.trans hstart.len2)
    · exact hlead.ne_zero (ho0.symm.trans hstart.len3)
  · -- It starts in the payload
    obtain ⟨y, rfl⟩ := Nat.exists_eq_add_of_le (Nat.not_lt.mp ho8)
    have hy : y < p.payload.length := by omega
    have hpayget : ∀ i < c.length, byteAt c i =
        byteAt (p.payload ++ Chunks.stream Packet.bytes ps) (y + i) := by
      intro i hi
      rw [hget i hi, Nat.add_assoc, p.byteAt_payload]
    cases p with
    | handshake g =>
      simp only [Packet.payload, List.length_append, List.length_singleton] at hy hpay hpayget
      exact handshake_inside hy hpayget ⟨h0, h1, h2, h3⟩ hpay
    | sendUI u w | getRemote u w =>
      simp only [Packet.payload, List.length_append, CharArray.size_eq] at hy hpay hpayget
      exact user_inside hy hlead.ne_zero hpayget ⟨h0, h1, h2, h3⟩ hpay
    | getAllUser => cases hy

/-! ### Runs of one connection -/

/-- The client's packets and what the server does with a chunk. -/
theorem packetCodec :
    Chunks.Codec Packet.bytes Packet.Covered Packet.command dispatchedCommand where
  nonempty p h := by
    have := p.bytes_length
    rw [h, List.length_nil] at this
    omega
  empty := by
    cases hd : dispatchedCommand [] with
    | none => rfl
    | some cmd => exact absurd rfl (dispatchedCommand_some hd).ne_zero
  head := head_iff
  rest := rest_none
  inside := inside_ne

/-- The commands of a connection are those of its chunks, if `dumpInfo` stays in its
    buffer for each of them. -/
theorem dispatched_eq_some_iff (fd : Int) (conn : Nat) {cs : List (List UInt8)}
    {cmds : List Command} (hlt : ∀ c ∈ cs, c.length < bufLen) :
    dispatched fd conn cs = some cmds ↔
      (∀ c ∈ cs, c.length ≤ 63) ∧ cs.filterMap dispatchedCommand = cmds := by
  induction cs generalizing cmds with
  | nil => simp [dispatched]
  | cons c cs ih =>
    have hlt' : ∀ c ∈ cs, c.length < bufLen := fun c' hc' => hlt c' (List.mem_cons_of_mem c hc')
    have hrecv : recvBufferFromFd (some c) = some c := if_pos (hlt c List.mem_cons_self)
    have hdump : (dumpInfo c).isSome ↔ c.length ≤ 63 := dumpInfo_isSome_iff
    -- The first chunk is dumped and dispatched before the others
    have hstep : dispatched fd conn (c :: cs) =
        (dumpInfo c).bind fun _ => (dispatched fd conn cs).map fun cmds =>
          (dispatchedCommand c).toList ++ cmds := by
      simp only [dispatched, hrecv, Option.bind_eq_bind, Option.bind_some]
      refine congrArg _ (funext fun _ => ?_)
      cases dispatched fd conn cs with
      | none => rfl
      | some cmds =>
        simp only [dispatchedCommand, JobParameter.received, Option.bind_some, Option.map_some]
        cases Command.ofBuffer (CharArray.ofBytes 1024 c) <;> rfl
    have hcons : (c :: cs).filterMap dispatchedCommand =
        (dispatchedCommand c).toList ++ cs.filterMap dispatchedCommand := by
      cases hd : dispatchedCommand c with
      | none => rw [List.filterMap_cons_none hd, Option.toList_none, List.nil_append]
      | some cmd => rw [List.filterMap_cons_some hd, Option.toList_some, List.singleton_append]
    rw [hstep, hcons, List.forall_mem_cons, ← hdump]
    constructor
    · intro h
      obtain ⟨text, htext, h⟩ := Option.bind_eq_some_iff.mp h
      obtain ⟨cmds', hcs, rfl⟩ := Option.map_eq_some_iff.mp h
      obtain ⟨hall, rfl⟩ := (ih hlt').mp hcs
      exact ⟨⟨by rw [htext]; rfl, hall⟩, rfl⟩
    · rintro ⟨⟨htext, hall⟩, rfl⟩
      obtain ⟨text, htext⟩ := Option.isSome_iff_exists.mp htext
      rw [htext, Option.bind_some, (ih hlt').mpr ⟨hall, rfl⟩, Option.map_some]

/-- The commands dispatched for a connection are those of the packets sent on it exactly
    if every packet starts a `recv` result that holds all that is read of it, no result
    holds bytes of two packets, and none has more than 63 bytes. -/
theorem dispatched_iff (fd : Int) (conn : Nat) (ps : List Packet) (cs : List (List UInt8))
    (hne : ∀ c ∈ cs, c ≠ []) (hlt : ∀ c ∈ cs, c.length < bufLen)
    (hcut : cs.flatten = Chunks.stream Packet.bytes ps) :
    dispatched fd conn cs = some (ps.map Packet.command) ↔
      (∀ c ∈ cs, c.length ≤ 63) ∧ Chunks.Framed Packet.bytes Packet.Covered cs ps := by
  rw [dispatched_eq_some_iff fd conn hlt, packetCodec.filterMap_decode_eq_iff hne hcut]

/-- The user of the examples. -/
def userA : CStr 10 := ⟨[97], by decide, by decide⟩

def passwdB : CStr 7 := ⟨[98], by decide, by decide⟩

/-- A whole packet holds all that is read of it. -/
private theorem covered_bytes (p : Packet) : p.Covered p.bytes :=
  fun _ hi _ => CString.byteAt_of_length_le hi

/-- A login and a query, each in a `recv` of its own, are dispatched. -/
theorem dispatched_login_query :
    dispatched 5 0 [Packet.bytes (.sendUI userA passwdB), Packet.bytes .getAllUser] =
      some [Packet.command (.sendUI userA passwdB), Packet.command .getAllUser] := by
  have hne : ∀ c ∈ [Packet.bytes (.sendUI userA passwdB), Packet.bytes .getAllUser], c ≠ [] := by
    simp [packetCodec.nonempty]
  have hlen : ∀ c ∈ [Packet.bytes (.sendUI userA passwdB), Packet.bytes .getAllUser],
      c.length ≤ 63 := by
    simp [Packet.bytes_length, Packet.payload, CharArray.size_eq]
  exact (dispatched_iff 5 0 [.sendUI userA passwdB, .getAllUser]
    [Packet.bytes (.sendUI userA passwdB), Packet.bytes .getAllUser] hne
    (fun c hc => Nat.lt_of_le_of_lt (hlen c hc) (by decide)) (by simp)).mpr
      ⟨hlen, .cons (z := []) (by simp) (covered_bytes _)
        (.cons (z := []) (by simp) (covered_bytes _) .nil)⟩

/-- Two queries in one `recv` are dispatched once. -/
theorem dispatched_fails :
    ¬ ∀ (ps : List Packet) (cs : List (List UInt8)), (∀ c ∈ cs, c ≠ []) →
      (∀ c ∈ cs, c.length < bufLen) → cs.flatten = Chunks.stream Packet.bytes ps →
      dispatched 5 0 cs = some (ps.map Packet.command) := by
  intro h
  have hlen : (Packet.bytes .getAllUser ++ Packet.bytes .getAllUser).length = 16 := by
    simp [Packet.bytes_length, Packet.payload]
  have htwo := h [.getAllUser, .getAllUser] [Packet.bytes .getAllUser ++ Packet.bytes .getAllUser]
    (by simp [packetCodec.nonempty]) (by simp [hlen, bufLen]) (by simp)
  have hcmds := ((dispatched_eq_some_iff 5 0 (by simp [hlen, bufLen])).mp htwo).2
  -- One chunk is one command at most
  have hle := List.length_filterMap_le dispatchedCommand
    [Packet.bytes .getAllUser ++ Packet.bytes .getAllUser]
  rw [hcmds] at hle
  exact absurd hle (by decide)

end JQServer
