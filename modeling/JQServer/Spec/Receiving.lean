import JQServer.Native.Server
import JQServer.Native.SocketLoops

/-!
# Receiving a message

`recv_buffer_from_fd` is written as a loop that appends to the caller's buffer, but every
branch of it clears `read_continue`: it calls `recv` once. It returns 0 for fewer than
`BUFLEN` bytes; a `recv` that fills the buffer, or finds nothing to read and fails with
EAGAIN or EINTR, is taken for an error, and the event loop closes the connection.

What is received is dumped to the log by `dumpInfo`, two digits for a byte, into 128
bytes: a message of 64 bytes or more is printed beyond them.
-/

namespace JQServer

/-- No hard error: some bytes, at most as many as `recv` was asked for, or nothing yet. -/
def RecvOutcome.Healthy : RecvOutcome → Prop
  | .data bytes => 1 ≤ bytes.length ∧ bytes.length ≤ bufLen
  | .failed errno => errno ≠ .other

/-- A call that closes a connection or frees a slot. -/
def LoopOp.Drops : LoopOp → Prop
  | .free _ | .freeMatched _ | .close _ _ => True
  | _ => False

/-- `recv_buffer_from_fd` is finished, has stored no byte beyond the buffer, has returned 0
    with the number of bytes it read if it read any, and what it returned makes the event
    loop keep the connection and the slot. -/
structure RecvState.Kept (t : RecvState) (s : Server) (i : Fin maxEvents) (fd : Int) : Prop where
  finished : t.readContinue = false
  inside : t.recvBuffer.length = bufLen
  complete : t.received ≠ [] → t.rev = 0 ∧ t.recvLength = t.received.length
  kept : ∀ now conn, ∀ op ∈ s.receivedOps i fd now conn t.returned, ¬ op.Drops

variable {s : Server} {i : Fin maxEvents} {fd : Int} {bytes : List UInt8}

/-! ### `recv_buffer_from_fd` -/

/-- 0 is returned for fewer than `BUFLEN` bytes. -/
theorem recvBufferFromFd_eq_some {result : Option (List UInt8)} {data : List UInt8} :
    recvBufferFromFd result = some data ↔ result = some data ∧ data.length < bufLen := by
  cases result with
  | none => simp [recvBufferFromFd]
  | some bytes =>
    simp only [recvBufferFromFd, Option.ite_none_right_eq_some, Option.some.injEq]
    constructor
    · rintro ⟨hlt, rfl⟩
      exact ⟨rfl, hlt⟩
    · rintro ⟨rfl, hlt⟩
      exact ⟨hlt, rfl⟩

/-- The loop is over after its first `recv`. -/
private theorem recvLoop_first {start t : RecvState} {o : RecvOutcome}
    (hgo : start.readContinue = true)
    (h : start.round o = some t) (hover : t.readContinue = false) (os : List RecvOutcome) :
    start.loop (o :: os) = some t := by
  rw [RecvState.loop, if_pos hgo, h, Option.bind_some, RecvState.loop_done hover]

/-- A `recv` of at most `BUFLEN` bytes stores them at the start of the buffer. -/
private theorem recvBuffer_write (recvBuffer : CharArray 1024) (hle : bytes.length ≤ bufLen) :
    ∃ mem, Memory.write recvBuffer.bytes 0 bytes = some mem ∧ mem.length = bufLen ∧
      mem.take bytes.length = bytes := by
  have hsize : recvBuffer.bytes.length = bufLen := recvBuffer.size_eq
  obtain ⟨mem, hmem, hlen, hread, -⟩ := Memory.exists_write_read recvBuffer.bytes 0 bytes
    (by omega)
  exact ⟨mem, hmem, hlen.trans hsize, hread⟩

/-- A `recv` of fewer than `BUFLEN` bytes: they are stored at the start of the buffer, and 0 is
    returned, with the bytes and their number. -/
theorem recvLoop_short (recvBuffer : CharArray 1024) (hlt : bytes.length < bufLen)
    (os : List RecvOutcome) :
    ∃ t, (RecvState.start recvBuffer.bytes).loop (.data bytes :: os) = some t ∧
      t.readContinue = false ∧ t.recvBuffer.length = bufLen ∧
      Memory.write recvBuffer.bytes 0 bytes = some t.recvBuffer ∧ t.received = bytes ∧
      t.rev = 0 ∧ t.recvLength = bytes.length ∧ t.returned = some bytes := by
  obtain ⟨mem, hmem, hlen, htake⟩ := recvBuffer_write recvBuffer (Nat.le_of_lt hlt)
  have hround : (RecvState.start recvBuffer.bytes).round (.data bytes) = some
      { recvBuffer := mem, recvLength := bytes.length, rev := 0, readContinue := false,
        totalRecvLength := bytes.length, received := bytes } := by
    simp only [RecvState.round, RecvState.start, hmem, hlt, Option.bind_eq_bind,
      Option.bind_some, ↓reduceIte, Nat.zero_add, List.nil_append]
  exact ⟨_, recvLoop_first rfl hround rfl os, rfl, hlen, hmem, rfl, rfl, rfl, congrArg some htake⟩

/-- A `recv` that fills the buffer: the bytes are stored, and -1 is returned. -/
theorem recvLoop_full (recvBuffer : CharArray 1024) (hfull : bytes.length = bufLen)
    (os : List RecvOutcome) :
    ∃ t, (RecvState.start recvBuffer.bytes).loop (.data bytes :: os) = some t ∧
      t.readContinue = false ∧ t.recvBuffer.length = bufLen ∧ t.received = bytes ∧
      t.rev = -1 ∧ t.returned = none := by
  obtain ⟨mem, hmem, hlen, -⟩ := recvBuffer_write recvBuffer (Nat.le_of_eq hfull)
  have hnlt : ¬ bytes.length < bufLen := by omega
  have hround : (RecvState.start recvBuffer.bytes).round (.data bytes) = some
      { recvBuffer := mem, recvLength := 0, rev := -1, readContinue := false,
        totalRecvLength := bytes.length, received := bytes } := by
    simp only [RecvState.round, RecvState.start, hmem, hnlt, Option.bind_eq_bind,
      Option.bind_some, ↓reduceIte, Nat.zero_add, List.nil_append]
  exact ⟨_, recvLoop_first rfl hround rfl os, rfl, hlen, rfl, rfl, rfl⟩

/-- A `recv` that fails: nothing is stored, and -1 is returned. -/
theorem recvLoop_failed (recvBuffer : CharArray 1024) (errno : Errno)
    (os : List RecvOutcome) :
    ∃ t, (RecvState.start recvBuffer.bytes).loop (.failed errno :: os) = some t ∧
      t.readContinue = false ∧ t.recvBuffer.length = bufLen ∧ t.received = [] ∧
      t.rev = -1 ∧ t.returned = none :=
  ⟨_, recvLoop_first rfl rfl rfl os, rfl, recvBuffer.size_eq, rfl, rfl, rfl⟩

/-- What the loop returns is what the event loop of the server goes on with. -/
theorem recvLoop_returned (recvBuffer : CharArray 1024) (o : RecvOutcome)
    (ho : (o.result.getD []).length ≤ bufLen) (os : List RecvOutcome) :
    ∃ t, (RecvState.start recvBuffer.bytes).loop (o :: os) = some t ∧
      t.returned = recvBufferFromFd o.result := by
  cases o with
  | failed errno =>
    obtain ⟨t, ht, -, -, -, -, hret⟩ := recvLoop_failed recvBuffer errno os
    exact ⟨t, ht, hret⟩
  | data bytes =>
    rcases Nat.lt_or_eq_of_le ho with hlt | hfull
    · obtain ⟨t, ht, -, -, -, -, -, -, hret⟩ := recvLoop_short recvBuffer hlt os
      exact ⟨t, ht, hret.trans (if_pos hlt).symm⟩
    -- A full buffer is given up, and the event loop says so too
    · obtain ⟨t, ht, -, -, -, -, hret⟩ := recvLoop_full recvBuffer hfull os
      refine ⟨t, ht, hret.trans (if_neg ?_).symm⟩
      exact Nat.not_lt.mpr (Nat.le_of_eq hfull.symm)

/-- Returning -1 makes the event loop close the connection. -/
private theorem not_kept {t : RecvState} (h : t.returned = none) : ¬ t.Kept s i fd := by
  intro hk
  refine hk.kept 0 0 (.close fd (s.owner i)) ?_ trivial
  simp [Server.receivedOps, h]

/-- A healthy connection is kept exactly if the first `recv` returns bytes, and fewer
    than `BUFLEN` of them. -/
theorem recv_buffer_from_fd_healthy_iff (recvBuffer : CharArray 1024) (o : RecvOutcome)
    (os : List RecvOutcome) (ho : ∀ x ∈ o :: os, x.Healthy) (s : Server) (i : Fin maxEvents)
    (fd : Int) :
    (∃ t, (RecvState.start recvBuffer.bytes).loop (o :: os) = some t ∧ t.Kept s i fd) ↔
      ∃ bytes, o = .data bytes ∧ bytes.length < bufLen := by
  have hhealthy := ho o List.mem_cons_self
  cases o with
  | failed errno =>
    obtain ⟨t, ht, -, -, -, -, hret⟩ := recvLoop_failed recvBuffer errno os
    refine iff_of_false ?_ nofun
    rintro ⟨t', ht', hk⟩
    obtain rfl := Option.some.inj (ht.symm.trans ht')
    exact not_kept hret hk
  | data bytes =>
    rcases Nat.lt_or_eq_of_le hhealthy.2 with hlt | hfull
    · obtain ⟨t, ht, hover, hin, -, hrecv, hrev, hlen, hret⟩ :=
        recvLoop_short recvBuffer hlt os
      refine iff_of_true ⟨t, ht, hover, hin, fun _ => ⟨hrev, ?_⟩, fun now conn op hop => ?_⟩
        ⟨bytes, rfl, hlt⟩
      · rw [hlen, hrecv]
      · rw [hret, Server.receivedOps] at hop
        rcases List.mem_cons.mp hop with rfl | hop
        · exact id
        · rw [List.mem_singleton.mp hop]
          exact id
    · obtain ⟨t, ht, -, -, -, -, hret⟩ := recvLoop_full recvBuffer hfull os
      refine iff_of_false ?_ ?_
      · rintro ⟨t', ht', hk⟩
        obtain rfl := Option.some.inj (ht.symm.trans ht')
        exact not_kept hret hk
      · rintro ⟨bytes', heq, hlt⟩
        cases heq
        omega

/-- A greeting of five bytes is received, and the connection is kept. -/
theorem recv_greeting_kept :
    ∃ t, (RecvState.start (CharArray.zero 1024).bytes).loop [.data [104, 101, 108, 108, 111]] =
      some t ∧ t.Kept (Server.start 0) 0 5 :=
  (recv_buffer_from_fd_healthy_iff (.zero 1024) (.data [104, 101, 108, 108, 111]) []
    (by simp [RecvOutcome.Healthy, bufLen]) (.start 0) 0 5).mpr ⟨_, rfl, by decide⟩

/-- 1024 bytes that arrive at once: -1 is returned, and the connection is closed. -/
theorem recv_full_chunk_fails :
    ¬ ∀ (recvBuffer : CharArray 1024) (o : RecvOutcome) (os : List RecvOutcome),
      (∀ x ∈ o :: os, x.Healthy) → ∀ (s : Server) (i : Fin maxEvents) (fd : Int),
      ∃ t, (RecvState.start recvBuffer.bytes).loop (o :: os) = some t ∧ t.Kept s i fd := by
  intro h
  have hfull : (List.replicate 1024 (65 : UInt8)).length = bufLen := List.length_replicate
  have hhealthy : ∀ x ∈ [RecvOutcome.data (List.replicate 1024 65)], x.Healthy := by
    intro x hx
    rw [List.mem_singleton.mp hx]
    exact ⟨hfull.symm ▸ (by decide), Nat.le_of_eq hfull⟩
  obtain ⟨t, ht, hk⟩ := h (.zero 1024) _ [] hhealthy (.start 0) 0 5
  obtain ⟨t', ht', -, -, -, -, hret⟩ := recvLoop_full (.zero 1024) hfull []
  obtain rfl := Option.some.inj (ht.symm.trans ht')
  exact not_kept hret hk

/-! ### `dumpInfo` -/

/-- The loop of `dumpInfo` stays in its buffer if the text and a NUL fit into it. -/
private theorem dumpInfoLoop_isSome (buffer info : List UInt8) :
    (dumpInfoLoop buffer info).isSome ↔ info = [] ∨ buffer.length + 2 * info.length < 128 := by
  induction info generalizing buffer with
  | nil => simp [dumpInfoLoop]
  | cons b info ih =>
    have hlen : (buffer ++ hexByte b).length = buffer.length + 2 := by
      simp [hexByte]
    simp only [dumpInfoLoop, List.length_cons, reduceCtorEq, false_or]
    split
    -- Two digits and a NUL fit
    · rw [ih, hlen]
      constructor
      · rintro (rfl | h)
        · simp only [List.length_nil]
          omega
        · omega
      · intro h
        by_cases hinfo : info = []
        · exact .inl hinfo
        · exact .inr (by omega)
    -- They do not, and there is no room for the rest
    · refine iff_of_false nofun ?_
      omega

/-- `dumpInfo` stays in its buffer for at most 63 bytes, the last NUL included. -/
theorem dumpInfo_isSome_iff {info : List UInt8} : (dumpInfo info).isSome ↔ info.length ≤ 63 := by
  rw [dumpInfo, dumpInfoLoop_isSome, List.length_nil]
  constructor
  · rintro (rfl | h)
    · exact Nat.zero_le _
    · omega
  · exact fun h => .inr (by omega)

/-- A message that is returned is what the first `recv` has stored, fewer than `BUFLEN` bytes. -/
theorem recvLoop_returned_lt {recvBuffer : CharArray 1024} {o : RecvOutcome}
    {os : List RecvOutcome} {t : RecvState} {data : List UInt8}
    (h : (RecvState.start recvBuffer.bytes).loop (o :: os) = some t)
    (hdata : t.returned = some data) : o = .data data ∧ data.length < bufLen := by
  cases o with
  | failed errno =>
    obtain ⟨t', ht', -, -, -, -, hret⟩ := recvLoop_failed recvBuffer errno os
    obtain rfl := Option.some.inj (ht'.symm.trans h)
    exact nomatch hret.symm.trans hdata
  | data bytes =>
    rcases Nat.lt_trichotomy bytes.length bufLen with hlt | hfull | hgt
    · obtain ⟨t', ht', -, -, -, -, -, -, hret⟩ := recvLoop_short recvBuffer hlt os
      obtain rfl := Option.some.inj (ht'.symm.trans h)
      obtain rfl := Option.some.inj (hret.symm.trans hdata)
      exact ⟨rfl, hlt⟩
    · obtain ⟨t', ht', -, -, -, -, hret⟩ := recvLoop_full recvBuffer hfull os
      obtain rfl := Option.some.inj (ht'.symm.trans h)
      exact nomatch hret.symm.trans hdata
    · -- `recv` was asked for no more than `BUFLEN` bytes
      have hsize : recvBuffer.bytes.length = bufLen := recvBuffer.size_eq
      have hout : Memory.write recvBuffer.bytes 0 bytes = none := if_neg (by omega)
      have hround : (RecvState.start recvBuffer.bytes).round (.data bytes) = none := by
        simp only [RecvState.round, RecvState.start, hout, Option.bind_eq_bind, Option.bind_none]
      have hgo : (RecvState.start recvBuffer.bytes).readContinue = true := rfl
      rw [RecvState.loop, if_pos hgo, hround, Option.bind_none] at h
      cases h

/-- A message that is received has fewer than `BUFLEN` bytes, and it is dumped within the
    buffer exactly if it has at most 63. -/
theorem dumpInfo_received_iff {recvBuffer : CharArray 1024} {o : RecvOutcome}
    {os : List RecvOutcome} {t : RecvState} {data : List UInt8}
    (h : (RecvState.start recvBuffer.bytes).loop (o :: os) = some t)
    (hdata : t.returned = some data) :
    data.length < bufLen ∧ ((dumpInfo data).isSome ↔ data.length ≤ 63) :=
  ⟨(recvLoop_returned_lt h hdata).2, dumpInfo_isSome_iff⟩

/-- 63 bytes are received and fill the buffer of `dumpInfo` up to its last byte. -/
theorem dumpInfo_received_63 :
    ∃ t data, (RecvState.start (CharArray.zero 1024).bytes).loop
      [.data (List.replicate 63 65)] = some t ∧ t.returned = some data ∧ data.length = 63 ∧
      (dumpInfo data).isSome := by
  have hlen : (List.replicate 63 (65 : UInt8)).length = 63 := List.length_replicate
  obtain ⟨t, ht, -, -, -, -, -, -, hret⟩ := recvLoop_short (.zero 1024)
    (show (List.replicate 63 (65 : UInt8)).length < bufLen by rw [hlen]; decide) []
  exact ⟨t, _, ht, hret, hlen, (dumpInfo_received_iff ht hret).2.mpr (Nat.le_of_eq hlen)⟩

/-- 64 bytes are received, and the NUL behind the last digit is beyond the buffer. -/
theorem dumpInfo_received_64 :
    ¬ ∀ (recvBuffer : CharArray 1024) (o : RecvOutcome) (os : List RecvOutcome)
      (t : RecvState) (data : List UInt8),
      (RecvState.start recvBuffer.bytes).loop (o :: os) = some t → t.returned = some data →
      (dumpInfo data).isSome := by
  intro h
  have hlen : (List.replicate 64 (65 : UInt8)).length = 64 := List.length_replicate
  obtain ⟨t, ht, -, -, -, -, -, -, hret⟩ := recvLoop_short (.zero 1024)
    (show (List.replicate 64 (65 : UInt8)).length < bufLen by rw [hlen]; decide) []
  have hle := dumpInfo_isSome_iff.mp (h (.zero 1024) _ [] t _ ht hret)
  omega

end JQServer
