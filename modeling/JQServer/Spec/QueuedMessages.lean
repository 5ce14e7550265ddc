import JQServer.Spec.JobConnection
import JQServer.Spec.Receiving

/-!
# Queued messages

The handler of a job reads strings from the job's `recv_buffer` that have no other end than
their NUL. It always finds one: `recv_buffer_from_fd` returns 0 for fewer than `BUFLEN` bytes
only, they are stored at the start of a buffer of zeros, and the job has a copy of all of it
(`epollinJob_eq_some_iff`). `queued_terminated` says so of every job of every run, with the
bytes that `recv` returned on the job's connection.
-/

namespace JQServer

/-! ### The buffer of a job -/

/-- The received bytes, followed only by zeros. -/
theorem JobParameter.received_bytes {data : List UInt8} (hlt : data.length < bufLen) (fd : Int)
    (conn : Nat) :
    (JobParameter.received data fd conn).recvBuffer.bytes =
      data ++ List.replicate (bufLen - data.length) 0 :=
  CharArray.ofBytes_bytes_of_le (Nat.le_of_lt hlt)

/-- Bytes stored at the start of zeros. -/
private theorem write_zeros {data : List UInt8} {n : Nat} (hle : data.length ≤ n) :
    Memory.write (List.replicate n 0) 0 data =
      some (data ++ List.replicate (n - data.length) 0) := by
  have hfits : 0 + data.length ≤ (List.replicate n (0 : UInt8)).length := by
    rw [List.length_replicate]
    omega
  rw [Memory.write, if_pos hfits, List.take_zero, List.nil_append, List.drop_replicate,
    Nat.zero_add]

/-- A copy of a whole buffer to another one of its size. -/
private theorem write_whole {mem bs : List UInt8} (hsize : bs.length = mem.length) :
    Memory.write mem 0 bs = some bs := by
  have hfits : 0 + bs.length ≤ mem.length := by omega
  rw [Memory.write, if_pos hfits, Nat.zero_add, hsize]
  simp

/-- The job has a copy of the stack buffer, if `recv_buffer_from_fd` returns 0. -/
private theorem epollinJob_of_loop {newjob : List UInt8} (hnew : newjob.length = bufferSize)
    {os : List RecvOutcome} {t : RecvState}
    (ht : (RecvState.start (CharArray.zero 1024).bytes).loop os = some t)
    (hsize : t.recvBuffer.length = bufLen) :
    epollinJob newjob os = if t.rev = 0 then some t.recvBuffer else none := by
  have hread : Memory.read t.recvBuffer 0 bufferSize = t.recvBuffer :=
    List.take_of_length_le (Nat.le_of_eq hsize)
  have hwhole : bufferSize ≤ t.recvBuffer.length := Nat.le_of_eq hsize.symm
  have hcopy : Memory.write newjob 0 t.recvBuffer = some t.recvBuffer :=
    write_whole (hsize.trans hnew.symm)
  rw [epollinJob, show List.replicate bufferSize 0 = (CharArray.zero 1024).bytes from rfl, ht]
  simp [hread, hwhole, hcopy]

/-- The EPOLLIN branch queues a job exactly if its `recv` returns fewer than `BUFLEN` bytes, and
    the job has these bytes and zeros behind them. -/
theorem epollinJob_eq_some_iff {newjob message : List UInt8} (hnew : newjob.length = bufferSize)
    {o : RecvOutcome} (ho : (o.result.getD []).length ≤ bufLen) (os : List RecvOutcome) :
    epollinJob newjob (o :: os) = some message ↔
      ∃ data, recvBufferFromFd o.result = some data ∧
        message = data ++ List.replicate (bufLen - data.length) 0 := by
  cases o with
  | failed errno =>
    obtain ⟨t, ht, -, hsize, -, hrev, -⟩ := recvLoop_failed (.zero 1024) errno os
    rw [epollinJob_of_loop hnew ht hsize, hrev]
    exact iff_of_false nofun nofun
  | data bytes =>
    replace ho : bytes.length ≤ bufLen := ho
    -- `recv` was asked for `BUFLEN` bytes at most
    rcases Nat.lt_or_eq_of_le ho with hlt | hfull
    · obtain ⟨t, ht, -, hsize, hwrite, -, hrev, -, -⟩ := recvLoop_short (.zero 1024) hlt os
      have hmessage : t.recvBuffer = bytes ++ List.replicate (bufLen - bytes.length) 0 :=
        Option.some.inj (hwrite.symm.trans (write_zeros (Nat.le_of_lt hlt)))
      rw [epollinJob_of_loop hnew ht hsize, if_pos hrev, hmessage]
      constructor
      · intro h
        exact ⟨bytes, if_pos hlt, (Option.some.inj h).symm⟩
      · rintro ⟨data, hdata, rfl⟩
        rw [Option.some.inj (recvBufferFromFd_eq_some.mp hdata).1]
    · obtain ⟨t, ht, -, hsize, -, hrev, -⟩ := recvLoop_full (.zero 1024) hfull os
      rw [epollinJob_of_loop hnew ht hsize, hrev]
      refine iff_of_false nofun ?_
      rintro ⟨data, hdata, -⟩
      obtain ⟨heq, hlt⟩ := recvBufferFromFd_eq_some.mp hdata
      rw [← Option.some.inj heq, hfull] at hlt
      exact Nat.lt_irrefl _ hlt

/-! ### Strings in the buffer -/

/-- The message of a job: the received bytes, followed only by zeros. Whatever string starts in
    the buffer ends in it, and so do the ones that the handler prints. -/
structure JobParameter.Terminated (arg : JobParameter) (data : List UInt8) : Prop where
  /-- What the EPOLLIN branch stores, wherever the memory of the job comes from. -/
  stored : ∀ newjob os, newjob.length = bufferSize →
    epollinJob newjob (.data data :: os) = some arg.recvBuffer.bytes
  zeros : arg.recvBuffer.bytes = data ++ List.replicate (bufLen - data.length) 0
  last : arg.recvBuffer.bytes[1023]? = some 0
  inside : ∀ offset < bufferSize, ∃ str,
    Pointer.string (arg.recvBuffer.bytes.drop offset) = some str
  printed : ∃ strs, arg.printedStrings = some strs

/-- Bytes that end with a NUL have one behind every offset. -/
private theorem zero_mem_drop {bytes : List UInt8} {n offset : Nat} (h : bytes[n]? = some 0)
    (hoffset : offset ≤ n) : 0 ∈ bytes.drop offset := by
  apply List.mem_of_getElem? (i := n - offset)
  rw [List.getElem?_drop, Nat.add_sub_cancel' hoffset, h]

/-- A job made of received bytes, fewer than `BUFLEN`, has a terminated message. -/
theorem JobParameter.terminated_received {data : List UInt8} (hlt : data.length < bufLen) (fd : Int)
    (conn : Nat) : (JobParameter.received data fd conn).Terminated data := by
  have hzeros := received_bytes hlt fd conn
  -- Fewer than `BUFLEN` bytes leave the last one zero
  have hlast : (received data fd conn).recvBuffer.bytes[1023]? = some 0 := by
    have hbehind : data.length ≤ 1023 := Nat.le_of_lt_succ hlt
    rw [hzeros, List.getElem?_append_right hbehind, List.getElem?_replicate, if_pos]
    unfold bufLen
    omega
  have hinside : ∀ offset < bufferSize, ∃ str,
      Pointer.string ((received data fd conn).recvBuffer.bytes.drop offset) = some str :=
    fun offset hoffset =>
      ⟨_, Pointer.string_eq_some (zero_mem_drop hlast (Nat.le_of_lt_succ hoffset))⟩
  refine ⟨fun newjob os hnew => ?_, hzeros, hlast, hinside, ?_⟩
  · have ho : ((RecvOutcome.data data).result.getD []).length ≤ bufLen := Nat.le_of_lt hlt
    exact (epollinJob_eq_some_iff hnew ho os).mpr ⟨data, if_pos hlt, hzeros⟩
  · -- All of them start behind the header
    obtain ⟨str, hstr⟩ := hinside sizeofStJQMessage (by decide)
    simp only [printedStrings, hstr, Option.map_some]
    split
    · split
      · exact ⟨_, rfl⟩
      · exact ⟨_, rfl⟩
    · split
      · exact ⟨_, rfl⟩
      · exact ⟨_, rfl⟩

/-! ### Runs -/

/-- Bytes that `recv` has returned, with the descriptor and its connection. -/
structure ReceivedBytes where
  fd : Int
  conn : Nat
  data : List UInt8

/-- What a step adds to the record of the received bytes. -/
def recordReceived (r : List ReceivedBytes) (s : Server) (a : Action) (_ : Server) :
    List ReceivedBytes :=
  match a, s.loop with
  | .recv (some data) _, .receiving _ fd _ =>
    match s.fds fd with
    | some conn => { fd := fd, conn := conn, data := data } :: r
    | none => r
  | _, _ => r

namespace Server

variable {s s' : Server} {r : List ReceivedBytes} {arg : JobParameter}

/-- The server with a record of the bytes that were received. -/
def receiving : Transition.System (Server × List ReceivedBytes) Action :=
  system.withHistory (fun _ => []) recordReceived

/-- The record is added to, at most. -/
theorem subset_recordReceived (r : List ReceivedBytes) (s : Server) (a : Action) (s' : Server) :
    r ⊆ recordReceived r s a s' := by
  unfold recordReceived
  split
  · split
    · exact List.subset_cons_self _ _
    · exact List.Subset.refl _
  · exact List.Subset.refl _

/-- Every job is made of bytes in the record. -/
def FromReceived (s : Server) (r : List ReceivedBytes) : Prop :=
  ∀ arg, s.Carries arg → ∃ data, data.length < bufLen ∧
    { fd := arg.fd, conn := arg.conn, data := data } ∈ r ∧ arg = .received data arg.fd arg.conn

theorem fromReceived_start (t n : Int) : (start t n).FromReceived [] :=
  fun _ h => absurd h (not_carries_start t n)

/-- A job that was there before is still in the record. -/
private theorem FromReceived.old (h : s.FromReceived r) (hc : s.Carries arg) (a : Action)
    (s' : Server) : ∃ data, data.length < bufLen ∧
      { fd := arg.fd, conn := arg.conn, data := data } ∈ recordReceived r s a s' ∧
        arg = .received data arg.fd arg.conn := by
  obtain ⟨data, hlt, hmem, harg⟩ := h arg hc
  exact ⟨data, hlt, subset_recordReceived r s a s' hmem, harg⟩

theorem FromReceived.step {a : Action} (h : s.FromReceived r) (hs : s.step a = some s') :
    s'.FromReceived (recordReceived r s a s') := by
  intro arg hc
  rcases (step_moves hs).2 with hm | hm | hm
  · exact h.old (hm.carries hc) a s'
  · rcases hm.carries hc with hold | ⟨i, es, hl, hfd, result, now, data, rfl, hr, harg⟩
    · exact h.old hold a s'
    · -- The job is made of the bytes that are received in this step
      obtain ⟨rfl, hlt⟩ := recvBufferFromFd_eq_some.mp hr
      refine ⟨data, hlt, ?_, harg⟩
      simp only [recordReceived, hl, hfd]
      exact List.mem_cons_self
  · exact h.old (hm.carries hc) a s'

theorem fromReceived_of_reachable (h : Transition.Reachable receiving (s, r)) :
    s.FromReceived r := by
  refine h.invariant (I := fun x => x.1.FromReceived x.2) ?_ fun x a x' _ hinv _ hs => ?_
  · rintro ⟨s, r⟩ ⟨⟨t, n, rfl⟩, hr⟩
    obtain rfl : r = [] := hr
    exact fromReceived_start t n
  · obtain ⟨hs, hr⟩ := Transition.System.withHistory_step hs
    rw [hr]
    exact hinv.step hs

/-- The message of every job is the bytes of a `recv` on its connection, terminated. -/
theorem queued_terminated (h : Transition.Reachable receiving (s, r)) (hc : s.Carries arg) :
    ∃ data, { fd := arg.fd, conn := arg.conn, data := data } ∈ r ∧
      recvBufferFromFd (some data) = some data ∧ arg.Terminated data := by
  obtain ⟨data, hlt, hmem, harg⟩ := fromReceived_of_reachable h arg hc
  refine ⟨data, hmem, if_pos hlt, ?_⟩
  rw [harg]
  exact JobParameter.terminated_received hlt arg.fd arg.conn

set_option maxRecDepth 100000 in
/-- A login is received and queued. -/
theorem queued_terminated_login :
    ∃ s r job, receiving.run (start 0, []) (acceptRun { fd := 5, addr := .zero _, port := 80 } 0 ++
      receiveRun 5 (sendUIBytes [97]) 0) = some (s, r) ∧ s.pool.heap 0 = some job ∧
        ∃ data, { fd := job.arg.fd, conn := job.arg.conn, data := data } ∈ r ∧
          recvBufferFromFd (some data) = some data ∧ job.arg.Terminated data := by
  have hrun : ∃ s r job, receiving.run (start 0, [])
      (acceptRun { fd := 5, addr := .zero _, port := 80 } 0 ++
        receiveRun 5 (sendUIBytes [97]) 0) = some (s, r) ∧ s.pool.heap 0 = some job :=
    ⟨_, _, _, rfl, rfl⟩
  obtain ⟨s, r, job, hs, hjob⟩ := hrun
  exact ⟨s, r, job, hs, hjob,
    queued_terminated (.of_run ⟨⟨0, 15, rfl⟩, rfl⟩ hs) (.queued hjob rfl)⟩

end Server

end JQServer
