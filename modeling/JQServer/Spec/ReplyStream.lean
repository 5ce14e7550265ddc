import JQServer.Native.ReplyBytes
import JQServer.Spec.HandlerMoves
import JQServer.Spec.ServerMoves

/-!
# The byte stream of a connection

`send_buffer_to_fd` calls `write` until the whole reply is accepted, and nothing keeps
another worker from writing to the same descriptor in between. `replies_whole` holds in
every run in which a reply is not started while another one to the same connection is
partly sent; `replies_whole_fails` is two workers that answer one client.
-/

namespace JQServer

/-- The bytes that were sent. -/
structure Wire where
  /-- What a connection has received. -/
  stream : Nat → List UInt8 := fun _ => []
  /-- The replies to a connection that were sent to their last byte. -/
  sent : Nat → List (List UInt8) := fun _ => []
  /-- `pucBuf` of the `send_buffer_to_fd` that a worker is in. -/
  pucBuf : Nat → List UInt8 := fun _ => []
  /-- How many replies were built. -/
  built : Nat := 0

namespace Wire

/-- Worker `w` has built a reply. -/
def build (r : Wire) (garbage : Nat → List UInt8) (w : Nat) (reply : Reply) : Wire :=
  { r with
    pucBuf := Function.update r.pucBuf w (reply.bytes (garbage r.built))
    built := r.built + 1 }

/-- A `write` of worker `w` with `n` of `iLen` bytes left, of which the kernel accepts
    `nwrite`. -/
def write (r : Wire) (w receiver iLen n nwrite : Nat) : Wire :=
  { r with
    stream := Function.update r.stream receiver
      (r.stream receiver ++ ((r.pucBuf w).drop (iLen - n)).take nwrite)
    sent := if n - nwrite = 0 then
        Function.update r.sent receiver (r.sent receiver ++ [r.pucBuf w])
      else r.sent }

end Wire

/-- What a step sends. -/
def recordWire (garbage : Nat → List UInt8) (r : Wire) (s : Server) (a : Action) (s' : Server) :
    Wire :=
  match a with
  | .dispatch w | .fillUser w =>
    match s'.handlers w with
    | .sending _ reply _ => r.build garbage w reply
    | _ => r
  | .write w (.accepted nwrite) =>
    match s.handlers w with
    | .sending arg reply n =>
      match s.fds arg.fd with
      | some receiver => r.write w receiver reply.iMessageLen n nwrite
      | none => r
    | _ => r
  | _ => r

namespace Server

variable {s s' : Server} {r : Wire} {garbage : Nat → List UInt8}

/-- The server with a record of what it sends. -/
def wired (garbage : Nat → List UInt8) : Transition.System (Server × Wire) Action :=
  system.withHistory (fun _ => {}) (recordWire garbage)

/-- Every `write` accepts a part of what it is offered. -/
def Accepts (_ : Server) (a : Action) : Prop :=
  ∀ w r, a = .write w r → ∃ nwrite, 0 < nwrite ∧ r = .accepted nwrite

/-- A reply is sent to the connection of its job. -/
def OwnReceiver (s : Server) (a : Action) : Prop :=
  ∀ w r arg reply n, a = .write w r → s.handlers w = .sending arg reply n →
    s.fds arg.fd = some arg.conn

/-- Worker `w` has sent a part of a reply to connection `c`. -/
def PartlySent (s : Server) (w c : Nat) : Prop :=
  ∃ arg reply n, s.handlers w = .sending arg reply n ∧ arg.conn = c ∧ n < reply.iMessageLen

/-- No worker writes to a connection while another one has sent a part of a reply to it. -/
def OneAtATime (s : Server) (a : Action) : Prop :=
  ∀ w r arg reply n, a = .write w r → s.handlers w = .sending arg reply n →
    ∀ v, v ≠ w → ¬ s.PartlySent v arg.conn

/-- A connection has received whole replies in some order, and the start of another one at
    most. -/
structure RepliesWhole (garbage : Nat → List UInt8) (x : Server × Wire) : Prop where
  whole : ∀ c, ∀ m ∈ x.2.sent c, ∃ reply k, m = Reply.bytes (garbage k) reply
  stream : ∀ c, ∃ (ms : List (List UInt8)) (rest : List UInt8), ms.Perm (x.2.sent c) ∧
    x.2.stream c = ms.flatten ++ rest ∧
    (rest = [] ∨ ∃ w arg reply n, x.1.handlers w = .sending arg reply n ∧ arg.conn = c ∧
      n < reply.iMessageLen ∧ rest = (x.2.pucBuf w).take (reply.iMessageLen - n))

/-- The invariant: a connection has received the replies that were sent to their last byte,
    and then what is accepted of the one that is partly sent. -/
structure WireInv (garbage : Nat → List UInt8) (s : Server) (r : Wire) : Prop where
  whole : ∀ c, ∀ m ∈ r.sent c, ∃ reply k, m = Reply.bytes (garbage k) reply
  pucBuf : ∀ w arg reply n, s.handlers w = .sending arg reply n →
    n ≤ reply.iMessageLen ∧ ∃ k, r.pucBuf w = reply.bytes (garbage k)
  unique : ∀ v w c, s.PartlySent v c → s.PartlySent w c → v = w
  partly : ∀ w arg reply n, s.handlers w = .sending arg reply n → n < reply.iMessageLen →
    r.stream arg.conn = (r.sent arg.conn).flatten ++
      (r.pucBuf w).take (reply.iMessageLen - n)
  idle : ∀ c, (∀ w, ¬ s.PartlySent w c) → r.stream c = (r.sent c).flatten

/-- The invariant holds at the start. -/
theorem wireInv_start (t n : Int) : (start t n).WireInv garbage {} where
  whole := by rintro _ _ ⟨⟩
  pucBuf := by rintro _ _ _ _ ⟨⟩
  unique := by rintro _ _ _ ⟨_, _, _, ⟨⟩, -⟩
  partly := by rintro _ _ _ _ ⟨⟩
  idle _ _ := rfl

/-! ### Steps -/

/-- What a step that is no `write` makes of the record. -/
private theorem recordWire_of_not_write (garbage : Nat → List UInt8) (r : Wire) {a : Action}
    (ha : ∀ w q, a ≠ .write w q) (hs : s.step a = some s') (v n : Nat) (arg : JobParameter)
    (reply : Reply)
    (hpc : s'.handlers v = .sending arg reply n) :
    s.handlers v = .sending arg reply n ∧
        (recordWire garbage r s a s').pucBuf v = r.pucBuf v ∨
      n = reply.iMessageLen ∧
        (recordWire garbage r s a s').pucBuf v = reply.bytes (garbage r.built) := by
  rcases sending_of_step (ha v) hs hpc with hold | ⟨hn, hbuild⟩
  · refine .inl ⟨hold, ?_⟩
    -- A build by another worker goes to that worker's buffer
    have hother : ∀ w reply', (a = .dispatch w ∨ a = .fillUser w) →
        (r.build garbage w reply').pucBuf v = r.pucBuf v := by
      intro w reply' hw
      refine Function.update_of_ne ?_ ..
      rintro rfl
      exact not_sending_of_build hw hs hold
    unfold recordWire
    split
    · split
      · exact hother _ _ (.inl rfl)
      · rfl
    · split
      · exact hother _ _ (.inr rfl)
      · rfl
    · exact absurd rfl (ha _ _)
    · rfl
  · refine .inr ⟨hn, ?_⟩
    rcases hbuild with rfl | rfl <;> simp only [recordWire, hpc, Wire.build, Function.update_self]

/-- A step that is no `write` sends nothing. -/
private theorem recordWire_sends_nothing (garbage : Nat → List UInt8) (r : Wire) (s s' : Server)
    {a : Action} (ha : ∀ w q, a ≠ .write w q) :
    (recordWire garbage r s a s').stream = r.stream ∧
      (recordWire garbage r s a s').sent = r.sent := by
  unfold recordWire
  split
  · split <;> exact ⟨rfl, rfl⟩
  · split <;> exact ⟨rfl, rfl⟩
  · exact absurd rfl (ha _ _)
  · exact ⟨rfl, rfl⟩

/-- A step that is no `write` keeps the invariant. -/
private theorem WireInv.step_of_not_write {a : Action} (h : s.WireInv garbage r)
    (ha : ∀ w q, a ≠ .write w q) (hs : s.step a = some s') :
    s'.WireInv garbage (recordWire garbage r s a s') := by
  obtain ⟨hstream, hsent⟩ := recordWire_sends_nothing garbage r s s' ha
  have hcases := recordWire_of_not_write garbage r ha hs
  -- No reply is partly sent by such a step: a new one is all to be sent
  have hpartly : ∀ v c, s'.PartlySent v c → s.PartlySent v c := by
    rintro v c ⟨arg, reply, n, hpc, hc, hn⟩
    rcases hcases v n arg reply hpc with ⟨hold, -⟩ | ⟨rfl, -⟩
    · exact ⟨arg, reply, n, hold, hc, hn⟩
    · exact absurd hn (Nat.lt_irrefl _)
  exact {
    whole := by rw [hsent]; exact h.whole
    pucBuf := by
      intro v arg reply n hpc
      rcases hcases v n arg reply hpc with ⟨hold, hbuf⟩ | ⟨hn, hbuf⟩
      · rw [hbuf]
        exact h.pucBuf v arg reply n hold
      · exact ⟨Nat.le_of_eq hn, r.built, hbuf⟩
    unique := fun v w c hv hw => h.unique v w c (hpartly v c hv) (hpartly w c hw)
    partly := by
      intro v arg reply n hpc hn
      rcases hcases v n arg reply hpc with ⟨hold, hbuf⟩ | ⟨rfl, -⟩
      · rw [hstream, hsent, hbuf]
        exact h.partly v arg reply n hold hn
      · exact absurd hn (Nat.lt_irrefl _)
    idle := by
      intro c hidle
      rw [hstream, hsent]
      refine h.idle c fun v hv => ?_
      obtain ⟨arg, reply, n, hpc, hc, hn⟩ := hv
      exact hidle v ⟨arg, reply, n, sending_step (ha v) hs hpc, hc, hn⟩ }

section Write

variable {w n nwrite : Nat} {arg : JobParameter} {reply : Reply}

/-- Before a `write` of worker `w` its connection has received whole replies and what is
    accepted of this one, if no other worker has sent a part of a reply to it. -/
private theorem WireInv.stream_before (h : s.WireInv garbage r)
    (hpc : s.handlers w = .sending arg reply n) (hone : ∀ v, v ≠ w → ¬ s.PartlySent v arg.conn) :
    r.stream arg.conn = (r.sent arg.conn).flatten ++
      (r.pucBuf w).take (reply.iMessageLen - n) := by
  rcases Nat.lt_or_eq_of_le (h.pucBuf w arg reply n hpc).1 with hlt | heq
  · exact h.partly w arg reply n hpc hlt
  · -- Nothing is accepted of it yet, and no worker has sent a part of one
    rw [heq, Nat.sub_self, List.take_zero, List.append_nil]
    refine h.idle arg.conn fun v hv => ?_
    by_cases hvw : v = w
    · subst hvw
      -- Worker `w` itself has all of its reply to send
      obtain ⟨arg', reply', n', hpc', -, hlt⟩ := hv
      obtain ⟨-, rfl, rfl⟩ := HandlerPc.sending.inj (hpc.symm.trans hpc')
      omega
    · exact hone v hvw hv

/-- After it, `nwrite` bytes more are accepted. -/
private theorem WireInv.stream_after (h : s.WireInv garbage r)
    (hpc : s.handlers w = .sending arg reply n) (hle : nwrite ≤ n)
    (hone : ∀ v, v ≠ w → ¬ s.PartlySent v arg.conn) :
    r.stream arg.conn ++ ((r.pucBuf w).drop (reply.iMessageLen - n)).take nwrite =
      (r.sent arg.conn).flatten ++ (r.pucBuf w).take (reply.iMessageLen - (n - nwrite)) := by
  have hn := (h.pucBuf w arg reply n hpc).1
  have hsplit : reply.iMessageLen - (n - nwrite) = reply.iMessageLen - n + nwrite := by omega
  rw [h.stream_before hpc hone, hsplit, List.take_add, List.append_assoc]

/-- Another worker has sent a part of a reply only if it had before, and to another
    connection. -/
private theorem partlySent_other (hother : ∀ v, v ≠ w → s'.handlers v = s.handlers v)
    (hone : ∀ v, v ≠ w → ¬ s.PartlySent v arg.conn) {v c : Nat} (hv : v ≠ w)
    (hpartly : s'.PartlySent v c) : s.PartlySent v c ∧ c ≠ arg.conn := by
  obtain ⟨arg', reply', n', hpc', hc, hlt⟩ := hpartly
  have hold : s.PartlySent v c := ⟨arg', reply', n', hother v hv ▸ hpc', hc, hlt⟩
  refine ⟨hold, ?_⟩
  rintro rfl
  exact hone v hv hold

/-- What it has sent stays as it is. -/
private theorem WireInv.stream_other (h : s.WireInv garbage r)
    (hother : ∀ v, v ≠ w → s'.handlers v = s.handlers v)
    (hone : ∀ v, v ≠ w → ¬ s.PartlySent v arg.conn) {v n' : Nat} {arg' : JobParameter}
    {reply' : Reply} (hv : v ≠ w) (hpc' : s'.handlers v = .sending arg' reply' n')
    (hlt : n' < reply'.iMessageLen) :
    arg'.conn ≠ arg.conn ∧ r.stream arg'.conn =
      (r.sent arg'.conn).flatten ++ (r.pucBuf v).take (reply'.iMessageLen - n') :=
  ⟨(partlySent_other hother hone hv ⟨arg', reply', n', hpc', rfl, hlt⟩).2,
    h.partly v arg' reply' n' (hother v hv ▸ hpc') hlt⟩

/-- So does what an idle connection has received. -/
private theorem WireInv.stream_idle (h : s.WireInv garbage r)
    (hpc : s.handlers w = .sending arg reply n)
    (hother : ∀ v, v ≠ w → s'.handlers v = s.handlers v) {c : Nat} (hc : c ≠ arg.conn)
    (hnone : ∀ v, ¬ s'.PartlySent v c) : r.stream c = (r.sent c).flatten := by
  refine h.idle c ?_
  rintro v ⟨arg', reply', n', hpc', hc', hlt⟩
  by_cases hv : v = w
  · subst hv
    obtain ⟨rfl, -⟩ := HandlerPc.sending.inj (hpc.symm.trans hpc')
    exact hc hc'.symm
  · exact hnone v ⟨arg', reply', n', (hother v hv).trans hpc', hc', hlt⟩

/-- A `write` that accepts the rest of a reply. -/
private theorem WireInv.write_last (h : s.WireInv garbage r)
    (hpc : s.handlers w = .sending arg reply n) (hle : nwrite ≤ n)
    (hone : ∀ v, v ≠ w → ¬ s.PartlySent v arg.conn)
    (hother : ∀ v, v ≠ w → s'.handlers v = s.handlers v) (hlast : n - nwrite = 0)
    (hdone : s'.handlers w = .done) :
    s'.WireInv garbage (r.write w arg.conn reply.iMessageLen n nwrite) := by
  obtain ⟨-, k, hbuf⟩ := h.pucBuf w arg reply n hpc
  -- Worker `w` is done, so whoever sends is another worker
  have hne : ∀ v, (∃ arg' reply' n', s'.handlers v = .sending arg' reply' n') → v ≠ w := by
    rintro v ⟨arg', reply', n', hpc'⟩ rfl
    cases hdone.symm.trans hpc'
  have hafter := h.stream_after hpc hle hone
  -- The buffer is sent to its last byte
  have hfull : (r.pucBuf w).take (reply.iMessageLen - (n - nwrite)) = r.pucBuf w := by
    rw [hlast, Nat.sub_zero, hbuf, List.take_of_length_le (Nat.le_of_eq (reply.bytes_length _))]
  rw [hfull] at hafter
  have hsent : (r.write w arg.conn reply.iMessageLen n nwrite).sent =
      Function.update r.sent arg.conn (r.sent arg.conn ++ [r.pucBuf w]) := if_pos hlast
  exact {
    whole := by
      intro c m hm
      rw [hsent] at hm
      by_cases hc : c = arg.conn
      · -- The reply has joined those sent
        rw [hc, Function.update_self] at hm
        rcases List.mem_append.mp hm with hm | hm
        · exact h.whole _ m hm
        · exact ⟨reply, k, (List.mem_singleton.mp hm).trans hbuf⟩
      · rw [Function.update_of_ne hc] at hm
        exact h.whole c m hm
    pucBuf := fun v arg' reply' n' hpc' => h.pucBuf v arg' reply' n'
      (hother v (hne v ⟨_, _, _, hpc'⟩) ▸ hpc')
    unique := by
      intro v v' c hv hv'
      have hvw := hne v (by obtain ⟨_, _, _, hpc', -⟩ := hv; exact ⟨_, _, _, hpc'⟩)
      have hvw' := hne v' (by obtain ⟨_, _, _, hpc', -⟩ := hv'; exact ⟨_, _, _, hpc'⟩)
      exact h.unique v v' c (partlySent_other hother hone hvw hv).1
        (partlySent_other hother hone hvw' hv').1
    partly := by
      intro v arg' reply' n' hpc' hlt
      obtain ⟨hconn, hstream⟩ := h.stream_other hother hone (hne v ⟨_, _, _, hpc'⟩) hpc' hlt
      rw [hsent]
      simp only [Wire.write, Function.update_of_ne hconn]
      exact hstream
    idle := by
      intro c hnone
      rw [hsent]
      by_cases hc : c = arg.conn
      · -- What was received is now all of the replies sent
        subst hc
        simp only [Wire.write, Function.update_self, hafter, List.flatten_append,
          List.flatten_singleton]
      · simp only [Wire.write, Function.update_of_ne hc]
        exact h.stream_idle hpc hother hc hnone }

/-- A `write` after which a part of the reply is left. -/
private theorem WireInv.write_more (h : s.WireInv garbage r)
    (hpc : s.handlers w = .sending arg reply n) (hpos : 0 < nwrite) (hle : nwrite ≤ n)
    (hone : ∀ v, v ≠ w → ¬ s.PartlySent v arg.conn)
    (hother : ∀ v, v ≠ w → s'.handlers v = s.handlers v) (hmore : n - nwrite ≠ 0)
    (hsending : s'.handlers w = .sending arg reply (n - nwrite)) :
    s'.WireInv garbage (r.write w arg.conn reply.iMessageLen n nwrite) := by
  obtain ⟨hn, k, hbuf⟩ := h.pucBuf w arg reply n hpc
  have hlt : n - nwrite < reply.iMessageLen := by omega
  have hsent : (r.write w arg.conn reply.iMessageLen n nwrite).sent = r.sent := if_neg hmore
  exact {
    whole := by rw [hsent]; exact h.whole
    pucBuf := by
      intro v arg' reply' n' hpc'
      by_cases hv : v = w
      · subst hv
        -- Worker `w` goes on with its buffer
        obtain ⟨-, rfl, rfl⟩ := HandlerPc.sending.inj (hsending.symm.trans hpc')
        exact ⟨Nat.le_of_lt hlt, k, hbuf⟩
      · exact h.pucBuf v arg' reply' n' (hother v hv ▸ hpc')
    unique := by
      intro v v' c hv hv'
      -- Only `w` sends to this connection
      have hw : s'.PartlySent w c → c = arg.conn := by
        rintro ⟨arg', reply', n', hpc', hc, -⟩
        obtain ⟨rfl, -⟩ := HandlerPc.sending.inj (hsending.symm.trans hpc')
        exact hc.symm
      by_cases hvw : v = w <;> by_cases hvw' : v' = w
      · rw [hvw, hvw']
      · exact absurd (hw (hvw ▸ hv)) (partlySent_other hother hone hvw' hv').2
      · exact absurd (hw (hvw' ▸ hv')) (partlySent_other hother hone hvw hv).2
      · exact h.unique v v' c (partlySent_other hother hone hvw hv).1
          (partlySent_other hother hone hvw' hv').1
    partly := by
      intro v arg' reply' n' hpc' hlt'
      rw [hsent]
      by_cases hv : v = w
      · subst hv
        obtain ⟨rfl, rfl, rfl⟩ := HandlerPc.sending.inj (hsending.symm.trans hpc')
        -- What was accepted has grown by `nwrite` bytes
        simp only [Wire.write, Function.update_self]
        exact h.stream_after hpc hle hone
      · obtain ⟨hconn, hstream⟩ := h.stream_other hother hone hv hpc' hlt'
        simp only [Wire.write, Function.update_of_ne hconn]
        exact hstream
    idle := by
      intro c hnone
      rw [hsent]
      have hc : c ≠ arg.conn := by
        -- Worker `w` has sent a part of a reply to its own connection
        rintro rfl
        exact hnone w ⟨arg, reply, _, hsending, rfl, hlt⟩
      simp only [Wire.write, Function.update_of_ne hc]
      exact h.stream_idle hpc hother hc hnone }

/-- A `write` of worker `w` to the connection of its job, while no other worker has sent a
    part of a reply to it, keeps the invariant. -/
private theorem WireInv.write (h : s.WireInv garbage r)
    (hpc : s.handlers w = .sending arg reply n) (hpos : 0 < nwrite) (hle : nwrite ≤ n)
    (hone : ∀ v, v ≠ w → ¬ s.PartlySent v arg.conn)
    (hhandlers : s'.handlers = Function.update s.handlers w
      ((sendBufferStep n (.accepted nwrite)).elim .done (.sending arg reply))) :
    s'.WireInv garbage (r.write w arg.conn reply.iMessageLen n nwrite) := by
  have hother : ∀ v, v ≠ w → s'.handlers v = s.handlers v := by
    intro v hv
    rw [hhandlers, Function.update_of_ne hv]
  -- The reply is finished or a part of it is left
  by_cases hlast : n - nwrite = 0
  · apply h.write_last hpc hle hone hother hlast
    rw [hhandlers, Function.update_self, sendBufferStep, if_pos hlast, Option.elim_none]
  · apply h.write_more hpc hpos hle hone hother hlast
    rw [hhandlers, Function.update_self, sendBufferStep, if_neg hlast, Option.elim_some]

end Write

/-- What holds of every `write` in the runs below. -/
def WritesWhole (x : Server × Wire) (a : Action) : Prop :=
  x.1.Accepts a ∧ x.1.OwnReceiver a ∧ x.1.OneAtATime a

/-- Every step that meets the condition keeps the invariant. -/
private theorem WireInv.step {a : Action} (h : s.WireInv garbage r) (ha : WritesWhole (s, r) a)
    (hs : s.step a = some s') : s'.WireInv garbage (recordWire garbage r s a s') := by
  obtain ⟨haccepts, hown, hone⟩ := ha
  by_cases hwrite : ∃ w q, a = .write w q
  · obtain ⟨w, q, rfl⟩ := hwrite
    obtain ⟨nwrite, hpos, rfl⟩ := haccepts w q rfl
    obtain ⟨arg, reply, n, receiver, hpc, hfd, hle, hhandlers⟩ := write_step hs
    obtain rfl : receiver = arg.conn :=
      -- The reply goes to the connection of the job
      Option.some.inj (hfd.symm.trans (hown w _ arg reply n rfl hpc))
    have hrecord : recordWire garbage r s (.write w (.accepted nwrite)) s' =
        r.write w arg.conn reply.iMessageLen n nwrite := by
      simp only [recordWire, hpc, hfd]
    rw [hrecord]
    exact h.write hpc hpos hle (hone w _ arg reply n rfl hpc) hhandlers
  · exact h.step_of_not_write (fun w q heq => hwrite ⟨w, q, heq⟩) hs

/-- A connection receives whole replies, in every run in which each `write` accepts a part
    of what it is offered, goes to the connection of its job and finds no other reply to
    it partly sent. -/
theorem replies_whole (garbage : Nat → List UInt8) {x : Server × Wire}
    (h : Transition.Reach (wired garbage) WritesWhole x) : RepliesWhole garbage x := by
  have hinv : x.1.WireInv garbage x.2 := by
    refine h.invariant (I := fun x => x.1.WireInv garbage x.2) ?_ fun x a x' _ hinv ha hs => ?_
    · rintro ⟨s, r⟩ ⟨⟨t, n, rfl⟩, hr⟩
      obtain rfl : r = {} := hr
      exact wireInv_start t n
    · obtain ⟨hs, hr⟩ := Transition.System.withHistory_step hs
      rw [hr]
      exact hinv.step ha hs
  refine ⟨hinv.whole, fun c => ?_⟩
  by_cases hpartly : ∃ w, x.1.PartlySent w c
  · -- One reply is partly sent: what is accepted of it comes last
    obtain ⟨w, arg, reply, n, hpc, rfl, hlt⟩ := hpartly
    exact ⟨_, _, .refl _, hinv.partly w arg reply n hpc hlt,
      .inr ⟨w, arg, reply, n, hpc, rfl, hlt, rfl⟩⟩
  · -- Nothing is partly sent
    refine ⟨_, [], .refl _, ?_, .inl rfl⟩
    rw [List.append_nil]
    exact hinv.idle c fun w hw => hpartly ⟨w, hw⟩

/-- A handshake with an empty greeting. -/
private def handshakeBytes : List UInt8 := [0xfb, 0xff, 0, 0, 9, 0, 0, 0, 0]

/-- A query for the empty user id. -/
private def getRemoteBytes : List UInt8 := [0xfd, 0xff, 0, 0, 25, 0, 0, 0]

/-- A step other than a `write` meets the conditions. -/
private theorem meets_of_no_write {as : List Action} (has : ∀ w q, .write w q ∉ as)
    (x : Server × Wire) : (wired garbage).Meets WritesWhole x as := by
  refine (wired garbage).meets_of_mem (fun a ha y => ⟨?_, ?_, ?_⟩) x
  · rintro w q rfl
    exact absurd ha (has w q)
  · rintro w q _ _ _ rfl
    exact absurd ha (has w q)
  · rintro w q _ _ _ rfl
    exact absurd ha (has w q)

/-- A `write` of a job of the first connection. -/
private theorem accepts_own {w : Nat} (nwrite : Nat) {data : List UInt8} (hpos : 0 < nwrite)
    (hpc : ∃ reply n, s.handlers w = .sending (.received data 5 0) reply n)
    (hfd : s.fds 5 = some 0) :
    s.Accepts (.write w (.accepted nwrite)) ∧ s.OwnReceiver (.write w (.accepted nwrite)) := by
  constructor
  · rintro w' q ⟨⟩
    exact ⟨nwrite, hpos, rfl⟩
  · intro w' q arg reply n heq hpc'
    cases heq
    obtain ⟨reply', n', hpc⟩ := hpc
    obtain ⟨rfl, -⟩ := HandlerPc.sending.inj (hpc.symm.trans hpc')
    exact hfd

/-- The steps that lead to the reply to a handshake. -/
private def handshakeRun : List Action :=
  acceptRun { fd := 5, addr := .zero _, port := 80 } 0 ++ receiveRun 5 handshakeBytes 0 ++
    takeJobRun 0 ++ [.dispatch 0]

set_option maxRecDepth 100000 in
/-- A reply to a handshake that takes two `write`s is received whole. -/
theorem replies_whole_handshake : ∃ x : Server × Wire,
    (wired fun _ => []).run (start 0, {})
      (handshakeRun ++ [.write 0 (.accepted 1), .write 0 (.accepted 263)]) = some x ∧
      RepliesWhole (fun _ => []) x := by
  have hrun : ∃ x y z : Server × Wire, (wired fun _ => []).run (start 0, {}) handshakeRun = some x ∧
      (wired fun _ => []).step x (.write 0 (.accepted 1)) = some y ∧
      (wired fun _ => []).step y (.write 0 (.accepted 263)) = some z ∧
      ((∃ reply n, x.1.handlers 0 = .sending (.received handshakeBytes 5 0) reply n) ∧
        x.1.fds 5 = some 0 ∧ ∃ p q, x.1.handlers =
          Function.update (Function.update (fun _ => .entered) 0 p) 0 q) ∧
      (∃ reply n, y.1.handlers 0 = .sending (.received handshakeBytes 5 0) reply n) ∧
        y.1.fds 5 = some 0 ∧ ∃ p q q', y.1.handlers =
          Function.update (Function.update (Function.update (fun _ => .entered) 0 p) 0 q) 0 q' :=
    ⟨_, _, _, rfl, rfl, rfl, ⟨⟨_, _, rfl⟩, rfl, _, _, rfl⟩, ⟨_, _, rfl⟩, rfl, _, _, _, rfl⟩
  obtain ⟨x, y, z, hx, hy, hz, ⟨hsx, hfx, p, q, hhx⟩, hsy, hfy, p', q', q'', hhy⟩ := hrun
  -- No other worker has taken a job
  have hone : ∀ t : Server, (∀ v, v ≠ 0 → t.handlers v = .entered) →
      t.OneAtATime (.write 0 (.accepted 1)) ∧ t.OneAtATime (.write 0 (.accepted 263)) := by
    intro t ht
    have hnone : ∀ v c, v ≠ 0 → ¬ t.PartlySent v c := by
      rintro v c hv ⟨_, _, _, hpc, -⟩
      cases (ht v hv).symm.trans hpc
    constructor
    · rintro w q arg reply n ⟨⟩ - v hv
      exact hnone v _ hv
    · rintro w q arg reply n ⟨⟩ - v hv
      exact hnone v _ hv
  have hx' := hone x.1 fun v hv => by
    rw [hhx, Function.update_of_ne hv, Function.update_of_ne hv]
  have hy' := hone y.1 fun v hv => by
    rw [hhy, Function.update_of_ne hv, Function.update_of_ne hv, Function.update_of_ne hv]
  obtain ⟨haccx, hownx⟩ := accepts_own 1 (by decide) hsx hfx
  obtain ⟨haccy, howny⟩ := accepts_own 263 (by decide) hsy hfy
  have hreach : Transition.Reach (wired fun _ => []) WritesWhole x :=
    .run (.init ⟨⟨0, 15, rfl⟩, rfl⟩) (meets_of_no_write
      (by simp [handshakeRun, acceptRun, fillRun, receiveRun, takeJobRun]) _) hx
  refine ⟨z, ?_, replies_whole _ (.step (.step hreach ⟨haccx, hownx, hx'.1⟩ hy)
    ⟨haccy, howny, hy'.2⟩ hz)⟩
  rw [Transition.System.run_append, hx, Option.bind_some, Transition.System.run_cons, hy,
    Option.bind_some, Transition.System.run_cons, hz, Option.bind_some, Transition.System.run_nil]

/-- The steps that lead to the replies to a handshake and to a query of one client, by two
    workers. -/
private def twoRepliesRun : List Action :=
  acceptRun { fd := 5, addr := .zero _, port := 80 } 0 ++ receiveRun 5 handshakeBytes 0 ++
    receiveRun 5 getRemoteBytes 0 ++ takeJobRun 0 ++ takeJobRun 1 ++ [.dispatch 0, .dispatch 1]

set_option maxRecDepth 100000 in
/-- The reply to the query is sent after the first byte of the reply to the handshake. -/
theorem replies_whole_fails :
    ¬ ∀ (garbage : Nat → List UInt8) (x : Server × Wire), Transition.Reach (wired garbage)
      (fun x a => x.1.Accepts a ∧ x.1.OwnReceiver a) x → RepliesWhole garbage x := by
  intro h
  have hrun : ∃ t x y z : Server × Wire,
      (wired fun _ => []).run (start 0, {}) twoRepliesRun = some t ∧
      (wired fun _ => []).step t (.write 0 (.accepted 1)) = some x ∧
      (wired fun _ => []).step x (.write 1 (.accepted 276)) = some y ∧
      (wired fun _ => []).step y (.write 0 (.accepted 263)) = some z ∧
      ((∃ reply n, t.1.handlers 0 = .sending (.received handshakeBytes 5 0) reply n) ∧
        t.1.fds 5 = some 0) ∧
      ((∃ reply n, x.1.handlers 1 = .sending (.received getRemoteBytes 5 0) reply n) ∧
        x.1.fds 5 = some 0) ∧
      ((∃ reply n, y.1.handlers 0 = .sending (.received handshakeBytes 5 0) reply n) ∧
        y.1.fds 5 = some 0) ∧
      (∃ m m', z.2.sent 0 = [m, m'] ∧ m.take 2 = [0xfc, 0xff] ∧ m'.take 2 = [0xfa, 0xff]) ∧
      (z.2.stream 0).take 2 = [0xfa, 0xfc] :=
    ⟨_, _, _, _, rfl, rfl, rfl, rfl, ⟨⟨_, _, rfl⟩, rfl⟩, ⟨⟨_, _, rfl⟩, rfl⟩, ⟨⟨_, _, rfl⟩, rfl⟩,
      ⟨_, _, rfl, rfl, rfl⟩, rfl⟩
  obtain ⟨t, x, y, z, ht, hx, hy, hz, ⟨hst, hft⟩, ⟨hsx, hfx⟩, ⟨hsy, hfy⟩,
    ⟨m, m', hsent, hm, hm'⟩, hstream⟩ := hrun
  have hreach : Transition.Reach (wired fun _ => []) WritesWhole t :=
    .run (.init ⟨⟨0, 15, rfl⟩, rfl⟩) (meets_of_no_write
      (by simp [twoRepliesRun, acceptRun, fillRun, receiveRun, takeJobRun]) _) ht
  have hend : Transition.Reach (wired fun _ => [])
      (fun x a => x.1.Accepts a ∧ x.1.OwnReceiver a) z :=
    .step (.step (.step (hreach.mono fun _ _ h => ⟨h.1, h.2.1⟩)
      (accepts_own _ (by decide) hst hft) hx) (accepts_own _ (by decide) hsx hfx) hy)
      (accepts_own _ (by decide) hsy hfy) hz
  obtain ⟨ms, rest, hperm, hcut, -⟩ := (h _ z hend).stream 0
  rw [hsent] at hperm
  -- The first message of the stream is one of the two replies
  cases ms with
  | nil => cases hperm.length_eq
  | cons a ms =>
    have htwo : a.take 2 = [0xfc, 0xff] ∨ a.take 2 = [0xfa, 0xff] := by
      have hmem : a ∈ [m, m'] := hperm.subset List.mem_cons_self
      rcases List.mem_cons.mp hmem with rfl | hmem
      · exact .inl hm
      · exact .inr (List.mem_singleton.mp hmem ▸ hm')
    -- So it has the two bytes that the stream begins with
    have hlen : 2 ≤ a.length := by
      have htake : (a.take 2).length = 2 := by rcases htwo with h2 | h2 <;> rw [h2] <;> rfl
      rw [List.length_take] at htake
      omega
    rw [hcut, List.flatten_cons, List.append_assoc, List.take_append_of_le_length hlen] at hstream
    rcases htwo with h2 | h2 <;> rw [h2] at hstream <;> exact absurd hstream (by decide)

end Server

end JQServer
