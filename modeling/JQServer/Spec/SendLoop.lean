import JQServer.Native.SocketLoops

/-!
# Sending a buffer

`send_buffer_to_fd` counts down the bytes left and takes the next ones from
`pucBuf + iLen - n`. A `write` that would block returns -1, and the loop subtracts that
as well: the count grows by one, and the next `write` starts one byte too early, in front
of the buffer if nothing was accepted yet. Without EAGAIN the buffer goes out in order
(`send_buffer_to_fd_in_order_iff`).
-/

namespace JQServer

open Transition

/-- `pucBuf[0 .. iLen)` -/
def sendBuffer (pucBuf : Int → UInt8) (iLen : Nat) : List UInt8 :=
  (List.range iLen).map fun (k : Nat) => pucBuf k

/-- The count is between 0 and `iLen`, the next `write` offers exactly the bytes of the
    buffer that are not accepted yet, the bytes accepted are a prefix of the buffer, and
    they are all of it when `iLen` is returned. -/
structure SendState.InOrder (pucBuf : Int → UInt8) (iLen : Nat) (s : SendState) : Prop where
  range : 0 ≤ s.n ∧ s.n ≤ iLen
  next : s.result = none → iLen - s.n = s.accepted.length
  offer : s.result = none →
    sendOffer pucBuf iLen s.n = (sendBuffer pucBuf iLen).drop s.accepted.length
  sent : s.accepted <+: sendBuffer pucBuf iLen
  whole : s.result = some (iLen : Int) → s.accepted = sendBuffer pucBuf iLen

variable {pucBuf : Int → UInt8} {iLen : Nat} {s s' t : SendState} {r : WriteResult}

/-- What is offered when `m` bytes have been accepted. -/
private theorem sendOffer_eq_drop {m : Nat} (hm : m ≤ iLen) :
    sendOffer pucBuf iLen (iLen - m) = (sendBuffer pucBuf iLen).drop m := by
  have hlen : ((iLen : Int) - m).toNat = iLen - m := by omega
  refine List.ext_getElem ?_ fun k hk _ => ?_
  · simp only [sendOffer, sendBuffer, List.length_map, List.length_range, List.length_drop, hlen]
  · simp only [sendOffer, sendBuffer, List.getElem_map, List.getElem_range, List.getElem_drop]
    congr 1
    push_cast
    omega

/-- Where the loop is without EAGAIN: `m` bytes accepted, the rest to go. -/
structure SendState.Sent (pucBuf : Int → UInt8) (iLen : Nat) (s : SendState) (m : Nat) :
    Prop where
  le : m ≤ iLen
  left : s.n = iLen - m
  accepted : s.accepted = (sendBuffer pucBuf iLen).take m
  running : s.result = none → 0 < s.n
  whole : s.result = some (iLen : Int) → m = iLen

/-- The test of the loop after `m` bytes. -/
private theorem SendState.Sent.test {m : Nat} (hm : m ≤ iLen) (hn : s.n = iLen - m)
    (hacc : s.accepted = (sendBuffer pucBuf iLen).take m) (hres : s.result = none) :
    (SendState.test iLen s).Sent pucBuf iLen m := by
  unfold SendState.test
  split
  · rename_i hpos
    exact ⟨hm, hn, hacc, fun _ => hpos, fun hw => absurd (hres.symm.trans hw) nofun⟩
  · rename_i hpos
    refine ⟨hm, hn, hacc, nofun, fun _ => ?_⟩
    omega

/-- Before the first `write` nothing is accepted. -/
private theorem sent_start : (SendState.start iLen).Sent pucBuf iLen 0 :=
  .test (Nat.zero_le _) (by simp) (List.take_zero).symm rfl

/-- A round without EAGAIN accepts the bytes that come next. -/
private theorem SendState.Sent.round {m : Nat} (h : s.Sent pucBuf iLen m) (hr : r ≠ .eagain)
    (hs : s.round pucBuf iLen r = some s') : ∃ m', s'.Sent pucBuf iLen m' := by
  cases r with
  | accepted nwrite =>
    simp only [SendState.round, Option.ite_none_right_eq_some] at hs
    obtain ⟨⟨hres, hpos, hle⟩, hs⟩ := hs
    have hle' := h.le
    have hleft := h.left
    obtain rfl := Option.some.inj hs
    refine ⟨m + nwrite, .test (by omega) (by simp only; omega) ?_ hres⟩
    simp only [h.accepted, hleft, sendOffer_eq_drop h.le]
    rw [List.take_add]
  | eagain => exact absurd rfl hr
  | error =>
    simp only [SendState.round, Option.ite_none_right_eq_some] at hs
    obtain ⟨hres, hs⟩ := hs
    have hrun := h.running hres
    have hleft := h.left
    obtain rfl := Option.some.inj hs
    refine ⟨m, h.le, hleft, h.accepted, nofun, fun hw => ?_⟩
    -- Bytes were left, so `iLen` is not the 0 that is returned
    have hzero : (0 : Int) = iLen := Option.some.inj hw
    omega

/-- Bytes accepted in order are what is asked for. -/
private theorem SendState.Sent.inOrder {m : Nat} (h : s.Sent pucBuf iLen m) :
    s.InOrder pucBuf iLen := by
  have hle := h.le
  have hleft := h.left
  have hlen : s.accepted.length = m := by
    rw [h.accepted, List.length_take, sendBuffer, List.length_map, List.length_range]
    omega
  refine ⟨by omega, fun _ => by omega, fun _ => ?_, ?_, fun hw => ?_⟩
  · rw [hleft, sendOffer_eq_drop hle, hlen]
  · rw [h.accepted]
    exact List.take_prefix _ _
  · rw [h.accepted, h.whole hw]
    refine List.take_of_length_le ?_
    rw [sendBuffer, List.length_map, List.length_range]

/-- A run without EAGAIN. -/
private theorem sent_of_run {outcomes : List WriteResult} (hr : .eagain ∉ outcomes)
    (hs : (sendSystem pucBuf iLen).run (.start iLen) outcomes = some s) :
    s.InOrder pucBuf iLen := by
  have hreach : Reachable (sendSystem pucBuf iLen) (SendState.start iLen) := .init rfl
  obtain ⟨m, hm⟩ := hreach.run_invariant (I := fun s => ∃ m, s.Sent pucBuf iLen m)
    (P := fun r => r ≠ .eagain) (fun _ _ _ _ ⟨_, h⟩ _ hne hstep => h.round hne hstep)
    (System.meets_of_mem _ (fun _ _ _ => trivial) _)
    (fun r hmem heq => hr (heq ▸ hmem)) hs ⟨0, sent_start⟩
  exact hm.inOrder

/-- EAGAIN puts the next `write` one byte too early. -/
private theorem SendState.InOrder.eagain (h : s.InOrder pucBuf iLen)
    (hs : s.round pucBuf iLen .eagain = some s') : ¬ s'.InOrder pucBuf iLen := by
  simp only [SendState.round, Option.ite_none_right_eq_some] at hs
  obtain ⟨hres, hs⟩ := hs
  obtain rfl := Option.some.inj hs
  have hnext := h.next hres
  have hpos : s.n - (-1) > 0 := by
    have := h.range.1
    omega
  intro h'
  have hnext' := h'.next (by simp only [SendState.test, if_pos hpos, hres])
  simp only [SendState.test, if_pos hpos] at hnext'
  omega

/-- A run of `send_buffer_to_fd` sends the buffer in order exactly if no `write` in it
    fails with EAGAIN. -/
theorem send_buffer_to_fd_in_order_iff (pucBuf : Int → UInt8) (iLen : Nat)
    {outcomes : List WriteResult}
    (h : (sendSystem pucBuf iLen).run (.start iLen) outcomes = some t) :
    (∀ k s, (sendSystem pucBuf iLen).run (.start iLen) (outcomes.take k) = some s →
      s.InOrder pucBuf iLen) ↔ .eagain ∉ outcomes := by
  constructor
  · intro hall hmem
    obtain ⟨pre, post, rfl⟩ := List.append_of_mem hmem
    rw [System.run_append] at h
    obtain ⟨s, hs, hpost⟩ := Option.bind_eq_some_iff.mp h
    obtain ⟨s', hs', -⟩ := System.run_cons_some hpost
    have hbefore := hall pre.length s (by rw [List.take_left' rfl]; exact hs)
    refine hbefore.eagain hs' (hall (pre.length + 1) s' ?_)
    rw [List.take_append, List.take_of_length_le (Nat.le_succ _), Nat.add_sub_cancel_left,
      List.take_succ_cons, List.take_zero]
    exact System.run_snoc hs hs'
  · exact fun hne k s hs => sent_of_run (fun hmem => hne (List.mem_of_mem_take hmem)) hs

/-- Three bytes in two `write`s. -/
theorem send_buffer_to_fd_two_writes :
    ∃ t, (sendSystem (fun k => k.toNat.toUInt8) 3).run (.start 3) [.accepted 1, .accepted 2] =
        some t ∧ t.result = some 3 ∧ t.accepted = [0, 1, 2] ∧
      ∀ k s, (sendSystem (fun k => k.toNat.toUInt8) 3).run (.start 3)
        ([WriteResult.accepted 1, .accepted 2].take k) = some s →
        s.InOrder (fun k => k.toNat.toUInt8) 3 :=
  ⟨_, rfl, rfl, rfl, (send_buffer_to_fd_in_order_iff _ 3 rfl).mpr (by decide)⟩

/-- A `write` that would block, before anything was accepted: the next one is offered the
    byte in front of the buffer as well. -/
theorem send_buffer_to_fd_eagain :
    ¬ ∀ (pucBuf : Int → UInt8) (iLen : Nat) (outcomes : List WriteResult) (t : SendState),
      (sendSystem pucBuf iLen).run (.start iLen) outcomes = some t → t.InOrder pucBuf iLen := by
  intro h
  have hout := (h (fun _ => 0) 1 [.eagain] _ rfl).range.2
  exact absurd hout (by decide)

/-- The rest of the server follows the count of the loop. -/
theorem sendBufferStep_round (hres : s.result = none) (hpos : 0 < s.n)
    (hs : s.round pucBuf iLen r = some s') :
    sendBufferStep s.n.toNat r = if s'.result = none then some s'.n.toNat else none := by
  cases r with
  | accepted nwrite =>
    simp only [SendState.round, Option.ite_none_right_eq_some] at hs
    obtain ⟨⟨-, -, hle⟩, hs⟩ := hs
    obtain rfl := Option.some.inj hs
    by_cases hleft : s.n - nwrite > 0
    · have hne : s.n.toNat - nwrite ≠ 0 := by omega
      have hnat : (s.n - nwrite).toNat = s.n.toNat - nwrite := by omega
      simp only [SendState.test, if_pos hleft, hres, ↓reduceIte, sendBufferStep, hne, hnat]
    · have hzero : s.n.toNat - nwrite = 0 := by omega
      simp only [SendState.test, if_neg hleft, sendBufferStep, hzero, reduceCtorEq, ↓reduceIte]
  -- `nwrite` is -1, so the count goes up
  | eagain =>
    simp only [SendState.round, Option.ite_none_right_eq_some] at hs
    obtain ⟨-, hs⟩ := hs
    obtain rfl := Option.some.inj hs
    have hleft : s.n - (-1) > 0 := by omega
    have hnat : (s.n - (-1)).toNat = s.n.toNat + 1 := by omega
    simp only [SendState.test, if_pos hleft, hres, ↓reduceIte, sendBufferStep, hnat]
  | error =>
    simp only [SendState.round, Option.ite_none_right_eq_some] at hs
    obtain ⟨-, hs⟩ := hs
    obtain rfl := Option.some.inj hs
    rfl

end JQServer
