import JQServer.Spec.Login
import JQServer.Spec.Rendezvous

/-!
# A login is found until the next one

What the server is for: a client logs in, and another one asks for its address. The user id
of a SENDUI stays in its slot until another SENDUI copies one to it (`usrhashId_run`), whatever
the threads do meanwhile. A query for the user id that a slot stores is answered about this slot or
a lower one that stores the same id, with the address of the connection that occupies it
(`answered_of_storesId`).
-/

namespace JQServer

namespace Server

open Transition

variable {s s' : Server} {r : Nat → Option Peer} {i : Fin maxEvents}

/-- The step copies the user id of a CMD_SENDUI to slot `i`. -/
def CopiesUserId (s : Server) (i : Fin maxEvents) (a : Action) : Prop :=
  ∃ w arg, a = .copy w ∧ s.handlers w = .sendUI arg i .userId

/-- A write to other fields of a slot. -/
private theorem usrhashId_update {j : Fin maxEvents} {e : EpollConnect}
    (htable : s'.table = Function.update s.table j e)
    (hid : i = j → e.usrhashId = (s.table j).usrhashId) :
    (s'.table i).usrhashId = (s.table i).usrhashId := by
  rw [htable]
  by_cases hij : i = j
  · rw [hij, Function.update_self]
    exact hid hij
  · rw [Function.update_of_ne hij]

/-- Only a SENDUI writes the user id of a slot; it outlives the connection. -/
theorem usrhashId_step {a : Action} (ha : ¬ s.CopiesUserId i a) (hs : s.step a = some s') :
    (s'.table i).usrhashId = (s.table i).usrhashId := by
  obtain hm | hm | hm := (step_moves hs).2
  -- The accept thread writes address, port, descriptor and status of a slot
  · cases hm with
    | @fill c j w ws => exact usrhashId_update rfl fun _ => (w.apply_strings (s.table j)).1
    | _ => rfl
  · cases hm with
    | op ho hop =>
      cases hop with
      | free | freeMatched | updateTime => exact usrhashId_update rfl fun _ => rfl
      | _ => rfl
    | _ => rfl
  · cases hm with
    -- The copy of a user id to this slot is excluded
    | @copy w arg j field hpc =>
      refine usrhashId_update (j := j) (e := field.strncpy (s.table j) (.ofBuffer arg.recvBuffer))
        rfl fun hij => ?_
      cases field with
      | userId => exact absurd ⟨w, arg, rfl, hij ▸ hpc⟩ ha
      | passwd => rfl
    | _ => rfl

/-- The user id of a slot in a run in which no SENDUI copies one to it. -/
theorem usrhashId_run {x x' : Server × (Nat → Option Peer)} {as : List Action}
    (hkeep : peers.Meets (fun y a => ¬ y.1.CopiesUserId i a) x as)
    (hr : peers.run x as = some x') : (x'.1.table i).usrhashId = (x.1.table i).usrhashId := by
  induction as generalizing x with
  | nil => rw [Option.some.inj hr]
  | cons a as ih =>
    obtain ⟨y, hy, hr⟩ := System.run_cons_some hr
    exact (ih (hkeep.2 y hy) hr).trans (usrhashId_step hkeep.1 (System.withHistory_step hy).1)

/-- After a SENDUI has copied its user id to slot `i`, and until another one does, the slot
    stores it. -/
theorem usrhashId_of_login {x x₁ x₂ : Server × (Nat → Option Peer)} {w : Nat}
    {arg : JobParameter} {msg : SendUIMessage} {as : List Action}
    (hlogin : x.1.handlers w = .sendUI arg i .userId) (hparam : x.1.parameter w ≠ none)
    (hcmd : Command.ofBuffer arg.recvBuffer = .sendUI msg)
    (hs : peers.step x (.copy w) = some x₁)
    (hkeep : peers.Meets (fun y a => ¬ y.1.CopiesUserId i a) x₁ as)
    (hr : peers.run x₁ as = some x₂) : (x₂.1.table i).usrhashId.str = msg.userId.str := by
  have hstored : (x₁.1.table i).usrhashId.str = msg.userId.str := by
    obtain ⟨arg', j, field, hpc, hs'⟩ := copy_step (System.withHistory_step hs).1
    obtain ⟨rfl, rfl, rfl⟩ := HandlerPc.sendUI.inj (hlogin.symm.trans hpc)
    obtain ⟨parameter, hjob⟩ := Option.ne_none_iff_exists'.mp hparam
    rw [hs', SendUIMessage.eq_ofBuffer hcmd]
    simp only [copyStep, hjob]
    exact stored_storeField_self arg i .userId
  rw [usrhashId_run hkeep hr, hstored]

/-- The search for a user id compares 9 characters. -/
theorem storesId_iff_match (grMsg : GetRemoteMessage) (k : Fin maxEvents) :
    CString.strncmp 9 (s.table k).usrhashId.bytes
      (CharArray.strncpy 10 grMsg.userId.bytes).bytes = 0 ↔
        s.StoresId k (grMsg.userId.str.take 9) := by
  have hcopy : CString.str (CharArray.strncpy 10 grMsg.userId.bytes).bytes = grMsg.userId.str :=
    CharArray.str_strncpy grMsg.userId
  rw [CString.strncmp_eq_zero_iff, hcopy]
  exact Iff.rfl

/-- The search for a user id that slot `i` stores finds the lowest slot that stores it. -/
theorem found_of_storesId {grMsg : GetRemoteMessage}
    (hi : s.StoresId i (grMsg.userId.str.take 9)) :
    ∃ k ≤ i, s.table.found grMsg = some k ∧ s.StoresId k (grMsg.userId.str.take 9) ∧
      ∀ l < k, ¬ s.StoresId l (grMsg.userId.str.take 9) := by
  -- Slot `i` stores it, so the search ends there at the latest
  obtain ⟨k, hk⟩ := Fin.exists_firstIndex
    (p := fun l => CString.strncmp 9 (s.table l).usrhashId.bytes
      (CharArray.strncpy 10 grMsg.userId.bytes).bytes = 0)
    (decide_eq_true ((storesId_iff_match grMsg i).mpr hi))
  obtain ⟨hstored, hlow⟩ := Fin.firstIndex_eq_some_iff.mp hk
  have hlow' : ∀ l < k, ¬ s.StoresId l (grMsg.userId.str.take 9) := by
    intro l hl hsl
    exact of_decide_eq_false (hlow l hl) ((storesId_iff_match grMsg l).mpr hsl)
  exact ⟨k, le_of_not_gt fun hik => hlow' i hik hi, hk,
    (storesId_iff_match grMsg k).mp (of_decide_eq_true hstored), hlow'⟩

/-- The reply to a query of worker `w` for the user id `u`: it is about the lowest slot that
    stores the user id, which is not above slot `i`; and if this slot is occupied, the reply has
    the address and the port of the connection that occupies it. -/
def Answered (x : Server × (Nat → Option Peer)) (s' : Server) (w : Nat) (i : Fin maxEvents)
    (u : List UInt8) : Prop :=
  ∃ k ≤ i, ∃ arg msg, x.1.StoresId k u ∧ (∀ l < k, ¬ x.1.StoresId l u) ∧
    s'.handlers w = .sending arg (.getRemoteAck msg) (Reply.getRemoteAck msg).iMessageLen ∧
    msg.flag = true ∧
    (x.1.table.Occupied k → ∃ conn p, x.1.owner k = some conn ∧ x.2 conn = some p ∧
      NamesPeer msg p)

/-- A query for a user id that slot `i` stores is answered while its job is in memory, in every
    run. -/
theorem answered_of_storesId {x : Server × (Nat → Option Peer)} {w : Nat} {arg : JobParameter}
    {grMsg : GetRemoteMessage} {index : Option (Fin maxEvents)} (h : Reachable peers x)
    (hi : x.1.StoresId i (grMsg.userId.str.take 9))
    (hquery : x.1.handlers w = .matched arg index) (hparam : x.1.parameter w ≠ none)
    (hcmd : Command.ofBuffer arg.recvBuffer = .getRemote grMsg)
    (hs : x.1.step (.dispatch w) = some s') : Answered x s' w i (grMsg.userId.str.take 9) := by
  obtain ⟨k, hki, hfound, hk, hlow⟩ := found_of_storesId hi
  have hsend : s'.handlers w = .sending arg (.getRemoteAck (responsGetRemote x.1.table grMsg))
      (Reply.getRemoteAck (responsGetRemote x.1.table grMsg)).iMessageLen :=
    dispatch_getRemote hquery hparam hcmd hs
  refine ⟨k, hki, _, _, hk, hlow, hsend, ?_, fun hocc => ?_⟩
  · rw [Table.responsGetRemote_of_some hfound]
  · obtain ⟨conn, p, howner, hp, hslot⟩ := peers_recorded h hocc
    exact ⟨conn, p, howner, hp, namesPeer_of_found hfound hslot⟩

end Server

end JQServer
