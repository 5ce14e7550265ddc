import JQServer.Native.SharedTable
import Mathlib.Logic.Relation

/-!
# A handler on a table that stays as it is

While no other thread steps, the looks and copies of a handler add up to the searches,
the counting pass and the replies that `Server` takes for one step each. So the two models
differ only in what other threads do in between.
-/

namespace JQServer

namespace SharedTable

/-- The handler gets from one program counter to another by looks at the table `t`. -/
def Alone (t : Table) : HandlerPc → HandlerPc → Prop :=
  Relation.ReflTransGen fun pc pc' => look t pc = some pc'

variable {t : Table}

/-- One look. -/
theorem Alone.look {pc pc' : HandlerPc} (h : SharedTable.look t pc = some pc') : Alone t pc pc' :=
  Relation.ReflTransGen.single h

/-- A look that does not need the table. -/
theorem Alone.tail {pc pc' pc'' : HandlerPc} (h : Alone t pc pc')
    (hs : SharedTable.look t pc' = some pc'') : Alone t pc pc'' :=
  Relation.ReflTransGen.tail h hs

/-! ### Searches -/

/-- A search passes the slots that it is not for. -/
private theorem alone_pass {pcs : Nat → HandlerPc} {k : Nat} (hk : k ≤ maxEvents)
    (hlook : ∀ j : Fin maxEvents, j.val < k →
      SharedTable.look t (pcs j.val) = some (pcs (j.val + 1))) :
    Alone t (pcs 0) (pcs k) := by
  induction k with
  | zero => exact Relation.ReflTransGen.refl
  | succ k ih =>
    apply (ih (Nat.le_of_lt hk) fun j hj => hlook j (Nat.lt_succ_of_lt hj)).tail
    exact hlook ⟨k, hk⟩ (Nat.lt_succ_self k)

/-- The search by descriptor passes the slots that hold another one. -/
private theorem alone_passFd {arg : JobParameter} {k : Nat} (hk : k ≤ maxEvents)
    (hne : ∀ j : Fin maxEvents, j.val < k → (t j).connectFd ≠ arg.fd) :
    Alone t (.searchingFd arg 0) (.searchingFd arg k) := by
  apply alone_pass hk fun j hj => ?_
  simp only [SharedTable.look, j.isLt, ↓reduceDIte]
  rw [if_neg (hne j hj)]

/-- The search by descriptor is `get_matched_event_index_by_fd`. -/
theorem alone_searchingFd {arg : JobParameter} {pc : HandlerPc}
    (h : dispatch arg (t.getMatchedEventIndexByFd arg.fd) = some pc) :
    Alone t (.searchingFd arg 0) pc := by
  cases hm : t.getMatchedEventIndexByFd arg.fd with
  | none =>
    rw [hm] at h
    have hne := Fin.firstIndex_eq_none_iff.mp hm
    apply (alone_passFd (Nat.le_refl _) fun j _ => by simpa using hne j).tail
    simp only [SharedTable.look, Nat.lt_irrefl, ↓reduceDIte]
    exact h
  | some i =>
    rw [hm] at h
    obtain ⟨hi, hlt⟩ := Fin.firstIndex_eq_some_iff.mp hm
    apply (alone_passFd (Nat.le_of_lt i.isLt) fun j hj => by simpa using hlt j hj).tail
    simp only [SharedTable.look, i.isLt, ↓reduceDIte]
    rw [if_pos (by simpa using hi)]
    exact h

/-- The search by user id passes the slots that store another one. -/
private theorem alone_passUsrHashId {u : List UInt8} {k : Nat} (hk : k ≤ maxEvents)
    (hne : ∀ j : Fin maxEvents, j.val < k → CString.strncmp 9 (t j).usrhashId.bytes u ≠ 0) :
    Alone t (.searchingUsrHashId u 0) (.searchingUsrHashId u k) := by
  apply alone_pass hk fun j hj => ?_
  simp only [SharedTable.look, j.isLt, ↓reduceDIte]
  rw [if_neg (hne j hj)]

/-- The search by user id and the copies from the slot found make the GETREMOTE_ACK. -/
theorem alone_getRemote (grMsg : GetRemoteMessage) :
    Alone t (.searchingUsrHashId (CharArray.strncpy 10 grMsg.userId.bytes).bytes 0)
      (.replied (.getRemoteAck (responsGetRemote t grMsg))) := by
  cases hm : t.getMatchedEventIndexByUsrHashId (CharArray.strncpy 10 grMsg.userId.bytes).bytes with
  | none =>
    have hne := Fin.firstIndex_eq_none_iff.mp hm
    apply (alone_passUsrHashId (Nat.le_refl _) fun j _ => by simpa using hne j).tail
    simp only [SharedTable.look, Nat.lt_irrefl, ↓reduceDIte, responsGetRemote, hm]
    rfl
  | some i =>
    obtain ⟨hi, hlt⟩ := Fin.firstIndex_eq_some_iff.mp hm
    have hfound : Alone t (.searchingUsrHashId (CharArray.strncpy 10 grMsg.userId.bytes).bytes 0)
        (.copying .getRemote i [] ReplyKind.getRemote.fields) := by
      apply (alone_passUsrHashId (Nat.le_of_lt i.isLt) fun j hj => by simpa using hlt j hj).tail
      simp only [SharedTable.look, i.isLt, ↓reduceDIte]
      rw [if_pos (by simpa using hi)]
    -- Four copies, and the reply made of them
    refine ((((hfound.tail rfl).tail rfl).tail rfl).tail rfl).tail ?_
    simp only [responsGetRemote, hm]
    rfl

/-! ### Replies -/

/-- The copies from the slot found make the HANDSHAKE_ACK. -/
theorem alone_handshake {arg : JobParameter} {greetings : List UInt8}
    (hcmd : Command.ofBuffer arg.recvBuffer = .handshake greetings) :
    Alone t (.searchingFd arg 0)
      (.replied (.handshakeAck (responsHandshake t (t.getMatchedEventIndexByFd arg.fd)))) := by
  cases hm : t.getMatchedEventIndexByFd arg.fd with
  | none =>
    apply alone_searchingFd
    simp only [dispatch, hcmd, hm]
    rfl
  | some i =>
    have hfound : Alone t (.searchingFd arg 0)
        (.copying .handshake i [] ReplyKind.handshake.fields) := by
      apply alone_searchingFd
      simp only [dispatch, hcmd, hm]
    exact ((hfound.tail rfl).tail rfl).tail rfl

/-- The counting pass counts the occupied slots that it has passed. -/
theorem alone_counting {k : Nat} (hk : k ≤ maxEvents) :
    Alone t (.counting 0 0) (.counting k ((Fin.below maxEvents k).filter t.Occupied).card) := by
  induction k with
  | zero =>
    have hzero : ((Fin.below maxEvents 0).filter t.Occupied).card = 0 := by
      rw [Fin.below_zero]
      rfl
    rw [hzero]
    exact Relation.ReflTransGen.refl
  | succ k ih =>
    have hk' : k < maxEvents := hk
    apply (ih (Nat.le_of_lt hk')).tail
    simp only [SharedTable.look, hk', ↓reduceDIte]
    rw [Fin.card_below_succ _ hk']
    by_cases hocc : t.Occupied ⟨k, hk'⟩
    · rw [if_pos hocc, if_pos hocc]
    · simp only [hocc, ↓reduceIte, Nat.add_zero]

/-- The filling pass writes the entries of the slots that it has passed. -/
private theorem alone_filling (cnt : Nat) {k : Nat} (hk : k ≤ maxEvents) :
    Alone t (.filling cnt 0 [])
      (.filling cnt k (((List.finRange maxEvents).take k).filterMap t.getAllUsersNode)) := by
  induction k with
  | zero => exact Relation.ReflTransGen.refl
  | succ k ih =>
    have hk' : k < maxEvents := hk
    have hih := ih (Nat.le_of_lt hk')
    rw [List.take_succ_eq_append_getElem (by simpa using hk'), List.filterMap_append,
      List.getElem_finRange, Fin.cast_mk]
    generalize ((List.finRange maxEvents).take k).filterMap t.getAllUsersNode = node at hih
    by_cases hocc : t.Occupied ⟨k, hk'⟩
    · have hcopy : Alone t (.filling cnt 0 []) (.copying (.getAllUser cnt node) ⟨k, hk'⟩ []
          (ReplyKind.getAllUser cnt node).fields) := by
        apply hih.tail
        simp only [SharedTable.look, hk', ↓reduceDIte]
        rw [if_pos hocc]
      have hnode : t.getAllUsersNode ⟨k, hk'⟩ = some _ := if_pos hocc
      rw [List.filterMap_cons_some hnode, List.filterMap_nil]
      -- Five copies, and the entry made of them
      exact (((((hcopy.tail rfl).tail rfl).tail rfl).tail rfl).tail rfl).tail rfl
    · have hnode : t.getAllUsersNode ⟨k, hk'⟩ = none := if_neg hocc
      rw [List.filterMap_cons_none hnode, List.filterMap_nil, List.append_nil]
      apply hih.tail
      simp only [SharedTable.look, hk', ↓reduceDIte]
      rw [if_neg hocc]

/-- After the allocation, the filling pass makes the reply. -/
theorem alone_allocating (cnt : Nat) :
    Alone t (.allocating cnt)
      (.replied (.getAllUserAck cnt ((List.finRange maxEvents).filterMap t.getAllUsersNode))) := by
  have hfill := alone_filling (t := t) cnt (Nat.le_refl maxEvents)
  rw [List.take_of_length_le (by simp)] at hfill
  refine ((Alone.look rfl).trans hfill).tail ?_
  simp only [SharedTable.look, Nat.lt_irrefl, ↓reduceDIte]

/-- The counting pass counts the occupied slots. -/
theorem alone_getAllUser : Alone t (.counting 0 0) (.allocating t.getAllUsersCount) := by
  apply (alone_counting (Nat.le_refl maxEvents)).tail
  simp only [SharedTable.look, Nat.lt_irrefl, ↓reduceDIte, Fin.below_of_le (Nat.le_refl maxEvents)]
  rfl

/-! ### Runs -/

variable {s : SharedTable} {w : Nat} {arg : JobParameter}

/-- A look is a step of the worker. -/
theorem handleStep_of_look {pc pc' : HandlerPc} (h : SharedTable.look s.table pc = some pc') :
    s.handleStep w pc = some (s.setHandler w pc') := by
  cases pc
  case sendUI => exact absurd h (by simp [SharedTable.look])
  case sendUIPasswd => exact absurd h (by simp [SharedTable.look])
  all_goals simp only [handleStep, h, Option.map_some]

/-- What a handler does alone it does when only its worker steps. -/
theorem Alone.run {pc : HandlerPc} (h : Alone s.table (s.handlers w) pc) :
    ∃ n, system.run s (List.replicate n (.handle w)) = some (s.setHandler w pc) := by
  induction h with
  | refl =>
    refine ⟨0, ?_⟩
    show some s = _
    rw [setHandler, Function.update_eq_self]
  | tail _ hlook ih =>
    obtain ⟨n, hn⟩ := ih
    refine ⟨n + 1, ?_⟩
    rw [List.replicate_succ']
    apply Transition.System.run_snoc hn
    show handleStep _ w (Function.update s.handlers w _ w) = _
    rw [Function.update_self]
    refine (handleStep_of_look (s := s.setHandler w _) hlook).trans ?_
    simp only [setHandler, Function.update_idem]

/-- The reply to a job, from the table as it is. -/
def reply (t : Table) (arg : JobParameter) : Option Reply :=
  match Command.ofBuffer arg.recvBuffer with
  | .handshake _ => some (.handshakeAck (responsHandshake t (t.getMatchedEventIndexByFd arg.fd)))
  | .getRemote grMsg => some (.getRemoteAck (responsGetRemote t grMsg))
  | .getAllUser => some (.getAllUserAck t.getAllUsersCount
      ((List.finRange maxEvents).filterMap t.getAllUsersNode))
  | .sendUI _ | .other _ => none

/-- The looks and copies of a job make its reply. -/
theorem alone_reply {r : Reply} (h : reply t arg = some r) :
    Alone t (.searchingFd arg 0) (.replied r) := by
  unfold reply at h
  cases hcmd : Command.ofBuffer arg.recvBuffer with
  | handshake greetings =>
    simp only [hcmd, Option.some.injEq] at h
    exact h ▸ alone_handshake hcmd
  | sendUI msg => simp [hcmd] at h
  | getRemote grMsg =>
    simp only [hcmd, Option.some.injEq] at h
    rw [← h]
    refine Relation.ReflTransGen.trans (alone_searchingFd ?_) (alone_getRemote grMsg)
    simp only [dispatch, hcmd]
  -- Two passes over the table, the second after the allocation
  | getAllUser =>
    simp only [hcmd, Option.some.injEq] at h
    rw [← h]
    refine Relation.ReflTransGen.trans (alone_searchingFd ?_)
      (Relation.ReflTransGen.trans alone_getAllUser (alone_allocating _))
    simp only [dispatch, hcmd]
  | other _ => simp [hcmd] at h

/-- A worker that takes a job while no other thread steps does what its handler does alone. -/
theorem run_start {pc : HandlerPc} (hidle : s.handlers w = .idle) (hfd : arg.fd ≠ -1)
    (h : Alone s.table (.searchingFd arg 0) pc) :
    ∃ n, system.run s (.start w arg :: List.replicate n (.handle w)) =
      some (s.setHandler w pc) := by
  -- Its first step is the test of `parameter->fd`
  have hstart : system.step s (.start w arg) = some (s.setHandler w (.searchingFd arg 0)) := by
    show s.startStep w arg (s.handlers w) = _
    rw [hidle]
    show some (s.setHandler w (if arg.fd = -1 then .idle else .searchingFd arg 0)) = _
    rw [if_neg hfd]
  have halone : Alone (s.setHandler w (.searchingFd arg 0)).table
      ((s.setHandler w (.searchingFd arg 0)).handlers w) pc := by
    show Alone s.table (Function.update s.handlers w _ w) _
    rw [Function.update_self]
    exact h
  obtain ⟨n, hn⟩ := halone.run
  refine ⟨n, ?_⟩
  rw [Transition.System.run_cons, hstart, Option.bind_some, hn]
  simp only [setHandler, Function.update_idem]

/-- A worker that takes a job while no other thread steps makes the reply to it. -/
theorem run_reply {r : Reply} (hidle : s.handlers w = .idle) (hfd : arg.fd ≠ -1)
    (h : reply s.table arg = some r) :
    ∃ n, system.run s (.start w arg :: List.replicate n (.handle w)) =
      some (s.setHandler w (.replied r)) :=
  run_start hidle hfd (alone_reply h)

/-- The first copy of CMD_SENDUI. -/
theorem step_sendUI {conn : Nat} {i : Fin maxEvents} {msg : SendUIMessage}
    (h : s.handlers w = .sendUI conn i msg) :
    s.step (.handle w) =
      some ((s.copyUserId conn i msg).setHandler w (.sendUIPasswd conn i msg)) := by
  show s.handleStep w (s.handlers w) = _
  rw [h]
  rfl

/-- The second. -/
theorem step_sendUIPasswd {conn : Nat} {i : Fin maxEvents} {msg : SendUIMessage}
    (h : s.handlers w = .sendUIPasswd conn i msg) :
    s.step (.handle w) = some ((s.copyPasswd conn i msg).setHandler w .idle) := by
  show s.handleStep w (s.handlers w) = _
  rw [h]
  rfl

/-- The two copies of CMD_SENDUI store what it stores in one step. -/
theorem run_sendUI {conn : Nat} {i : Fin maxEvents} {msg : SendUIMessage}
    (h : s.handlers w = .sendUI conn i msg) :
    ∃ s', system.run s [.handle w, .handle w] = some s' ∧ s'.handlers w = .idle ∧
      s'.table = Function.update s.table i (responsSendUI (s.table i) msg) := by
  have hfirst : system.run s [.handle w] = some _ :=
    congrArg (Option.bind · some) (step_sendUI h)
  have hpc : ((s.copyUserId conn i msg).setHandler w (.sendUIPasswd conn i msg)).handlers w =
      .sendUIPasswd conn i msg := Function.update_self ..
  refine ⟨_, Transition.System.run_snoc hfirst (step_sendUIPasswd hpc), ?_, ?_⟩
  · exact Function.update_self ..
  · simp only [setHandler, copyPasswd, copyUserId, Function.update_self, Function.update_idem]
    rfl

end SharedTable

end JQServer
