import JQServer.Spec.ServerMoves

/-!
# What a step makes of a handler

`step_handlers` says once where the handler of a worker can be after a step, one
constructor for each outcome, with the reply that it builds.
-/

namespace JQServer

namespace Server

variable {s s' : Server}

/-- Where the handler of worker `w` can be after a step. -/
inductive HandlerMoves (s : Server) (w : Nat) : Action → HandlerPc → Prop
  | same {a : Action} : HandlerMoves s w a (s.handlers w)
  | leave (h : s.handlers w = .done) : HandlerMoves s w (.worker (.execute w)) .entered
  | skip (h : s.handlers w = .entered) : HandlerMoves s w (.lookup w) .done
  | lookup {arg : JobParameter} (h : s.handlers w = .entered) (hjob : s.parameter w = some arg)
      (hfd : arg.fd ≠ -1) : HandlerMoves s w (.lookup w)
        (.matched arg (s.table.getMatchedEventIndexByFd arg.fd))
  | handshake {arg : JobParameter} {index : Option (Fin maxEvents)} {greetings : List UInt8}
      (h : s.handlers w = .matched arg index)
      (hcmd : Command.ofBuffer arg.recvBuffer = .handshake greetings) :
      HandlerMoves s w (.dispatch w) (.sending arg
        (.handshakeAck (responsHandshake s.table index)) (sizeofStJQMessage + 256))
  | sendUI {arg : JobParameter} {i : Fin maxEvents} (h : s.handlers w = .matched arg (some i))
      (hcmd : arg.SendsUI) : HandlerMoves s w (.dispatch w) (.sendUI arg i .userId)
  | copy {arg : JobParameter} {i : Fin maxEvents} {field : SendUIField}
      (h : s.handlers w = .sendUI arg i field) : HandlerMoves s w (.copy w) (field.next arg i)
  | getRemote {arg : JobParameter} {index : Option (Fin maxEvents)} {grMsg : GetRemoteMessage}
      (h : s.handlers w = .matched arg index)
      (hcmd : Command.ofBuffer arg.recvBuffer = .getRemote grMsg) :
      HandlerMoves s w (.dispatch w) (.sending arg
        (.getRemoteAck (responsGetRemote s.table grMsg)) (sizeofStJQMessage + (3 * 4 + 256)))
  | getAllUser {arg : JobParameter} {index : Option (Fin maxEvents)}
      (h : s.handlers w = .matched arg index)
      (hcmd : Command.ofBuffer arg.recvBuffer = .getAllUser) :
      HandlerMoves s w (.dispatch w) (.filling arg s.table.getAllUsersCount 0 [])
  | other {arg : JobParameter} {index : Option (Fin maxEvents)} {iMessageType : Nat}
      (h : s.handlers w = .matched arg index)
      (hcmd : Command.ofBuffer arg.recvBuffer = .other iMessageType) :
      HandlerMoves s w (.dispatch w) .done
  | skipUser {arg : JobParameter} {cnt : Nat} {i : Fin maxEvents} {node : List JQUserNode}
      (h : s.handlers w = .filling arg cnt i node) (hn : s.table.getAllUsersNode i = none) :
      HandlerMoves s w (.fillUser w) (.filling arg cnt (i + 1) node)
  | fillUser {arg : JobParameter} {cnt : Nat} {i : Fin maxEvents} {node : List JQUserNode}
      {n : JQUserNode} (h : s.handlers w = .filling arg cnt i node)
      (hn : s.table.getAllUsersNode i = some n) (hcnt : node.length < cnt) :
      HandlerMoves s w (.fillUser w) (.filling arg cnt (i + 1) (node ++ [n]))
  | filled {arg : JobParameter} {cnt k : Nat} {node : List JQUserNode}
      (h : s.handlers w = .filling arg cnt k node) (hk : maxEvents ≤ k) :
      HandlerMoves s w (.fillUser w) (.sending arg (.getAllUserAck cnt node)
        (sizeofStJQMessage + 4 + sizeofJQUserNode * cnt))
  | write {arg : JobParameter} {reply : Reply} {n : Nat} {r : WriteResult}
      (h : s.handlers w = .sending arg reply n)
      (hr : ∀ nwrite, r = .accepted nwrite → nwrite ≤ n ∧ s.fds arg.fd ≠ none) :
      HandlerMoves s w (.write w r) ((sendBufferStep n r).elim .done (.sending arg reply))

/-- Only the handler of `w` moves when it does. -/
private theorem handlerMoves_setHandler {a : Action} {w w' : Nat} {pc : HandlerPc}
    (h : s.HandlerMoves w' a pc) : s.HandlerMoves w a ((s.setHandler w' pc).handlers w) := by
  by_cases hw : w = w'
  · subst hw
    simpa only [setHandler, Function.update_self] using h
  · simp only [setHandler, Function.update_of_ne hw]
    exact .same

/-- The search of the handler of `w`. -/
private theorem lookupStep_handlers {w : Nat} (h : s.handlers w = .entered) (v : Nat) :
    s.HandlerMoves v (.lookup w) ((s.lookupStep w).handlers v) := by
  unfold lookupStep
  split
  · exact .same
  · rename_i arg hjob
    split
    · exact handlerMoves_setHandler (.skip h)
    · rename_i hfd
      exact handlerMoves_setHandler (.lookup h hjob hfd)

/-- The `switch` of the handler of `w`. -/
private theorem dispatchStep_handlers {w : Nat} {arg : JobParameter}
    {index : Option (Fin maxEvents)} (h : s.handlers w = .matched arg index) (v : Nat) :
    s.HandlerMoves v (.dispatch w) ((s.dispatchStep w arg index).handlers v) := by
  unfold dispatchStep switchMessageType
  cases s.parameter w with
  -- The job is not in memory any more: the handler stops where it is
  | none => exact .same
  | some parameter =>
    cases hcmd : Command.ofBuffer arg.recvBuffer with
    | handshake greetings => exact handlerMoves_setHandler (.handshake h hcmd)
    | getRemote grMsg => exact handlerMoves_setHandler (.getRemote h hcmd)
    | getAllUser => exact handlerMoves_setHandler (.getAllUser h hcmd)
    | other t => exact handlerMoves_setHandler (.other h hcmd)
    | sendUI msg =>
      -- Without a slot CMD_SENDUI is the NULL access
      cases index with
      | none => exact .same
      | some i => exact handlerMoves_setHandler (.sendUI h (arg.sendsUI_of_eq hcmd))

/-- A `strncpy` of the handler of `w`. -/
private theorem copyStep_handlers {w : Nat} {arg : JobParameter} {i : Fin maxEvents}
    {field : SendUIField} (h : s.handlers w = .sendUI arg i field) (v : Nat) :
    s.HandlerMoves v (.copy w) ((s.copyStep w arg i field).handlers v) := by
  unfold copyStep
  split
  · exact .same
  · exact handlerMoves_setHandler (.copy h)

/-- A slot of the filling pass of the handler of `w`. -/
private theorem fillUserStep_handlers {w : Nat} {arg : JobParameter} {cnt k : Nat}
    {node : List JQUserNode} (h : s.handlers w = .filling arg cnt k node) (v : Nat) :
    s.HandlerMoves v (.fillUser w) ((s.fillUserStep w arg cnt k node).handlers v) := by
  unfold fillUserStep
  -- Past the last slot the reply is sent; a user too many overflows the buffer
  split
  · rename_i hk
    split
    · rename_i hn
      exact handlerMoves_setHandler (.skipUser (i := ⟨k, hk⟩) h hn)
    · rename_i n hn
      split
      · rename_i hcnt
        exact handlerMoves_setHandler (.fillUser (i := ⟨k, hk⟩) h hn hcnt)
      · exact .same
  · rename_i hk
    exact handlerMoves_setHandler (.filled h (Nat.not_lt.mp hk))

/-- A `write` of the handler of `w`. -/
private theorem writeStep_handlers {w : Nat} {arg : JobParameter} {reply : Reply} {n : Nat}
    {r : WriteResult} (h : s.handlers w = .sending arg reply n)
    (hs : s.writeStep w arg reply n r = some s') (v : Nat) :
    s.HandlerMoves v (.write w r) (s'.handlers v) := by
  -- A `write` that accepts nothing says nothing about the descriptor
  have herror : ∀ r : WriteResult, (∀ k, r ≠ .accepted k) → s.HandlerMoves v (.write w r)
      ((s.setHandler w ((sendBufferStep n r).elim .done (.sending arg reply))).handlers v) :=
    fun r hr => handlerMoves_setHandler (.write h fun k hk => absurd hk (hr k))
  unfold writeStep at hs
  split at hs
  · exact Option.some.inj hs ▸ herror _ (by rintro _ ⟨⟩)
  · exact Option.some.inj hs ▸ herror _ (by rintro _ ⟨⟩)
  · exact Option.some.inj hs ▸ herror _ (by rintro _ ⟨⟩)
  · rename_i receiver nwrite hfd
    split at hs
    · rename_i hle
      refine Option.some.inj hs ▸ handlerMoves_setHandler (.write h fun k hk => ?_)
      obtain rfl := WriteResult.accepted.inj hk
      exact ⟨hle, hfd ▸ Option.some_ne_none receiver⟩
    · cases hs
  · cases hs

/-- Where a step of the handler of `w` leaves the handlers. -/
private theorem handlerStep_handlers {a : Action} {w : Nat} (ha : a.handler = some w)
    (hs : s.handlerStep w a (s.handlers w) = some s') (v : Nat) :
    s.HandlerMoves v a (s'.handlers v) := by
  -- One step at most for each place of the handler
  cases hpc : s.handlers w <;> rw [hpc] at hs <;> cases a <;>
    simp only [handlerStep, reduceCtorEq, Option.some.injEq] at hs <;> cases ha
  case entered.lookup =>
    split at hs
    · exact Option.some.inj hs ▸ lookupStep_handlers hpc v
    · cases hs
  case matched.dispatch => exact hs ▸ dispatchStep_handlers hpc v
  case sendUI.copy => exact hs ▸ copyStep_handlers hpc v
  case filling.fillUser => exact hs ▸ fillUserStep_handlers hpc v
  case sending.write => exact writeStep_handlers hpc hs v

/-- The accept thread moves no handler. -/
theorem AcceptMoves.handlers_eq {a : Action} (hs : s.AcceptMoves a s') :
    s'.handlers = s.handlers := by
  cases hs <;> rfl

/-- The event loop moves no handler. -/
theorem LoopMoves.handlers_eq {a : Action} (hs : s.LoopMoves a s') :
    s'.handlers = s.handlers := by
  cases hs with
  | op _ hop => cases hop <;> rfl
  | _ => rfl

/-- Where a step of a worker outside its handler leaves the handlers. -/
private theorem workerStep_handlers {a : Thpool.Action JobParameter}
    (hs : s.workerStep a = some s') (v : Nat) : s.HandlerMoves v (.worker a) (s'.handlers v) := by
  cases a with
  | execute w =>
    simp only [workerStep] at hs
    split at hs
    · rename_i hdone
      obtain ⟨pool, -, rfl⟩ := Option.map_eq_some_iff.mp hs
      exact handlerMoves_setHandler (.leave hdone)
    · cases hs
  | test w | semWait w | retest w | dequeue w | free w =>
    obtain ⟨pool, -, rfl⟩ := Option.map_eq_some_iff.mp hs
    exact .same
  | _ => cases hs

/-- Where a step can leave the handler of a worker. -/
theorem step_handlers {a : Action} (hs : s.step a = some s') (v : Nat) :
    s.HandlerMoves v a (s'.handlers v) := by
  cases ha : a.handler with
  | some w => exact handlerStep_handlers ha (handlerStep_of_step ha hs) v
  | none =>
    obtain hm | hm | hm := (step_moves hs).2
    · exact hm.handlers_eq ▸ .same
    · exact hm.handlers_eq ▸ .same
    · -- Outside of its handler a worker only leaves it
      cases a with
      | worker a =>
        simp only [step] at hs
        split at hs
        · cases hs
        · exact workerStep_handlers hs v
      | lookup | dispatch | copy | fillUser | write => cases ha
      | _ =>
        cases hm with
        | crash hc ha' | move ha' => cases ha.symm.trans ha'

/-- A step that is not of the handler of `w`, and does not return from it, leaves the
    handler where it is. -/
theorem handlers_step_of_ne {a : Action} {w : Nat} (ha : a.handler ≠ some w)
    (hexec : a ≠ .worker (.execute w)) (hs : s.step a = some s') :
    s'.handlers w = s.handlers w := by
  have hmoves := step_handlers hs w
  generalize s'.handlers w = pc at hmoves
  -- Every other move is a step of the handler of `w`
  cases hmoves with
  | same => rfl
  | leave => exact absurd rfl hexec
  | _ => exact absurd rfl ha

/-- Where a handler that moves is afterwards. -/
theorem setHandler_self (s : Server) (w : Nat) (pc : HandlerPc) :
    (s.setHandler w pc).handlers w = pc := Function.update_self ..

/-- A handler searches its slot when it has been entered. -/
theorem lookup_step {w : Nat} (hs : s.step (.lookup w) = some s') :
    s.handlers w = .entered ∧ s' = s.lookupStep w := by
  have hs := handlerStep_of_step rfl hs
  cases hpc : s.handlers w <;> simp only [handlerStep, hpc, reduceCtorEq] at hs
  split at hs
  · exact ⟨rfl, (Option.some.inj hs).symm⟩
  · cases hs

/-- A handler dispatches in one step, in which no other thread takes part. -/
theorem dispatch_step {w : Nat} (hs : s.step (.dispatch w) = some s') :
    ∃ arg index, s.handlers w = .matched arg index ∧ s' = s.dispatchStep w arg index := by
  have hs := handlerStep_of_step rfl hs
  cases hpc : s.handlers w <;>
    simp only [handlerStep, hpc, reduceCtorEq, Option.some.injEq] at hs
  exact ⟨_, _, rfl, hs.symm⟩

/-- A query whose job is in memory is answered from the table. -/
theorem dispatch_getRemote {w : Nat} {arg : JobParameter} {index : Option (Fin maxEvents)}
    {grMsg : GetRemoteMessage} (hpc : s.handlers w = .matched arg index)
    (hparam : s.parameter w ≠ none) (hcmd : Command.ofBuffer arg.recvBuffer = .getRemote grMsg)
    (hs : s.step (.dispatch w) = some s') :
    s'.handlers w = .sending arg (.getRemoteAck (responsGetRemote s.table grMsg))
      (Reply.getRemoteAck (responsGetRemote s.table grMsg)).iMessageLen := by
  obtain ⟨arg', index', hpc', rfl⟩ := dispatch_step hs
  -- The branch taken is that of the command in the job
  obtain ⟨rfl, rfl⟩ := HandlerPc.matched.inj (hpc.symm.trans hpc')
  obtain ⟨parameter, hjob⟩ := Option.ne_none_iff_exists'.mp hparam
  simp only [dispatchStep, hjob, switchMessageType, hcmd, setHandler_self]

/-- A `strncpy` is made in CMD_SENDUI, by a handler whose job is in memory. -/
theorem copy_step {w : Nat} (hs : s.step (.copy w) = some s') :
    ∃ arg i field, s.handlers w = .sendUI arg i field ∧ s' = s.copyStep w arg i field := by
  have hs := handlerStep_of_step rfl hs
  cases hpc : s.handlers w <;>
    simp only [handlerStep, hpc, reduceCtorEq, Option.some.injEq] at hs
  exact ⟨_, _, _, rfl, hs.symm⟩

/-- A worker whose job is in memory runs it. -/
theorem running_of_parameter {w : Nat} {arg : JobParameter} (h : s.parameter w = some arg) :
    ∃ p, s.pool.workers w = .running p := by
  simp only [parameter] at h
  split at h
  · exact ⟨_, by assumption⟩
  · cases h

/-- A handler that has been entered can search its slot. -/
theorem step_lookup {w : Nat} {arg : JobParameter} (hc : s.crashed = none)
    (hf : s.pool.fault = false) (hpc : s.handlers w = .entered) (hjob : s.parameter w = some arg) :
    s.step (.lookup w) = some (s.lookupStep w) := by
  obtain ⟨p, hp⟩ := running_of_parameter hjob
  rw [step_handler rfl hc hf, hpc]
  simp only [handlerStep, hp]

/-- A handler that has found its slot can go on to its `switch`. -/
theorem step_dispatch {w : Nat} {arg : JobParameter} {index : Option (Fin maxEvents)}
    (hc : s.crashed = none) (hf : s.pool.fault = false) (hpc : s.handlers w = .matched arg index) :
    s.step (.dispatch w) = some (s.dispatchStep w arg index) := by
  rw [step_handler rfl hc hf, hpc]
  rfl

/-- A handler in CMD_SENDUI can make its `strncpy`. -/
theorem step_copy {w : Nat} {arg : JobParameter} {i : Fin maxEvents} {field : SendUIField}
    (hc : s.crashed = none) (hf : s.pool.fault = false)
    (hpc : s.handlers w = .sendUI arg i field) :
    s.step (.copy w) = some (s.copyStep w arg i field) := by
  rw [step_handler rfl hc hf, hpc]
  rfl

/-- A handler in the filling pass can look at its next slot. -/
theorem step_fillUser {w cnt k : Nat} {arg : JobParameter} {node : List JQUserNode}
    (hc : s.crashed = none) (hf : s.pool.fault = false)
    (hpc : s.handlers w = .filling arg cnt k node) :
    s.step (.fillUser w) = some (s.fillUserStep w arg cnt k node) := by
  rw [step_handler rfl hc hf, hpc]
  rfl

/-- An accepted `write` is of a handler that sends, on an open descriptor. -/
theorem write_step {w nwrite : Nat} (hs : s.step (.write w (.accepted nwrite)) = some s') :
    ∃ arg reply n receiver, s.handlers w = .sending arg reply n ∧ s.fds arg.fd = some receiver ∧
      nwrite ≤ n ∧ s'.handlers = Function.update s.handlers w
        ((sendBufferStep n (.accepted nwrite)).elim .done (.sending arg reply)) := by
  have hs := handlerStep_of_step rfl hs
  cases hpc : s.handlers w <;> simp only [handlerStep, hpc, reduceCtorEq] at hs
  rename_i arg reply n
  unfold writeStep at hs
  cases hfd : s.fds arg.fd with
  | none =>
    rw [hfd] at hs
    cases hs
  | some receiver =>
    simp only [hfd] at hs
    split at hs
    · rename_i hle
      rw [← Option.some.inj hs]
      exact ⟨arg, reply, n, receiver, rfl, hfd, hle, rfl⟩
    · cases hs

/-- A handler that sends goes on sending until its next `write`. -/
theorem sending_step {a : Action} {v n : Nat} {arg : JobParameter} {reply : Reply}
    (ha : ∀ r, a ≠ .write v r) (hs : s.step a = some s')
    (hpc : s.handlers v = .sending arg reply n) : s'.handlers v = .sending arg reply n := by
  have hmoves := step_handlers hs v
  generalize s'.handlers v = pc at hmoves
  cases hmoves with
  | same => exact hpc
  -- A handler that sends moves by `write` only
  | write => exact absurd rfl (ha _)
  | leave h | skip h | lookup h | handshake h | sendUI h | copy h | getRemote h | getAllUser h
  | other h | skipUser h | fillUser h | filled h => cases h.symm.trans hpc

/-- A handler that sends after a step did so before, unless it has just built its reply. -/
theorem sending_of_step {a : Action} {v n : Nat} {arg : JobParameter} {reply : Reply}
    (ha : ∀ r, a ≠ .write v r) (hs : s.step a = some s')
    (hpc : s'.handlers v = .sending arg reply n) :
    s.handlers v = .sending arg reply n ∨ n = reply.iMessageLen ∧
      (a = .dispatch v ∨ a = .fillUser v) := by
  have hmoves := step_handlers hs v
  generalize s'.handlers v = pc at hmoves hpc
  cases hmoves with
  | same => exact .inl hpc
  | write => exact absurd rfl (ha _)
  -- Two commands build their reply in the `switch`, the third one after its filling pass
  | handshake | getRemote =>
    cases hpc
    exact .inr ⟨rfl, .inl rfl⟩
  | filled =>
    cases hpc
    exact .inr ⟨rfl, .inr rfl⟩
  | @copy arg i field => cases field <;> cases hpc
  | leave | skip | lookup | sendUI | getAllUser | other | skipUser | fillUser => cases hpc

/-- A handler that builds a reply does not send one. -/
theorem not_sending_of_build {a : Action} {v n : Nat} {arg : JobParameter} {reply : Reply}
    (ha : a = .dispatch v ∨ a = .fillUser v) (hs : s.step a = some s') :
    s.handlers v ≠ .sending arg reply n := by
  intro hpc
  rcases ha with rfl | rfl <;> simp only [step, hpc, handlerStep] at hs <;> split at hs <;> cases hs

/-- Only a `strncpy` of CMD_SENDUI changes who is logged in. -/
theorem login_step {a : Action} (hs : s.step a = some s') :
    s'.login = s.login ∨ ∃ w arg i field, a = .copy w ∧ s.handlers w = .sendUI arg i field ∧
      s'.login = (s.storeField arg i field).login := by
  obtain hm | hm | hm := (step_moves hs).2
  -- Only workers log somebody in
  · cases hm <;> exact .inl rfl
  · cases hm with
    | op _ hop => cases hop <;> exact .inl rfl
    | _ => exact .inl rfl
  · cases hm with
    | copy hpc => exact .inr ⟨_, _, _, _, rfl, hpc, rfl⟩
    | _ => exact .inl rfl

end Server

end JQServer
