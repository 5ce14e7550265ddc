import JQServer.Spec.HandlerAlone

/-!
# What a step does to the shared table

`step_moves` says once what each step of `SharedTable` leads to, one constructor for each
outcome; `step_handler` says what it means for one worker.
-/

namespace JQServer

namespace SharedTable

variable {s s' : SharedTable} {a : Action}

/-- The outcomes of a step. -/
inductive Moves (s : SharedTable) : Action → SharedTable → Prop
  | accept {a : Action} (conns : Nat) {pc : AcceptPc} (ha : ∀ w, a ≠ .handle w) :
      Moves s a { s with conns := conns, accept := pc }
  | fill {c : Client} {i : Fin maxEvents} {x : SlotWrite} {ws : List SlotWrite}
      (h : s.accept = .filling c i (x :: ws)) :
      Moves s .fill { s.fillWrite c i x with accept := .filling c i ws }
  | loop {a : Action} {pc : LoopPc} (ha : ∀ w, a ≠ .handle w) : Moves s a { s with loop := pc }
  | freeWrite {i : Fin maxEvents} {x : SlotWrite} {ws : List SlotWrite}
      (h : s.loop = .freeing i (x :: ws)) :
      Moves s .freeWrite { s.write i x with loop := .freeing i ws }
  | updateTime (i : Fin maxEvents) (now : Int) :
      Moves s (.updateTime i now) { s with table := s.table.updateTimeByIndex i now }
  | start {w : Nat} {arg : JobParameter}
      (h : s.handlers w = .idle ∨ ∃ reply, s.handlers w = .replied reply) :
      Moves s (.start w arg) (s.setHandler w (if arg.fd = -1 then .idle else .searchingFd arg 0))
  | look {w : Nat} {pc : HandlerPc} (h : look s.table (s.handlers w) = some pc) :
      Moves s (.handle w) (s.setHandler w pc)
  | sendUI {w conn : Nat} {i : Fin maxEvents} {msg : SendUIMessage}
      (h : s.handlers w = .sendUI conn i msg) :
      Moves s (.handle w) ((s.copyUserId conn i msg).setHandler w (.sendUIPasswd conn i msg))
  | sendUIPasswd {w conn : Nat} {i : Fin maxEvents} {msg : SendUIMessage}
      (h : s.handlers w = .sendUIPasswd conn i msg) :
      Moves s (.handle w) ((s.copyPasswd conn i msg).setHandler w .idle)

/-- A write of `init_epoll_connect_by_index` changes the table as any write does. -/
@[simp]
theorem fillWrite_table (s : SharedTable) (c : Client) (i : Fin maxEvents) (x : SlotWrite) :
    (s.fillWrite c i x).table = (s.write i x).table := by
  unfold fillWrite
  split <;> rfl

/-- It moves no handler. -/
@[simp]
theorem fillWrite_handlers (s : SharedTable) (c : Client) (i : Fin maxEvents) (x : SlotWrite) :
    (s.fillWrite c i x).handlers = s.handlers := by
  unfold fillWrite
  split <;> rfl

/-- Steps of the accept thread. -/
private theorem acceptStep_moves (h : s.acceptStep a s.accept = some s') : Moves s a s' := by
  generalize hpc : s.accept = pc at h
  cases pc with
  | idle =>
    cases a with
    | accept p =>
      simp only [acceptStep] at h
      split at h
      · rw [← Option.some.inj h]
        exact .accept _ fun w => by simp
      · exact absurd h.symm (Option.some_ne_none _)
    | _ => exact absurd h.symm (Option.some_ne_none _)
  | searching c k =>
    cases a with
    | search =>
      rw [← Option.some.inj h]
      exact .accept s.conns fun w => by simp
    | _ => exact absurd h.symm (Option.some_ne_none _)
  | chosen c i =>
    cases a with
    | giveUp =>
      rw [← Option.some.inj h]
      exact .accept s.conns fun w => by simp
    -- The slot is locked first, so the event loop must not have it
    | initSlot now =>
      simp only [acceptStep] at h
      split at h
      · exact absurd h.symm (Option.some_ne_none _)
      · rw [← Option.some.inj h]
        exact .accept s.conns fun w => by simp
    | _ => exact absurd h.symm (Option.some_ne_none _)
  | filling c i ws =>
    cases ws with
    | nil =>
      cases a with
      | unlock =>
        rw [← Option.some.inj h]
        exact .accept s.conns fun w => by simp
      | _ => exact absurd h.symm (Option.some_ne_none _)
    | cons x ws =>
      cases a with
      | fill =>
        rw [← Option.some.inj h]
        exact .fill hpc
      | _ => exact absurd h.symm (Option.some_ne_none _)

/-- Steps of the event loop. -/
private theorem loopStep_moves (h : s.loopStep a s.loop = some s') : Moves s a s' := by
  generalize hpc : s.loop = pc at h
  cases pc with
  | idle =>
    cases a with
    | free i =>
      simp only [loopStep] at h
      split at h
      · exact absurd h.symm (Option.some_ne_none _)
      · rw [← Option.some.inj h]
        exact .loop fun w => by simp
    | updateTime i now =>
      rw [← Option.some.inj h]
      exact .updateTime i now
    | _ => exact absurd h.symm (Option.some_ne_none _)
  | freeing i ws =>
    cases ws with
    | nil =>
      cases a with
      | freeUnlock =>
        rw [← Option.some.inj h]
        exact .loop fun w => by simp
      | _ => exact absurd h.symm (Option.some_ne_none _)
    | cons x ws =>
      cases a with
      | freeWrite =>
        rw [← Option.some.inj h]
        exact .freeWrite hpc
      | _ => exact absurd h.symm (Option.some_ne_none _)

/-- Steps of a worker in `respons_stb_info`. -/
private theorem handleStep_moves {w : Nat} (h : s.handleStep w (s.handlers w) = some s') :
    Moves s (.handle w) s' := by
  generalize hpc : s.handlers w = pc at h
  -- Only the two copies of SENDUI write to the table
  cases pc
  case sendUI => exact Option.some.inj h ▸ .sendUI hpc
  case sendUIPasswd => exact Option.some.inj h ▸ .sendUIPasswd hpc
  all_goals
    simp only [handleStep, Option.map_eq_some_iff] at h
    obtain ⟨pc', hlook, hs⟩ := h
    exact hs ▸ .look (hpc ▸ hlook)

/-- What a step does. -/
theorem step_moves (h : s.step a = some s') : Moves s a s' := by
  cases a with
  | start w arg =>
    generalize hpc : s.handlers w = pc at *
    have hs : s.startStep w arg (s.handlers w) = some s' := h
    rw [hpc] at hs
    cases pc with
    | idle => exact Option.some.inj hs ▸ .start (.inl hpc)
    | replied reply => exact Option.some.inj hs ▸ .start (.inr ⟨reply, hpc⟩)
    | _ => exact absurd hs.symm (Option.some_ne_none _)
  | handle w => exact handleStep_moves h
  | free i => exact loopStep_moves h
  | freeWrite => exact loopStep_moves h
  | freeUnlock => exact loopStep_moves h
  | updateTime i now => exact loopStep_moves h
  | accept p => exact acceptStep_moves h
  | search => exact acceptStep_moves h
  | giveUp => exact acceptStep_moves h
  | initSlot now => exact acceptStep_moves h
  | fill => exact acceptStep_moves h
  | unlock => exact acceptStep_moves h

/-- What a step means for worker `w`. -/
inductive HandlerMoves (s : SharedTable) (w : Nat) (a : Action) (s' : SharedTable) : Prop
  | other (ha : a ≠ .handle w) (h : s'.handlers w = s.handlers w)
  | start {arg : JobParameter} (ha : a = .start w arg)
      (h : s'.handlers w = if arg.fd = -1 then .idle else .searchingFd arg 0)
  | look (ha : a = .handle w) (ht : s'.table = s.table)
      (h : look s.table (s.handlers w) = some (s'.handlers w))
  | sendUI {conn : Nat} {i : Fin maxEvents} {msg : SendUIMessage} (ha : a = .handle w)
      (h : s.handlers w = .sendUI conn i msg) (h' : s'.handlers w = .sendUIPasswd conn i msg)
  | sendUIPasswd {conn : Nat} {i : Fin maxEvents} {msg : SendUIMessage} (ha : a = .handle w)
      (h : s.handlers w = .sendUIPasswd conn i msg) (h' : s'.handlers w = .idle)

/-- A worker that steps, and one that does not. -/
private theorem setHandler_cases (s : SharedTable) (v w : Nat) (pc : HandlerPc) :
    (w = v ∧ (s.setHandler v pc).handlers w = pc) ∨
      (w ≠ v ∧ (s.setHandler v pc).handlers w = s.handlers w) := by
  by_cases h : w = v
  · subst h
    exact .inl ⟨rfl, Function.update_self ..⟩
  · exact .inr ⟨h, Function.update_of_ne h ..⟩

/-- What a step means for each worker. -/
theorem step_handler (h : s.step a = some s') (w : Nat) : HandlerMoves s w a s' := by
  cases step_moves h with
  -- The accept thread and the event loop move no handler
  | accept _ ha => exact .other (ha w) rfl
  | @fill c i x =>
    refine .other (by simp) ?_
    show (s.fillWrite c i x).handlers w = _
    rw [fillWrite_handlers]
  | loop ha => exact .other (ha w) rfl
  | freeWrite => exact .other (by simp) rfl
  | updateTime => exact .other (by simp) rfl
  -- Worker `v` steps, which is `w` or another one
  | @start v arg =>
    rcases setHandler_cases s v w (if arg.fd = -1 then .idle else .searchingFd arg 0)
      with ⟨rfl, hself⟩ | ⟨hne, hsame⟩
    · exact .start rfl hself
    · exact .other (by simp) hsame
  | @look v pc hlook =>
    rcases setHandler_cases s v w pc with ⟨rfl, hself⟩ | ⟨hne, hsame⟩
    · exact .look rfl rfl (hlook.trans (congrArg some hself.symm))
    · exact .other (by simpa using Ne.symm hne) hsame
  | @sendUI v conn i msg hpc =>
    rcases setHandler_cases (s.copyUserId conn i msg) v w (.sendUIPasswd conn i msg)
      with ⟨rfl, hself⟩ | ⟨hne, hsame⟩
    · exact .sendUI rfl hpc hself
    · exact .other (by simpa using Ne.symm hne) hsame
  | @sendUIPasswd v conn i msg hpc =>
    rcases setHandler_cases (s.copyPasswd conn i msg) v w .idle with ⟨rfl, hself⟩ | ⟨hne, hsame⟩
    · exact .sendUIPasswd rfl hpc hself
    · exact .other (by simpa using Ne.symm hne) hsame

end SharedTable

end JQServer
