import JQServer.Native.Shutdown
import JQServer.Spec.NetInvariant

/-!
# Descriptors closed from outside

The signal handler closes descriptors behind the back of the threads. A server in which fewer
descriptors are open shadows the one in which nobody closed them (`Shadows`): until a client is
accepted, each of its steps is a step of the other one (`Shadows.step`), because a call that
fails on a closed descriptor may fail on an open one too. So what the threads do to slots and
counters is what they do in a run of the server without the handler.
-/

namespace JQServer

namespace Server

variable {s s' t : Server} {a : Action}

/-- The server with fewer open and registered descriptors. -/
def lower (t : Server) (fds : Int → Option Nat) (epoll : Int → Bool) (effects : List Effect) :
    Server :=
  { t with fds := fds, epoll := epoll, effects := effects }

/-- Two servers that differ in descriptors that are closed in `s` only. -/
def Shadows (s t : Server) : Prop :=
  ∃ fds epoll effects, s = t.lower fds epoll effects ∧
    (∀ fd c, fds fd = some c → t.fds fd = some c) ∧ ∀ fd, epoll fd = true → t.epoll fd = true

/-- What is open after a descriptor was closed was open before. -/
theorem open_of_close {fds : Int → Option Nat} {fd fd' : Int} {c : Nat}
    (h : Function.update fds fd none fd' = some c) : fds fd' = some c := by
  by_cases hfd : fd' = fd
  · rw [hfd, Function.update_self] at h
    cases h
  · rwa [Function.update_of_ne hfd] at h

/-- What is registered after a descriptor was removed was registered before. -/
theorem registered_of_remove {epoll : Int → Bool} {fd fd' : Int}
    (h : Function.update epoll fd false fd' = true) : epoll fd' = true := by
  by_cases hfd : fd' = fd
  · rw [hfd, Function.update_self] at h
    cases h
  · rwa [Function.update_of_ne hfd] at h

section Shadow

variable {fds : Int → Option Nat} {epoll : Int → Bool} {effects : List Effect}

/-- Registering a descriptor in both. -/
private theorem sub_update (hepoll : ∀ fd, epoll fd = true → t.epoll fd = true) (fd : Int)
    (b : Bool) : ∀ fd', Function.update epoll fd b fd' = true →
      Function.update t.epoll fd b fd' = true := by
  intro fd' hreg
  by_cases hfd : fd' = fd
  · rw [hfd, Function.update_self] at hreg ⊢
    exact hreg
  · rw [Function.update_of_ne hfd] at hreg ⊢
    exact hepoll fd' hreg

variable (hfds : ∀ fd c, fds fd = some c → t.fds fd = some c)
  (hepoll : ∀ fd, epoll fd = true → t.epoll fd = true)
include hfds hepoll

/-- Closing a descriptor in both. -/
private theorem shadows_close (fd : Int) (e : Option Nat → Effect) :
    Shadows ((t.lower fds epoll effects).closesocket fd e) (t.closesocket fd e) := by
  refine ⟨Function.update fds fd none, Function.update epoll fd false, _, rfl, ?_, ?_⟩
  · intro fd' c hopen
    by_cases hfd : fd' = fd
    · rw [hfd, Function.update_self] at hopen
      cases hopen
    · rw [Function.update_of_ne hfd] at hopen
      simp only [closesocket, Function.update_of_ne hfd]
      exact hfds fd' c hopen
  · exact sub_update hepoll fd false

/-- Steps of the accept thread. -/
private theorem acceptStep_shadow (hnet : t.NetInv) (haccept : ∀ p, a ≠ .accept (some p))
    (h : (t.lower fds epoll effects).acceptStep a t.accept = some s') :
    ∃ t', t.acceptStep a t.accept = some t' ∧ Shadows s' t' := by
  cases hpc : t.accept <;> cases a <;> simp only [acceptStep, hpc, reduceCtorEq] at h ⊢
  case accepting.accept peer =>
    cases peer with
    | none =>
      obtain rfl := Option.some.inj h
      exact ⟨_, rfl, fds, epoll, effects, rfl, hfds, hepoll⟩
    | some p => exact absurd rfl (haccept p)
  case filling.fill c i ws =>
    cases ws with
    | nil => cases h
    | cons w ws =>
      obtain rfl := Option.some.inj h
      exact ⟨_, rfl, fds, epoll, effects, rfl, hfds, hepoll⟩
  case filling.unlock c i ws =>
    cases ws with
    | nil =>
      obtain rfl := Option.some.inj h
      exact ⟨_, rfl, fds, epoll, effects, rfl, hfds, hepoll⟩
    | cons w ws => cases h
  case filled.epollAdd c i ok =>
    cases ok with
    | false =>
      obtain rfl := Option.some.inj h
      exact ⟨_, rfl, fds, epoll, effects, rfl, hfds, hepoll⟩
    | true =>
      -- The descriptor of the client is not registered in either
      have hnew : t.epoll c.fd = false := (hnet.accept.client c (by rw [hpc]; rfl)).1
      simp only at h ⊢
      split at h
      · rename_i hadd
        obtain rfl := Option.some.inj h
        obtain ⟨conn, hconn⟩ := Option.ne_none_iff_exists'.mp hadd.1
        have hopen : t.fds c.fd ≠ none := by
          rw [hfds c.fd conn hconn]
          exact Option.some_ne_none conn
        refine ⟨_, if_pos ⟨hopen, hnew⟩, fds, Function.update epoll c.fd true, effects, rfl,
          hfds, ?_⟩
        exact sub_update hepoll c.fd true
      · cases h
  case failing.closeFailed c slot =>
    obtain rfl := Option.some.inj h
    have hclose : Shadows ((t.lower fds epoll effects).closesocket c.fd (.acceptClosed c.conn))
        (t.closesocket c.fd (.acceptClosed c.conn)) :=
      shadows_close hfds hepoll c.fd (.acceptClosed c.conn)
    obtain ⟨fds', epoll', effects', heq, hfds', hepoll'⟩ := hclose
    exact ⟨_, rfl, fds', epoll', effects', by rw [heq]; rfl, hfds', hepoll'⟩
  all_goals
    obtain rfl := Option.some.inj h
    exact ⟨_, rfl, fds, epoll, effects, rfl, hfds, hepoll⟩

/-- Steps of the event loop that decide what to do next. -/
private theorem loopStep_shadow
    (h : (t.lower fds epoll effects).loopStep a t.loop = some s') :
    ∃ t', t.loopStep a t.loop = some t' ∧ Shadows s' t' := by
  cases hpc : t.loop <;> cases a <;> simp only [loopStep, hpc, reduceCtorEq] at h ⊢
  case top.tick now =>
    split at h
    · rename_i hold
      obtain rfl := Option.some.inj h
      exact ⟨_, if_pos hold, fds, epoll, effects, rfl, hfds, hepoll⟩
    · rename_i hold
      obtain rfl := Option.some.inj h
      exact ⟨_, if_neg hold, fds, epoll, effects, rfl, hfds, hepoll⟩
  case sweeping.sweepSlot k now =>
    split at h
    · rename_i hk
      obtain rfl := Option.some.inj h
      exact ⟨_, dif_pos hk, fds, epoll, effects, rfl, hfds, hepoll⟩
    · rename_i hk
      obtain ⟨pool, hp, rfl⟩ := Option.map_eq_some_iff.mp h
      refine ⟨{ t with pool := pool, loop := .deleting }, (dif_neg hk).trans ?_, fds, epoll,
        effects, rfl, hfds, hepoll⟩
      exact congrArg (Option.map _) hp
  case checking.sweepTime i fd now =>
    obtain rfl := Option.some.inj h
    exact ⟨_, rfl, fds, epoll, effects, rfl, hfds, hepoll⟩
  case deleting.sweepJobs now =>
    obtain ⟨pool, hp, rfl⟩ := Option.map_eq_some_iff.mp h
    exact ⟨_, congrArg (Option.map _) hp, fds, epoll, effects, rfl, hfds, hepoll⟩
  case waiting.epollWait es =>
    -- What is registered in one is registered in the other
    split at h
    · rename_i hes
      obtain rfl := Option.some.inj h
      exact ⟨_, if_pos ⟨hes.1, fun e he => hepoll e.fd (hes.2 e he)⟩, fds, epoll, effects, rfl,
        hfds, hepoll⟩
    · cases h
  case events.nextEvent es =>
    cases es with
    | nil =>
      obtain rfl := Option.some.inj h
      exact ⟨_, rfl, fds, epoll, effects, rfl, hfds, hepoll⟩
    | cons e es =>
      simp only at h ⊢
      split at h
      · rename_i hin
        rw [if_pos hin]
        split at h
        · rename_i hneg
          obtain rfl := Option.some.inj h
          exact ⟨_, if_pos hneg, fds, epoll, effects, rfl, hfds, hepoll⟩
        · rename_i hneg
          rw [if_neg hneg]
          cases hi : t.table.getMatchedEventIndexByFd e.fd with
          | none =>
            simp only [lower, hi] at h
            obtain rfl := Option.some.inj h
            exact ⟨_, rfl, fds, epoll, effects, rfl, hfds, hepoll⟩
          | some i =>
            simp only [lower, hi] at h
            obtain rfl := Option.some.inj h
            exact ⟨_, rfl, fds, epoll, effects, rfl, hfds, hepoll⟩
      · rename_i hin
        obtain rfl := Option.some.inj h
        exact ⟨_, if_neg hin, fds, epoll, effects, rfl, hfds, hepoll⟩
  case receiving.recv i fd es result now =>
    cases hopen : fds fd with
    | some conn =>
      -- Both read the same connection
      rw [hfds fd conn hopen]
      simp only [lower, hopen] at h ⊢
      split at h
      · rename_i hlen
        obtain rfl := Option.some.inj h
        exact ⟨_, if_pos hlen, fds, epoll, effects, rfl, hfds, hepoll⟩
      · cases h
    | none =>
      -- The read of a closed descriptor fails; that of the open one may fail too
      cases result with
      | some data => simp only [lower, hopen, reduceCtorEq] at h
      | none =>
        simp only [lower, hopen] at h
        obtain rfl := Option.some.inj h
        cases t.fds fd with
        | none => exact ⟨_, rfl, fds, epoll, effects, rfl, hfds, hepoll⟩
        | some conn =>
          refine ⟨_, if_pos (Nat.zero_le _), fds, epoll, effects, ?_, hfds, hepoll⟩
          rfl

/-- The calls of the event loop. -/
private theorem opStep_shadow {op : LoopOp} (h : (t.lower fds epoll effects).opStep op = some s') :
    ∃ t', t.opStep op = some t' ∧ Shadows s' t' := by
  cases op with
  | countSub value =>
    obtain rfl := Option.some.inj h
    exact ⟨_, rfl, fds, epoll, effects, rfl, hfds, hepoll⟩
  | free i =>
    cases i with
    | none =>
      obtain rfl := Option.some.inj h
      exact ⟨_, rfl, fds, epoll, effects, rfl, hfds, hepoll⟩
    | some i =>
      simp only [opStep] at h ⊢
      split at h
      · cases h
      · rename_i hl
        obtain rfl := Option.some.inj h
        exact ⟨_, if_neg hl, fds, epoll, effects, rfl, hfds, hepoll⟩
  | freeMatched fd =>
    simp only [opStep] at h ⊢
    cases hi : t.table.getMatchedEventIndexByFd fd with
    | none =>
      simp only [lower, hi] at h
      obtain rfl := Option.some.inj h
      exact ⟨_, rfl, fds, epoll, effects, rfl, hfds, hepoll⟩
    | some i =>
      simp only [lower, hi] at h
      have h : (if t.slotLocked i then none else some ((t.lower fds epoll effects).free i)) =
          some s' := h
      split at h
      · cases h
      · rename_i hl
        obtain rfl := Option.some.inj h
        exact ⟨_, if_neg hl, fds, epoll, effects, rfl, hfds, hepoll⟩
  -- The two calls about a descriptor do to both servers what they do
  | epollDel fd =>
    obtain rfl := Option.some.inj h
    exact ⟨_, rfl, fds, Function.update epoll fd false, effects, rfl, hfds,
      sub_update hepoll fd false⟩
  | close fd conn =>
    obtain rfl := Option.some.inj h
    exact ⟨_, rfl, shadows_close hfds hepoll fd (.closed conn)⟩
  | updateTime i now =>
    obtain rfl := Option.some.inj h
    exact ⟨_, rfl, fds, epoll, effects, rfl, hfds, hepoll⟩
  | enqueue now arg =>
    obtain ⟨pool, hp, rfl⟩ := Option.map_eq_some_iff.mp h
    exact ⟨_, congrArg (Option.map _) hp, fds, epoll, effects, rfl, hfds, hepoll⟩

/-- Steps of the workers outside the handler. -/
private theorem workerStep_shadow {a : Thpool.Action JobParameter}
    (h : (t.lower fds epoll effects).workerStep a = some s') :
    ∃ t', t.workerStep a = some t' ∧ Shadows s' t' := by
  have hpool : ∀ a : Thpool.Action JobParameter,
      (t.pool.step a).map (fun pool => { t.lower fds epoll effects with pool := pool }) =
        some s' →
      ∃ t', (t.pool.step a).map (fun pool => { t with pool := pool }) = some t' ∧
        Shadows s' t' := by
    intro a h
    obtain ⟨pool, hp, rfl⟩ := Option.map_eq_some_iff.mp h
    exact ⟨_, congrArg (Option.map _) hp, fds, epoll, effects, rfl, hfds, hepoll⟩
  cases a with
  | execute w =>
    simp only [workerStep] at h ⊢
    cases hw : t.handlers w with
    | done =>
      simp only [lower, hw] at h
      obtain ⟨pool, hp, rfl⟩ := Option.map_eq_some_iff.mp h
      exact ⟨_, congrArg (Option.map _) hp, fds, epoll, effects, rfl, hfds, hepoll⟩
    | _ => simp only [lower, hw, reduceCtorEq] at h
  | test | semWait | retest | dequeue | free => exact hpool _ h
  | addWork | sweepRead | sweepLocked | destroy | post | join | empty => cases h

omit hfds hepoll in
/-- The job of a worker is the same. -/
private theorem parameter_lower (w : Nat) :
    (t.lower fds epoll effects).parameter w = t.parameter w := rfl

/-- The search of a handler for its slot. -/
private theorem lookupStep_shadow (w : Nat) :
    Shadows ((t.lower fds epoll effects).lookupStep w) (t.lookupStep w) := by
  simp only [lookupStep, parameter_lower]
  cases t.parameter w with
  | none => exact ⟨fds, epoll, effects, rfl, hfds, hepoll⟩
  | some arg =>
    simp only
    split
    · exact ⟨fds, epoll, effects, rfl, hfds, hepoll⟩
    · exact ⟨fds, epoll, effects, rfl, hfds, hepoll⟩

/-- The `switch` of a handler. -/
private theorem dispatchStep_shadow (w : Nat) (arg : JobParameter)
    (index : Option (Fin maxEvents)) :
    Shadows ((t.lower fds epoll effects).dispatchStep w arg index)
      (t.dispatchStep w arg index) := by
  simp only [dispatchStep, switchMessageType, parameter_lower]
  cases t.parameter w with
  | none => exact ⟨fds, epoll, effects, rfl, hfds, hepoll⟩
  | some parameter =>
    cases Command.ofBuffer arg.recvBuffer with
    | handshake => exact ⟨fds, epoll, _, rfl, hfds, hepoll⟩
    | sendUI msg => cases index <;> exact ⟨fds, epoll, effects, rfl, hfds, hepoll⟩
    | _ => exact ⟨fds, epoll, effects, rfl, hfds, hepoll⟩

/-- A `strncpy` of a handler. -/
private theorem copyStep_shadow (w : Nat) (arg : JobParameter) (i : Fin maxEvents)
    (field : SendUIField) :
    Shadows ((t.lower fds epoll effects).copyStep w arg i field) (t.copyStep w arg i field) := by
  simp only [copyStep, parameter_lower]
  cases t.parameter w with
  | none => exact ⟨fds, epoll, effects, rfl, hfds, hepoll⟩
  | some parameter => exact ⟨fds, epoll, _, rfl, hfds, hepoll⟩

/-- A slot of a user list. -/
private theorem fillUserStep_shadow (w : Nat) (arg : JobParameter) (cnt k : Nat)
    (node : List JQUserNode) :
    Shadows ((t.lower fds epoll effects).fillUserStep w arg cnt k node)
      (t.fillUserStep w arg cnt k node) := by
  simp only [fillUserStep]
  split
  · rename_i hk
    simp only [lower]
    cases t.table.getAllUsersNode ⟨k, hk⟩ with
    | none => exact ⟨fds, epoll, effects, rfl, hfds, hepoll⟩
    | some n =>
      simp only
      split
      · exact ⟨fds, epoll, effects, rfl, hfds, hepoll⟩
      · exact ⟨fds, epoll, effects, rfl, hfds, hepoll⟩
  · exact ⟨fds, epoll, effects, rfl, hfds, hepoll⟩

/-- A write of a handler: on a descriptor that is closed in one server only it fails. -/
private theorem writeStep_shadow {w n : Nat} {arg : JobParameter} {reply : Reply}
    {r : WriteResult} (h : (t.lower fds epoll effects).writeStep w arg reply n r = some s') :
    ∃ t', t.writeStep w arg reply n r = some t' ∧ Shadows s' t' := by
  simp only [writeStep] at h ⊢
  cases hopen : fds arg.fd with
  -- Open in the first server, and then in the other one with the same receiver
  | some receiver =>
    rw [hfds arg.fd receiver hopen]
    cases r with
    | accepted nwrite =>
      simp only [lower, hopen] at h ⊢
      split at h
      · rename_i hle
        obtain rfl := Option.some.inj h
        exact ⟨_, if_pos hle, fds, epoll, _, rfl, hfds, hepoll⟩
      · cases h
    | _ =>
      simp only [lower, hopen] at h
      obtain rfl := Option.some.inj h
      exact ⟨_, rfl, fds, epoll, effects, rfl, hfds, hepoll⟩
  | none =>
    cases r with
    -- Closed in the first: the write fails there, and can fail in the other
    | error =>
      simp only [lower, hopen] at h
      obtain rfl := Option.some.inj h
      cases t.fds arg.fd <;> exact ⟨_, rfl, fds, epoll, effects, rfl, hfds, hepoll⟩
    | _ => simp only [lower, hopen, reduceCtorEq] at h

/-- Steps of the handlers. -/
private theorem handlerStep_shadow {w : Nat}
    (h : (t.lower fds epoll effects).handlerStep w a (t.handlers w) = some s') :
    ∃ t', t.handlerStep w a (t.handlers w) = some t' ∧ Shadows s' t' := by
  cases hpc : t.handlers w <;> cases a <;> simp only [handlerStep, hpc, reduceCtorEq] at h ⊢
  case entered.lookup w' =>
    cases hw : t.pool.workers w with
    | running p =>
      have h : some ((t.lower fds epoll effects).lookupStep w) = some s' := by
        simpa only [lower, hw] using h
      obtain rfl := Option.some.inj h
      exact ⟨_, rfl, lookupStep_shadow hfds hepoll w⟩
    | _ => simp only [lower, hw, reduceCtorEq] at h
  case matched.dispatch arg index w' =>
    obtain rfl := Option.some.inj h
    exact ⟨_, rfl, dispatchStep_shadow hfds hepoll w arg index⟩
  case sendUI.copy arg i field w' =>
    obtain rfl := Option.some.inj h
    exact ⟨_, rfl, copyStep_shadow hfds hepoll w arg i field⟩
  case filling.fillUser arg cnt k node w' =>
    obtain rfl := Option.some.inj h
    exact ⟨_, rfl, fillUserStep_shadow hfds hepoll w arg cnt k node⟩
  case sending.write arg reply n w' r => exact writeStep_shadow hfds hepoll h

end Shadow

/-- A step of the server with fewer open descriptors is a step of the other one too, unless it
    accepts a client: calls fail on a descriptor that is closed, and may fail on an open one. -/
theorem Shadows.step (h : Shadows s t) (hnet : t.NetInv) (haccept : ∀ p, a ≠ .accept (some p))
    (hs : s.step a = some s') : ∃ t', t.step a = some t' ∧ Shadows s' t' := by
  obtain ⟨fds, epoll, effects, rfl, hfds, hepoll⟩ := h
  simp only [Server.step] at hs ⊢
  split at hs
  · cases hs
  · rename_i hok
    have hok : ¬ (t.crashed.isSome || t.pool.fault) = true := hok
    rw [if_neg hok]
    cases a with
    | lookup w | dispatch w | copy w | fillUser w | write w r =>
      exact handlerStep_shadow hfds hepoll hs
    | worker a => exact workerStep_shadow hfds hepoll hs
    -- The lists of calls are the same in both
    | op =>
      cases ho : t.ops with
      | nil => simp only [lower, ho, reduceCtorEq] at hs
      | cons op ops =>
        simp only [lower, ho] at hs
        exact opStep_shadow (t := { t with ops := ops }) hfds hepoll hs
    | mallocFail =>
      cases ho : t.ops with
      | nil => simp only [lower, ho, reduceCtorEq] at hs
      | cons op ops =>
        cases op with
        | enqueue now arg =>
          simp only [lower, ho] at hs
          obtain rfl := Option.some.inj hs
          exact ⟨_, rfl, fds, epoll, effects, rfl, hfds, hepoll⟩
        | _ => simp only [lower, ho, reduceCtorEq] at hs
    | epollDelFail =>
      cases ho : t.ops with
      | nil => simp only [lower, ho, reduceCtorEq] at hs
      | cons op ops =>
        cases op with
        | epollDel fd =>
          simp only [lower, ho] at hs
          obtain rfl := Option.some.inj hs
          exact ⟨_, rfl, fds, epoll, effects, rfl, hfds, hepoll⟩
        | _ => simp only [lower, ho, reduceCtorEq] at hs
    | tick | sweepSlot | sweepTime | sweepJobs | epollWait | nextEvent | recv =>
      simp only at hs ⊢
      split at hs
      · rename_i ho
        have ho : t.ops.isEmpty = true := ho
        rw [if_pos ho]
        exact loopStep_shadow hfds hepoll hs
      · cases hs
    | gate | chooseSlot | setNonBlocking | setRcvbuf | initSlot | fill | unlock | epollAdd
    | countAdd | closeFailed | accept => exact acceptStep_shadow hfds hepoll hnet haccept hs

/-- More descriptors are closed in the first server. -/
theorem Shadows.signalClose (h : Shadows s t) (sockfd : Int) :
    Shadows (s.signalClose sockfd) t := by
  obtain ⟨fds, epoll, effects, rfl, hfds, hepoll⟩ := h
  exact ⟨Function.update fds sockfd none, Function.update epoll sockfd false, effects, rfl,
    fun fd c hopen => hfds fd c (open_of_close hopen),
    fun fd hreg => hepoll fd (registered_of_remove hreg)⟩

/-- A server shadows itself. -/
theorem Shadows.refl (s : Server) : Shadows s s :=
  ⟨s.fds, s.epoll, s.effects, rfl, fun _ _ h => h, fun _ h => h⟩

end Server

end JQServer
