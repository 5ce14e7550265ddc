import JQServer.Spec.Connections
import JQServer.Spec.DescriptorOwnership

/-!
# The idle sweep

`recycle_timeout_confd` reads the descriptor and then the time of every slot, without
the slot's lock, while the accept thread fills free slots. `Times` records what the
threads read from the clock: the time the accept thread reads for a connection, and the
time of the last successful read from it. A slot holds the later of the two, because
`init_epoll_connect_by_index` writes the descriptor after the time, and only the event
loop frees slots.

So with a clock that does not run backwards the sweep frees and closes idle connections
only (`sweep_idle`), and of those that are in the table when it starts it misses none.
It can also free one that is put into the table meanwhile, if the accept thread read the
time for it long before.
-/

namespace JQServer

/-- The time that an action reads. -/
def Action.time : Action → Option Int
  | .initSlot now | .tick now | .sweepJobs now => some now
  | .recv result now => (recvBufferFromFd result).map fun _ => now
  | _ => none

/-- The steps of the event loop. -/
def Action.ofLoop : Action → Bool
  | .tick _ | .sweepSlot | .sweepTime | .sweepJobs _ | .epollWait _ | .nextEvent | .recv .. | .op
  | .mallocFail | .epollDelFail => true
  | _ => false

namespace LoopPc

/-- The time of the sweep, in `recycle_timeout_confd` before `delete_timeout_job`. -/
def sweepTime : LoopPc → Option Int
  | .sweeping _ now | .checking _ _ now => some now
  | _ => none

/-- The slot that the sweep looks at next, or has just looked at. -/
def sweepIndex : LoopPc → Option Nat
  | .sweeping k _ => some k
  | .checking i _ _ => some i
  | _ => none

end LoopPc

/-- What the threads have read from the clock. -/
structure Times where
  clock : Int
  /-- What the accept thread read for a connection. -/
  accepted : Nat → Int
  /-- What the event loop read at the last successful read from a connection. -/
  heard : Nat → Option Int

namespace Times

/-- The later of the two times of a connection. -/
def last (r : Times) (c : Nat) : Int := (r.heard c).getD (r.accepted c)

/-- More than SERVER_TIMEOUT seconds have passed since the accept of a connection and
    since the last successful read from it. -/
def Idle (r : Times) (c : Nat) (now : Int) : Prop :=
  serverTimeout < now - r.accepted c ∧ ∀ t, r.heard c = some t → serverTimeout < now - t

/-- At the start only the event loop has read the time. -/
def start (s : Server) : Times where
  clock := s.eventTime
  accepted := fun _ => s.eventTime
  heard := fun _ => none

end Times

namespace Server

variable {s s' : Server} {r r' : Times}

/-- The connection that the accept thread reads the time for. -/
def stamps : Action → AcceptPc → Option Nat
  | .initSlot _, .ready c _ => some c.conn
  | _, _ => none

/-- The connection that is read from successfully. -/
def hears (s : Server) : Action → LoopPc → Option Nat
  | .recv result _, .receiving _ fd _ => (recvBufferFromFd result).bind fun _ => s.fds fd
  | _, _ => none

/-- The times after a step. -/
def recordTimes (r : Times) (s : Server) (a : Action) (_ : Server) : Times where
  clock := a.time.getD r.clock
  accepted := fun c => if stamps a s.accept = some c then a.time.getD r.clock else r.accepted c
  heard := fun c => if s.hears a s.loop = some c then a.time else r.heard c

/-- The server with its times. -/
def timed : Transition.System (Server × Times) Action :=
  system.withHistory Times.start recordTimes

/-- The clock does not run backwards, and EPOLL_CTL_ADD does not fail on an open
    descriptor. -/
def Timely (p : Server × Times) (a : Action) : Prop :=
  AddSucceeds p.1 a ∧ ∀ t, a.time = some t → p.2.clock ≤ t

/-- The calls that the sweep has still to make for slot `i`, which it found idle. -/
def SweepOps (s : Server) (r : Times) (now : Int) : Prop :=
  ∃ (i : Fin maxEvents) (fd : Int) (c : Nat), s.loop = .sweeping (i + 1) now ∧
    s.ops <:+ [.free (some i), .epollDel fd, .countSub 1, .close fd (some c)] ∧
    .close fd (some c) ∈ s.ops ∧ r.Idle c now ∧ (.free (some i) ∈ s.ops → s.owner i = some c)

/-- The time of an occupied slot is the last time of its connection, or is about to be
    set to that. -/
structure TimeInv (s : Server) (r : Times) : Prop where
  order : ∀ c t, r.heard c = some t → r.accepted c ≤ t
  clock : ∀ c, r.accepted c ≤ r.clock
  /-- Connections that are not in the table yet were not heard. -/
  unheard : ∀ c, s.conns ≤ c → r.heard c = none
  client : ∀ c, s.accept.unfilled = some c → r.heard c.conn = none
  /-- The time is written before the descriptor. -/
  filling : ∀ c i ws, s.accept = .filling c i ws →
    ws <:+ initEpollConnectByIndex (r.accepted c.conn) c.fd c.addr c.port ∧
      (.connectFd c.fd ∈ ws →
        .now (r.accepted c.conn) ∈ ws ∨ (s.table i).now = r.accepted c.conn)
  updates : ∀ i t, .updateTime i t ∈ s.ops → s.fdAt i ≠ -1 ∧
    (∀ c, s.owner i = some c → t = r.last c) ∧
    ∃ now arg, s.ops = [.updateTime i t, .enqueue now arg]
  slot : ∀ i c, s.owner i = some c → (∀ t, .updateTime i t ∉ s.ops) →
    (s.table i).now = r.last c
  sweep : ∀ now, s.loop.sweepTime = some now → s.ops = [] ∨ s.SweepOps r now

/-- It holds at the start. -/
theorem timeInv_start (t n : Int) : (start t n).TimeInv (Times.start (start t n)) where
  order := by rintro _ _ ⟨⟩
  clock _ := Int.le_refl _
  unheard _ _ := rfl
  client := by rintro _ ⟨⟩
  filling := by rintro _ _ _ ⟨⟩
  updates _ _ hm := absurd hm List.not_mem_nil
  slot := by rintro _ _ ⟨⟩
  sweep _ _ := .inl rfl

/-- `Idle` only depends on the times of the connection. -/
theorem idle_congr {c : Nat} {now : Int} (h : r.Idle c now)
    (ha : r'.accepted c = r.accepted c) (hh : r'.heard c = r.heard c) : r'.Idle c now := by
  rw [Times.Idle, ha, hh]
  exact h

/-! ### The accept thread -/

/-- A step that reads no time for a connection leaves the times of connections alone. -/
theorem recordTimes_same (s' : Server) {a : Action} (hstamp : stamps a s.accept = none)
    (hhear : s.hears a s.loop = none) :
    (recordTimes r s a s').accepted = r.accepted ∧ (recordTimes r s a s').heard = r.heard := by
  constructor
  · funext c
    simp only [recordTimes, hstamp, reduceCtorEq, ↓reduceIte]
  · funext c
    simp only [recordTimes, hhear, reduceCtorEq, ↓reduceIte]

/-- The recorded clock does not run backwards. -/
theorem recordTimes_clock (s' : Server) {a : Action} (h : ∀ t, a.time = some t → r.clock ≤ t) :
    r.clock ≤ (recordTimes r s a s').clock := by
  cases ht : a.time with
  | none => simp only [recordTimes, ht, Option.getD_none, Int.le_refl]
  | some t => simpa only [recordTimes, ht, Option.getD_some] using h t ht

/-- Steps of the accept thread outside `init_epoll_connect_by_index`. -/
private theorem TimeInv.moveAccept (h : s.TimeInv r) (hacc : r'.accepted = r.accepted)
    (hheard : r'.heard = r.heard) (hclock : r.clock ≤ r'.clock) (htable : s'.table = s.table)
    (howner : s'.owner = s.owner) (hops : s'.ops = s.ops) (hloop : s'.loop = s.loop)
    (hconns : s.conns ≤ s'.conns)
    (hclient : ∀ c, s'.accept.unfilled = some c → r.heard c.conn = none)
    (hfilling : ∀ c i ws, s'.accept ≠ .filling c i ws) : s'.TimeInv r' where
  order := by rw [hacc, hheard]; exact h.order
  clock := by rw [hacc]; exact fun c => Int.le_trans (h.clock c) hclock
  unheard := by rw [hheard]; exact fun c hc => h.unheard c (Nat.le_trans hconns hc)
  client := by rw [hheard]; exact hclient
  filling c i ws hpc := absurd hpc (hfilling c i ws)
  updates i t hm := by
    rw [hops] at hm ⊢
    obtain ⟨h1, h2, h3⟩ := h.updates i t hm
    refine ⟨by rw [fdAt, htable]; exact h1, fun c hc => ?_, h3⟩
    rw [Times.last, hacc, hheard]
    exact h2 c (howner ▸ hc)
  slot i c hi hu := by
    rw [htable, Times.last, hacc, hheard]
    exact h.slot i c (howner ▸ hi) (hops ▸ hu)
  sweep now hl := by
    rw [hops]
    refine (h.sweep now (hloop ▸ hl)).imp_right ?_
    rintro ⟨i, fd, c, h1, h2, h3, h4, h5⟩
    exact ⟨i, fd, c, hloop.trans h1, hops ▸ h2, hops ▸ h3,
      idle_congr h4 (by rw [hacc]) (by rw [hheard]), by rw [hops, howner]; exact h5⟩

/-- A client that is in no slot yet owns none, and none is about to be closed for it. -/
theorem OwnInv.client_new {c : Client} (h : s.OwnInv) (hnet : s.NetInv) (hlife : s.LifeInv)
    (hc : s.accept.unfilled = some c) :
    (∀ i, s.owner i ≠ some c.conn) ∧ (∀ fd, .close fd (some c.conn) ∉ s.ops) ∧
      ∀ i, s.fds (s.fdAt i) ≠ some c.conn := by
  obtain ⟨hopen, hother, hclose⟩ := h.client c hc
  have hfd : ∀ i, s.fds (s.fdAt i) ≠ some c.conn := by
    intro i hi
    exact hother i (hlife.injective _ _ _ hi hopen)
  refine ⟨fun i hi => ?_, fun fd hm => ?_, hfd⟩
  · -- A slot of its connection would hold its descriptor
    have hocc : s.fdAt i ≠ -1 := (hnet.owner i).mpr (by rw [hi]; exact Option.some_ne_none _)
    obtain ⟨x, hx, hfx⟩ := h.opened i hocc
    rw [hi, Option.some.injEq] at hx
    exact hfd i (hx ▸ hfx)
  -- A descriptor about to be closed for its connection would be its own
  · obtain ⟨⟨x, hx, hfx⟩, -⟩ := h.closing fd _ hm
    rw [Option.some.injEq] at hx
    obtain rfl := hlife.injective _ _ _ (hx ▸ hfx) hopen
    exact hclose _ hm

/-- `init_epoll_connect_by_index` reads the time. -/
private theorem TimeInv.initSlot {c : Client} {i : Fin maxEvents} {now : Int} (h : s.TimeInv r)
    (hown : s.OwnInv) (hnet : s.NetInv) (hlife : s.LifeInv) (hpc : s.accept = .ready c i)
    (hclock : r.clock ≤ now) :
    TimeInv { s with accept := .filling c i (initEpollConnectByIndex now c.fd c.addr c.port) }
      (recordTimes r s (.initSlot now) s') := by
  have hc : s.accept.unfilled = some c := by rw [hpc]; rfl
  obtain ⟨howner, hclose, -⟩ := hown.client_new hnet hlife hc
  have hheard : (recordTimes r s (.initSlot now) s').heard = r.heard := by
    funext x
    simp only [recordTimes, hears, reduceCtorEq, ↓reduceIte]
  have hself : (recordTimes r s (.initSlot now) s').accepted c.conn = now := by
    simp only [recordTimes, stamps, hpc, ↓reduceIte, Action.time, Option.getD_some]
  have hother : ∀ x, x ≠ c.conn →
      (recordTimes r s (.initSlot now) s').accepted x = r.accepted x := by
    intro x hx
    simp only [recordTimes, stamps, hpc, Option.some.injEq, Ne.symm hx, ↓reduceIte]
  have hlast : ∀ x, x ≠ c.conn → (recordTimes r s (.initSlot now) s').last x = r.last x := by
    intro x hx
    rw [Times.last, hheard, hother x hx, Times.last]
  have hne : ∀ {j x}, s.owner j = some x → x ≠ c.conn := by
    rintro j x hj rfl
    exact howner j hj
  exact {
    order := by
      intro x t hx
      -- The client was not heard yet, so `x` is another connection
      rw [hheard] at hx
      rw [hother x]
      · exact h.order x t hx
      · rintro rfl
        cases (h.client c hc).symm.trans hx
    clock := by
      intro x
      show _ ≤ now
      by_cases hx : x = c.conn
      · rw [hx, hself]
      · rw [hother x hx]
        exact Int.le_trans (h.clock x) hclock
    unheard := by rw [hheard]; exact h.unheard
    client := by
      intro c' hc'
      rw [hheard]
      simp only [AcceptPc.unfilled] at hc'
      split at hc'
      · exact Option.some.inj hc' ▸ h.client c hc
      · cases hc'
    filling := by
      intro c' i' ws hpc'
      obtain ⟨rfl, rfl, rfl⟩ := AcceptPc.filling.inj hpc'
      rw [hself]
      exact ⟨List.suffix_rfl, fun _ => .inl (by simp [initEpollConnectByIndex])⟩
    updates := by
      intro j t hm
      obtain ⟨h1, h2, h3⟩ := h.updates j t hm
      exact ⟨h1, fun x hx => (h2 x hx).trans (hlast x (hne hx)).symm, h3⟩
    slot := by
      intro j x hj hu
      exact (h.slot j x hj hu).trans (hlast x (hne hj)).symm
    sweep := by
      intro now' hl
      refine (h.sweep now' hl).imp_right ?_
      rintro ⟨j, fd, x, h1, h2, h3, h4, h5⟩
      -- The sweep is not about to close the new client
      refine ⟨j, fd, x, h1, h2, h3, idle_congr h4 (hother x ?_) (by rw [hheard]), h5⟩
      rintro rfl
      exact hclose fd h3 }

/-- A write to one slot leaves the others alone. -/
private theorem table_fillSlot_of_ne {c : Client} {i j : Fin maxEvents} {w : SlotWrite}
    (hj : j ≠ i) : (s.fillSlot c i w).table j = s.table j := by
  simp only [fillSlot, Function.update_of_ne hj]

/-- The descriptor is written to a slot that was free up to now and has its time. -/
private theorem TimeInv.fill_connectFd {c : Client} {i : Fin maxEvents} {ws : List SlotWrite}
    (h : s.TimeInv r) (hnet : s.NetInv) (hpc : s.accept = .filling c i (.connectFd c.fd :: ws))
    (hws : SlotWrite.connectFd c.fd ∉ ws) :
    TimeInv { s.fillSlot c i (.connectFd c.fd) with accept := .filling c i ws } r := by
  obtain ⟨hsuf, hstamped⟩ := h.filling c i _ hpc
  have hsuf' : ws <:+ initEpollConnectByIndex (r.accepted c.conn) c.fd c.addr c.port :=
    (List.suffix_cons _ ws).trans hsuf
  have hfree : s.fdAt i = -1 := hnet.accept.target i (by
    simp only [hpc, AcceptPc.target, List.mem_cons, true_or, ↓reduceIte])
  have hnoUpdate : ∀ t, .updateTime i t ∉ s.ops := fun t hm => (h.updates i t hm).1 hfree
  -- The time is among the writes made already
  have hnow : (s.table i).now = r.accepted c.conn := by
    refine (hstamped List.mem_cons_self).resolve_left fun hm => ?_
    simp only [initEpollConnectByIndex, List.suffix_cons_iff, List.cons.injEq, List.suffix_nil,
      reduceCtorEq, false_and, false_or, or_false, true_and] at hsuf
    rw [hsuf] at hm
    simp at hm
  have hunheard : r.heard c.conn = none := h.client c (by
    simp only [hpc, AcceptPc.unfilled, List.mem_cons, true_or, ↓reduceIte])
  exact {
    order := h.order
    clock := h.clock
    unheard := h.unheard
    client := by
      intro c' hc'
      simp only [AcceptPc.unfilled, hws, ↓reduceIte, reduceCtorEq] at hc'
    filling := by
      intro c' i' ws' hpc'
      obtain ⟨rfl, rfl, rfl⟩ := AcceptPc.filling.inj hpc'
      exact ⟨hsuf', fun hm => absurd hm hws⟩
    updates := by
      intro j t hm
      obtain ⟨h1, h2, h3⟩ := h.updates j t hm
      have hj : j ≠ i := by
        rintro rfl
        exact hnoUpdate t hm
      refine ⟨by rw [fdAt, table_fillSlot_of_ne hj]; exact h1, fun x hx => h2 x ?_, h3⟩
      simpa only [fillSlot, Function.update_of_ne hj] using hx
    slot := by
      intro j x hx hu
      by_cases hj : j = i
      · -- The slot is now the client's, which was not heard since its accept
        subst hj
        simp only [fillSlot, Function.update_self, Option.some.injEq] at hx
        simp only [fillSlot, Function.update_self, SlotWrite.apply]
        rw [hnow, Times.last, ← hx, hunheard, Option.getD_none]
      · rw [table_fillSlot_of_ne hj]
        refine h.slot j x ?_ hu
        simpa only [fillSlot, Function.update_of_ne hj] using hx
    sweep := by
      intro now hl
      refine (h.sweep now hl).imp_right ?_
      rintro ⟨j, fd, x, h1, h2, h3, h4, h5⟩
      refine ⟨j, fd, x, h1, h2, h3, h4, fun hm => ?_⟩
      have hj : j ≠ i := by
        rintro rfl
        exact (hnet.loop.ops.free j hm).1 hfree
      simpa only [fillSlot, Function.update_of_ne hj] using h5 hm }

/-- The other writes are made to a slot that is still free, or leave its time alone. -/
private theorem TimeInv.fill_other {c : Client} {i : Fin maxEvents} {w : SlotWrite}
    {ws : List SlotWrite} (h : s.TimeInv r) (hnet : s.NetInv)
    (hpc : s.accept = .filling c i (w :: ws)) (hw : ∀ fd, w ≠ .connectFd fd)
    (hws : SlotWrite.connectFd c.fd ∈ w :: ws ↔ SlotWrite.connectFd c.fd ∈ ws) :
    TimeInv { s.fillSlot c i w with accept := .filling c i ws } r := by
  obtain ⟨hsuf, hstamped⟩ := h.filling c i (w :: ws) hpc
  have hsuf' : ws <:+ initEpollConnectByIndex (r.accepted c.conn) c.fd c.addr c.port :=
    (List.suffix_cons w ws).trans hsuf
  have hfd : (s.fillSlot c i w).fdAt = s.fdAt := (fdAt_fillSlot_other hw).1
  have howner : (s.fillSlot c i w).owner = s.owner := (fdAt_fillSlot_other hw).2
  exact {
    order := h.order
    clock := h.clock
    unheard := h.unheard
    client := by
      intro c' hc'
      refine h.client c' ?_
      simp only [AcceptPc.unfilled] at hc'
      simpa only [hpc, AcceptPc.unfilled, hws] using hc'
    filling := by
      intro c' i' ws' hpc'
      obtain ⟨rfl, rfl, rfl⟩ := AcceptPc.filling.inj hpc'
      refine ⟨hsuf', fun hm => ?_⟩
      simp only [fillSlot, Function.update_self]
      -- The time is still to be written, is written now, or was written before
      rcases hstamped (hws.mpr hm) with hn | hn
      · rcases List.mem_cons.mp hn with rfl | hn
        · exact .inr rfl
        · exact .inl hn
      · refine .inr ?_
        cases w with
        | now t =>
          simp only [initEpollConnectByIndex, List.suffix_cons_iff, List.cons.injEq,
            List.suffix_nil, SlotWrite.now.injEq, reduceCtorEq, false_and, or_false] at hsuf
          exact hsuf.1
        | _ => exact hn
    updates := by
      intro j t hm
      obtain ⟨h1, h2, h3⟩ := h.updates j t hm
      exact ⟨(congrFun hfd j).symm ▸ h1, fun x hx => h2 x (howner ▸ hx), h3⟩
    slot := by
      intro j x hx hu
      rw [howner] at hx
      refine Eq.trans ?_ (h.slot j x hx hu)
      by_cases hj : j = i
      · subst hj
        have hocc : s.table.Occupied j :=
          (hnet.owner j).mpr (by rw [hx]; exact Option.some_ne_none _)
        rcases hnet.writes_free_slot hpc with rfl | hfree
        · simp only [fillSlot, Function.update_self, SlotWrite.apply]
        · exact absurd hocc hfree
      · rw [table_fillSlot_of_ne hj]
    sweep := by
      intro now hl
      refine (h.sweep now hl).imp_right ?_
      rintro ⟨j, fd, x, h1, h2, h3, h4, h5⟩
      exact ⟨j, fd, x, h1, h2, h3, h4, fun hm => (congrFun howner j).trans (h5 hm)⟩ }

/-- One write of `init_epoll_connect_by_index`. -/
private theorem TimeInv.fill {c : Client} {i : Fin maxEvents} {w : SlotWrite}
    {ws : List SlotWrite} (h : s.TimeInv r) (hnet : s.NetInv)
    (hpc : s.accept = .filling c i (w :: ws)) :
    TimeInv { s.fillSlot c i w with accept := .filling c i ws } r := by
  rcases fill_cases (h.filling c i (w :: ws) hpc).1 with ⟨rfl, hws⟩ | ⟨hw, hws⟩
  · exact h.fill_connectFd hnet hpc hws
  · exact h.fill_other hnet hpc hw hws

/-- Steps of the accept thread. -/
private theorem TimeInv.accept_step {a : Action} (h : s.TimeInv r) (hown : s.OwnInv)
    (hnet : s.NetInv) (hlife : s.LifeInv) (hclock : ∀ t, a.time = some t → r.clock ≤ t)
    (hs : s.AcceptMoves a s') : s'.TimeInv (recordTimes r s a s') := by
  have hle := recordTimes_clock (s := s) s' hclock
  have hclient : ∀ pc : AcceptPc, (∀ c, pc.unfilled = some c → s.accept.unfilled = some c) →
      ∀ c, pc.unfilled = some c → r.heard c.conn = none :=
    fun pc hpc c hc => h.client c (hpc c hc)
  cases hs with
  | gate hpc hpc' =>
    refine h.moveAccept rfl rfl hle rfl rfl rfl rfl (Nat.le_refl _) ?_ ?_
    · rcases hpc' with rfl | rfl <;> rintro _ ⟨⟩
    · rcases hpc' with rfl | rfl <;> rintro _ _ _ ⟨⟩
  | acceptError hpc =>
    exact h.moveAccept rfl rfl hle rfl rfl rfl rfl (Nat.le_refl _) (by rintro _ ⟨⟩)
      (by rintro _ _ _ ⟨⟩)
  | accept hpc hfd hfree =>
    refine h.moveAccept rfl rfl hle rfl rfl rfl rfl (Nat.le_succ _) ?_ (by rintro _ _ _ ⟨⟩)
    -- The new connection has a number that was never heard of
    intro c hc
    obtain rfl := Option.some.inj hc
    exact h.unheard _ (Nat.le_refl _)
  | noSlot hpc | chooseSlot hpc | setNonBlocking hpc | notNonBlocking hpc | setRcvbuf hpc
  | noRcvbuf hpc =>
    exact h.moveAccept rfl rfl hle rfl rfl rfl rfl (Nat.le_refl _)
      (hclient _ fun c hc => by rw [hpc]; exact hc) (by rintro _ _ _ ⟨⟩)
  | initSlot hpc => exact h.initSlot hown hnet hlife hpc (hclock _ rfl)
  | fill hpc => exact h.fill hnet hpc
  | unlock hpc | epollAdd hpc | epollAddFails hpc | countAdd hpc =>
    exact h.moveAccept rfl rfl hle rfl rfl rfl rfl (Nat.le_refl _) (by rintro _ ⟨⟩)
      (by rintro _ _ _ ⟨⟩)
  | closeFailed hpc =>
    exact h.moveAccept rfl rfl hle rfl rfl rfl rfl (Nat.le_refl _) (by rintro _ ⟨⟩)
      (by rintro _ _ _ ⟨⟩)

/-! ### The event loop -/

/-- The event loop decides what to do next, and no time is about to be updated. -/
private theorem TimeInv.decide (h : s.TimeInv r) (hacc : r'.accepted = r.accepted)
    (hheard : r'.heard = r.heard) (hclock : r.clock ≤ r'.clock) (ho : s.ops = [])
    (htable : s'.table = s.table) (howner : s'.owner = s.owner) (haccept : s'.accept = s.accept)
    (hconns : s'.conns = s.conns) (hupdate : ∀ i t, .updateTime i t ∉ s'.ops)
    (hsweep : ∀ now, s'.loop.sweepTime = some now → s'.ops = [] ∨ s'.SweepOps r' now) :
    s'.TimeInv r' where
  order := by rw [hacc, hheard]; exact h.order
  clock := by rw [hacc]; exact fun c => Int.le_trans (h.clock c) hclock
  unheard := by rw [hheard, hconns]; exact h.unheard
  client := by rw [hheard, haccept]; exact h.client
  filling := by rw [hacc, htable, haccept]; exact h.filling
  updates i t hm := absurd hm (hupdate i t)
  slot i c hi _ := by
    rw [htable, Times.last, hacc, hheard]
    exact h.slot i c (howner ▸ hi) (by rw [ho]; exact fun _ => List.not_mem_nil)
  sweep := hsweep

/-- The event loop receives bytes from the connection of slot `i`. -/
private theorem TimeInv.received {i : Fin maxEvents} {fd now : Int} {es : List Event} {conn : Nat}
    {arg : JobParameter} (h : s.TimeInv r) (hown : s.OwnInv) (hlife : s.LifeInv)
    (hnet : s.NetInv) (hl : s.loop = .receiving i fd es) (ho : s.ops = [])
    (hfd : s.fds fd = some conn) (hacc : r'.accepted = r.accepted)
    (hheard : r'.heard = Function.update r.heard conn (some now)) (hclock : r.clock ≤ now)
    (hclock' : r'.clock = now) :
    TimeInv { s with loop := .events es, ops := [.updateTime i now, .enqueue now arg] } r' := by
  obtain ⟨hi, hocc, -⟩ := hnet.loop.slot i fd (by rw [hl]; rfl)
  have hself : r'.last conn = now := by
    rw [Times.last, hheard, Function.update_self, Option.getD_some]
  have hother : ∀ c, c ≠ conn → r'.heard c = r.heard c ∧ r'.last c = r.last c := by
    intro c hc
    have hhc : r'.heard c = r.heard c := by rw [hheard, Function.update_of_ne hc]
    exact ⟨hhc, by rw [Times.last, hhc, hacc, Times.last]⟩
  -- The connection read from is that of slot `i`, and of no other
  have howner : ∀ j c, s.owner j = some c → (c = conn ↔ j = i) := by
    intro j c hj
    obtain ⟨x, hx, hfx⟩ := hown.opened j
      ((hnet.owner j).mpr (by rw [hj]; exact Option.some_ne_none _))
    rw [hj, Option.some.injEq] at hx
    subst hx
    constructor
    · rintro rfl
      refine hown.distinct j i ?_ ((hlife.injective _ _ _ hfx hfd).trans hi.symm)
      exact (hnet.owner j).mpr (by rw [hj]; exact Option.some_ne_none _)
    · rintro rfl
      rw [hi, hfd] at hfx
      exact (Option.some.inj hfx).symm
  have hnew : ∀ c, s.accept.unfilled = some c → c.conn ≠ conn := by
    rintro c hc rfl
    exact (hown.client_new hnet hlife hc).2.2 i (hi.symm ▸ hfd)
  have hno : ∀ j t, .updateTime j t ∉ s.ops := by
    intro j t
    rw [ho]
    exact List.not_mem_nil
  exact {
    order := by
      intro c t hc
      rw [hacc]
      by_cases hcc : c = conn
      · rw [hcc, hheard, Function.update_self, Option.some.injEq] at hc
        exact hc ▸ Int.le_trans (h.clock c) hclock
      · rw [(hother c hcc).1] at hc
        exact h.order c t hc
    clock := by
      intro c
      rw [hacc, hclock']
      exact Int.le_trans (h.clock c) hclock
    unheard := by
      intro c hc
      -- An open descriptor belongs to a connection that is accepted already
      have hlt := hlife.issued fd conn hfd
      have hle : s.conns ≤ c := hc
      rw [(hother c (by omega)).1]
      exact h.unheard c hc
    client := by
      intro c hc
      rw [(hother c.conn (hnew c hc)).1]
      exact h.client c hc
    filling := by rw [hacc]; exact h.filling
    updates := by
      intro j t hm
      simp only [List.mem_cons, LoopOp.updateTime.injEq, reduceCtorEq, List.not_mem_nil,
        or_false] at hm
      obtain ⟨rfl, rfl⟩ := hm
      refine ⟨fun heq => hocc (hi.symm.trans heq), fun c hc => ?_, t, arg, rfl⟩
      rw [((howner j c hc).mpr rfl), hself]
    slot := by
      intro j c hc hu
      -- The time of slot `i` is about to be updated
      have hj : j ≠ i := by
        rintro rfl
        exact hu now List.mem_cons_self
      rw [(hother c fun hcc => hj ((howner j c hc).mp hcc)).2]
      exact h.slot j c hc (hno j)
    sweep := by rintro _ ⟨⟩ }

/-- Once the first call for a slot that the sweep found idle is made, the slot is freed and
    its descriptor still to be closed. -/
private theorem sweep_ops_tail {i : Fin maxEvents} {fd : Int} {c : Option Nat} {op : LoopOp}
    {ops : List LoopOp} (h : op :: ops <:+ [.free (some i), .epollDel fd, .countSub 1, .close fd c])
    (hops : ops ≠ []) : .close fd c ∈ ops ∧ .free (some i) ∉ ops := by
  simp only [List.suffix_cons_iff, List.cons.injEq, List.suffix_nil, reduceCtorEq, or_false] at h
  rcases h with ⟨-, rfl⟩ | ⟨-, rfl⟩ | ⟨-, rfl⟩ | ⟨-, rfl⟩
  · simp
  · simp
  · simp
  · exact absurd rfl hops

/-- A call of the event loop that updates no time. -/
private theorem TimeInv.popOp {op : LoopOp} {ops : List LoopOp} (h : s.TimeInv r)
    (ho : s.ops = op :: ops) (hop : ∀ i t, op ≠ .updateTime i t) (hops : s'.ops = ops)
    (hnow : ∀ i, (s'.table i).now = (s.table i).now)
    (howner : ∀ i c, s'.owner i = some c → s.owner i = some c)
    (haccept : s'.accept = s.accept) (hconns : s'.conns = s.conns) (hloop : s'.loop = s.loop) :
    s'.TimeInv r := by
  -- A call that updates a time stands first, so none is pending
  have hno : ∀ i t, .updateTime i t ∉ s.ops := by
    intro i t hm
    obtain ⟨-, -, now, arg, heq⟩ := h.updates i t hm
    rw [ho, List.cons.injEq] at heq
    exact hop i t heq.1
  have hmem : ∀ op', op' ∈ s'.ops → op' ∈ s.ops := by
    intro op' hm
    rw [ho]
    exact List.mem_cons_of_mem op (hops ▸ hm)
  exact {
    order := h.order
    clock := h.clock
    unheard := by rw [hconns]; exact h.unheard
    client := by rw [haccept]; exact h.client
    filling := by
      intro c i ws hpc
      rw [hnow]
      exact h.filling c i ws (haccept ▸ hpc)
    updates := fun i t hm => absurd (hmem _ hm) (hno i t)
    slot := by
      intro i c hi _
      rw [hnow]
      exact h.slot i c (howner i c hi) (hno i)
    sweep := by
      intro now hl
      rcases h.sweep now (hloop ▸ hl) with hnil | ⟨i, fd, c, h1, h2, h3, h4, h5⟩
      · rw [ho] at hnil
        cases hnil
      · rw [ho] at h2
        by_cases hnil : ops = []
        · exact .inl (hops.trans hnil)
        · -- The slot is the first thing that is freed, the descriptor is closed last
          obtain ⟨hclose, hfreed⟩ := sweep_ops_tail h2 hnil
          refine .inr ⟨i, fd, c, hloop.trans h1, ?_, hops ▸ hclose, h4, fun hm => ?_⟩
          · rw [hops]
            exact (List.suffix_cons op ops).trans h2
          · exact absurd (hops ▸ hm) hfreed }

/-- `update_time_by_index` -/
private theorem TimeInv.updateTime {i : Fin maxEvents} {t : Int} {ops : List LoopOp}
    (h : s.TimeInv r) (hnet : s.NetInv) (ho : s.ops = .updateTime i t :: ops) :
    TimeInv { s with ops := ops, table := s.table.updateTimeByIndex i t } r := by
  obtain ⟨hocc, hlast, now, arg, heq⟩ := h.updates i t (by rw [ho]; exact List.mem_cons_self)
  obtain rfl : ops = [.enqueue now arg] := by
    rw [ho, List.cons.injEq] at heq
    exact heq.2
  have hno : ∀ j x, j ≠ i → .updateTime j x ∉ s.ops := by
    intro j x hj hm
    rw [heq] at hm
    simp [hj] at hm
  exact {
    order := h.order
    clock := h.clock
    unheard := h.unheard
    client := h.client
    filling := by
      intro c j ws hpc
      obtain ⟨h1, h2⟩ := h.filling c j ws hpc
      refine ⟨h1, fun hm => ?_⟩
      -- The slot that the accept thread fills is free, slot `i` is not
      have hji : j ≠ i := by
        rintro rfl
        refine hocc (hnet.accept.target j ?_)
        rw [hpc, AcceptPc.target, if_pos hm]
      simp only [Table.updateTimeByIndex, Function.update_of_ne hji]
      exact h2 hm
    updates := by
      intro j x hm
      simp at hm
    slot := by
      intro j c hj _
      by_cases hji : j = i
      · subst hji
        simp only [Table.updateTimeByIndex, Function.update_self]
        exact hlast c hj
      · simp only [Table.updateTimeByIndex, Function.update_of_ne hji]
        exact h.slot j c hj fun x => hno j x hji
    sweep := by
      intro now' hl
      -- The sweep updates no time
      rcases h.sweep now' hl with hnil | ⟨j, fd, c, -, h2, -⟩
      · cases ho.symm.trans hnil
      · rw [ho] at h2
        simp [List.suffix_cons_iff] at h2 }

/-- The calls of the event loop. -/
private theorem TimeInv.op_step {op : LoopOp} {ops : List LoopOp} (h : s.TimeInv r)
    (hnet : s.NetInv) (ho : s.ops = op :: ops) (hop : OpMoves { s with ops := ops } op s') :
    s'.TimeInv r := by
  -- A slot that is freed keeps its time and loses its owner
  have hfree : ∀ i j, ((s.table.freeEventByIndex (some i)) j).now = (s.table j).now := by
    intro i j
    by_cases hj : j = i
    · subst hj
      simp only [Table.freeEventByIndex, Function.update_self]
    · simp only [Table.freeEventByIndex, Function.update_of_ne hj]
  have howner : ∀ i j c, Function.update s.owner i none j = some c → s.owner j = some c := by
    intro i j c hj
    by_cases hji : j = i
    · rw [hji, Function.update_self] at hj
      cases hj
    · rwa [Function.update_of_ne hji] at hj
  cases hop with
  | updateTime => exact h.updateTime hnet ho
  | free hl | freeMatched _ hl =>
    exact h.popOp ho (by rintro _ _ ⟨⟩) rfl (hfree _) (howner _) rfl rfl rfl
  | _ =>
    exact h.popOp ho (by rintro _ _ ⟨⟩) rfl (fun _ => rfl) (fun _ _ => id) rfl rfl rfl

/-- A connection is idle if its last time is long past. -/
theorem TimeInv.idle {c : Nat} {now : Int} (h : s.TimeInv r)
    (hlast : serverTimeout < now - r.last c) : r.Idle c now := by
  cases hh : r.heard c with
  | none =>
    rw [Times.last, hh, Option.getD_none] at hlast
    exact ⟨hlast, fun t ht => absurd (hh.symm.trans ht) (Option.some_ne_none t).symm⟩
  | some t =>
    rw [Times.last, hh, Option.getD_some] at hlast
    have := h.order c t hh
    refine ⟨by omega, fun t' ht => ?_⟩
    rw [hh, Option.some.injEq] at ht
    exact ht ▸ hlast

/-- The last time of an idle connection is long past. -/
theorem idle_last {c : Nat} {now : Int} (h : r.Idle c now) : serverTimeout < now - r.last c := by
  cases hh : r.heard c with
  | none =>
    rw [Times.last, hh]
    exact h.1
  | some t =>
    rw [Times.last, hh]
    exact h.2 t hh

/-- Steps of the event loop. -/
private theorem TimeInv.loop_step {a : Action} (h : s.TimeInv r) (hown : s.OwnInv)
    (hnet : s.NetInv) (hlife : s.LifeInv) (hclock : ∀ t, a.time = some t → r.clock ≤ t)
    (hs : s.LoopMoves a s') : s'.TimeInv (recordTimes r s a s') := by
  have hle := recordTimes_clock (s := s) s' hclock
  cases hs with
  | wait hl ho | startSweep hl ho | readSlot hl ho | skipSlot hl ho | sweepKeep hl ho =>
    refine h.decide rfl rfl hle ho rfl rfl rfl rfl (by simp [ho]) ?_
    first
      | exact fun _ _ => .inl ho
      | exact fun _ _ => .inl rfl
  | sweepRead hl ho hk hp =>
    exact h.decide rfl rfl hle ho rfl rfl rfl rfl (by simp [ho]) (by rintro _ ⟨⟩)
  | @sweepSlot i fd now hl ho ht =>
    -- The slot is occupied, and its time is the last time of its connection
    refine h.decide rfl rfl hle ho rfl rfl rfl rfl (by simp) fun now' hl' => .inr ?_
    obtain rfl := Option.some.inj hl'
    obtain ⟨hi, hocc, -⟩ := hnet.loop.slot i fd (by rw [hl]; rfl)
    obtain ⟨c, hc⟩ := Option.ne_none_iff_exists'.mp ((hnet.owner i).mp (by rw [hi]; exact hocc))
    refine ⟨i, fd, c, rfl, by rw [hc], by rw [hc]; simp, ?_, fun _ => hc⟩
    have hlast := h.slot i c hc (by rw [ho]; exact fun _ => List.not_mem_nil)
    have hidle : serverTimeout < now - r.last c := by
      rw [← hlast]
      exact of_decide_eq_true ht
    exact h.idle hidle
  | sweepJobs hl ho hp =>
    exact h.decide rfl rfl hle ho rfl rfl rfl rfl (by simp) (by rintro _ ⟨⟩)
  | epollWait hl ho | endEvents hl ho | matched hl ho =>
    exact h.decide rfl rfl hle ho rfl rfl rfl rfl (by simp [ho]) (by rintro _ ⟨⟩)
  | invalidRead hl ho | unmatched hl ho =>
    exact h.decide rfl rfl hle ho rfl rfl rfl rfl (by simp) (by rintro _ ⟨⟩)
  | errorEvent hl ho =>
    refine h.decide rfl rfl hle ho rfl rfl rfl rfl ?_ (by rintro _ ⟨⟩)
    intro i t
    simp only [errorEventOps]
    split <;> simp
  | recvClosed hl ho hfd =>
    obtain ⟨hacc, hheard⟩ := recordTimes_same (r := r) s (a := .recv none _) rfl
      (by rw [hl]; rfl)
    exact h.decide hacc hheard hle ho rfl rfl rfl rfl (by simp [receivedOps]) (by rintro _ ⟨⟩)
  | @recv i fd now es conn result hl ho hfd =>
    cases hres : recvBufferFromFd result with
    | none =>
      obtain ⟨hacc, hheard⟩ := recordTimes_same (r := r) s (a := .recv result now) rfl
        (by rw [hl, hears, hres, Option.bind_none])
      exact h.decide hacc hheard hle ho rfl rfl rfl rfl (by simp [receivedOps]) (by rintro _ ⟨⟩)
    | some data =>
      -- A successful read: its time becomes the last time of the connection
      have htime : Action.time (.recv result now) = some now := by
        rw [Action.time, hres, Option.map_some]
      refine h.received hown hlife hnet hl ho hfd ?_ ?_ (hclock now htime) ?_
      · rfl
      · funext c
        simp only [recordTimes, hears, hl, hres, Option.bind_some, hfd, Option.some.injEq, htime,
          Function.update_apply, eq_comm]
      · simp only [recordTimes, htime, Option.getD_some]
  | op ho hop => exact h.op_step hnet ho hop
  | mallocFail ho | epollDelFail ho =>
    exact h.popOp ho (by rintro _ _ ⟨⟩) rfl (fun _ => rfl) (fun _ _ => id) rfl rfl rfl

/-- A worker changes no time. -/
private theorem TimeInv.worker_step {a : Action} (h : s.TimeInv r) (hs : s.WorkerMoves a s') :
    s'.TimeInv (recordTimes r s a s') := by
  have hsame := hs.sameNet
  have hnow : ∀ i, (s'.table i).now = (s.table i).now := fun i => (hs.slot_frame i).1
  -- It neither reads the time nor hears a client
  have hrec : recordTimes r s a s' = r := by
    have hno : a.time = none ∧ stamps a s.accept = none ∧ s.hears a s.loop = none := by
      cases hs with
      | crash _ ha | move ha _ =>
        obtain rfl | rfl | rfl | rfl | ⟨_, rfl⟩ := Action.eq_of_handler ha <;> exact ⟨rfl, rfl, rfl⟩
      | _ => exact ⟨rfl, rfl, rfl⟩
    simp only [recordTimes, hno, Option.getD_none, reduceCtorEq, ↓reduceIte]
  rw [hrec]
  exact {
    order := h.order
    clock := h.clock
    unheard := by rw [hsame.conns]; exact h.unheard
    client := by rw [hsame.accept]; exact h.client
    filling := by
      intro c i ws hpc
      rw [hnow]
      exact h.filling c i ws (hsame.accept ▸ hpc)
    updates := by
      rw [hsame.ops, hsame.owner]
      intro i t hm
      rw [hsame.fdAt]
      exact h.updates i t hm
    slot := by
      rw [hsame.ops, hsame.owner]
      intro i c hi hu
      rw [hnow]
      exact h.slot i c hi hu
    sweep := by
      intro now hl
      simp only [SweepOps, hsame.ops, hsame.owner, hsame.loop]
      exact h.sweep now (hsame.loop ▸ hl) }

/-! ### Runs -/

/-- What is known of a state of a run with a clock that does not run backwards. -/
theorem timed_reach {p : Server × Times} (h : Transition.Reach timed Timely p) :
    Transition.Reach system AddSucceeds p.1 :=
  h.forget fun _ _ hc => hc.1

/-- The times agree with the table in every state of such a run. -/
theorem timeInv_of_reach {p : Server × Times} (h : Transition.Reach timed Timely p) :
    p.1.TimeInv p.2 := by
  refine Transition.Reach.invariant (I := fun p => p.1.TimeInv p.2) ?_ ?_ h
  · rintro ⟨s, r⟩ ⟨⟨t, n, rfl⟩, hr⟩
    obtain rfl : r = Times.start (start t n) := hr
    exact timeInv_start t n
  · intro p a p' hr hinv hc hs
    obtain ⟨hstep, heq⟩ := Transition.System.withHistory_step hs
    have hreach := timed_reach hr
    have hown := ownInv_of_reach hreach
    have hnet := netInv_of_reach hreach
    have hlife := lifeInv_of_reach hreach
    rw [heq]
    rcases (step_moves hstep).2 with hm | hm | hm
    · exact hinv.accept_step hown hnet hlife hc.2 hm
    · exact hinv.loop_step hown hnet hlife hc.2 hm
    · exact hinv.worker_step hm

/-! ### The sweep -/

/-- Only slots of connections that are idle at time `now` differ between two states, and
    these are freed; and only descriptors of such connections were closed. -/
structure FreesIdle (s : Server) (r : Times) (now : Int) (s' : Server) : Prop where
  slots : ∀ i, s'.table i ≠ s.table i → ∃ c, s.owner i = some c ∧ r.Idle c now ∧
    s'.table i = { s.table i with connectFd := -1, socketStatus := 0 }
  closes : ∀ fd, s'.fds fd ≠ s.fds fd →
    s'.fds fd = none ∧ ∃ c, s.fds fd = some c ∧ r.Idle c now

/-- A step of the event loop in the sweep changes nothing but the slots of idle
    connections, which it frees, and closes nothing but their descriptors. -/
theorem sweep_step (h : Transition.Reach timed Timely (s, r)) {a : Action} {now : Int}
    (hl : s.loop.sweepTime = some now) (ha : a.ofLoop = true) (hs : s.step a = some s') :
    s.FreesIdle r now s' := by
  have hinv : s.TimeInv r := timeInv_of_reach h
  have hown : s.OwnInv := ownInv_of_reach (timed_reach h)
  have hsame : s'.table = s.table → s'.fds = s.fds → s.FreesIdle r now s' := fun htable hfds =>
    ⟨fun i hi => absurd (congrFun htable i) hi, fun fd hfd => absurd (congrFun hfds fd) hfd⟩
  rcases (step_moves hs).2 with hm | hm | hm
  · cases hm <;> cases ha
  · cases hm with
    | @op op ops _ ho hop =>
      -- The call is one of those for a slot that the sweep found idle
      have hops : s.SweepOps r now := (hinv.sweep now hl).resolve_left (by simp [ho])
      obtain ⟨i, fd, c, -, hsuf, hclose, hidle, howner⟩ := hops
      have hmem : op ∈ s.ops := by rw [ho]; exact List.mem_cons_self
      have hop' := hsuf.subset hmem
      cases hop with
      | @free j hlock =>
        simp only [List.mem_cons, LoopOp.free.injEq, Option.some.injEq, reduceCtorEq,
          List.not_mem_nil, or_false] at hop'
        subst hop'
        refine ⟨fun j' hj' => ?_, fun fd' hfd' => absurd rfl hfd'⟩
        by_cases hji : j' = j
        · subst hji
          refine ⟨c, howner hmem, hidle, ?_⟩
          simp only [free, Table.freeEventByIndex, Function.update_self]
        · refine absurd ?_ hj'
          simp only [free, Table.freeEventByIndex, Function.update_of_ne hji]
      | freeMatched _ _ => simp at hop'
      | updateTime => simp at hop'
      | @close fd' x =>
        -- The descriptor is still that of the idle connection
        refine ⟨fun j hj => absurd rfl hj, fun fd'' hfd => ?_⟩
        simp only [List.mem_cons, reduceCtorEq, LoopOp.close.injEq, List.not_mem_nil, or_false,
          false_or] at hop'
        obtain ⟨rfl, rfl⟩ := hop'
        have heq : fd'' = fd' := by
          by_contra hne
          exact hfd (Function.update_of_ne hne ..)
        obtain ⟨⟨c', hc', hopen⟩, -⟩ := hown.closing fd' _ hmem
        rw [Option.some.injEq] at hc'
        subst hc'
        exact ⟨heq ▸ Function.update_self .., c, heq ▸ hopen, hidle⟩
      | countSub => exact hsame rfl rfl
      | freeNone => exact hsame rfl rfl
      | freeMatchedNone _ => exact hsame rfl rfl
      | epollDel => exact hsame rfl rfl
      | enqueue _ => exact hsame rfl rfl
    | _ => exact hsame rfl rfl
  · cases hm with
    | crash _ ha' | move ha' _ =>
      obtain rfl | rfl | rfl | rfl | ⟨_, rfl⟩ := Action.eq_of_handler ha' <;> cases ha
    | _ => cases ha

/-- How far the sweep with time `now` has come with an idle connection of slot `i`: it is
    still to look at the slot, or about to close the descriptor, or has closed it. -/
def SweepProgress (i : Fin maxEvents) (c : Nat) (now : Int) (p : Server × Times) : Prop :=
  (∃ k, p.1.loop.sweepIndex = some k ∧ k ≤ i ∧ p.1.loop.sweepTime = some now ∧
    p.1.owner i = some c ∧ p.2.Idle c now) ∨
  (p.1.loop.sweepTime = some now ∧ ∃ fd, .close fd (some c) ∈ p.1.ops) ∨
  p.1.closings c ≠ 0

/-- In the sweep no step changes the times of a connection that is in the table. -/
private theorem recordTimes_idle (s' : Server) {a : Action} {i : Fin maxEvents} {c : Nat}
    {now now' : Int} (hown : s.OwnInv) (hnet : s.NetInv) (hlife : s.LifeInv)
    (hi : s.owner i = some c) (hl : s.loop.sweepTime = some now') (hidle : r.Idle c now) :
    (recordTimes r s a s').Idle c now := by
  -- The accept thread reads the time for a client that is in no slot
  have hstamp : stamps a s.accept ≠ some c := by
    intro hst
    cases a with
    | initSlot t =>
      cases hpc : s.accept with
      | ready c' j =>
        rw [hpc] at hst
        refine (hown.client_new hnet hlife (c := c') (by rw [hpc]; rfl)).1 i ?_
        rw [hi, ← hst, stamps]
      | _ => rw [hpc] at hst; cases hst
    | _ => cases hst
  -- The event loop sweeps and receives nothing
  have hhear : s.hears a s.loop ≠ some c := by
    intro hh
    cases a with
    | recv result t =>
      cases hpc : s.loop with
      | receiving j fd es => rw [hpc] at hl; cases hl
      | _ => rw [hpc] at hh; cases hh
    | _ => cases hh
  refine idle_congr hidle ?_ ?_
  · simp only [recordTimes, hstamp, ↓reduceIte]
  · simp only [recordTimes, hhear, ↓reduceIte]

section Progress

variable {i : Fin maxEvents} {c k : Nat} {fd now : Int} {a : Action}

/-- Before the sweep has come to a slot, a step leaves it ahead of the sweep or makes it the
    one that is closed. -/
private theorem SweepProgress.step_ahead (hinv : s.TimeInv r) (hown : s.OwnInv) (hnet : s.NetInv)
    (hlife : s.LifeInv) (hk : s.loop.sweepIndex = some k) (hki : k ≤ i)
    (hl : s.loop.sweepTime = some now) (hi : s.owner i = some c) (hidle : r.Idle c now)
    (ha : ∀ t, a ≠ .tick t) (hstep : s.step a = some s') :
    SweepProgress i c now (s', recordTimes r s a s') := by
  have hidle' := recordTimes_idle (a := a) s' hown hnet hlife hi hl hidle
  have hocc : s.fdAt i ≠ -1 := (hnet.owner i).mpr (by rw [hi]; exact Option.some_ne_none _)
  have hstay : s'.loop = s.loop → s'.owner i = s.owner i →
      SweepProgress i c now (s', recordTimes r s a s') := fun hloop howner =>
    .inl ⟨k, by rw [hloop]; exact hk, hki, by rw [hloop]; exact hl, howner.trans hi, hidle'⟩
  rcases (step_moves hstep).2 with hm | hm | hm
  · cases hm with
    | @fill c' j w ws hpc =>
      refine hstay rfl ?_
      cases w with
      | connectFd fd =>
        -- An occupied slot is not filled
        have hj : i ≠ j := by
          rintro rfl
          rcases hnet.writes_free_slot hpc with heq | hfree
          · cases heq
          · exact hfree hocc
        simp only [fillSlot, Function.update_of_ne hj]
      | _ => rfl
    | _ => exact hstay rfl rfl
  · have hk : s.loop.sweepIndex = some k := hk
    cases hm with
    | @readSlot now' j hlj ho hfd =>
      rw [hlj] at hk hl
      exact .inl ⟨k, hk, hki, hl, hi, hidle'⟩
    | @skipSlot now' j hlj ho hfd =>
      rw [hlj] at hk hl
      obtain rfl := Option.some.inj hk
      -- The slot that is passed is free, slot `i` is not
      have hne : (j : Nat) ≠ i := fun heq => hocc (Fin.ext heq ▸ hfd)
      exact .inl ⟨j + 1, rfl, by omega, hl, hi, hidle'⟩
    | @sweepSlot j fd now' hlj ho ht =>
      rw [hlj] at hk hl
      obtain rfl := Option.some.inj hk
      by_cases hji : j = i
      · -- Slot `i` is the one that is found idle
        refine .inr (.inl ⟨hl, fd, ?_⟩)
        subst hji
        show LoopOp.close fd (some c) ∈ [.free (some j), .epollDel fd, .countSub 1,
          .close fd (s.owner j)]
        rw [hi]
        simp
      · have hne : (j : Nat) ≠ i := fun heq => hji (Fin.ext heq)
        exact .inl ⟨j + 1, rfl, by omega, hl, hi, hidle'⟩
    | @sweepKeep j fd now' hlj ho ht =>
      rw [hlj] at hk hl
      obtain rfl := Option.some.inj hk
      have hne : (j : Nat) ≠ i := by
        -- The time of slot `i` is the last one of its connection, which is long past
        intro heq
        obtain rfl := Fin.ext heq
        obtain rfl := Option.some.inj hl
        have hlast := hinv.slot j c hi (by rw [ho]; exact fun _ => List.not_mem_nil)
        have hlong := idle_last hidle
        rw [← hlast] at hlong
        rw [timedOut, decide_eq_false_iff_not] at ht
        exact ht hlong
      exact .inl ⟨j + 1, rfl, by omega, hl, hi, hidle'⟩
    | @sweepRead k' now' pool hlj ho hk' hp =>
      rw [hlj] at hk
      obtain rfl := Option.some.inj hk
      have := i.isLt
      omega
    | @op op ops _ ho hop =>
      have hops := (hinv.sweep now hl).resolve_left (by rw [ho]; exact List.cons_ne_nil op ops)
      obtain ⟨j, fd, c', hlj, hsuf, -⟩ := hops
      have hop' := hsuf.subset (by rw [ho]; exact List.mem_cons_self : op ∈ s.ops)
      cases hop with
      | @free j' hlock =>
        simp only [List.mem_cons, LoopOp.free.injEq, Option.some.injEq, reduceCtorEq,
          List.not_mem_nil, or_false] at hop'
        subst hop'
        rw [hlj] at hk
        obtain rfl := Option.some.inj hk
        -- The slot that is freed is behind the sweep
        have hne : i ≠ j' := by
          rintro rfl
          omega
        refine hstay rfl ?_
        simp only [free, Function.update_of_ne hne]
      | freeMatched _ _ => simp at hop'
      | _ => exact hstay rfl rfl
    | mallocFail ho | epollDelFail ho => exact hstay rfl rfl
    | wait hl' | startSweep hl' | sweepJobs hl' | epollWait hl' | endEvents hl'
    | invalidRead hl' | unmatched hl' | matched hl' | errorEvent hl' | recvClosed hl'
    | recv hl' =>
      rw [hl'] at hl
      cases hl
  · exact hstay hm.sameNet.loop (congrFun hm.sameNet.owner i)

/-- A descriptor that the sweep is about to close is still to be closed, or is closed by the
    step. -/
private theorem SweepProgress.step_closing (hown : s.OwnInv)
    (hl : s.loop.sweepTime = some now) (hfd : .close fd (some c) ∈ s.ops)
    (hstep : s.step a = some s') : SweepProgress i c now (s', recordTimes r s a s') := by
  have hstay : s'.loop = s.loop → .close fd (some c) ∈ s'.ops →
      SweepProgress i c now (s', recordTimes r s a s') := fun hloop hops =>
    .inr (.inl ⟨by rw [hloop]; exact hl, fd, hops⟩)
  have hne : s.ops ≠ [] := List.ne_nil_of_mem hfd
  rcases (step_moves hstep).2 with hm | hm | hm
  · cases hm <;> exact hstay rfl hfd
  · cases hm with
    | @op op ops _ ho hop =>
      rw [ho] at hfd
      rcases List.mem_cons.mp hfd with rfl | htail
      · -- It is closed now
        refine .inr (.inr ?_)
        cases hop
        obtain ⟨⟨c', hc', hopen⟩, -⟩ := hown.closing fd (some c) (by
          rw [ho]; exact List.mem_cons_self)
        rw [Option.some.injEq] at hc'
        subst hc'
        simp [closings, closesocket, Effect.closes, hopen]
      · cases hop <;> exact hstay rfl htail
    | @mallocFail _ _ ops ho | @epollDelFail _ ops ho =>
      rw [ho] at hfd
      exact hstay rfl ((List.mem_cons.mp hfd).resolve_left (by simp))
    -- The other steps are taken when no call is left
    | wait _ ho | startSweep _ ho | readSlot _ ho | skipSlot _ ho | sweepSlot _ ho
    | sweepKeep _ ho | sweepRead _ ho | sweepJobs _ ho | epollWait _ ho | endEvents _ ho
    | invalidRead _ ho | unmatched _ ho | matched _ ho | errorEvent _ ho | recvClosed _ ho
    | recv _ ho => exact absurd ho hne
  · exact hstay hm.sameNet.loop (hm.sameNet.ops ▸ hfd)

/-- What is closed stays closed. -/
private theorem SweepProgress.step_closed (hc : s.closings c ≠ 0) (hstep : s.step a = some s') :
    SweepProgress i c now (s', recordTimes r s a s') := by
  refine .inr (.inr ?_)
  rcases step_fds hstep with ⟨-, -, hcl⟩ | ⟨_, -, -, -, heff⟩ | ⟨_, -, -, hcl⟩
  · exact (hcl c).symm ▸ hc
  · rw [closings, heff]
    exact hc
  · show s'.closings c ≠ 0
    rw [hcl]
    omega

/-- A step of another thread, or of the event loop before it starts a new round, does not
    set the sweep back. -/
private theorem SweepProgress.step {p p' : Server × Times} (hr : Transition.Reach timed Timely p)
    (h : SweepProgress i c now p) (ha : ∀ t, a ≠ .tick t) (hs : timed.step p a = some p') :
    SweepProgress i c now p' := by
  obtain ⟨s, r⟩ := p
  obtain ⟨s', r'⟩ := p'
  obtain ⟨hstep, heq⟩ := Transition.System.withHistory_step hs
  obtain rfl : r' = recordTimes r s a s' := heq
  have hown : s.OwnInv := ownInv_of_reach (timed_reach hr)
  rcases h with ⟨k, hk, hki, hl, hi, hidle⟩ | ⟨hl, fd, hfd⟩ | hc
  · exact SweepProgress.step_ahead (timeInv_of_reach hr) hown (netInv_of_reach (timed_reach hr))
      (lifeInv_of_reach (timed_reach hr)) hk hki hl hi hidle ha hstep
  · exact SweepProgress.step_closing hown hl hfd hstep
  · exact SweepProgress.step_closed hc hstep

end Progress

/-- In the sweep with time `now`, in every state of every run with a clock that does not
    run backwards and in which EPOLL_CTL_ADD does not fail on an open descriptor: a step of
    the event loop changes only slots whose connection is idle, which it frees, and closes
    only descriptors of such connections. From the start of a sweep to its end every
    connection that was in the table and idle is removed from its slot and closed once. -/
theorem sweep_idle (h : Transition.Reach timed Timely (s, r)) {now : Int}
    (hl : s.loop.sweepTime = some now) :
    (∀ a s', a.ofLoop = true → s.step a = some s' → s.FreesIdle r now s') ∧
    (s.loop = .sweeping 0 now → ∀ as t r', timed.Meets Timely (s, r) as →
      (∀ a ∈ as, ∀ x, a ≠ .tick x) → timed.run (s, r) as = some (t, r') → t.loop = .deleting →
      ∀ i c, s.owner i = some c → r.Idle c now → t.owner i ≠ some c ∧ t.closings c = 1) := by
  refine ⟨fun a s' ha hs => sweep_step h hl ha hs, ?_⟩
  intro hstart as t r' hmeets has hrun hend i c hi hidle
  have hprogress : SweepProgress i c now (t, r') := by
    refine h.run_invariant (fun p a p' hr hp _ ha hs => hp.step hr ha hs) hmeets has hrun
      (.inl ⟨0, ?_, Nat.zero_le _, hl, hi, hidle⟩)
    rw [hstart]
    rfl
  have hreach : Transition.Reach timed Timely (t, r') := h.run hmeets hrun
  have hown : t.OwnInv := ownInv_of_reach (timed_reach hreach)
  have hnet : t.NetInv := netInv_of_reach (timed_reach hreach)
  have hlife : t.LifeInv := lifeInv_of_reach (timed_reach hreach)
  -- The sweep is over, so the descriptor is closed
  rcases hprogress with ⟨k, hk, -⟩ | ⟨hl', -⟩ | hc
  · rw [hend] at hk
    cases hk
  · rw [hend] at hl'
    cases hl'
  · have hc : t.closings c ≠ 0 := hc
    have honce := hlife.once c
    refine ⟨fun hi' => ?_, by omega⟩
    obtain ⟨x, hx, hfx⟩ := hown.opened i
      ((hnet.owner i).mpr (by rw [hi']; exact Option.some_ne_none _))
    rw [hi', Option.some.injEq] at hx
    exact hlife.closed_not_open hc _ (hx ▸ hfx)

/-- A run is timely if EPOLL_CTL_ADD does not fail in it and the times it reads are in
    order. -/
theorem meets_timely {as : List Action} {p : Server × Times} (hadd : .epollAdd false ∉ as)
    (htimes : (p.2.clock :: as.filterMap Action.time).IsChain (· ≤ ·)) :
    timed.Meets Timely p as := by
  induction as generalizing p with
  | nil => trivial
  | cons a as ih =>
    rw [List.mem_cons, not_or] at hadd
    rw [List.filterMap_cons] at htimes
    refine ⟨⟨fun ha => absurd ha.symm hadd.1, fun t ht => ?_⟩, fun p' hp' => ih hadd.2 ?_⟩
    · rw [ht] at htimes
      exact (List.isChain_cons_cons.mp htimes).1
    · rw [(Transition.System.withHistory_step hp').2, recordTimes]
      cases ht : a.time with
      | none =>
        rw [ht] at htimes
        exact htimes
      | some t =>
        rw [ht] at htimes
        exact (List.isChain_cons_cons.mp htimes).2

/-- The sweep passes the free slots at the end of the table. -/
private theorem run_free_slots {k n : Nat} {now : Int} (hkn : k + n = maxEvents)
    (hl : s.loop = .sweeping k now) (ho : s.ops = []) (hc : s.crashed = none)
    (hf : s.pool.fault = false) (hfree : ∀ i : Fin maxEvents, k ≤ i → s.fdAt i = -1) :
    timed.run (s, r) (List.replicate n .sweepSlot) =
      some ({ s with loop := .sweeping maxEvents now }, r) := by
  induction n generalizing s k with
  | zero =>
    obtain rfl : k = maxEvents := hkn
    rw [List.replicate_zero, Transition.System.run_nil, ← hl]
  | succ n ih =>
    have hk : k < maxEvents := by omega
    have hstep : timed.step (s, r) .sweepSlot =
        some ({ s with loop := .sweeping (k + 1) now }, r) := by
      have hs : s.step .sweepSlot = some { s with loop := .sweeping (k + 1) now } := by
        have hfd : (s.table ⟨k, hk⟩).connectFd = -1 := hfree ⟨k, hk⟩ (Nat.le_refl k)
        simp only [step, hc, hf, Option.isSome_none, Bool.or_self, Bool.false_eq_true, ↓reduceIte,
          ho, List.isEmpty_nil, loopStep, hl, hk, ↓reduceDIte, hfd, ne_eq, not_true_eq_false]
      show (s.step .sweepSlot).map _ = _
      rw [hs]
      rfl
    rw [List.replicate_succ, Transition.System.run_cons, hstep, Option.bind_some]
    exact ih (by omega) rfl ho hc hf fun i hi => hfree i (by omega)

/-- Behind the last slot the sweep goes on to the jobs. -/
private theorem run_end_sweep {now : Int} (hl : s.loop = .sweeping maxEvents now)
    (ho : s.ops = []) (hc : s.crashed = none) (hf : s.pool.fault = false)
    (hmain : s.pool.main = .serving) :
    ∃ t, timed.step (s, r) .sweepSlot = some (t, r) ∧ t.loop = .deleting ∧
      t.owner = s.owner := by
  have hpool : s.pool.step .sweepRead = some { s.pool with main := .sweeping s.pool.tail } := by
    simp only [Thpool.step, hf, Bool.false_eq_true, ↓reduceIte, Thpool.Action.worker,
      Thpool.mainStep, hmain]
  have hstep : s.step .sweepSlot = some { s with
      pool := { s.pool with main := .sweeping s.pool.tail }, loop := .deleting } := by
    simp only [step, hc, hf, Option.isSome_none, Bool.or_self, Bool.false_eq_true, ↓reduceIte,
      ho, List.isEmpty_nil, loopStep, hl, Nat.lt_irrefl, ↓reduceDIte, hpool, Option.map_some]
  refine ⟨{ s with pool := { s.pool with main := .sweeping s.pool.tail }, loop := .deleting },
    ?_, rfl, rfl⟩
  show (s.step .sweepSlot).map _ = _
  rw [hstep]
  rfl

/-- A sweep that finds no more occupied slots goes on to the jobs. -/
private theorem run_rest_free {now : Int} (hl : s.loop = .sweeping 1 now) (ho : s.ops = [])
    (hc : s.crashed = none) (hf : s.pool.fault = false) (hmain : s.pool.main = .serving)
    (hfree : ∀ k hk, s.fdAt ⟨k + 1, hk⟩ = -1) :
    ∃ t, timed.run (s, r) (List.replicate 10239 .sweepSlot ++ [.sweepSlot]) = some (t, r) ∧
      t.loop = .deleting ∧ t.owner = s.owner := by
  have hscan := run_free_slots (r := r) (n := 10239) rfl hl ho hc hf fun i hi => by
    obtain ⟨k, hk⟩ := i
    obtain ⟨k, rfl⟩ := Nat.exists_eq_add_of_le' hi
    exact hfree k hk
  obtain ⟨t, ht, htl, htu⟩ := run_end_sweep (s := { s with loop := .sweeping maxEvents now })
    (r := r) rfl ho hc hf hmain
  exact ⟨t, Transition.System.run_snoc hscan ht, htl, htu⟩

/-- The steps of a sweep that finds slot 0 idle and every other slot free. -/
def sweepFirstRun : List Action :=
  [.sweepSlot, .sweepTime, .op, .op, .op, .op] ++
    (List.replicate 10239 .sweepSlot ++ [.sweepSlot])

/-- A sweep 100 seconds after the first client was accepted, which sent nothing. -/
theorem sweep_idle_first :
    ∃ s r t r', timed.run (start 0, Times.start (start 0))
        (acceptRun { fd := 5, addr := .zero _, port := 80 } 0 ++ [.tick 100]) = some (s, r) ∧
      timed.run (s, r) sweepFirstRun = some (t, r') ∧
      t.owner ⟨0, by decide⟩ ≠ some 0 ∧ t.closings 0 = 1 := by
  have hrun : ∃ s r u r', timed.run (start 0, Times.start (start 0))
        (acceptRun { fd := 5, addr := .zero _, port := 80 } 0 ++ [.tick 100]) = some (s, r) ∧
      timed.run (s, r) [.sweepSlot, .sweepTime, .op, .op, .op, .op] = some (u, r') ∧
      s.loop = .sweeping 0 100 ∧ s.owner ⟨0, by decide⟩ = some 0 ∧
      r.accepted 0 = 0 ∧ r.heard 0 = none ∧ r.clock = 100 ∧
      u.loop = .sweeping 1 100 ∧ u.ops = [] ∧ u.crashed = none ∧ u.pool.fault = false ∧
      u.pool.main = .serving ∧ ∀ k hk, u.fdAt ⟨k + 1, hk⟩ = -1 :=
    ⟨_, _, _, _, rfl, rfl, rfl, rfl, rfl, rfl, rfl, rfl, rfl, rfl, rfl, rfl, fun _ _ => rfl⟩
  obtain ⟨s, r, u, r', hs, hu, hloop, howner, hacc, hheard, hclock, hl, ho, hc, hf, hmain,
    hfree⟩ := hrun
  obtain ⟨t, ht, htl, -⟩ := run_rest_free (r := r') hl ho hc hf hmain hfree
  have hrun : timed.run (s, r) sweepFirstRun = some (t, r') := by
    rw [sweepFirstRun, Transition.System.run_append, hu, Option.bind_some]
    exact ht
  have hreach : Transition.Reach timed Timely (s, r) := by
    refine .run (.init ⟨⟨0, 15, rfl⟩, rfl⟩) (meets_timely ?_ ?_) hs
    · simp [acceptRun, fillRun]
    · show List.IsChain (· ≤ ·) [(0 : Int), 0, 100]
      simp
  -- No step of the sweep reads the time
  have hquiet : ∀ a ∈ sweepFirstRun, a = .sweepSlot ∨ a = .sweepTime ∨ a = .op := by
    intro a ha
    rcases List.mem_append.mp ha with ha | ha
    · simp only [List.mem_cons, List.not_mem_nil, or_false] at ha
      rcases ha with rfl | rfl | rfl | rfl | rfl | rfl <;> simp
    · rcases List.mem_append.mp ha with ha | ha
      · exact .inl (List.eq_of_mem_replicate ha)
      · exact .inl (List.mem_singleton.mp ha)
  have hmeets : timed.Meets Timely (s, r) sweepFirstRun := by
    refine meets_timely (fun hm => ?_) ?_
    · rcases hquiet _ hm with ha | ha | ha <;> cases ha
    · rw [List.filterMap_eq_nil_iff.mpr fun a ha => by
        rcases hquiet a ha with rfl | rfl | rfl <;> rfl]
      exact .singleton _
  have hidle : r.Idle 0 100 := by
    refine ⟨by rw [hacc]; decide, fun x hx => ?_⟩
    cases hheard.symm.trans hx
  exact ⟨s, r, t, r', hs, hrun, (sweep_idle hreach (by rw [hloop]; rfl)).2 hloop _ t r' hmeets
    (fun a ha x heq => by rcases hquiet a ha with rfl | rfl | rfl <;> cases heq) hrun htl
    ⟨0, by decide⟩ 0 howner hidle⟩

/-- Every slot that a sweep changes was occupied by an idle connection when the sweep
    started. -/
def SweepsStartSet : Prop :=
  ∀ s r now, Transition.Reach timed Timely (s, r) → s.loop = .sweeping 0 now →
    ∀ as t r', timed.Meets Timely (s, r) as → (∀ a ∈ as, ∀ x, a ≠ .tick x) →
    timed.run (s, r) as = some (t, r') → t.loop.sweepTime = some now →
    ∀ a t', a.ofLoop = true → t.step a = some t' → ∀ i, t'.table i ≠ t.table i →
      ∃ c, s.owner i = some c ∧ r.Idle c now

/-- Every connection that is in the table when a sweep starts is removed from its slot, if
    the event loop read a time after its `accept` that is more than SERVER_TIMEOUT seconds
    back, and nothing was read from it. -/
def SweepsSinceAccept : Prop :=
  ∀ p client p' x as s r now, Transition.Reach timed Timely p →
    timed.step p (.accept (some client)) = some p' →
    timed.Meets Timely p' (.tick x :: as) → timed.run p' (.tick x :: as) = some (s, r) →
    s.loop = .sweeping 0 now → serverTimeout < now - x → r.heard p.1.conns = none →
    ∀ i, s.owner i = some p.1.conns →
    ∀ bs t r', timed.Meets Timely (s, r) bs → (∀ a ∈ bs, ∀ x, a ≠ .tick x) →
      timed.run (s, r) bs = some (t, r') → t.loop = .deleting → t.owner i ≠ some p.1.conns

/-- The accept thread reads the time for the first client, and is stopped for 100 seconds
    before it writes the slot. A sweep that has started frees the slot, which was free at
    its start. -/
private theorem not_sweepsStartSet : ¬ SweepsStartSet := by
  intro h
  have hrun : ∃ s r t r' t', timed.run (start 0, Times.start (start 0))
        [.gate, .accept (some { fd := 5, addr := .zero _, port := 80 }), .chooseSlot,
          .setNonBlocking true, .setRcvbuf true, .initSlot 0, .tick 100] = some (s, r) ∧
      timed.run (s, r) [.fill, .fill, .fill, .fill, .fill, .fill, .unlock, .sweepSlot,
        .sweepTime] = some (t, r') ∧
      s.loop = .sweeping 0 100 ∧ s.owner ⟨0, by decide⟩ = none ∧ r.clock = 100 ∧
      t.loop.sweepTime = some 100 ∧ t.step .op = some t' ∧
      t.fdAt ⟨0, by decide⟩ = 5 ∧ t'.fdAt ⟨0, by decide⟩ = -1 :=
    ⟨_, _, _, _, _, rfl, rfl, rfl, rfl, rfl, rfl, rfl, rfl, rfl⟩
  obtain ⟨s, r, t, r', t', hs, ht, hloop, howner, hclock, hsweep, hstep, hfd, hfd'⟩ := hrun
  have hreach : Transition.Reach timed Timely (s, r) := by
    refine .run (.init ⟨⟨0, 15, rfl⟩, rfl⟩) (meets_timely ?_ ?_) hs
    · simp
    · show List.IsChain (· ≤ ·) [(0 : Int), 0, 100]
      simp
  have hmeets : timed.Meets Timely (s, r) [.fill, .fill, .fill, .fill, .fill, .fill, .unlock,
      .sweepSlot, .sweepTime] := by
    exact meets_timely (by simp) (.singleton _)
  -- The last step frees slot 0, which was free when the sweep started
  have hne : t'.table ⟨0, by decide⟩ ≠ t.table ⟨0, by decide⟩ := by
    intro heq
    rw [fdAt, heq] at hfd'
    exact absurd (hfd.symm.trans hfd') (by decide)
  obtain ⟨c, hc, -⟩ := h s r 100 hreach hloop _ t r' hmeets (by simp) ht hsweep .op t' rfl hstep
    ⟨0, by decide⟩ hne
  cases howner.symm.trans hc

/-- The accept thread is stopped between `accept` and the reading of the time for the first
    client, from before second 10 to second 60. The sweep in second 100 leaves the slot. -/
private theorem not_sweepsSinceAccept : ¬ SweepsSinceAccept := by
  intro h
  have hrun : ∃ p p' s r u r', timed.run (start 0, Times.start (start 0)) [.gate] = some p ∧
      timed.step p (.accept (some { fd := 5, addr := .zero _, port := 80 })) = some p' ∧
      timed.run p' [.tick 10, .epollWait [], .nextEvent, .chooseSlot, .setNonBlocking true,
        .setRcvbuf true, .initSlot 60, .fill, .fill, .fill, .fill, .fill, .fill, .unlock,
        .epollAdd true, .countAdd, .tick 100] = some (s, r) ∧
      timed.run (s, r) [.sweepSlot, .sweepTime] = some (u, r') ∧
      p.1.conns = 0 ∧ p.2.clock = 0 ∧ p'.2.clock = 0 ∧ s.loop = .sweeping 0 100 ∧
      r.heard 0 = none ∧ s.owner ⟨0, by decide⟩ = some 0 ∧ r.clock = 100 ∧
      u.loop = .sweeping 1 100 ∧ u.ops = [] ∧ u.crashed = none ∧ u.pool.fault = false ∧
      u.pool.main = .serving ∧ (∀ k hk, u.fdAt ⟨k + 1, hk⟩ = -1) ∧
      u.owner ⟨0, by decide⟩ = some 0 :=
    ⟨_, _, _, _, _, _, rfl, rfl, rfl, rfl, rfl, rfl, rfl, rfl, rfl, rfl, rfl, rfl, rfl, rfl, rfl,
      rfl, fun _ _ => rfl, rfl⟩
  obtain ⟨p, p', s, r, u, r', hp, hp', hs, hu, hconns, hclock, hclock', hloop, hheard, howner,
    hclockr, hl, ho, hc, hf, hmain, hfree, howner'⟩ := hrun
  -- The other slots are free, and the sweep passes them
  obtain ⟨t, ht, htl, htu⟩ := run_rest_free (r := r') hl ho hc hf hmain hfree
  have hsweep : timed.run (s, r) ([.sweepSlot, .sweepTime] ++
      (List.replicate 10239 .sweepSlot ++ [.sweepSlot])) = some (t, r') := by
    rw [Transition.System.run_append, hu, Option.bind_some]
    exact ht
  have hreach : Transition.Reach timed Timely p :=
    .run (.init ⟨⟨0, 15, rfl⟩, rfl⟩) (meets_timely (by simp) (.singleton _)) hp
  have hquiet : ∀ a ∈ [.sweepSlot, .sweepTime] ++
      (List.replicate 10239 .sweepSlot ++ [Action.sweepSlot]), a = .sweepSlot ∨ a = .sweepTime := by
    intro a ha
    rcases List.mem_append.mp ha with ha | ha
    · simpa using ha
    · rcases List.mem_append.mp ha with ha | ha
      · exact .inl (List.eq_of_mem_replicate ha)
      · exact .inl (List.mem_singleton.mp ha)
  refine h p _ p' 10 _ s r 100 hreach hp' (meets_timely (by simp) ?_) hs hloop (by decide)
    (by rw [hconns, hheard]) ⟨0, by decide⟩ (by rw [hconns, howner]) _ t r'
    (meets_timely (fun hm => ?_) ?_) (fun a ha x heq => ?_) hsweep htl ?_
  · rw [hclock']
    show List.IsChain (· ≤ ·) [(0 : Int), 10, 60, 100]
    simp
  · rcases hquiet _ hm with ha | ha <;> cases ha
  · rw [List.filterMap_eq_nil_iff.mpr fun a ha => by rcases hquiet a ha with rfl | rfl <;> rfl]
    exact .singleton _
  · rcases hquiet a ha with rfl | rfl <;> cases heq
  · rw [htu, hconns]
    exact howner'

/-- A sweep frees slots that were free when it started, and it keeps connections that were
    accepted long ago. -/
theorem sweep_idle_fails : ¬ SweepsStartSet ∧ ¬ SweepsSinceAccept :=
  ⟨not_sweepsStartSet, not_sweepsSinceAccept⟩

end Server

end JQServer
