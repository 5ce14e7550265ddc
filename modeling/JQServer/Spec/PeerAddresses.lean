import JQServer.ForStd.Simulation
import JQServer.Spec.NetInvariant

/-!
# Addresses in the table

The accept thread writes the address that `accept` returned to a slot field by field, while
other threads use the table. `peers_recorded` says that no interleaving mixes addresses up:
as long as a slot holds the descriptor of a connection, it has the address and the port of
that connection.
-/

namespace JQServer

/-- Record the peer of every connection. -/
def recordPeer (r : Nat → Option Peer) (s : Server) (a : Action) (_ : Server) :
    Nat → Option Peer :=
  match a with
  | .accept (some p) => Function.update r s.conns (some p)
  | _ => r

namespace Server

open Transition

variable {s s' : Server} {r : Nat → Option Peer}

/-- The server with the peers of its connections. -/
def peers : System (Server × (Nat → Option Peer)) Action :=
  system.withHistory (fun _ _ => none) recordPeer

/-- The slot has the descriptor, the address and the port of a peer. -/
structure SlotOf (e : EpollConnect) (p : Peer) : Prop where
  fd : e.connectFd = p.fd
  addr : e.clientIpAddr = p.addr
  port : e.clientPort = p.port

/-- Slots and the accept thread have the addresses on record. -/
structure PeerInv (s : Server) (r : Nat → Option Peer) : Prop where
  slots : ∀ i conn, s.owner i = some conn → ∃ p, r conn = some p ∧ SlotOf (s.table i) p
  client : ∀ c, s.accept.client = some c →
    r c.conn = some { fd := c.fd, addr := c.addr, port := c.port }
  /-- What is no longer to be written is in the slot. -/
  written : ∀ c i ws, s.accept = .filling c i ws →
    (.clientIpAddr c.addr ∉ ws → (s.table i).clientIpAddr = c.addr) ∧
      (.clientPort c.port ∉ ws → (s.table i).clientPort = c.port)
  known : ∀ conn, r conn ≠ none → conn < s.conns

/-- A state in which slots were freed, at most. -/
private theorem PeerInv.frame (h : s.PeerInv r) (haccept : s'.accept = s.accept)
    (hconns : s'.conns = s.conns)
    (haddr : ∀ i, (s'.table i).clientIpAddr = (s.table i).clientIpAddr ∧
      (s'.table i).clientPort = (s.table i).clientPort)
    (howner : ∀ i conn, s'.owner i = some conn → s.owner i = some conn ∧ s'.fdAt i = s.fdAt i) :
    s'.PeerInv r where
  slots i conn hi := by
    obtain ⟨hold, hfd⟩ := howner i conn hi
    obtain ⟨p, hp, hslot⟩ := h.slots i conn hold
    exact ⟨p, hp, hfd.trans hslot.fd, (haddr i).1.trans hslot.addr, (haddr i).2.trans hslot.port⟩
  client c hc := h.client c (haccept ▸ hc)
  written c i ws hw := by
    rw [(haddr i).1, (haddr i).2]
    exact h.written c i ws (haccept ▸ hw)
  known conn hk := hconns ▸ h.known conn hk

/-- The accept thread goes on with the same client, or without one. -/
private theorem PeerInv.advance {pc : AcceptPc} (h : s.PeerInv r)
    (hclient : ∀ c, pc.client = some c → s.accept.client = some c)
    (hpc : ∀ c i ws, pc ≠ .filling c i ws) : ({ s with accept := pc } : Server).PeerInv r where
  slots := h.slots
  client c hc := h.client c (hclient c hc)
  written c i ws hw := absurd hw (hpc c i ws)
  known := h.known

/-- A slot is freed. -/
private theorem PeerInv.free (h : s.PeerInv r) (i : Fin maxEvents) : (s.free i).PeerInv r := by
  refine h.frame rfl rfl (fun j => ?_) (fun j conn hj => ?_)
  · by_cases hji : j = i
    · subst hji
      simp [Server.free, Table.freeEventByIndex]
    · simp [Server.free, Table.freeEventByIndex, Function.update_of_ne hji]
  · by_cases hji : j = i
    · subst hji
      simp [Server.free] at hj
    · simp only [Server.free, Function.update_of_ne hji] at hj
      refine ⟨hj, ?_⟩
      simp [fdAt, Server.free, Table.freeEventByIndex, Function.update_of_ne hji]

/-- A write to a slot that nobody occupies. -/
private theorem PeerInv.fill_free {c : Client} {i : Fin maxEvents} {w : SlotWrite}
    {ws : List SlotWrite} (h : s.PeerInv r) (ha : s.accept = .filling c i (w :: ws))
    (hw : ∀ fd, w ≠ .connectFd fd) (hfree : s.owner i = none)
    (haddr : .clientIpAddr c.addr ∉ ws → (w.apply (s.table i)).clientIpAddr = c.addr)
    (hport : .clientPort c.port ∉ ws → (w.apply (s.table i)).clientPort = c.port) :
    ({ s.fillSlot c i w with accept := .filling c i ws } : Server).PeerInv r where
  -- An occupied slot is another one
  slots j conn hj := by
    have hsame : (s.fillSlot c i w).owner = s.owner := (fdAt_fillSlot_other hw).2
    have hold : s.owner j = some conn := (congrFun hsame j).symm.trans hj
    have hji : j ≠ i := by
      intro heq
      exact nomatch (heq ▸ hold).symm.trans hfree
    obtain ⟨p, hp, hslot⟩ := h.slots j conn hold
    refine ⟨p, hp, ?_⟩
    simpa only [fillSlot, Function.update_of_ne hji] using hslot
  client c' hc := h.client c' (by rw [ha]; exact hc)
  written c' i' ws' hw' := by
    obtain ⟨rfl, rfl, rfl⟩ := AcceptPc.filling.inj hw'
    simp only [fillSlot, Function.update_self]
    exact ⟨haddr, hport⟩
  known := h.known

/-- The write of the descriptor: the slot has the address by then. -/
private theorem PeerInv.fill_fd {c : Client} {i : Fin maxEvents} (h : s.PeerInv r)
    (ha : s.accept = .filling c i [.connectFd c.fd, .socketStatus 1]) :
    ({ s.fillSlot c i (.connectFd c.fd) with accept := .filling c i [.socketStatus 1] } :
      Server).PeerInv r := by
  obtain ⟨haddr, hport⟩ := h.written c i _ ha
  replace haddr := haddr (by simp)
  replace hport := hport (by simp)
  have hclient := h.client c (by rw [ha]; rfl)
  refine ⟨fun j conn hj => ?_, fun c' hc => h.client c' (by rw [ha]; exact hc),
    fun c' i' ws' hw' => ?_, h.known⟩
  · by_cases hji : j = i
    · subst hji
      simp only [fillSlot, Function.update_self, Option.some.injEq] at hj
      subst hj
      refine ⟨_, hclient, ?_⟩
      simp only [fillSlot, SlotWrite.apply, Function.update_self]
      exact ⟨rfl, haddr, hport⟩
    · simp only [fillSlot, Function.update_of_ne hji] at hj
      obtain ⟨p, hp, hslot⟩ := h.slots j conn hj
      refine ⟨p, hp, ?_⟩
      simpa only [fillSlot, Function.update_of_ne hji] using hslot
  · obtain ⟨rfl, rfl, rfl⟩ := AcceptPc.filling.inj hw'
    simp only [fillSlot, SlotWrite.apply, Function.update_self]
    exact ⟨fun _ => haddr, fun _ => hport⟩

/-- The last write. -/
private theorem PeerInv.fill_status {c : Client} {i : Fin maxEvents} {status : Int}
    (h : s.PeerInv r) (ha : s.accept = .filling c i [.socketStatus status]) :
    ({ s.fillSlot c i (.socketStatus status) with accept := .filling c i [] } :
      Server).PeerInv r := by
  obtain ⟨haddr, hport⟩ := h.written c i _ ha
  refine ⟨fun j conn hj => ?_, fun c' hc => h.client c' (by rw [ha]; exact hc),
    fun c' i' ws' hw' => ?_, h.known⟩
  · obtain ⟨p, hp, hslot⟩ := h.slots j conn hj
    refine ⟨p, hp, ?_⟩
    by_cases hji : j = i
    · subst hji
      simp only [fillSlot, SlotWrite.apply, Function.update_self]
      exact ⟨hslot.fd, hslot.addr, hslot.port⟩
    · simpa only [fillSlot, Function.update_of_ne hji] using hslot
  · obtain ⟨rfl, rfl, rfl⟩ := AcceptPc.filling.inj hw'
    simp only [fillSlot, SlotWrite.apply, Function.update_self]
    exact ⟨fun _ => haddr (by simp), fun _ => hport (by simp)⟩

/-- One write of `init_epoll_connect_by_index`. -/
private theorem PeerInv.fill {c : Client} {i : Fin maxEvents} {w : SlotWrite}
    {ws : List SlotWrite} (h : s.PeerInv r) (hnet : s.NetInv)
    (ha : s.accept = .filling c i (w :: ws)) :
    ({ s.fillSlot c i w with accept := .filling c i ws } : Server).PeerInv r := by
  obtain ⟨now, hsuf⟩ := hnet.accept.writes c i (w :: ws) ha
  -- Up to the write of the descriptor the slot is free
  have hfree : .connectFd c.fd ∈ w :: ws → s.owner i = none := by
    intro hmem
    have hfd := hnet.accept.target i (by simp only [ha, AcceptPc.target, if_pos hmem])
    by_contra hne
    exact (hnet.owner i).mpr hne hfd
  obtain ⟨haddr, hport⟩ := h.written c i (w :: ws) ha
  simp only [initEpollConnectByIndex, List.suffix_cons_iff, List.cons.injEq, List.suffix_nil,
    reduceCtorEq, or_false] at hsuf
  obtain ⟨rfl, rfl⟩ | ⟨rfl, rfl⟩ | ⟨rfl, rfl⟩ | ⟨rfl, rfl⟩ | ⟨rfl, rfl⟩ | ⟨rfl, rfl⟩ := hsuf
  · exact h.fill_free ha (by simp) (hfree (by simp)) (fun hn => absurd (by simp) hn)
      (fun hn => absurd (by simp) hn)
  · exact h.fill_free ha (by simp) (hfree (by simp)) (fun hn => absurd (by simp) hn)
      (fun hn => absurd (by simp) hn)
  · exact h.fill_free ha (by simp) (hfree (by simp)) (fun _ => rfl) (fun hn => absurd (by simp) hn)
  · exact h.fill_free ha (by simp) (hfree (by simp)) (fun _ => haddr (by simp)) (fun _ => rfl)
  · exact h.fill_fd ha
  · exact h.fill_status ha

/-- `accept` returns a peer, whose connection has a new number. -/
private theorem PeerInv.accept {p : Peer} (h : s.PeerInv r) :
    ({ s with
        fds := Function.update s.fds p.fd (some s.conns)
        conns := s.conns + 1
        accept := .accepted { fd := p.fd, conn := s.conns, addr := p.addr, port := p.port } } :
      Server).PeerInv (Function.update r s.conns (some p)) where
  slots i conn hi := by
    obtain ⟨q, hq, hslot⟩ := h.slots i conn hi
    -- Peers are recorded for earlier connections only
    have hne : conn ≠ s.conns := Nat.ne_of_lt (h.known conn (by rw [hq]; nofun))
    exact ⟨q, by rw [Function.update_of_ne hne, hq], hslot⟩
  client c hc := by
    obtain rfl := Option.some.inj hc
    rw [Function.update_self]
  written c i ws hw := nomatch hw
  known conn hk := by
    by_cases hne : conn = s.conns
    · show conn < s.conns + 1
      omega
    · rw [Function.update_of_ne hne] at hk
      exact Nat.lt_succ_of_lt (h.known conn hk)

/-- Steps of the accept thread. -/
private theorem PeerInv.accept_step {a : Action} (h : s.PeerInv r) (hnet : s.NetInv)
    (hs : s.AcceptMoves a s') : s'.PeerInv (recordPeer r s a s') := by
  cases hs with
  | accept ha => exact h.accept
  | @gate pc ha hpc =>
    refine h.advance (fun c hc => ?_) (fun c i ws hw => ?_)
    · obtain rfl | rfl := hpc <;> cases hc
    · obtain rfl | rfl := hpc <;> cases hw
  | acceptError ha => exact h.advance (fun c hc => by cases hc) (by simp)
  | noSlot ha => exact h.advance (fun c hc => by rw [ha]; exact hc) (by simp)
  | chooseSlot ha => exact h.advance (fun c hc => by rw [ha]; exact hc) (by simp)
  | setNonBlocking ha => exact h.advance (fun c hc => by rw [ha]; exact hc) (by simp)
  | notNonBlocking ha => exact h.advance (fun c hc => by rw [ha]; exact hc) (by simp)
  | setRcvbuf ha => exact h.advance (fun c hc => by rw [ha]; exact hc) (by simp)
  | noRcvbuf ha => exact h.advance (fun c hc => by rw [ha]; exact hc) (by simp)
  | @initSlot c i now ha =>
    refine ⟨h.slots, fun c' hc => h.client c' (by rw [ha]; exact hc), fun c' i' ws hw => ?_,
      h.known⟩
    -- All writes are still to come
    obtain ⟨rfl, rfl, rfl⟩ := AcceptPc.filling.inj hw
    exact ⟨fun hn => absurd (by simp [initEpollConnectByIndex]) hn,
      fun hn => absurd (by simp [initEpollConnectByIndex]) hn⟩
  | fill ha => exact h.fill hnet ha
  | unlock ha => exact h.advance (fun c hc => by rw [ha]; exact hc) (by simp)
  | epollAdd ha hopen hnew => exact ⟨h.slots, (fun c hc => by cases hc), by simp, h.known⟩
  | epollAddFails ha =>
    exact ⟨h.slots, fun c hc => h.client c (by rw [ha]; exact hc), by simp, h.known⟩
  | countAdd ha => exact ⟨h.slots, (fun c hc => by cases hc), by simp, h.known⟩
  | closeFailed ha => exact ⟨h.slots, (fun c hc => by cases hc), by simp, h.known⟩

/-- A step that leaves the table and the accept thread alone. -/
private theorem PeerInv.same (h : s.PeerInv r) (haccept : s'.accept = s.accept)
    (hconns : s'.conns = s.conns) (htable : s'.table = s.table) (howner : s'.owner = s.owner) :
    s'.PeerInv r := by
  refine h.frame haccept hconns (fun i => ?_) (fun i conn hi => ⟨howner ▸ hi, ?_⟩)
  · rw [htable]
    exact ⟨rfl, rfl⟩
  · simp only [fdAt, htable]

/-- The pending calls are no part of it. -/
private theorem PeerInv.ops (h : s.PeerInv r) (ops : List LoopOp) :
    ({ s with ops := ops } : Server).PeerInv r := h.same rfl rfl rfl rfl

/-- Steps of the event loop. -/
private theorem PeerInv.loop_step {a : Action} (h : s.PeerInv r) (hs : s.LoopMoves a s') :
    s'.PeerInv r := by
  cases hs with
  | @op op ops s' ho hop =>
    cases hop with
    | freeNone => exact h.ops ops
    | free hl => exact (h.ops ops).free _
    | freeMatchedNone hn => exact h.ops ops
    | freeMatched hi hl => exact (h.ops ops).free _
    -- It writes the time of the slot and no more
    | @updateTime i now =>
      refine (h.ops ops).frame rfl rfl (fun j => ?_) (fun j conn hj => ⟨hj, ?_⟩)
      · by_cases hji : j = i
        · subst hji
          simp [Table.updateTimeByIndex]
        · simp [Table.updateTimeByIndex, Function.update_of_ne hji]
      · exact congrFun (fdAt_updateTime s.table i now) j
    | countSub | epollDel | close | enqueue => exact (h.ops ops).same rfl rfl rfl rfl
  | _ => exact h.same rfl rfl rfl rfl

/-- Steps of the workers. -/
private theorem PeerInv.worker_step {a : Action} (h : s.PeerInv r) (hs : s.WorkerMoves a s') :
    s'.PeerInv r := by
  have hnet := hs.sameNet
  exact h.frame hnet.accept hnet.conns (fun j => (hs.slot_frame j).2)
    (fun j conn hj => ⟨hnet.owner ▸ hj, hnet.fdAt j⟩)

/-- Only `accept` adds to the record. -/
private theorem recordPeer_eq {a : Action} (ha : ∀ p, a ≠ .accept (some p)) :
    recordPeer r s a s' = r := by
  cases a with
  | accept p =>
    cases p with
    | none => rfl
    | some p => exact absurd rfl (ha p)
  | _ => rfl

theorem PeerInv.step {a : Action} (h : s.PeerInv r) (hnet : s.NetInv) (hs : s.step a = some s') :
    s'.PeerInv (recordPeer r s a s') := by
  obtain hm | hm | hm := (step_moves hs).2
  · exact h.accept_step hnet hm
  · rw [recordPeer_eq (by rintro p rfl; exact nomatch hm)]
    exact h.loop_step hm
  · rw [recordPeer_eq ?_]
    · exact h.worker_step hm
    · intro p heq
      subst heq
      cases hm with
      | crash _ ha | move ha _ => exact nomatch ha

/-- In every state of every run, an occupied slot has the descriptor, the address and the port
    that `accept` returned for the connection that occupies it. -/
theorem peers_recorded (h : Reachable peers (s, r)) {i : Fin maxEvents}
    (hocc : s.table.Occupied i) :
    ∃ conn p, s.owner i = some conn ∧ r conn = some p ∧ SlotOf (s.table i) p := by
  have hreach : Reachable system s := h.forget fun _ _ _ => trivial
  have hinv : s.PeerInv r := by
    refine h.invariant (I := fun x => x.1.PeerInv x.2) ?_ fun x a x' hx hinv _ hs => ?_
    · intro x hx
      obtain ⟨⟨t, n, hs⟩, hr⟩ := hx
      rw [hs, hr]
      exact ⟨nofun, nofun, nofun, fun _ hk => absurd rfl hk⟩
    · obtain ⟨hs, hr⟩ := System.withHistory_step hs
      rw [hr]
      exact hinv.step (netInv_of_reach (hx.forget (D := fun _ _ => True) fun _ _ _ => trivial)) hs
  obtain ⟨conn, hconn⟩ := Option.ne_none_iff_exists'.mp (((netInv_of_reach hreach).owner i).mp hocc)
  obtain ⟨p, hp, hslot⟩ := hinv.slots i conn hconn
  exact ⟨conn, p, hconn, hp, hslot⟩

/-- The slot of a client that hangs up goes to the next client, with the address of that. -/
theorem peers_recorded_reused :
    ∃ (s : Server) (r : Nat → Option Peer), peers.run (start 0, fun _ => none)
      (acceptRun { fd := 5, addr := .zero _, port := 80 } 0 ++ hangUpRun 5 0 ++
        acceptRun { fd := 5, addr := .ofBytes _ [49], port := 81 } 0) = some (s, r) ∧
      s.owner 0 = some 1 ∧ SlotOf (s.table 0) { fd := 5, addr := .ofBytes _ [49], port := 81 } := by
  have hrun : ∃ (s : Server) (r : Nat → Option Peer), peers.run (start 0, fun _ => none)
      (acceptRun { fd := 5, addr := .zero _, port := 80 } 0 ++ hangUpRun 5 0 ++
        acceptRun { fd := 5, addr := .ofBytes _ [49], port := 81 } 0) = some (s, r) ∧
      s.owner 0 = some 1 ∧ (s.table 0).connectFd = 5 ∧
      r 1 = some { fd := 5, addr := .ofBytes _ [49], port := 81 } := ⟨_, _, rfl, rfl, rfl, rfl⟩
  obtain ⟨s, r, hr, howner, hfd, hpeer⟩ := hrun
  have hocc : s.table.Occupied 0 := by
    rw [Table.Occupied, hfd]
    decide
  obtain ⟨conn, p, hconn, hp, hslot⟩ := peers_recorded (.of_run ⟨⟨0, 15, rfl⟩, rfl⟩ hr) hocc
  obtain rfl : 1 = conn := Option.some.inj (howner.symm.trans hconn)
  obtain rfl := Option.some.inj (hpeer.symm.trans hp)
  exact ⟨s, r, hr, howner, hslot⟩

end Server

end JQServer
