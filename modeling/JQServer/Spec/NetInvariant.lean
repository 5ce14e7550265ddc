import JQServer.Spec.ServerMoves

/-!
# Invariants of the network side

What holds of descriptors, slots and pending calls in every run, whatever the
kernel answers: a registered descriptor is open and held by a slot (or about to be
closed), the events still to be processed are registered, and the slot chosen for a
new connection stays free until it is filled.
-/

namespace JQServer

/-! ### Pending calls and program counters -/

namespace LoopOp

/-- The call frees a slot. -/
def frees : LoopOp → Bool
  | .free (some _) | .freeMatched _ => true
  | _ => false

/-- What the call subtracts from the counter. -/
def subs : LoopOp → Int
  | .countSub value => value
  | _ => 0

/-- The descriptor the call closes or unregisters. -/
def drops : LoopOp → Option Int
  | .close fd _ | .epollDel fd => some fd
  | _ => none

end LoopOp

namespace LoopPc

/-- The descriptors of the events that are still to be processed. -/
def pending : LoopPc → List Int
  | .events es => es.map (·.fd)
  | .receiving _ fd es => fd :: es.map (·.fd)
  | _ => []

/-- The slot that the event loop has found a descriptor in and works on. -/
def slot : LoopPc → Option (Fin maxEvents × Int)
  | .receiving i fd _ | .checking i fd _ => some (i, fd)
  | _ => none

end LoopPc

namespace AcceptPc

/-- The client whose descriptor is open and not registered yet. -/
def client : AcceptPc → Option Client
  | .accepted c | .chosen c _ | .nonBlocking c _ | .ready c _ | .filling c _ _ | .filled c _
  | .failing c _ => some c
  | .gate | .accepting | .added => none

/-- The slot that is chosen and does not hold the descriptor yet. -/
def target : AcceptPc → Option (Fin maxEvents)
  | .chosen _ i | .nonBlocking _ i | .ready _ i => some i
  | .filling c i ws => if .connectFd c.fd ∈ ws then some i else none
  | _ => none

/-- The slot that was filled by this iteration and is not registered yet. -/
def filledSlot : AcceptPc → Option (Fin maxEvents)
  | .filling c i ws => if .connectFd c.fd ∈ ws then none else some i
  | .filled _ i => some i
  | _ => none

/-- The client whose descriptor is in no slot yet. -/
def unfilled : AcceptPc → Option Client
  | .accepted c | .chosen c _ | .nonBlocking c _ | .ready c _ | .failing c none => some c
  | .filling c _ ws => if .connectFd c.fd ∈ ws then some c else none
  | _ => none

/-- The descriptor of such a client is not registered either. -/
theorem client_of_unfilled {pc : AcceptPc} {c : Client} (h : pc.unfilled = some c) :
    pc.client = some c := by
  cases pc with
  | filling c' i ws =>
    simp only [unfilled] at h
    split at h
    · exact h
    · exact nomatch h
  | failing c' slot =>
    cases slot with
    | none => exact h
    | some i => exact nomatch h
  | accepted | chosen | nonBlocking | ready => exact h
  | gate | accepting | filled | added => exact nomatch h

end AcceptPc

/-- The next write of `init_epoll_connect_by_index`: it is the descriptor, written
    once, or another field. -/
theorem fill_cases {now fd : Int} {addr : CharArray ipAddrLength} {port : Int} {w : SlotWrite}
    {ws : List SlotWrite} (h : w :: ws <:+ initEpollConnectByIndex now fd addr port) :
    (w = .connectFd fd ∧ .connectFd fd ∉ ws) ∨
      ((∀ fd', w ≠ .connectFd fd') ∧ (.connectFd fd ∈ w :: ws ↔ .connectFd fd ∈ ws)) := by
  simp only [initEpollConnectByIndex, List.suffix_cons_iff, List.cons.injEq, List.suffix_nil,
    reduceCtorEq, or_false] at h
  rcases h with ⟨rfl, rfl⟩ | ⟨rfl, rfl⟩ | ⟨rfl, rfl⟩ | ⟨rfl, rfl⟩ | ⟨rfl, rfl⟩ | ⟨rfl, rfl⟩ <;>
    simp

namespace Server

variable {s s' : Server}

/-- The pending calls of the event loop: at most one frees a slot, which is occupied
    and whose descriptor is closed by the last call. -/
structure OpsInv (s : Server) : Prop where
  free : ∀ i, .free (some i) ∈ s.ops → s.fdAt i ≠ -1 ∧ ∃ c, .close (s.fdAt i) c ∈ s.ops
  freeMatched : ∀ fd, .freeMatched fd ∈ s.ops →
    0 ≤ fd ∧ (∃ i, s.fdAt i = fd) ∧ ∃ c, .close fd c ∈ s.ops
  frees : s.ops.countP LoopOp.frees ≤ 1
  closeLast : ∀ fd c, .close fd c ∉ s.ops.dropLast

/-- Invariants of the accept thread. -/
structure AcceptInv (s : Server) : Prop where
  /-- The descriptor that the thread works on is not registered. -/
  client : ∀ c, s.accept.client = some c → s.epoll c.fd = false ∧ 0 ≤ c.fd
  /-- The chosen slot is free. -/
  target : ∀ i, s.accept.target = some i → s.fdAt i = -1
  writes : ∀ c i ws, s.accept = .filling c i ws →
    ∃ now, ws <:+ initEpollConnectByIndex now c.fd c.addr c.port
  /-- The slot that was filled holds the descriptor, unless it was closed since. -/
  filled : ∀ c i, s.accept.client = some c → s.accept.filledSlot = some i →
    s.fdAt i = c.fd ∨ (∃ x, .close c.fd x ∈ s.ops) ∨ s.fds c.fd = none

/-- Invariants of the event loop. -/
structure LoopInv (s : Server) : Prop where
  ops : s.OpsInv
  /-- A registered descriptor is held by a slot, or about to be closed. -/
  held : ∀ fd, s.epoll fd = true → (∃ i, s.fdAt i = fd) ∨ ∃ c, .close fd c ∈ s.ops
  /-- Events to be processed are about distinct registered descriptors that no
      pending call drops. -/
  pendingNodup : s.loop.pending.Nodup
  pending : ∀ fd ∈ s.loop.pending, s.epoll fd = true ∧ ∀ op ∈ s.ops, op.drops ≠ some fd
  /-- The slot that it works on keeps its descriptor. -/
  slot : ∀ i fd, s.loop.slot = some (i, fd) → s.fdAt i = fd ∧ fd ≠ -1 ∧ s.ops = []

/-- Invariants of the network side. -/
structure NetInv (s : Server) : Prop where
  /-- A registered descriptor is open. -/
  registered : ∀ fd, s.epoll fd = true → s.fds fd ≠ none
  nonneg : ∀ fd, s.fds fd ≠ none → 0 ≤ fd
  /-- A slot is occupied by a connection exactly while it holds a descriptor. -/
  owner : ∀ i, s.fdAt i ≠ -1 ↔ s.owner i ≠ none
  accept : s.AcceptInv
  loop : s.LoopInv

/-- A close is the last of the pending calls. -/
theorem OpsInv.close_last {fd : Int} {c : Option Nat} {ops : List LoopOp} (h : s.OpsInv)
    (ho : s.ops = .close fd c :: ops) : ops = [] := by
  by_contra hne
  apply h.closeLast fd c
  rw [ho, List.dropLast_cons_of_ne_nil hne]
  exact List.mem_cons_self

/-- The search before a free that is pending finds the slot. -/
theorem OpsInv.freeMatched_found {fd : Int} (h : s.OpsInv) (hm : .freeMatched fd ∈ s.ops) :
    ∃ i, s.table.getMatchedEventIndexByFd fd = some i := by
  obtain ⟨-, ⟨i, hi⟩, -⟩ := h.freeMatched fd hm
  exact Table.exists_getMatchedEventIndexByFd hi

/-- At most one descriptor is about to be closed. -/
theorem OpsInv.close_unique {fd fd' : Int} {x x' : Option Nat} (h : s.OpsInv)
    (hm : .close fd x ∈ s.ops) (hm' : .close fd' x' ∈ s.ops) : fd = fd' ∧ x = x' := by
  have hlast : ∀ {fd x}, .close fd x ∈ s.ops → s.ops.getLast? = some (.close fd x) := by
    intro fd x hm
    have hne : s.ops ≠ [] := List.ne_nil_of_mem hm
    rw [List.getLast?_eq_some_getLast hne]
    rw [← List.dropLast_append_getLast hne] at hm
    rcases List.mem_append.mp hm with hm | hm
    · exact absurd hm (h.closeLast fd x)
    · exact congrArg some (List.mem_singleton.mp hm).symm
  have heq := (hlast hm).symm.trans (hlast hm')
  rwa [Option.some.injEq, LoopOp.close.injEq] at heq

/-- The invariants hold at the start. -/
theorem netInv_start (t n : Int) : (start t n).NetInv where
  registered := nofun
  nonneg _ h := absurd rfl h
  owner _ := ⟨fun h => absurd rfl h, fun h => absurd rfl h⟩
  accept := ⟨nofun, nofun, nofun, nofun⟩
  loop := ⟨⟨nofun, nofun, Nat.zero_le _, nofun⟩, nofun, List.nodup_nil, nofun, nofun⟩

/-- The invariants only look at the network side. -/
theorem NetInv.congr (h : s.NetInv) (hs : s.SameNet s') : s'.NetInv := by
  have hfd : s'.fdAt = s.fdAt := funext hs.fdAt
  obtain ⟨hreg, hnonneg, howner, ⟨hclient, htarget, hwrites, hfilled⟩,
    ⟨⟨hfree, hmatched, hfrees, hlast⟩, hheld, hnodup, hpending, hslot⟩⟩ := h
  rw [← hs.epoll, ← hs.fds] at hreg
  rw [← hs.fds] at hnonneg
  rw [← hfd, ← hs.owner] at howner
  rw [← hs.accept] at hclient htarget hwrites hfilled
  rw [← hs.epoll] at hclient hheld hpending
  rw [← hfd] at htarget hfilled hfree hmatched hheld hslot
  rw [← hs.fds, ← hs.ops] at hfilled
  rw [← hs.ops] at hfree hmatched hfrees hlast hheld hpending hslot
  rw [← hs.loop] at hnodup hpending hslot
  exact ⟨hreg, hnonneg, howner, ⟨hclient, htarget, hwrites, hfilled⟩,
    ⟨⟨hfree, hmatched, hfrees, hlast⟩, hheld, hnodup, hpending, hslot⟩⟩

/-- The invariants of the event loop only look at slots, descriptors and calls. -/
private theorem LoopInv.congr (h : s.LoopInv) (hfd : s'.fdAt = s.fdAt)
    (hepoll : s'.epoll = s.epoll) (hops : s'.ops = s.ops) (hloop : s'.loop = s.loop) :
    s'.LoopInv := by
  obtain ⟨⟨hfree, hmatched, hfrees, hlast⟩, hheld, hnodup, hpending, hslot⟩ := h
  rw [← hfd, ← hops] at hfree hmatched hheld
  rw [← hops] at hfrees hlast
  rw [← hepoll] at hheld hpending
  rw [← hloop] at hnodup hpending hslot
  rw [← hops] at hpending hslot
  rw [← hfd] at hslot
  exact ⟨⟨hfree, hmatched, hfrees, hlast⟩, hheld, hnodup, hpending, hslot⟩

/-! ### The accept thread -/

/-- Moving the accept thread to a place where it works on the same client. -/
private theorem AcceptInv.move {pc : AcceptPc} (h : s.AcceptInv)
    (hclient : ∀ c, pc.client = some c → s.accept.client = some c)
    (htarget : ∀ i, pc.target = some i → s.fdAt i = -1)
    (hwrites : ∀ c i ws, pc = .filling c i ws →
      ∃ now, ws <:+ initEpollConnectByIndex now c.fd c.addr c.port)
    (hfilled : ∀ i, pc.filledSlot = some i → s.accept.filledSlot = some i) :
    AcceptInv { s with accept := pc } where
  client c hc := h.client c (hclient c hc)
  target := htarget
  writes := hwrites
  filled c i hc hi := h.filled c i (hclient c hc) (hfilled i hi)

/-- Such a move keeps all invariants, for an accept thread that does nothing else. -/
private theorem NetInv.moveAccept {pc : AcceptPc} (h : s.NetInv)
    (hclient : ∀ c, pc.client = some c → s.accept.client = some c)
    (htarget : ∀ i, pc.target = some i → s.fdAt i = -1)
    (hwrites : ∀ c i ws, pc = .filling c i ws →
      ∃ now, ws <:+ initEpollConnectByIndex now c.fd c.addr c.port)
    (hfilled : ∀ i, pc.filledSlot = some i → s.accept.filledSlot = some i) :
    NetInv { s with accept := pc } where
  registered := h.registered
  nonneg := h.nonneg
  owner := h.owner
  accept := h.accept.move hclient htarget hwrites hfilled
  loop := h.loop.congr rfl rfl rfl rfl

/-- The descriptor is written to a slot that was free up to now. -/
private theorem NetInv.fill_connectFd {c : Client} {i : Fin maxEvents} {now : Int}
    {ws : List SlotWrite} (h : s.NetInv) (hpc : s.accept = .filling c i (.connectFd c.fd :: ws))
    (hsuf' : ws <:+ initEpollConnectByIndex now c.fd c.addr c.port)
    (hws : SlotWrite.connectFd c.fd ∉ ws) :
    NetInv { s.fillSlot c i (.connectFd c.fd) with accept := .filling c i ws } := by
  have hclient := h.accept.client c (by rw [hpc]; rfl)
  -- The slot was chosen because it is free, and nobody else fills slots
  have hi : s.fdAt i = -1 := h.accept.target i (by
    simp only [hpc, AcceptPc.target, List.mem_cons, true_or, ↓reduceIte])
  have hfd : ∀ j, j ≠ i →
      ({ s.fillSlot c i (.connectFd c.fd) with accept := .filling c i ws } : Server).fdAt j =
        s.fdAt j := fun _ => fdAt_filling_of_ne
  have hfdi : ({ s.fillSlot c i (.connectFd c.fd) with accept := .filling c i ws } :
      Server).fdAt i = c.fd := fdAt_filling_self
  -- So the slots that the event loop works on are other ones
  have hne : ∀ j, s.fdAt j ≠ -1 → j ≠ i := by
    rintro j hj rfl
    exact hj hi
  exact {
    registered := h.registered
    nonneg := h.nonneg
    owner := by
      intro j
      by_cases hj : j = i
      · subst hj
        rw [hfdi]
        simp only [fillSlot, Function.update_self]
        exact ⟨fun _ => Option.some_ne_none _, fun _ => by have := hclient.2; omega⟩
      · rw [hfd j hj]
        simp only [fillSlot, Function.update_of_ne hj]
        exact h.owner j
    accept := {
      client := fun c' hc' => Option.some.inj hc' ▸ hclient
      target := by
        intro j hj
        simp only [AcceptPc.target, hws, ↓reduceIte, reduceCtorEq] at hj
      writes := by
        intro c' i' ws' heq
        cases heq
        exact ⟨now, hsuf'⟩
      filled := by
        intro c' j hc' hj
        obtain rfl := Option.some.inj hc'
        simp only [AcceptPc.filledSlot, hws, ↓reduceIte, Option.some.injEq] at hj
        exact .inl (hj ▸ hfdi) }
    loop := {
      ops := {
        free := by
          intro j hj
          obtain ⟨h1, h2⟩ := h.loop.ops.free j hj
          rw [hfd j (hne j h1)]
          exact ⟨h1, h2⟩
        freeMatched := by
          intro fd hfd'
          obtain ⟨h1, ⟨j, hj⟩, h2⟩ := h.loop.ops.freeMatched fd hfd'
          exact ⟨h1, ⟨j, by rw [hfd j (hne j (by omega))]; exact hj⟩, h2⟩
        frees := h.loop.ops.frees
        closeLast := h.loop.ops.closeLast }
      held := by
        intro fd hfd'
        refine (h.loop.held fd hfd').imp_left (Exists.imp fun j hj => ?_)
        have := h.nonneg fd (h.registered fd hfd')
        rw [hfd j (hne j (by omega))]
        exact hj
      pendingNodup := h.loop.pendingNodup
      pending := h.loop.pending
      slot := by
        intro j fd hl
        obtain ⟨h1, h2⟩ := h.loop.slot j fd hl
        exact ⟨by rw [hfd j (hne j (by rw [h1]; exact h2.1))]; exact h1, h2⟩ } }

/-- The other writes change no descriptor. -/
private theorem NetInv.fill_other {c : Client} {i : Fin maxEvents} {now : Int} {w : SlotWrite}
    {ws : List SlotWrite} (h : s.NetInv) (hpc : s.accept = .filling c i (w :: ws))
    (hsuf' : ws <:+ initEpollConnectByIndex now c.fd c.addr c.port)
    (hw : ∀ fd, w ≠ .connectFd fd)
    (hws : SlotWrite.connectFd c.fd ∈ w :: ws ↔ SlotWrite.connectFd c.fd ∈ ws) :
    NetInv { s.fillSlot c i w with accept := .filling c i ws } := by
  have hfd : ({ s.fillSlot c i w with accept := .filling c i ws } : Server).fdAt = s.fdAt :=
    (fdAt_fillSlot_other (c := c) hw).1
  have howner : (s.fillSlot c i w).owner = s.owner := (fdAt_fillSlot_other hw).2
  -- The table is as before for what reads descriptors and owners
  have hmove : NetInv { s with accept := .filling c i ws } := by
    refine h.moveAccept (fun c' hc' => by rw [hpc]; exact hc') ?_ ?_ ?_
    · intro j hj
      refine h.accept.target j ?_
      rw [hpc]
      simpa only [AcceptPc.target, hws] using hj
    · intro c' i' ws' heq
      cases heq
      exact ⟨now, hsuf'⟩
    · intro j hj
      rw [hpc]
      simpa only [AcceptPc.filledSlot, hws] using hj
  exact hmove.congr ⟨congrFun hfd, rfl, rfl, rfl, rfl, rfl, rfl, rfl, howner, rfl, rfl⟩

/-- One write of `init_epoll_connect_by_index`. -/
private theorem NetInv.fill {c : Client} {i : Fin maxEvents} {w : SlotWrite}
    {ws : List SlotWrite} (h : s.NetInv) (hpc : s.accept = .filling c i (w :: ws)) :
    NetInv { s.fillSlot c i w with accept := .filling c i ws } := by
  obtain ⟨now, hsuf⟩ := h.accept.writes c i _ hpc
  have hsuf' : ws <:+ initEpollConnectByIndex now c.fd c.addr c.port :=
    (List.suffix_cons w ws).trans hsuf
  rcases fill_cases hsuf with ⟨rfl, hws⟩ | ⟨hw, hws⟩
  · exact h.fill_connectFd hpc hsuf' hws
  · exact h.fill_other hpc hsuf' hw hws

/-- A client is accepted, whose descriptor was not open before. -/
private theorem NetInv.acceptClient {p : Peer} (h : s.NetInv) (hfd : 0 ≤ p.fd)
    (hfree : s.fds p.fd = none) :
    NetInv { s with
      fds := Function.update s.fds p.fd (some s.conns)
      conns := s.conns + 1
      accept := .accepted { fd := p.fd, conn := s.conns, addr := p.addr, port := p.port } } := by
  -- A descriptor that is not open is not registered either
  have hunreg : s.epoll p.fd = false := by
    cases he : s.epoll p.fd with
    | false => rfl
    | true => exact absurd hfree (h.registered _ he)
  have hmono : ∀ fd, s.fds fd ≠ none → Function.update s.fds p.fd (some s.conns) fd ≠ none := by
    intro fd hne
    by_cases hp : fd = p.fd
    · rw [hp, Function.update_self]; exact nofun
    · rwa [Function.update_of_ne hp]
  exact {
    registered := fun fd he => hmono fd (h.registered fd he)
    nonneg := by
      intro fd hne
      by_cases hp : fd = p.fd
      · exact hp ▸ hfd
      · simp only [Function.update_of_ne hp] at hne
        exact h.nonneg fd hne
    owner := h.owner
    accept := ⟨fun c hc => Option.some.inj hc ▸ ⟨hunreg, hfd⟩, nofun, nofun, nofun⟩
    loop := h.loop.congr rfl rfl rfl rfl }

/-- EPOLL_CTL_ADD registers the client's descriptor, which its slot holds or the event loop is
    about to close. -/
private theorem NetInv.epollAdd {c : Client} {i : Fin maxEvents} (h : s.NetInv)
    (hpc : s.accept = .filled c i) (hopen : s.fds c.fd ≠ none) :
    NetInv { s with accept := .added, epoll := Function.update s.epoll c.fd true } := by
  have hmono : ∀ fd, s.epoll fd = true → Function.update s.epoll c.fd true fd = true := by
    intro fd he
    by_cases hc : fd = c.fd
    · rw [hc, Function.update_self]
    · rwa [Function.update_of_ne hc]
  exact {
    registered := by
      intro fd he
      by_cases hc : fd = c.fd
      · exact hc ▸ hopen
      · simp only [Function.update_of_ne hc] at he
        exact h.registered fd he
    nonneg := h.nonneg
    owner := h.owner
    accept := ⟨nofun, nofun, nofun, nofun⟩
    loop := {
      ops := ⟨h.loop.ops.free, h.loop.ops.freeMatched, h.loop.ops.frees, h.loop.ops.closeLast⟩
      held := by
        intro fd he
        by_cases hc : fd = c.fd
        · subst hc
          -- The event loop may have taken the slot back meanwhile
          rcases h.accept.filled c i (by rw [hpc]; rfl) (by rw [hpc]; rfl) with hi | hx | hn
          · exact .inl ⟨i, hi⟩
          · exact .inr hx
          · exact absurd hn hopen
        · simp only [Function.update_of_ne hc] at he
          exact h.loop.held fd he
      pendingNodup := h.loop.pendingNodup
      pending := fun fd hfd => ⟨hmono fd (h.loop.pending fd hfd).1, (h.loop.pending fd hfd).2⟩
      slot := h.loop.slot } }

/-- The accept thread closes a client's descriptor, which is not registered. -/
private theorem NetInv.closeFailed {c : Client} {slot : Option (Fin maxEvents)} (h : s.NetInv)
    (hpc : s.accept = .failing c slot) :
    NetInv { s.closesocket c.fd (.acceptClosed c.conn) with accept := .gate } := by
  have hunreg := (h.accept.client c (by rw [hpc]; rfl)).1
  have hsame : Function.update s.epoll c.fd false = s.epoll := by
    rw [← hunreg, Function.update_eq_self]
  -- What is registered is another descriptor
  have hopen : ∀ fd, s.epoll fd = true → fd ≠ c.fd := by
    rintro fd he rfl
    exact nomatch hunreg.symm.trans he
  exact {
    registered := by
      intro fd he
      simp only [closesocket, hsame] at he ⊢
      rw [Function.update_of_ne (hopen fd he)]
      exact h.registered fd he
    nonneg := by
      intro fd hne
      by_cases hc : fd = c.fd
      · simp only [closesocket, hc, Function.update_self, ne_eq, not_true_eq_false] at hne
      · simp only [closesocket, Function.update_of_ne hc] at hne
        exact h.nonneg fd hne
    owner := h.owner
    accept := ⟨nofun, nofun, nofun, nofun⟩
    loop := h.loop.congr rfl hsame rfl rfl }

/-- Every step of the accept thread keeps the invariants. -/
theorem NetInv.accept_step {a : Action} (h : s.NetInv) (hs : s.AcceptMoves a s') : s'.NetInv := by
  cases hs with
  | gate hpc hpc' =>
    rcases hpc' with rfl | rfl <;>
      exact h.moveAccept nofun nofun nofun nofun
  | acceptError hpc => exact h.moveAccept nofun nofun nofun nofun
  | accept hpc hfd hfree => exact h.acceptClient hfd hfree
  | noSlot hpc =>
    exact h.moveAccept (fun c hc => by rw [hpc]; exact hc) nofun nofun nofun
  | chooseSlot hpc hi =>
    exact h.moveAccept (fun c hc => by rw [hpc]; exact hc)
      (fun j hj => Option.some.inj hj ▸ hi) nofun nofun
  | setNonBlocking hpc | setRcvbuf hpc =>
    exact h.moveAccept (fun c hc => by rw [hpc]; exact hc)
      (fun j hj => h.accept.target j (by rw [hpc]; exact hj)) nofun nofun
  | notNonBlocking hpc | noRcvbuf hpc =>
    exact h.moveAccept (fun c hc => by rw [hpc]; exact hc) nofun nofun nofun
  | @initSlot c i now hpc =>
    -- The slot is free until the descriptor is written to it
    have hmem : SlotWrite.connectFd c.fd ∈ initEpollConnectByIndex now c.fd c.addr c.port := by
      simp [initEpollConnectByIndex]
    refine h.moveAccept (fun c hc => by rw [hpc]; exact hc) ?_ ?_ ?_
    · intro j hj
      simp only [AcceptPc.target, hmem, ↓reduceIte, Option.some.injEq] at hj
      exact h.accept.target j (by rw [hpc, ← hj]; rfl)
    · intro c' i' ws heq
      cases heq
      exact ⟨now, List.suffix_refl _⟩
    · intro j hj
      simp only [AcceptPc.filledSlot, hmem, ↓reduceIte, reduceCtorEq] at hj
  | fill hpc => exact h.fill hpc
  | unlock hpc =>
    exact h.moveAccept (fun c hc => by rw [hpc]; exact hc) nofun nofun
      (fun j hj => by rw [hpc]; exact hj)
  | epollAdd hpc hopen => exact h.epollAdd hpc hopen
  | epollAddFails hpc =>
    exact ⟨h.registered, h.nonneg, h.owner,
      ⟨fun c hc => h.accept.client c (by rw [hpc]; exact hc), nofun, nofun, nofun⟩,
      h.loop.congr rfl rfl rfl rfl⟩
  | countAdd hpc =>
    exact ⟨h.registered, h.nonneg, h.owner, ⟨nofun, nofun, nofun, nofun⟩,
      h.loop.congr rfl rfl rfl rfl⟩
  | closeFailed hpc => exact h.closeFailed hpc

/-! ### The event loop -/

/-- The calls made for an event without EPOLLIN on a descriptor that a slot holds. -/
private theorem opsInv_errorEvent {fd : Int} (hfd : ∃ i, s.fdAt i = fd)
    (hops : s'.ops = s.errorEventOps fd) (hat : s'.fdAt = s.fdAt) : s'.OpsInv := by
  by_cases hneg : fd < 0
  · rw [errorEventOps, if_pos hneg] at hops
    exact ⟨by simp [hops], by simp [hops], by simp [hops, LoopOp.frees], by simp [hops]⟩
  · rw [errorEventOps, if_neg hneg] at hops
    refine ⟨by simp [hops], fun fd' h => ?_, by simp [hops, LoopOp.frees, List.countP_cons],
      by simp [hops]⟩
    simp only [hops, List.mem_cons, reduceCtorEq, LoopOp.freeMatched.injEq, List.not_mem_nil,
      or_false, false_or] at h
    subst h
    rw [hat, hops]
    exact ⟨Int.not_lt.mp hneg, hfd, by simp⟩

/-- The calls made after `recv_buffer_from_fd` for a slot that holds the descriptor. -/
private theorem opsInv_received {i : Fin maxEvents} {fd now : Int} {conn : Nat}
    {r : Option (List UInt8)} (hi : s.fdAt i = fd) (hfd : fd ≠ -1)
    (hops : s'.ops = s.receivedOps i fd now conn r) (hat : s'.fdAt = s.fdAt) : s'.OpsInv := by
  cases r with
  | some data =>
    rw [receivedOps] at hops
    exact ⟨by simp [hops], by simp [hops], by simp [hops, LoopOp.frees], by simp [hops]⟩
  | none =>
    rw [receivedOps] at hops
    refine ⟨fun j h => ?_, by simp [hops], by simp [hops, LoopOp.frees, List.countP_cons],
      by simp [hops]⟩
    simp only [hops, List.mem_cons, reduceCtorEq, LoopOp.free.injEq, Option.some.injEq,
      List.not_mem_nil, or_false, false_or] at h
    subst h
    rw [hat, hi, hops]
    exact ⟨hfd, by simp⟩

/-- The event loop decides what to do next: nothing but its place and its pending
    calls change. -/
private theorem NetInv.decide (h : s.NetInv) (ho : s.ops = []) (hfd : s'.fdAt = s.fdAt)
    (hfds : s'.fds = s.fds) (hepoll : s'.epoll = s.epoll) (howner : s'.owner = s.owner)
    (hacc : s'.accept = s.accept) (hops : s'.OpsInv) (hnodup : s'.loop.pending.Nodup)
    (hpending : ∀ fd ∈ s'.loop.pending, s.epoll fd = true ∧ ∀ op ∈ s'.ops, op.drops ≠ some fd)
    (hslot : ∀ i fd, s'.loop.slot = some (i, fd) → s.fdAt i = fd ∧ fd ≠ -1 ∧ s'.ops = []) :
    s'.NetInv where
  registered := by rw [hepoll, hfds]; exact h.registered
  nonneg := by rw [hfds]; exact h.nonneg
  owner := by rw [hfd, howner]; exact h.owner
  accept := {
    client := by rw [hacc, hepoll]; exact h.accept.client
    target := by rw [hacc, hfd]; exact h.accept.target
    writes := by rw [hacc]; exact h.accept.writes
    filled := by
      intro c i hc hi
      rw [hfd, hfds]
      -- No call is pending, so none is about to close it
      rcases h.accept.filled c i (hacc ▸ hc) (hacc ▸ hi) with h1 | ⟨x, hx⟩ | h3
      · exact .inl h1
      · exact absurd hx (by simp [ho])
      · exact .inr (.inr h3) }
  loop := {
    ops := hops
    held := by
      intro fd he
      rcases h.loop.held fd (hepoll ▸ he) with h1 | ⟨x, hx⟩
      · rw [hfd]; exact .inl h1
      · exact absurd hx (by simp [ho])
    pendingNodup := hnodup
    pending := by rw [hepoll]; exact hpending
    slot := by rw [hfd]; exact hslot }

/-- With no call pending, a registered descriptor is held by a slot. -/
theorem NetInv.registered_held {fd : Int} (h : s.NetInv) (ho : s.ops = [])
    (he : s.epoll fd = true) : 0 ≤ fd ∧ ∃ i, s.fdAt i = fd := by
  refine ⟨h.nonneg fd (h.registered fd he), ?_⟩
  rcases h.loop.held fd he with h1 | ⟨x, hx⟩
  · exact h1
  · exact absurd hx (by simp [ho])

/-- The descriptor of the event that is processed next is held by a slot. -/
theorem NetInv.event_held {e : Event} {es : List Event} (h : s.NetInv) (ho : s.ops = [])
    (hl : s.loop = .events (e :: es)) : 0 ≤ e.fd ∧ ∃ i, s.fdAt i = e.fd :=
  h.registered_held ho (h.loop.pending e.fd (by rw [hl]; exact List.mem_cons_self)).1

/-- The event loop finds the slot of the event that is processed next. -/
theorem NetInv.event_matched {e : Event} {es : List Event} (h : s.NetInv) (ho : s.ops = [])
    (hl : s.loop = .events (e :: es)) : ∃ i, s.table.getMatchedEventIndexByFd e.fd = some i := by
  obtain ⟨-, i, hi⟩ := h.event_held ho hl
  exact Table.exists_getMatchedEventIndexByFd hi

/-- A call that neither frees a slot nor closes a descriptor. -/
private theorem NetInv.popOp {op : LoopOp} {ops : List LoopOp} (h : s.NetInv)
    (ho : s.ops = op :: ops) (hfree : op.frees = false) (hclose : ∀ fd c, op ≠ .close fd c)
    (hfd : s'.fdAt = s.fdAt) (hfds : s'.fds = s.fds)
    (hepoll : ∀ fd, s'.epoll fd = true → s.epoll fd = true)
    (hkeep : ∀ fd, s.epoll fd = true → op.drops ≠ some fd → s'.epoll fd = true)
    (howner : s'.owner = s.owner) (hacc : s'.accept = s.accept) (hops : s'.ops = ops)
    (hloop : s'.loop = s.loop) : s'.NetInv := by
  -- A close that was pending still is
  have htail : ∀ {fd : Int} {c : Option Nat}, .close fd c ∈ s.ops → .close fd c ∈ s'.ops := by
    intro fd c hm
    rw [ho] at hm
    rw [hops]
    exact (List.mem_cons.mp hm).resolve_left (Ne.symm (hclose fd c))
  have hmem : ∀ op', op' ∈ s'.ops → op' ∈ s.ops := by
    intro op' hm
    rw [ho]
    exact List.mem_cons_of_mem op (hops ▸ hm)
  exact {
    registered := fun fd he => by rw [hfds]; exact h.registered fd (hepoll fd he)
    nonneg := by rw [hfds]; exact h.nonneg
    owner := by rw [hfd, howner]; exact h.owner
    accept := {
      client := by
        intro c hc
        obtain ⟨h1, h2⟩ := h.accept.client c (hacc ▸ hc)
        refine ⟨?_, h2⟩
        cases he : s'.epoll c.fd with
        | false => rfl
        | true => cases h1.symm.trans (hepoll c.fd he)
      target := by rw [hacc, hfd]; exact h.accept.target
      writes := by rw [hacc]; exact h.accept.writes
      filled := by
        intro c i hc hi
        rw [hfd, hfds]
        rcases h.accept.filled c i (hacc ▸ hc) (hacc ▸ hi) with h1 | ⟨x, hx⟩ | h3
        · exact .inl h1
        · exact .inr (.inl ⟨x, htail hx⟩)
        · exact .inr (.inr h3) }
    loop := {
      ops := {
        free := by
          intro i hi
          obtain ⟨h1, x, hx⟩ := h.loop.ops.free i (hmem _ hi)
          rw [hfd]
          exact ⟨h1, x, htail hx⟩
        freeMatched := by
          intro fd hm
          obtain ⟨h1, h2, x, hx⟩ := h.loop.ops.freeMatched fd (hmem _ hm)
          rw [hfd]
          exact ⟨h1, h2, x, htail hx⟩
        frees := by
          have := h.loop.ops.frees
          rw [ho, List.countP_cons, hfree] at this
          rw [hops]
          simpa using this
        closeLast := by
          intro fd c hm
          refine h.loop.ops.closeLast fd c ?_
          rw [hops] at hm
          rw [ho, List.dropLast_cons_of_ne_nil (by rintro rfl; exact nomatch hm)]
          exact List.mem_cons_of_mem op hm }
      held := by
        intro fd he
        rw [hfd]
        exact (h.loop.held fd (hepoll fd he)).imp_right (Exists.imp fun _ => htail)
      pendingNodup := by rw [hloop]; exact h.loop.pendingNodup
      pending := by
        intro fd hp
        obtain ⟨h1, h2⟩ := h.loop.pending fd (hloop ▸ hp)
        exact ⟨hkeep fd h1 (h2 op (by rw [ho]; exact List.mem_cons_self)),
          fun op' hm => h2 op' (hmem op' hm)⟩
      slot := by
        intro i fd hl
        have := (h.loop.slot i fd (hloop ▸ hl)).2.2
        rw [ho] at this
        exact nomatch this } }

/-- A call that frees slot `i`, whose descriptor a later call closes. -/
private theorem NetInv.popFree {op : LoopOp} {ops : List LoopOp} {i : Fin maxEvents}
    (h : s.NetInv) (ho : s.ops = op :: ops) (hfree : op.frees = true) (hi : s.fdAt i ≠ -1)
    (hclose : ∃ c, .close (s.fdAt i) c ∈ s.ops) : NetInv ({ s with ops := ops }.free i) := by
  -- No other pending call frees a slot
  have hrest : ops.countP LoopOp.frees = 0 := by
    have := h.loop.ops.frees
    rw [ho, List.countP_cons, hfree] at this
    simpa using this
  have hnone : ∀ op' ∈ ops, op'.frees = false := by
    intro op' hm
    simpa using List.countP_eq_zero.mp hrest op' hm
  have hfd : ∀ j, j ≠ i → ({ s with ops := ops }.free i).fdAt j = s.fdAt j := by
    intro j hj
    rw [fdAt_free, Function.update_of_ne hj]
  have hfdi : ({ s with ops := ops }.free i).fdAt i = -1 := by
    rw [fdAt_free, Function.update_self]
  -- The close that lets go of the descriptor is still pending
  have htail : ∀ {fd : Int} {c : Option Nat}, .close fd c ∈ s.ops → .close fd c ∈ ops := by
    intro fd c hm
    rw [ho] at hm
    refine (List.mem_cons.mp hm).resolve_left ?_
    rintro rfl
    cases hfree
  exact {
    registered := h.registered
    nonneg := h.nonneg
    owner := by
      intro j
      by_cases hj : j = i
      · subst hj
        rw [hfdi]
        simp only [Server.free, Function.update_self, ne_eq, not_true_eq_false]
      · rw [hfd j hj]
        simp only [Server.free, Function.update_of_ne hj]
        exact h.owner j
    accept := {
      client := h.accept.client
      target := by
        intro j hj
        by_cases hji : j = i
        · exact hji ▸ hfdi
        · rw [hfd j hji]; exact h.accept.target j hj
      writes := h.accept.writes
      filled := by
        intro c j hc hj
        rcases h.accept.filled c j hc hj with h1 | ⟨x, hx⟩ | h3
        · by_cases hji : j = i
          · obtain ⟨x, hx⟩ := hclose
            rw [← hji, h1] at hx
            exact .inr (.inl ⟨x, htail hx⟩)
          · rw [hfd j hji]; exact .inl h1
        · exact .inr (.inl ⟨x, htail hx⟩)
        · exact .inr (.inr h3) }
    loop := {
      ops := {
        free := fun j hj => by cases hnone _ hj
        freeMatched := fun fd hm => by cases hnone _ hm
        frees := Nat.le_trans (Nat.le_of_eq hrest) (Nat.zero_le 1)
        closeLast := by
          intro fd c hm
          refine h.loop.ops.closeLast fd c ?_
          rw [ho, List.dropLast_cons_of_ne_nil (by rintro rfl; cases hm)]
          exact List.mem_cons_of_mem op hm }
      held := by
        intro fd he
        rcases h.loop.held fd he with ⟨j, hj⟩ | ⟨x, hx⟩
        · by_cases hji : j = i
          · obtain ⟨x, hx⟩ := hclose
            rw [← hji, hj] at hx
            exact .inr ⟨x, htail hx⟩
          · exact .inl ⟨j, by rw [hfd j hji]; exact hj⟩
        · exact .inr ⟨x, htail hx⟩
      pendingNodup := h.loop.pendingNodup
      pending := by
        intro fd hp
        obtain ⟨h1, h2⟩ := h.loop.pending fd hp
        exact ⟨h1, fun op' hm => h2 op' (by rw [ho]; exact List.mem_cons_of_mem op hm)⟩
      slot := by
        intro j fd hl
        have := (h.loop.slot j fd hl).2.2
        rw [ho] at this
        cases this } }

/-- The last call for a connection: its descriptor is closed. -/
private theorem NetInv.popClose {fd : Int} {c : Option Nat} {ops : List LoopOp} (h : s.NetInv)
    (ho : s.ops = .close fd c :: ops) :
    NetInv ({ s with ops := ops }.closesocket fd (.closed c)) := by
  obtain rfl : ops = [] := h.loop.ops.close_last ho
  -- What is still registered is another descriptor
  have hepoll : ∀ fd', Function.update s.epoll fd false fd' = true →
      fd' ≠ fd ∧ s.epoll fd' = true := by
    intro fd' he
    have hne : fd' ≠ fd := by
      rintro rfl
      rw [Function.update_self] at he
      exact nomatch he
    rw [Function.update_of_ne hne] at he
    exact ⟨hne, he⟩
  have hmem : ∀ {fd' : Int} {x : Option Nat}, .close fd' x ∈ s.ops → fd' = fd := by
    intro fd' x hm
    rw [ho, List.mem_singleton, LoopOp.close.injEq] at hm
    exact hm.1
  exact {
    registered := by
      intro fd' he
      obtain ⟨hne, he⟩ := hepoll fd' he
      simp only [closesocket, Function.update_of_ne hne]
      exact h.registered fd' he
    nonneg := by
      intro fd' hne
      by_cases hfd : fd' = fd
      · simp only [closesocket, hfd, Function.update_self, ne_eq, not_true_eq_false] at hne
      · simp only [closesocket, Function.update_of_ne hfd] at hne
        exact h.nonneg fd' hne
    owner := h.owner
    accept := {
      client := by
        intro c' hc
        obtain ⟨h1, h2⟩ := h.accept.client c' hc
        refine ⟨?_, h2⟩
        by_cases hfd : c'.fd = fd
        · simp only [closesocket, hfd, Function.update_self]
        · simp only [closesocket, Function.update_of_ne hfd]
          exact h1
      target := h.accept.target
      writes := h.accept.writes
      filled := by
        intro c' i hc hi
        by_cases hfd : c'.fd = fd
        · right; right
          simp only [closesocket, hfd, Function.update_self]
        · rcases h.accept.filled c' i hc hi with h1 | ⟨x, hx⟩ | h3
          · exact .inl h1
          · exact absurd (hmem hx) hfd
          · right; right
            simp only [closesocket, Function.update_of_ne hfd]
            exact h3 }
    loop := {
      ops := ⟨nofun, nofun, Nat.zero_le 1, nofun⟩
      held := by
        intro fd' he
        obtain ⟨hne, he⟩ := hepoll fd' he
        rcases h.loop.held fd' he with h1 | ⟨x, hx⟩
        · exact .inl h1
        · exact absurd (hmem hx) hne
      pendingNodup := h.loop.pendingNodup
      pending := by
        intro fd' hp
        obtain ⟨h1, h2⟩ := h.loop.pending fd' hp
        have hne : fd' ≠ fd := by
          rintro rfl
          exact h2 (.close fd' c) (by rw [ho]; exact List.mem_cons_self) rfl
        simp only [closesocket, Function.update_of_ne hne]
        exact ⟨h1, nofun⟩
      slot := by
        intro i fd' hl
        have := (h.loop.slot i fd' hl).2.2
        rw [ho] at this
        exact nomatch this } }

/-- Every call of the event loop keeps the invariants. -/
private theorem NetInv.op_step {op : LoopOp} {ops : List LoopOp} (h : s.NetInv)
    (ho : s.ops = op :: ops) (hs : OpMoves { s with ops := ops } op s') : s'.NetInv := by
  have hmem : op ∈ s.ops := by rw [ho]; exact List.mem_cons_self
  cases hs with
  | countSub =>
    exact h.popOp ho rfl (by rintro _ _ ⟨⟩) rfl rfl (fun _ => id) (fun _ he _ => he) rfl rfl rfl rfl
  | freeNone =>
    exact h.popOp ho rfl (by rintro _ _ ⟨⟩) rfl rfl (fun _ => id) (fun _ he _ => he) rfl rfl rfl rfl
  | @free i hl =>
    obtain ⟨h1, h2⟩ := h.loop.ops.free i hmem
    exact h.popFree ho rfl h1 h2
  -- The slot of the event is still there: only the event loop frees slots
  | freeMatchedNone hn =>
    obtain ⟨i, hi⟩ := h.loop.ops.freeMatched_found hmem
    cases hn.symm.trans hi
  | @freeMatched fd i hi hl =>
    obtain ⟨h1, -, h2⟩ := h.loop.ops.freeMatched fd hmem
    have hfd : s.fdAt i = fd := Table.getMatchedEventIndexByFd_some hi
    exact h.popFree ho rfl (by omega) (hfd ▸ h2)
  | @epollDel fd =>
    refine h.popOp ho rfl (by rintro _ _ ⟨⟩) rfl rfl (fun fd' he => ?_) (fun fd' he hne => ?_)
      rfl rfl rfl rfl
    · by_cases hfd : fd' = fd
      · simp only [hfd, Function.update_self, Bool.false_eq_true] at he
      · simpa only [Function.update_of_ne hfd] using he
    · have hfd : fd' ≠ fd := fun heq => hne (congrArg some heq.symm)
      simpa only [Function.update_of_ne hfd] using he
  | close => exact h.popClose ho
  | @updateTime i now =>
    refine h.popOp ho rfl (by rintro _ _ ⟨⟩) ?_ rfl (fun _ => id) (fun _ he _ => he) rfl rfl rfl
      rfl
    exact fdAt_updateTime s.table i now
  | enqueue hp =>
    exact h.popOp ho rfl (by rintro _ _ ⟨⟩) rfl rfl (fun _ => id) (fun _ he _ => he) rfl rfl rfl rfl

/-- Every step of the event loop keeps the invariants. -/
theorem NetInv.loop_step {a : Action} (h : s.NetInv) (hs : s.LoopMoves a s') : s'.NetInv := by
  -- There is nothing to show about calls that are not pending
  have hnil : ∀ t : Server, t.ops = [] → t.OpsInv := fun t ht =>
    ⟨by simp [ht], by simp [ht], by simp [ht], by simp [ht]⟩
  cases hs with
  | wait hl ho => exact h.decide ho rfl rfl rfl rfl rfl (hnil _ ho) List.nodup_nil nofun nofun
  | startSweep hl ho =>
    exact h.decide ho rfl rfl rfl rfl rfl (hnil _ ho) List.nodup_nil nofun nofun
  | @readSlot now i hl ho hfd =>
    exact h.decide ho rfl rfl rfl rfl rfl (hnil _ ho) List.nodup_nil nofun
      fun j fd heq => by cases heq; exact ⟨rfl, hfd, ho⟩
  | skipSlot hl ho hfd =>
    exact h.decide ho rfl rfl rfl rfl rfl (hnil _ ho) List.nodup_nil nofun nofun
  | @sweepSlot i fd now hl ho ht =>
    obtain ⟨hi, hfd, -⟩ := h.loop.slot i fd (by rw [hl]; rfl)
    refine h.decide ho rfl rfl rfl rfl rfl ⟨fun j hj => ?_, by simp, ?_, by simp⟩
      List.nodup_nil nofun nofun
    · simp only [List.mem_cons, LoopOp.free.injEq, Option.some.injEq, reduceCtorEq,
        List.not_mem_nil, or_false] at hj
      subst hj
      exact ⟨fun heq => hfd (hi.symm.trans heq), s.owner j, by simp [fdAt, ← hi]⟩
    · simp [LoopOp.frees, List.countP_cons]
  | sweepKeep hl ho ht =>
    exact h.decide ho rfl rfl rfl rfl rfl (hnil _ rfl) List.nodup_nil nofun nofun
  | sweepRead hl ho hk hp =>
    exact h.decide ho rfl rfl rfl rfl rfl (hnil _ ho) List.nodup_nil nofun nofun
  | sweepJobs hl ho hp =>
    exact h.decide ho rfl rfl rfl rfl rfl ⟨by simp, by simp, by simp [LoopOp.frees], by simp⟩
      List.nodup_nil nofun nofun
  | @epollWait es hl ho hnodup hreg =>
    refine h.decide ho rfl rfl rfl rfl rfl (hnil _ ho) hnodup (fun fd hfd => ?_) nofun
    obtain ⟨e, he, rfl⟩ := List.mem_map.mp hfd
    exact ⟨hreg e he, by simp [ho]⟩
  | endEvents hl ho => exact h.decide ho rfl rfl rfl rfl rfl (hnil _ ho) List.nodup_nil nofun nofun
  | @invalidRead e es hl ho hfd =>
    exact absurd hfd (Int.not_lt.mpr (h.event_held ho hl).1)
  | unmatched hl ho hnone =>
    obtain ⟨i, hi⟩ := h.event_matched ho hl
    exact nomatch hnone.symm.trans hi
  | @matched e es i hl ho hi hin =>
    have hnodup := h.loop.pendingNodup
    have hpending := h.loop.pending
    rw [hl] at hnodup hpending
    have hpos := (h.event_held ho hl).1
    exact h.decide ho rfl rfl rfl rfl rfl (hnil _ ho) hnodup hpending
      fun j fd heq => by cases heq; exact ⟨hi, by omega, ho⟩
  | @errorEvent e es hl ho =>
    have hnodup := h.loop.pendingNodup
    have hpending := h.loop.pending
    rw [hl] at hnodup hpending
    refine h.decide ho rfl rfl rfl rfl rfl
      (opsInv_errorEvent (h.event_held ho hl).2 rfl rfl) (List.nodup_cons.mp hnodup).2
      (fun fd hfd => ⟨(hpending fd (List.mem_cons_of_mem _ hfd)).1, ?_⟩) nofun
    -- The other events are about other descriptors
    have hne : e.fd ≠ fd := by
      rintro rfl
      exact (List.nodup_cons.mp hnodup).1 hfd
    intro op hop
    simp only [errorEventOps] at hop
    split at hop <;>
      simp only [List.mem_cons, List.not_mem_nil, or_false] at hop <;>
      rcases hop with rfl | rfl | rfl <;> simp [LoopOp.drops, hne]
  | @recvClosed i fd now es hl ho hfd =>
    exact absurd hfd (h.registered fd (h.loop.pending fd (by rw [hl]; exact List.mem_cons_self)).1)
  | @recv i fd now es conn result hl ho hfd =>
    have hnodup := h.loop.pendingNodup
    have hpending := h.loop.pending
    rw [hl] at hnodup hpending
    have hi := (h.loop.slot i fd (by rw [hl]; rfl)).1
    have hpos := h.nonneg fd (by rw [hfd]; exact nofun)
    refine h.decide ho rfl rfl rfl rfl rfl (opsInv_received hi (by omega) rfl rfl)
      (List.nodup_cons.mp hnodup).2
      (fun fd' hfd' => ⟨(hpending fd' (List.mem_cons_of_mem _ hfd')).1, ?_⟩) nofun
    -- The other events are about other descriptors
    have hne : fd ≠ fd' := by
      rintro rfl
      exact (List.nodup_cons.mp hnodup).1 hfd'
    intro op hop
    cases hr : recvBufferFromFd result <;> simp only [receivedOps, hr, List.mem_cons,
      List.not_mem_nil, or_false] at hop <;>
      rcases hop with rfl | rfl | rfl <;> simp [LoopOp.drops, hne]
  | op ho hop => exact h.op_step ho hop
  | mallocFail ho =>
    exact h.popOp ho rfl (by rintro _ _ ⟨⟩) rfl rfl (fun _ => id) (fun _ he _ => he) rfl rfl rfl rfl
  | epollDelFail ho =>
    exact h.popOp ho rfl (by rintro _ _ ⟨⟩) rfl rfl (fun _ => id) (fun _ he _ => he) rfl rfl rfl rfl

/-! ### Runs -/

/-- Every step keeps the invariants. -/
theorem NetInv.step {a : Action} (h : s.NetInv) (hs : s.step a = some s') : s'.NetInv := by
  rcases (step_moves hs).2 with hm | hm | hm
  · exact h.accept_step hm
  · exact h.loop_step hm
  · exact h.congr hm.sameNet

/-- The invariants hold in every state of every run. -/
theorem netInv_of_reach {C : Server → Action → Prop} (h : Transition.Reach system C s) :
    s.NetInv := by
  refine h.invariant ?_ fun s a s' _ hinv _ hs => hinv.step hs
  rintro s ⟨t, n, rfl⟩
  exact netInv_start t n

/-- A slot that the accept thread has still to write the descriptor of is free. -/
theorem NetInv.writes_free_slot (h : s.NetInv) {c : Client} {i : Fin maxEvents} {w : SlotWrite}
    {ws : List SlotWrite} (hpc : s.accept = .filling c i (w :: ws)) :
    w = .socketStatus 1 ∨ ¬ s.table.Occupied i := by
  obtain ⟨now, hsuf⟩ := h.accept.writes c i (w :: ws) hpc
  have htarget : .connectFd c.fd ∈ w :: ws → ¬ s.table.Occupied i := by
    intro hm hocc
    exact hocc (h.accept.target i (by simp only [hpc, AcceptPc.target, if_pos hm]))
  simp only [initEpollConnectByIndex, List.suffix_cons_iff, List.cons.injEq, List.suffix_nil,
    reduceCtorEq, or_false] at hsuf
  -- `connect_fd` is still to be written before each write but the last
  rcases hsuf with ⟨-, rfl⟩ | ⟨-, rfl⟩ | ⟨-, rfl⟩ | ⟨-, rfl⟩ | ⟨rfl, rfl⟩ | ⟨rfl, -⟩
  · exact .inr (htarget (by simp))
  · exact .inr (htarget (by simp))
  · exact .inr (htarget (by simp))
  · exact .inr (htarget (by simp))
  · exact .inr (htarget (by simp))
  · exact .inl rfl

/-- In every state of every run: the slot chosen for a new connection is free up to the
    write of its descriptor, so that only `socket_status` is written to an occupied slot;
    a registered descriptor that is not about to be closed is held by an occupied slot;
    and the search for the slot of an event finds one. -/
theorem events_have_slots (h : Transition.Reachable system s) :
    (∀ c i, s.accept = .chosen c i ∨ s.accept = .nonBlocking c i ∨ s.accept = .ready c i →
      ¬ s.table.Occupied i) ∧
    (∀ c i w ws, s.accept = .filling c i (w :: ws) →
      w = .socketStatus 1 ∨ ¬ s.table.Occupied i) ∧
    (∀ fd, s.epoll fd = true → (∀ c, .close fd c ∉ s.ops) →
      ∃ i, s.table.Occupied i ∧ (s.table i).connectFd = fd) ∧
    (∀ e es, s.loop = .events (e :: es) → s.ops = [] →
      ∃ i, s.table.getMatchedEventIndexByFd e.fd = some i) := by
  have hinv := netInv_of_reach h
  refine ⟨?_, fun _ _ _ _ => hinv.writes_free_slot, ?_, ?_⟩
  · rintro c i (hpc | hpc | hpc) hocc <;>
      exact hocc (hinv.accept.target i (by rw [hpc]; rfl))
  · intro fd he hclose
    have hfd := hinv.nonneg fd (hinv.registered fd he)
    -- -1 is never registered
    rcases hinv.loop.held fd he with ⟨i, hi⟩ | ⟨c, hc⟩
    · refine ⟨i, ?_, hi⟩
      intro hfree
      have : fd = -1 := hi.symm.trans hfree
      omega
    · exact absurd hc (hclose c)
  · intro e es hl ho
    exact hinv.event_matched ho hl

/-- An event of the first client, which slot 0 holds. -/
theorem events_have_slots_first :
    ∃ s : Server, system.run (start 0) (acceptRun { fd := 5, addr := .zero _, port := 80 } 0 ++
        [.tick 0, .epollWait [{ fd := 5, epollin := true }]]) = some s ∧
      ∃ i, s.table.getMatchedEventIndexByFd 5 = some i := by
  have hrun : ∃ s : Server, system.run (start 0)
      (acceptRun { fd := 5, addr := .zero _, port := 80 } 0 ++
        [.tick 0, .epollWait [{ fd := 5, epollin := true }]]) = some s ∧
      s.loop = .events [{ fd := 5, epollin := true }] ∧ s.ops = [] := ⟨_, rfl, rfl, rfl⟩
  obtain ⟨s, hs, hl, ho⟩ := hrun
  exact ⟨s, hs, (events_have_slots (.of_run ⟨0, 15, rfl⟩ hs)).2.2.2 _ _ hl ho⟩

end Server

end JQServer
