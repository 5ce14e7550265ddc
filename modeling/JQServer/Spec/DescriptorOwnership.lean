import JQServer.Spec.NetInvariant

/-!
# Descriptor ownership

Every occupied slot should hold a descriptor of its own, accepted for its connection
and still open, so that closing a slot's descriptor closes the right connection. An
iteration of `accept_thread` undoes what it did on every error exit but the last:
when EPOLL_CTL_ADD fails, it closes the descriptor and leaves the slot filled.
`descriptors_owned` holds in every run in which EPOLL_CTL_ADD does not fail on an
open descriptor; `descriptors_owned_fails` is one failure.
-/

namespace JQServer

namespace Server

variable {s s' : Server}

/-- Descriptor ownership of the connection table. A client whose setup fails leaves the table as
    it was: no slot holds its descriptor when it is closed (`undone`). -/
structure DescriptorsOwned (s : Server) : Prop where
  /-- An occupied slot holds a descriptor that is open and denotes its connection. -/
  opened : ∀ i, s.fdAt i ≠ -1 → ∃ c, s.owner i = some c ∧ s.fds (s.fdAt i) = some c
  distinct : ∀ i j, s.fdAt i ≠ -1 → s.fdAt i = s.fdAt j → i = j
  /-- A failed iteration of `accept_thread` leaves no slot with its descriptor. -/
  undone : ∀ c slot, s.accept = .failing c slot → ∀ i, s.fdAt i ≠ c.fd
  /-- What the event loop closed was open and of the connection it was meant for. -/
  closes : ∀ expected actual, .closed expected actual ∈ s.effects →
    ∃ c, expected = some c ∧ actual = some c
  /-- What the accept thread closed was of its own connection, or closed already. -/
  acceptCloses : ∀ c actual, .acceptClosed c actual ∈ s.effects →
    actual = some c ∨ actual = none

/-- EPOLL_CTL_ADD does not fail, unless the descriptor was closed in the meantime (by
    the idle sweep, which frees the slot too). -/
def AddSucceeds (s : Server) (a : Action) : Prop :=
  a = .epollAdd false → ∀ c i, s.accept = .filled c i → s.fds c.fd = none

/-- The invariant behind ownership: also a descriptor that is not in the table yet, or
    not any more, belongs to one connection. -/
structure OwnInv (s : Server) : Prop where
  opened : ∀ i, s.fdAt i ≠ -1 → ∃ c, s.owner i = some c ∧ s.fds (s.fdAt i) = some c
  distinct : ∀ i j, s.fdAt i ≠ -1 → s.fdAt i = s.fdAt j → i = j
  closes : ∀ expected actual, .closed expected actual ∈ s.effects →
    ∃ c, expected = some c ∧ actual = some c
  acceptCloses : ∀ c actual, .acceptClosed c actual ∈ s.effects →
    actual = some c ∨ actual = none
  /-- Before its slot is filled, the new descriptor is open and nobody else's. -/
  client : ∀ c, s.accept.unfilled = some c →
    s.fds c.fd = some c.conn ∧ (∀ i, s.fdAt i ≠ c.fd) ∧ ∀ x, .close c.fd x ∉ s.ops
  /-- On the last error exit the descriptor is closed already. -/
  failing : ∀ c i, s.accept = .failing c (some i) → s.fds c.fd = none
  /-- A descriptor that is about to be closed is open, and its slot is freed first. -/
  closing : ∀ fd x, .close fd x ∈ s.ops → (∃ c, x = some c ∧ s.fds fd = some c) ∧
    ∀ i, s.fdAt i = fd → .free (some i) ∈ s.ops ∨ .freeMatched fd ∈ s.ops

/-- The invariant holds at the start. -/
theorem ownInv_start (t n : Int) : (start t n).OwnInv :=
  ⟨fun _ h => absurd rfl h, fun _ _ h => absurd rfl h, nofun, nofun, nofun, nofun, nofun⟩

/-- Moving the accept thread to a place where it works on the same client. -/
private theorem OwnInv.moveAccept {pc : AcceptPc} {n : Int} {k : Nat} (h : s.OwnInv)
    (hclient : ∀ c, pc.unfilled = some c → s.accept.unfilled = some c)
    (hfailing : ∀ c i, pc = .failing c (some i) → s.fds c.fd = none) :
    OwnInv { s with accept := pc, total := n, failedAdds := k } where
  opened := h.opened
  distinct := h.distinct
  closes := h.closes
  acceptCloses := h.acceptCloses
  client c hc := h.client c (hclient c hc)
  failing := hfailing
  closing := h.closing

/-- One write of `init_epoll_connect_by_index`. -/
private theorem OwnInv.fill {c : Client} {i : Fin maxEvents} {w : SlotWrite}
    {ws : List SlotWrite} (h : s.OwnInv) (hnet : s.NetInv)
    (hpc : s.accept = .filling c i (w :: ws)) :
    OwnInv { s.fillSlot c i w with accept := .filling c i ws } := by
  obtain ⟨now, hsuf⟩ := hnet.accept.writes c i _ hpc
  rcases fill_cases hsuf with ⟨rfl, hws⟩ | ⟨hw, hws⟩
  · -- The descriptor is written: no slot holds it, and no call is going to close it
    have hi : s.fdAt i = -1 := hnet.accept.target i (by
      simp only [hpc, AcceptPc.target, List.mem_cons, true_or, ↓reduceIte])
    obtain ⟨hopen, hother, hclose⟩ := h.client c (by
      simp only [hpc, AcceptPc.unfilled, List.mem_cons, true_or, ↓reduceIte])
    have hfd : ∀ j, j ≠ i →
        ({ s.fillSlot c i (.connectFd c.fd) with accept := .filling c i ws } : Server).fdAt j =
          s.fdAt j := fun _ => fdAt_filling_of_ne
    have hfdi : ({ s.fillSlot c i (.connectFd c.fd) with accept := .filling c i ws } :
        Server).fdAt i = c.fd := fdAt_filling_self
    exact {
      opened := by
        intro j hj
        by_cases hji : j = i
        · subst hji
          exact ⟨c.conn, by simp only [fillSlot, Function.update_self], by rw [hfdi]; exact hopen⟩
        · rw [hfd j hji] at hj ⊢
          simp only [fillSlot, Function.update_of_ne hji]
          exact h.opened j hj
      distinct := by
        intro j k hj hjk
        by_cases hji : j = i <;> by_cases hki : k = i
        · rw [hji, hki]
        · rw [hji, hfdi, hfd k hki] at hjk
          exact absurd hjk.symm (hother k)
        · rw [hki, hfdi, hfd j hji] at hjk
          exact absurd hjk (hother j)
        · rw [hfd j hji] at hj
          rw [hfd j hji, hfd k hki] at hjk
          exact h.distinct j k hj hjk
      closes := h.closes
      acceptCloses := h.acceptCloses
      client := by
        intro c' hc'
        simp only [AcceptPc.unfilled, hws, ↓reduceIte, reduceCtorEq] at hc'
      failing := by rintro _ _ ⟨⟩
      closing := by
        intro fd x hx
        obtain ⟨h1, h2⟩ := h.closing fd x hx
        refine ⟨h1, fun j hj => ?_⟩
        by_cases hji : j = i
        · rw [hji, hfdi] at hj
          exact absurd (hj ▸ hx) (hclose x)
        · rw [hfd j hji] at hj
          exact h2 j hj }
  · -- Another field is written
    have hfd : ({ s.fillSlot c i w with accept := .filling c i ws } : Server).fdAt = s.fdAt :=
      (fdAt_fillSlot_other (c := c) hw).1
    have howner : (s.fillSlot c i w).owner = s.owner := (fdAt_fillSlot_other hw).2
    exact {
      opened := by rw [hfd]; exact howner ▸ h.opened
      distinct := by rw [hfd]; exact h.distinct
      closes := h.closes
      acceptCloses := h.acceptCloses
      client := by
        intro c' hc'
        rw [hfd]
        refine h.client c' ?_
        rw [hpc]
        simpa only [AcceptPc.unfilled, hws] using hc'
      failing := by rintro _ _ ⟨⟩
      closing := by rw [hfd]; exact h.closing }

/-- A closed descriptor of the accept thread is in no slot and not about to be closed. -/
private theorem OwnInv.closed_unheld {c : Client} (h : s.OwnInv) (hnet : s.NetInv)
    (hc : s.accept.client = some c) (hclosed : s.fds c.fd = none) :
    (∀ i, s.fdAt i ≠ c.fd) ∧ ∀ x, .close c.fd x ∉ s.ops := by
  refine ⟨fun i hi => ?_, fun x hx => ?_⟩
  · have hpos := (hnet.accept.client c hc).2
    obtain ⟨c', -, h2⟩ := h.opened i (by omega)
    rw [hi] at h2
    exact nomatch hclosed.symm.trans h2
  · obtain ⟨⟨c', -, h2⟩, -⟩ := h.closing c.fd x hx
    exact nomatch hclosed.symm.trans h2

/-- Every step of the accept thread keeps the invariant, unless EPOLL_CTL_ADD fails. -/
private theorem OwnInv.accept_step {a : Action} (h : s.OwnInv) (hnet : s.NetInv)
    (ha : s.AddSucceeds a) (hs : s.AcceptMoves a s') : s'.OwnInv := by
  cases hs with
  | gate hpc hpc' =>
    rcases hpc' with rfl | rfl
    · exact h.moveAccept (by rintro _ ⟨⟩) (by rintro _ _ ⟨⟩)
    · exact h.moveAccept (by rintro _ ⟨⟩) (by rintro _ _ ⟨⟩)
  | acceptError hpc => exact h.moveAccept (by rintro _ ⟨⟩) (by rintro _ _ ⟨⟩)
  | @accept p hpc hfd hfree =>
    have hne : ∀ {fd : Int}, s.fds fd ≠ none → fd ≠ p.fd := by
      rintro fd hfd rfl
      exact hfd hfree
    exact {
      opened := by
        intro i hi
        obtain ⟨c, h1, h2⟩ := h.opened i hi
        refine ⟨c, h1, ?_⟩
        simp only [Function.update_of_ne (hne (show s.fds (s.fdAt i) ≠ none by
          rw [h2]; exact Option.some_ne_none _))]
        exact h2
      distinct := h.distinct
      closes := h.closes
      acceptCloses := h.acceptCloses
      client := by
        intro c hc
        obtain rfl := Option.some.inj hc
        refine ⟨Function.update_self .., fun i hi => ?_, fun x hx => ?_⟩
        · have hi : s.fdAt i = p.fd := hi
          obtain ⟨c, -, h2⟩ := h.opened i (by omega)
          rw [hi] at h2
          cases hfree.symm.trans h2
        · obtain ⟨⟨c, -, h2⟩, -⟩ := h.closing p.fd x hx
          cases hfree.symm.trans h2
      failing := by rintro _ _ ⟨⟩
      closing := by
        intro fd x hx
        obtain ⟨⟨c, h1, h2⟩, h3⟩ := h.closing fd x hx
        refine ⟨⟨c, h1, ?_⟩, h3⟩
        have hopen : s.fds fd ≠ none := by
          rw [h2]
          exact Option.some_ne_none _
        simp only [Function.update_of_ne (hne hopen)]
        exact h2 }
  | noSlot hpc | notNonBlocking hpc | noRcvbuf hpc | chooseSlot hpc _ | setNonBlocking hpc
  | setRcvbuf hpc => exact h.moveAccept (fun c hc => by rw [hpc]; exact hc) (by rintro _ _ ⟨⟩)
  | @initSlot c i now hpc =>
    have hmem : SlotWrite.connectFd c.fd ∈ initEpollConnectByIndex now c.fd c.addr c.port := by
      simp [initEpollConnectByIndex]
    refine h.moveAccept (fun c' hc' => ?_) (by rintro _ _ ⟨⟩)
    simp only [AcceptPc.unfilled, hmem, ↓reduceIte] at hc'
    rw [hpc]
    exact hc'
  | fill hpc => exact h.fill hnet hpc
  | unlock hpc => exact h.moveAccept (by rintro _ ⟨⟩) (by rintro _ _ ⟨⟩)
  | epollAdd hpc _ _ =>
    exact ⟨h.opened, h.distinct, h.closes, h.acceptCloses, by rintro _ ⟨⟩,
      by rintro _ _ ⟨⟩, h.closing⟩
  | @epollAddFails c i hpc =>
    refine h.moveAccept (by rintro _ ⟨⟩) fun c' i' heq => ?_
    cases heq
    exact ha rfl c i hpc
  | countAdd hpc => exact h.moveAccept (by rintro _ ⟨⟩) (by rintro _ _ ⟨⟩)
  | @closeFailed c slot hpc =>
    -- Either the iteration still owns its descriptor, or the descriptor is closed
    have hstate : (s.fds c.fd = some c.conn ∨ s.fds c.fd = none) ∧ (∀ i, s.fdAt i ≠ c.fd) ∧
        ∀ x, .close c.fd x ∉ s.ops := by
      cases slot with
      | none =>
        obtain ⟨h1, h2⟩ := h.client c (by rw [hpc]; rfl)
        exact ⟨.inl h1, h2⟩
      | some i =>
        have hclosed := h.failing c i hpc
        exact ⟨.inr hclosed, h.closed_unheld hnet (by rw [hpc]; rfl) hclosed⟩
    obtain ⟨hopen, hother, hclose⟩ := hstate
    exact {
      opened := by
        intro i hi
        simp only [closesocket, Function.update_of_ne (hother i)]
        exact h.opened i hi
      distinct := h.distinct
      closes := fun x y hm => h.closes x y ((List.mem_cons.mp hm).resolve_left (by rintro ⟨⟩))
      acceptCloses := by
        intro x y hm
        rcases List.mem_cons.mp hm with heq | hm
        · rw [Effect.acceptClosed.injEq] at heq
          obtain ⟨rfl, rfl⟩ := heq
          exact hopen
        · exact h.acceptCloses x y hm
      client := by rintro _ ⟨⟩
      failing := by rintro _ _ ⟨⟩
      closing := by
        intro fd x hx
        obtain ⟨⟨c', h1, h2⟩, h3⟩ := h.closing fd x hx
        have hne : fd ≠ c.fd := by
          rintro rfl
          exact hclose x hx
        refine ⟨⟨c', h1, ?_⟩, h3⟩
        simp only [closesocket, Function.update_of_ne hne]
        exact h2 }

/-- The event loop decides what to do next: what it is going to close belongs to a
    slot that it is going to free. -/
private theorem OwnInv.decide {ops : List LoopOp} {loop : LoopPc} {t : Int} {n : Nat}
    {pool : Thpool JobParameter} (h : s.OwnInv)
    (hclose : ∀ fd x, .close fd x ∈ ops → ∃ i, s.fdAt i = fd ∧ fd ≠ -1 ∧ x = s.owner i ∧
      (.free (some i) ∈ ops ∨ .freeMatched fd ∈ ops)) :
    OwnInv { s with
      loop := loop, ops := ops, eventTime := t, pool := pool, deletedJobs := n } where
  opened := h.opened
  distinct := h.distinct
  closes := h.closes
  acceptCloses := h.acceptCloses
  client := by
    intro c hc
    obtain ⟨h1, h2, -⟩ := h.client c hc
    refine ⟨h1, h2, fun x hx => ?_⟩
    obtain ⟨i, hi, -⟩ := hclose c.fd x hx
    exact h2 i hi
  failing := h.failing
  closing := by
    intro fd x hx
    -- No other slot holds the descriptor
    obtain ⟨i, hi, hfd, hown, hfree⟩ := hclose fd x hx
    obtain ⟨c, h1, h2⟩ := h.opened i (by rw [hi]; exact hfd)
    rw [hi] at h2
    refine ⟨⟨c, hown.trans h1, h2⟩, fun j hj => ?_⟩
    rw [h.distinct i j (by rw [hi]; exact hfd) (hi.trans hj.symm)] at hfree
    exact hfree

/-- A call that neither frees a slot nor closes a descriptor. -/
private theorem OwnInv.popOp {op : LoopOp} {ops : List LoopOp} (h : s.OwnInv)
    (ho : s.ops = op :: ops) (hfree : op.frees = false)
    (hfd : s'.fdAt = s.fdAt) (hfds : s'.fds = s.fds) (howner : s'.owner = s.owner)
    (hacc : s'.accept = s.accept) (heff : s'.effects = s.effects) (hops : s'.ops = ops) :
    s'.OwnInv := by
  have hmem : ∀ op', op' ∈ s'.ops → op' ∈ s.ops := by
    intro op' hm
    rw [ho]
    exact List.mem_cons_of_mem op (hops ▸ hm)
  -- A free that was pending still is
  have htail : ∀ {op' : LoopOp}, op' ∈ s.ops → op'.frees = true → op' ∈ s'.ops := by
    intro op' hm hf
    rw [ho] at hm
    rw [hops]
    refine (List.mem_cons.mp hm).resolve_left ?_
    rintro rfl
    exact nomatch hfree.symm.trans hf
  exact {
    opened := by rw [hfd, howner, hfds]; exact h.opened
    distinct := by rw [hfd]; exact h.distinct
    closes := by rw [heff]; exact h.closes
    acceptCloses := by rw [heff]; exact h.acceptCloses
    client := by
      intro c hc
      obtain ⟨h1, h2, h3⟩ := h.client c (hacc ▸ hc)
      rw [hfds, hfd]
      exact ⟨h1, h2, fun x hx => h3 x (hmem _ hx)⟩
    failing := by rw [hacc, hfds]; exact h.failing
    closing := by
      intro fd x hx
      obtain ⟨h1, h2⟩ := h.closing fd x (hmem _ hx)
      rw [hfds, hfd]
      exact ⟨h1, fun i hi => (h2 i hi).imp (htail · rfl) (htail · rfl)⟩ }

/-- A call that frees the slot whose descriptor is closed afterwards. -/
private theorem OwnInv.popFree {op : LoopOp} {ops : List LoopOp} {i : Fin maxEvents}
    (h : s.OwnInv) (hnet : s.NetInv) (ho : s.ops = op :: ops) (hi : s.fdAt i ≠ -1)
    (hclose : ∃ c, .close (s.fdAt i) c ∈ s.ops) : OwnInv ({ s with ops := ops }.free i) := by
  have hfd : ∀ j, j ≠ i → ({ s with ops := ops }.free i).fdAt j = s.fdAt j := by
    intro j hj
    rw [fdAt_free, Function.update_of_ne hj]
  have hfdi : ({ s with ops := ops }.free i).fdAt i = -1 := by
    rw [fdAt_free, Function.update_self]
  have hmem : ∀ op', op' ∈ ops → op' ∈ s.ops := by
    intro op' hm
    rw [ho]
    exact List.mem_cons_of_mem op hm
  exact {
    opened := by
      intro j hj
      have hji : j ≠ i := by
        rintro rfl
        exact hj hfdi
      rw [hfd j hji] at hj ⊢
      simp only [Server.free, Function.update_of_ne hji]
      exact h.opened j hj
    distinct := by
      intro j k hj hjk
      have hji : j ≠ i := by
        rintro rfl
        exact hj hfdi
      have hki : k ≠ i := by
        rintro rfl
        exact hj (hjk.trans hfdi)
      rw [hfd j hji] at hj
      rw [hfd j hji, hfd k hki] at hjk
      exact h.distinct j k hj hjk
    closes := h.closes
    acceptCloses := h.acceptCloses
    client := by
      intro c hc
      obtain ⟨h1, h2, h3⟩ := h.client c hc
      refine ⟨h1, fun j => ?_, fun x hx => h3 x (hmem _ hx)⟩
      by_cases hji : j = i
      · rw [hji, hfdi]
        have := (hnet.accept.client c (AcceptPc.client_of_unfilled hc)).2
        omega
      · rw [hfd j hji]
        exact h2 j
    failing := h.failing
    closing := by
      intro fd x hx
      obtain ⟨h1, -⟩ := h.closing fd x (hmem _ hx)
      refine ⟨h1, fun j hj => ?_⟩
      -- The descriptor that is closed is the one of the freed slot
      have hlast : fd = s.fdAt i := by
        obtain ⟨c, hc⟩ := hclose
        exact (hnet.loop.ops.close_unique (hmem _ hx) hc).1
      have hji : j ≠ i := by
        rintro rfl
        rw [hfdi] at hj
        exact hi (hlast ▸ hj.symm)
      rw [hfd j hji] at hj
      exact absurd (h.distinct i j hi (hlast ▸ hj.symm)) (Ne.symm hji) }

/-- The last call for a connection: no slot holds its descriptor any more. -/
private theorem OwnInv.popClose {fd : Int} {x : Option Nat} {ops : List LoopOp} (h : s.OwnInv)
    (hnet : s.NetInv) (ho : s.ops = .close fd x :: ops) :
    OwnInv ({ s with ops := ops }.closesocket fd (.closed x)) := by
  obtain rfl : ops = [] := hnet.loop.ops.close_last ho
  have hmem : .close fd x ∈ s.ops := by rw [ho]; exact List.mem_cons_self
  obtain ⟨⟨c, hx, hopen⟩, hslots⟩ := h.closing fd x hmem
  -- A slot with this descriptor would be freed by a call that is still pending
  have hother : ∀ i, s.fdAt i ≠ fd := by
    intro i hi
    rcases hslots i hi with hm | hm <;> simp [ho] at hm
  exact {
    opened := by
      intro i hi
      simp only [closesocket, Function.update_of_ne (hother i)]
      exact h.opened i hi
    distinct := h.distinct
    closes := by
      intro y z hm
      rcases List.mem_cons.mp hm with heq | hm
      · rw [Effect.closed.injEq] at heq
        exact ⟨c, heq.1.trans hx, heq.2.trans hopen⟩
      · exact h.closes y z hm
    acceptCloses := fun y z hm =>
      h.acceptCloses y z ((List.mem_cons.mp hm).resolve_left (by rintro ⟨⟩))
    client := by
      intro c' hc
      obtain ⟨h1, h2, h3⟩ := h.client c' hc
      have hne : c'.fd ≠ fd := by
        rintro rfl
        exact h3 x hmem
      simp only [closesocket, Function.update_of_ne hne]
      exact ⟨h1, h2, by rintro _ ⟨⟩⟩
    failing := by
      intro c' i hc
      by_cases hfd : c'.fd = fd
      · simp only [closesocket, hfd, Function.update_self]
      · simp only [closesocket, Function.update_of_ne hfd]
        exact h.failing c' i hc
    closing := by rintro _ _ ⟨⟩ }

/-- Every call of the event loop keeps the invariant. -/
private theorem OwnInv.op_step {op : LoopOp} {ops : List LoopOp} (h : s.OwnInv) (hnet : s.NetInv)
    (ho : s.ops = op :: ops) (hs : OpMoves { s with ops := ops } op s') : s'.OwnInv := by
  have hmem : op ∈ s.ops := by rw [ho]; exact List.mem_cons_self
  cases hs with
  | countSub | freeNone | epollDel | enqueue => exact h.popOp ho rfl rfl rfl rfl rfl rfl rfl
  | @free i hl =>
    obtain ⟨h1, h2⟩ := hnet.loop.ops.free i hmem
    exact h.popFree hnet ho h1 h2
  | freeMatchedNone hn =>
    obtain ⟨i, hi⟩ := hnet.loop.ops.freeMatched_found hmem
    exact nomatch hn.symm.trans hi
  | @freeMatched fd i hi hl =>
    obtain ⟨h1, -, h2⟩ := hnet.loop.ops.freeMatched fd hmem
    have hfd : s.fdAt i = fd := Table.getMatchedEventIndexByFd_some hi
    exact h.popFree hnet ho (by omega) (hfd ▸ h2)
  | close => exact h.popClose hnet ho
  | @updateTime i now =>
    refine h.popOp ho rfl ?_ rfl rfl rfl rfl rfl
    exact fdAt_updateTime s.table i now

/-- Every step of the event loop keeps the invariant. -/
private theorem OwnInv.loop_step {a : Action} (h : s.OwnInv) (hnet : s.NetInv)
    (hs : s.LoopMoves a s') : s'.OwnInv := by
  -- There is nothing to show where no call is made
  have hnil : s.ops = [] → ∀ fd x, .close fd x ∈ s.ops → ∃ i, s.fdAt i = fd ∧ fd ≠ -1 ∧
      x = s.owner i ∧ (.free (some i) ∈ s.ops ∨ .freeMatched fd ∈ s.ops) := by
    intro ho fd x hx
    rw [ho] at hx
    cases hx
  cases hs with
  | wait hl ho | startSweep hl ho | readSlot hl ho | skipSlot hl ho | sweepRead hl ho
  | epollWait hl ho | endEvents hl ho | matched hl ho => exact h.decide (hnil ho)
  | @sweepSlot i fd now hl ho ht =>
    obtain ⟨hi, hfd, -⟩ := hnet.loop.slot i fd (by rw [hl]; rfl)
    refine h.decide fun fd x hx => ⟨i, ?_⟩
    simp only [List.mem_cons, reduceCtorEq, LoopOp.close.injEq, List.not_mem_nil, or_false,
      false_or] at hx
    exact ⟨hi.trans hx.1.symm, hx.1 ▸ hfd, hx.2, .inl (by simp)⟩
  | sweepKeep hl ho ht => exact h.decide (by rintro _ _ ⟨⟩)
  | sweepJobs hl ho hp => exact h.decide fun fd x hx => by simp at hx
  -- A registered descriptor is not negative and has a slot: two branches are not taken
  | @invalidRead e es hl ho hfd => exact absurd hfd (Int.not_lt.mpr (hnet.event_held ho hl).1)
  | unmatched hl ho hnone =>
    obtain ⟨i, hi⟩ := hnet.event_matched ho hl
    cases hnone.symm.trans hi
  | @errorEvent e es hl ho =>
    have hpos := (hnet.event_held ho hl).1
    obtain ⟨j, hj⟩ := hnet.event_matched ho hl
    refine h.decide fun fd x hx => ⟨j, ?_⟩
    rw [errorEventOps, if_neg (Int.not_lt.mpr hpos), hj] at hx ⊢
    simp only [List.mem_cons, reduceCtorEq, LoopOp.close.injEq, List.not_mem_nil, or_false,
      false_or] at hx
    obtain ⟨rfl, rfl⟩ := hx
    exact ⟨Table.getMatchedEventIndexByFd_some hj, by omega, rfl, .inr (by simp)⟩
  -- Nor is it closed before its event is taken up
  | @recvClosed i fd now es hl ho hfd =>
    exact absurd hfd (hnet.registered fd
      (hnet.loop.pending fd (by rw [hl]; exact List.mem_cons_self)).1)
  | @recv i fd now es conn result hl ho hfd =>
    have hi := (hnet.loop.slot i fd (by rw [hl]; rfl)).1
    have hpos := hnet.nonneg fd (by rw [hfd]; exact Option.some_ne_none _)
    refine h.decide fun fd' x hx => ⟨i, ?_⟩
    cases hr : recvBufferFromFd result with
    | some data => simp [receivedOps, hr] at hx
    | none =>
      simp only [receivedOps, hr, List.mem_cons, reduceCtorEq, LoopOp.close.injEq,
        List.not_mem_nil, or_false, false_or] at hx
      obtain ⟨rfl, rfl⟩ := hx
      exact ⟨hi, by omega, rfl, .inl (by simp [receivedOps])⟩
  | op ho hop => exact h.op_step hnet ho hop
  | mallocFail ho | epollDelFail ho => exact h.popOp ho rfl rfl rfl rfl rfl rfl rfl

/-- A worker keeps the invariant. -/
private theorem OwnInv.worker_step {a : Action} (h : s.OwnInv) (hs : s.WorkerMoves a s') :
    s'.OwnInv := by
  have hsame := hs.sameNet
  have hfd : s'.fdAt = s.fdAt := funext hsame.fdAt
  obtain ⟨hopened, hdistinct, hcloses, haccept, hclient, hfailing, hclosing⟩ := h
  rw [← hfd] at hopened hdistinct hclient hclosing
  rw [← hsame.owner, ← hsame.fds] at hopened
  rw [← hsame.fds, ← hsame.ops] at hclient hclosing
  rw [← hsame.accept] at hclient hfailing
  rw [← hsame.fds] at hfailing
  refine ⟨hopened, hdistinct, fun x y hm => hcloses x y ?_, fun c y hm => haccept c y ?_,
    hclient, hfailing, hclosing⟩
  -- A worker closes nothing
  · rcases hs.mem_effects hm with h | ⟨_, _, h⟩ | ⟨_, _, h⟩ | ⟨_, _, h⟩
    · exact h
    · exact nomatch h
    · exact nomatch h
    · exact nomatch h
  · rcases hs.mem_effects hm with h | ⟨_, _, h⟩ | ⟨_, _, h⟩ | ⟨_, _, h⟩
    · exact h
    · exact nomatch h
    · exact nomatch h
    · exact nomatch h

/-- The invariant holds in every state of a run in which EPOLL_CTL_ADD does not fail
    on an open descriptor. -/
theorem ownInv_of_reach (h : Transition.Reach system AddSucceeds s) : s.OwnInv := by
  refine h.invariant ?_ fun s a s' hr hinv ha hs => ?_
  · rintro s ⟨t, n, rfl⟩
    exact ownInv_start t n
  · have hnet := netInv_of_reach hr
    rcases (step_moves hs).2 with hm | hm | hm
    · exact hinv.accept_step hnet ha hm
    · exact hinv.loop_step hnet hm
    · exact hinv.worker_step hm

/-- Descriptor ownership, in every state of every run in which EPOLL_CTL_ADD does not
    fail on an open descriptor: any interleaving, and any outcome of every other call. -/
theorem descriptors_owned (h : Transition.Reach system AddSucceeds s) : s.DescriptorsOwned := by
  have hinv := ownInv_of_reach h
  refine ⟨hinv.opened, hinv.distinct, fun c slot hpc => ?_, hinv.closes, hinv.acceptCloses⟩
  cases slot with
  | none => exact (hinv.client c (by rw [hpc]; rfl)).2.1
  | some i =>
    exact (hinv.closed_unheld (netInv_of_reach h) (by rw [hpc]; rfl) (hinv.failing c i hpc)).1

/-- One connection that is accepted, and closed again by an error event. -/
theorem descriptors_owned_closed :
    ∃ s : Server, system.run (start 0) (acceptRun { fd := 5, addr := .zero _, port := 80 } 0 ++
      [.tick 0, .epollWait [{ fd := 5, epollin := false }], .nextEvent, .op, .op, .op]) =
        some s ∧ s.effects = [.closed (some 0) (some 0)] ∧ s.DescriptorsOwned := by
  have hmeets : ∀ t, system.Meets AddSucceeds t
      (acceptRun { fd := 5, addr := .zero _, port := 80 } 0 ++
        [.tick 0, .epollWait [{ fd := 5, epollin := false }], .nextEvent, .op, .op, .op]) := by
    refine system.meets_of_mem fun a ha u heq => ?_
    subst heq
    simp [acceptRun, fillRun] at ha
  have hrun : ∃ s : Server, system.run (start 0)
      (acceptRun { fd := 5, addr := .zero _, port := 80 } 0 ++
        [.tick 0, .epollWait [{ fd := 5, epollin := false }], .nextEvent, .op, .op, .op]) =
          some s ∧ s.effects = [.closed (some 0) (some 0)] := ⟨_, rfl, rfl⟩
  obtain ⟨s, hs, heff⟩ := hrun
  exact ⟨s, hs, heff, descriptors_owned (.run (.init ⟨0, 15, rfl⟩) (hmeets _) hs)⟩

/-- A failed EPOLL_CTL_ADD leaves a slot with a descriptor that is closed. -/
theorem descriptors_owned_fails :
    ¬ ∀ s : Server, Transition.Reachable system s → s.Quiescent → s.DescriptorsOwned := by
  intro h
  have hrun : ∃ s : Server, system.run (start 0)
      (fillRun { fd := 5, addr := .zero _, port := 80 } 0 ++ [.epollAdd false, .closeFailed]) =
        some s ∧ s.Quiescent ∧ s.fdAt ⟨0, by decide⟩ = 5 ∧ s.fds 5 = none :=
    ⟨_, rfl, ⟨rfl, rfl, .inl rfl⟩, rfl, rfl⟩
  obtain ⟨s, hs, hq, hfd, hclosed⟩ := hrun
  obtain ⟨c, -, hopen⟩ := (h s (.of_run ⟨0, 15, rfl⟩ hs) hq).opened ⟨0, by decide⟩ (by
    rw [hfd]; decide)
  rw [hfd] at hopen
  exact nomatch hclosed.symm.trans hopen

/-- The condition of `descriptors_owned` excludes nothing but failures: when
    EPOLL_CTL_ADD fails, the slot that still holds the descriptor is left behind. -/
theorem add_failure_leaks {c : Client} {i : Fin maxEvents} (hpc : s.accept = .filled c i)
    (hi : s.fdAt i = c.fd) (hs : s.step (.epollAdd false) = some s') : ¬ s'.DescriptorsOwned := by
  intro h
  rcases (step_moves hs).2 with hm | hm | hm
  · cases hm with
    | epollAddFails hpc' =>
      obtain ⟨rfl, rfl⟩ := AcceptPc.filled.inj (hpc.symm.trans hpc')
      exact h.undone c (some i) rfl i hi
  · cases hm
  · cases hm with
    | crash _ ha | move ha _ => exact nomatch ha

end Server

end JQServer
