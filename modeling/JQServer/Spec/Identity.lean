import JQServer.Spec.JobConnection
import JQServer.Spec.NetInvariant

/-!
# Identities in the connection table

CMD_SENDUI stores the user id and the password of a connection in its slot, and
CMD_GETREMOTE searches the slots for a user id. `free_event_by_index` and
`init_epoll_connect_by_index` leave both strings as they are, and the search does not
ask whether a slot is occupied.

`IdInv.identity` is what does hold: a slot whose connection has copied a field of a
SENDUI stores that field. From it follow `getRemote_finds_online_iff`, which says for
every table when GETREMOTE is right, and `identities_own`, for runs in which no slot is
handed to a new connection with an identity in it.
-/

namespace JQServer

/-- The string in a field of a slot. -/
def SendUIField.stored (e : EpollConnect) : SendUIField → List UInt8
  | .userId => e.usrhashId.str
  | .passwd => e.passwd.str

/-- The string in a field of a message. -/
def SendUIField.sent (msg : SendUIMessage) : SendUIField → List UInt8
  | .userId => msg.userId.str
  | .passwd => msg.passwd.str

/-- A field that is copied has the string of the message. -/
theorem SendUIField.stored_strncpy (field : SendUIField) (e : EpollConnect) (msg : SendUIMessage) :
    field.stored (field.strncpy e msg) = field.sent msg := by
  cases field <;> exact CharArray.str_strncpy _

/-- The other field stays as it is. -/
theorem SendUIField.stored_strncpy_of_ne {field other : SendUIField} (h : other ≠ field)
    (e : EpollConnect) (msg : SendUIMessage) :
    other.stored (field.strncpy e msg) = other.stored e := by
  cases field <;> cases other <;> first | rfl | exact absurd rfl h

/-- A write of `init_epoll_connect_by_index` keeps the user id and the password. -/
theorem SlotWrite.apply_strings (e : EpollConnect) (w : SlotWrite) :
    (w.apply e).usrhashId = e.usrhashId ∧ (w.apply e).passwd = e.passwd := by
  cases w <;> exact ⟨rfl, rfl⟩

/-- The strings of two slots that have the same arrays. -/
theorem SendUIField.stored_congr {e e' : EpollConnect} (hid : e'.usrhashId = e.usrhashId)
    (hpw : e'.passwd = e.passwd) (field : SendUIField) : field.stored e' = field.stored e := by
  cases field with
  | userId => exact congrArg CharArray.str hid
  | passwd => exact congrArg CharArray.str hpw

namespace Server

variable {s s' : Server} {arg : JobParameter}

/-- SENDUI copies to a slot that is not another connection's, and its connection has no
    other slot. -/
def OwnSlot (s : Server) (a : Action) : Prop :=
  ∀ w arg i field, a = .copy w → s.handlers w = .sendUI arg i field →
    (∀ c, s.owner i = some c → c = arg.conn) ∧ ∀ j, s.owner j = some arg.conn → j = i

/-- The connection of a client that is in no slot yet is new. -/
structure NewClient (s : Server) (c : Client) : Prop where
  conn : c.conn < s.conns
  fd : ∀ fd, s.fds fd = some c.conn → fd = c.fd
  owner : ∀ i, s.owner i ≠ some c.conn
  login : ∀ field, s.login field c.conn = none
  job : ∀ arg, s.Carries arg → arg.conn ≠ c.conn

/-- The invariant behind identities: connections are numbered in order, each has one
    slot at most, and a slot stores what its connection copied last. -/
structure IdInv (s : Server) : Prop where
  issued : ∀ fd c, s.fds fd = some c → c < s.conns
  owned : ∀ i c, s.owner i = some c → c < s.conns
  carried : ∀ arg, s.Carries arg → arg.conn < s.conns
  loggedIn : ∀ field c, s.login field c ≠ none → c < s.conns
  injective : ∀ i j c, s.owner i = some c → s.owner j = some c → i = j
  client : ∀ c, s.accept.unfilled = some c → s.NewClient c
  identity : ∀ field i c m, s.owner i = some c → s.login field c = some m →
    field.stored (s.table i) = field.sent m

/-- The invariant holds at the start. -/
theorem idInv_start (t n : Int) : (start t n).IdInv where
  issued := nofun
  owned := nofun
  carried _ h := absurd h (not_carries_start t n)
  loggedIn _ _ h := absurd rfl h
  injective := nofun
  client := nofun
  identity := nofun

/-! ### Steps that leave identities alone -/

/-- The strings of all slots, the logins and the number of connections are the same. -/
structure SameIdentity (s s' : Server) : Prop where
  strings : ∀ i (field : SendUIField), field.stored (s'.table i) = field.stored (s.table i)
  login : s'.login = s.login
  conns : s'.conns = s.conns

/-- A step that does not write the table. -/
private theorem SameIdentity.same (htable : s'.table = s.table) (hlogin : s'.login = s.login)
    (hconns : s'.conns = s.conns) : s.SameIdentity s' :=
  ⟨fun i field => by rw [htable], hlogin, hconns⟩

/-- A step that writes other fields of one slot. -/
private theorem SameIdentity.update {i : Fin maxEvents} {e : EpollConnect}
    (htable : s'.table = Function.update s.table i e) (hlogin : s'.login = s.login)
    (hconns : s'.conns = s.conns) (hid : e.usrhashId = (s.table i).usrhashId)
    (hpw : e.passwd = (s.table i).passwd) : s.SameIdentity s' := by
  refine ⟨fun j field => ?_, hlogin, hconns⟩
  rw [htable]
  by_cases hj : j = i
  · subst hj
    rw [Function.update_self]
    exact field.stored_congr hid hpw
  · rw [Function.update_of_ne hj]

/-- The event loop leaves identities alone. -/
private theorem LoopMoves.sameIdentity {a : Action} (hs : s.LoopMoves a s') :
    s.SameIdentity s' := by
  cases hs with
  | op ho hop =>
    cases hop with
    | free | freeMatched | updateTime => exact .update rfl rfl rfl rfl rfl
    | _ => exact .same rfl rfl rfl
  | _ => exact .same rfl rfl rfl

/-- A step that keeps identities, occupies no slot and opens no descriptor. -/
private theorem IdInv.frame (h : s.IdInv) (hid : s.SameIdentity s')
    (howner : ∀ {i c}, s'.owner i = some c → s.owner i = some c)
    (hfds : ∀ {fd c}, s'.fds fd = some c → s.fds fd = some c)
    (hcarries : ∀ arg, s'.Carries arg → arg.conn < s.conns ∧
      ∀ c, s.accept.unfilled = some c → arg.conn ≠ c.conn)
    (hclient : ∀ c, s'.accept.unfilled = some c → s.accept.unfilled = some c) : s'.IdInv := by
  exact {
    issued := fun fd c hfd => by rw [hid.conns]; exact h.issued fd c (hfds hfd)
    owned := fun i c hi => by rw [hid.conns]; exact h.owned i c (howner hi)
    carried := fun arg hc => by rw [hid.conns]; exact (hcarries arg hc).1
    loggedIn := by rw [hid.login, hid.conns]; exact h.loggedIn
    injective := fun i j c hi hj => h.injective i j c (howner hi) (howner hj)
    client := by
      intro c hc
      have hc' := hclient c hc
      obtain ⟨h1, h2, h3, h4, -⟩ := h.client c hc'
      exact ⟨by rw [hid.conns]; exact h1, fun fd hfd => h2 fd (hfds hfd),
        fun i hi => h3 i (howner hi), by rw [hid.login]; exact h4,
        fun arg hcar => (hcarries arg hcar).2 c hc'⟩
    identity := by
      intro field i c m hi hm
      rw [hid.strings i field]
      exact h.identity field i c m (howner hi) (hid.login ▸ hm) }

/-! ### Steps -/

/-- A new connection. -/
private theorem IdInv.accept {p : Peer} (h : s.IdInv) :
    IdInv { s with
      fds := Function.update s.fds p.fd (some s.conns)
      conns := s.conns + 1
      accept := .accepted { fd := p.fd, conn := s.conns, addr := p.addr, port := p.port } } where
  issued fd c hfd := by
    by_cases hp : fd = p.fd
    · simp only [hp, Function.update_self, Option.some.injEq] at hfd
      exact hfd ▸ Nat.lt_succ_self _
    · simp only [Function.update_of_ne hp] at hfd
      exact Nat.lt_succ_of_lt (h.issued fd c hfd)
  owned i c hi := Nat.lt_succ_of_lt (h.owned i c hi)
  carried arg hc := Nat.lt_succ_of_lt (h.carried arg (hc.congr rfl rfl rfl))
  loggedIn field c hc := Nat.lt_succ_of_lt (h.loggedIn field c hc)
  injective := h.injective
  client c hc := by
    obtain rfl := Option.some.inj hc
    refine ⟨Nat.lt_succ_self _, fun fd hfd => ?_, fun i hi => ?_, fun field => ?_,
      fun arg hcar => ?_⟩
    · -- The number is new: no descriptor, slot, login or job has it yet
      by_contra hp
      simp only [Function.update_of_ne hp] at hfd
      exact absurd (h.issued fd _ hfd) (Nat.lt_irrefl _)
    · exact absurd (h.owned i _ hi) (Nat.lt_irrefl _)
    · by_contra hl
      exact absurd (h.loggedIn field _ hl) (Nat.lt_irrefl _)
    · exact Nat.ne_of_lt (h.carried arg (hcar.congr rfl rfl rfl))
  identity := h.identity

/-- The slot of a new connection gets its descriptor. -/
private theorem IdInv.fill {c : Client} {i : Fin maxEvents} {ws : List SlotWrite} (h : s.IdInv)
    (hpc : s.accept = .filling c i (.connectFd c.fd :: ws)) (hws : .connectFd c.fd ∉ ws) :
    IdInv { s.fillSlot c i (.connectFd c.fd) with accept := .filling c i ws } := by
  have hnew : s.NewClient c := h.client c (by
    simp only [hpc, AcceptPc.unfilled, List.mem_cons, true_or, ↓reduceIte])
  have howner : ({ s.fillSlot c i (.connectFd c.fd) with accept := .filling c i ws } :
      Server).owner = Function.update s.owner i (some c.conn) := rfl
  exact {
    issued := h.issued
    owned := by
      intro j x hj
      rw [howner] at hj
      by_cases hji : j = i
      · rw [hji, Function.update_self, Option.some.injEq] at hj
        exact hj ▸ hnew.conn
      · rw [Function.update_of_ne hji] at hj
        exact h.owned j x hj
    carried := fun arg hc => h.carried arg (hc.congr rfl rfl rfl)
    loggedIn := h.loggedIn
    injective := by
      intro j k x hj hk
      rw [howner] at hj hk
      by_cases hji : j = i <;> by_cases hki : k = i
      · rw [hji, hki]
      · -- A new client is in no other slot
        rw [hji, Function.update_self] at hj
        rw [Function.update_of_ne hki, ← hj] at hk
        exact absurd hk (hnew.owner k)
      · rw [hki, Function.update_self] at hk
        rw [Function.update_of_ne hji, ← hk] at hj
        exact absurd hj (hnew.owner j)
      · rw [Function.update_of_ne hji] at hj
        rw [Function.update_of_ne hki] at hk
        exact h.injective j k x hj hk
    client := by
      intro c' hc'
      simp only [AcceptPc.unfilled, hws, ↓reduceIte, reduceCtorEq] at hc'
    identity := by
      intro field j x m hj hm
      rw [howner] at hj
      by_cases hji : j = i
      · rw [hji, Function.update_self, Option.some.injEq] at hj
        -- The slot keeps the strings of its last owner: no login claims anything of them yet
        have hnone : s.login field x = none := hj ▸ hnew.login field
        cases hnone.symm.trans hm
      · rw [Function.update_of_ne hji] at hj
        simp only [fillSlot, Function.update_of_ne hji]
        exact h.identity field j x m hj hm }

/-- A job that is carried already is no new client's. -/
private theorem IdInv.old (h : s.IdInv) (hc : s.Carries arg) :
    arg.conn < s.conns ∧ ∀ c, s.accept.unfilled = some c → arg.conn ≠ c.conn :=
  ⟨h.carried arg hc, fun c hc' => (h.client c hc').job arg hc⟩

/-- Every step of the accept thread keeps the invariant. -/
private theorem IdInv.accept_step {a : Action} (h : s.IdInv) (hnet : s.NetInv)
    (hs : s.AcceptMoves a s') : s'.IdInv := by
  have hold : ∀ arg, s'.Carries arg → arg.conn < s.conns ∧
      ∀ c, s.accept.unfilled = some c → arg.conn ≠ c.conn := fun arg hc => h.old (hs.carries hc)
  cases hs with
  | accept => exact h.accept
  | @fill c i w ws hpc =>
    obtain ⟨now, hsuf⟩ := hnet.accept.writes c i _ hpc
    rcases fill_cases hsuf with ⟨rfl, hws⟩ | ⟨hw, hws⟩
    · exact h.fill hpc hws
    · obtain ⟨hid, hpw⟩ := w.apply_strings (s.table i)
      have howner := (fdAt_fillSlot_other (s := s) (c := c) (i := i) hw).2
      refine h.frame (.update rfl rfl rfl hid hpw) (fun hi => howner ▸ hi) id hold fun c' hc' => ?_
      rw [hpc]
      simpa only [AcceptPc.unfilled, hws] using hc'
  | gate hpc hpc' =>
    rcases hpc' with rfl | rfl <;> exact h.frame (.same rfl rfl rfl) id id hold (by rintro _ ⟨⟩)
  | acceptError | unlock | epollAdd | epollAddFails | countAdd =>
    exact h.frame (.same rfl rfl rfl) id id hold (by rintro _ ⟨⟩)
  | @closeFailed c slot hpc =>
    refine h.frame (.same rfl rfl rfl) id (fun {fd x} hfd => ?_) hold (by rintro _ ⟨⟩)
    by_cases hc : fd = c.fd
    · simp only [closesocket, hc, Function.update_self, reduceCtorEq] at hfd
    · simpa only [closesocket, Function.update_of_ne hc] using hfd
  | noSlot hpc | chooseSlot hpc | setNonBlocking hpc | notNonBlocking hpc | setRcvbuf hpc
  | noRcvbuf hpc =>
    exact h.frame (.same rfl rfl rfl) id id hold fun c hc => by rw [hpc]; exact hc
  | @initSlot c i now hpc =>
    have hmem : SlotWrite.connectFd c.fd ∈ initEpollConnectByIndex now c.fd c.addr c.port := by
      simp [initEpollConnectByIndex]
    refine h.frame (.same rfl rfl rfl) id id hold fun c' hc' => ?_
    simp only [AcceptPc.unfilled, hmem, ↓reduceIte] at hc'
    rw [hpc]
    exact hc'

/-- Every step of the event loop keeps the invariant. -/
private theorem IdInv.loop_step {a : Action} (h : s.IdInv) (hnet : s.NetInv)
    (hs : s.LoopMoves a s') : s'.IdInv := by
  have hr := hs.releases
  refine h.frame hs.sameIdentity (fun {i c} hi => ?_) (fun {fd c} hfd => ?_) (fun arg hc => ?_)
    (fun c hc => hs.accept_eq ▸ hc)
  · rcases hr.slot i with ⟨-, h2⟩ | ⟨-, h2⟩
    · exact h2 ▸ hi
    · exact nomatch h2.symm.trans hi
  · rcases hr.fds fd with h2 | h2
    · exact h2 ▸ hfd
    · exact nomatch h2.symm.trans hfd
  · rcases hs.carries hc with hcar | ⟨i, es, hl, hfd, -⟩
    · exact h.old hcar
    · -- A new job: its descriptor is registered, a new client's is not
      refine ⟨h.issued arg.fd arg.conn hfd, fun c hc' heq => ?_⟩
      have hreg := (hnet.loop.pending arg.fd (by rw [hl]; exact List.mem_cons_self)).1
      rw [(h.client c hc').fd arg.fd (heq ▸ hfd),
        (hnet.accept.client c (AcceptPc.client_of_unfilled hc')).1] at hreg
      exact nomatch hreg

/-- The last to copy the field is the connection that copies it now. -/
theorem login_storeField_self (arg : JobParameter) (i : Fin maxEvents) (field : SendUIField) :
    (s.storeField arg i field).login field arg.conn = some (.ofBuffer arg.recvBuffer) := by
  simp only [storeField, Function.update_self]

/-- Nothing changes for another field or another connection. -/
theorem login_storeField_of_ne (i : Fin maxEvents) {field other : SendUIField} {c : Nat}
    (h : other ≠ field ∨ c ≠ arg.conn) :
    (s.storeField arg i field).login other c = s.login other c := by
  simp only [storeField]
  by_cases hf : other = field
  · subst hf
    rw [Function.update_self, Function.update_of_ne (h.resolve_left fun hne => hne rfl)]
  · rw [Function.update_of_ne hf]

/-- The slot gets the string of the message. -/
theorem stored_storeField_self (arg : JobParameter) (i : Fin maxEvents) (field : SendUIField) :
    field.stored ((s.storeField arg i field).table i) = field.sent (.ofBuffer arg.recvBuffer) := by
  simp only [storeField, Function.update_self, field.stored_strncpy]

/-- Nothing changes in another field or another slot. -/
theorem stored_storeField_of_ne {i j : Fin maxEvents} (field other : SendUIField)
    (h : other ≠ field ∨ j ≠ i) :
    other.stored ((s.storeField arg i field).table j) = other.stored (s.table j) := by
  simp only [storeField]
  by_cases hj : j = i
  · subst hj
    rw [Function.update_self,
      SendUIField.stored_strncpy_of_ne (h.resolve_right fun hne => hne rfl)]
  · rw [Function.update_of_ne hj]

/-- A `strncpy` of SENDUI to the slot of its connection. -/
private theorem IdInv.copy {w : Nat} {i : Fin maxEvents} {field : SendUIField} (h : s.IdInv)
    (hpc : s.handlers w = .sendUI arg i field) (hslot : ∀ c, s.owner i = some c → c = arg.conn)
    (honly : ∀ j, s.owner j = some arg.conn → j = i)
    (hcarries : ∀ arg', ((s.storeField arg i field).setHandler w (field.next arg i)).Carries arg' →
      s.Carries arg') :
    ((s.storeField arg i field).setHandler w (field.next arg i)).IdInv := by
  have hcar : s.Carries arg := .handled (by rw [hpc]; rfl)
  exact {
    issued := h.issued
    owned := h.owned
    carried := fun arg' hc => h.carried arg' (hcarries arg' hc)
    loggedIn := by
      intro other c hc
      by_cases hne : other ≠ field ∨ c ≠ arg.conn
      · exact h.loggedIn other c fun hnone => hc ((login_storeField_of_ne i hne).trans hnone)
      · obtain ⟨-, rfl⟩ : other = field ∧ c = arg.conn := by simpa [not_or] using hne
        exact h.carried arg hcar
    injective := h.injective
    client := by
      intro c hc
      obtain ⟨h1, h2, h3, h4, h5⟩ := h.client c hc
      refine ⟨h1, h2, h3, fun other => ?_, fun arg' hc' => h5 arg' (hcarries arg' hc')⟩
      -- A new client is no connection with a job
      exact (login_storeField_of_ne i (.inr (Ne.symm (h5 arg hcar)))).trans (h4 other)
    identity := by
      intro other j c m hj hm
      by_cases hne : other ≠ field ∨ c ≠ arg.conn
      · have hold := h.identity other j c m hj ((login_storeField_of_ne i hne).symm.trans hm)
        refine (stored_storeField_of_ne _ _ (hne.imp_right ?_)).trans hold
        -- The slot is no other connection's
        rintro hck rfl
        exact hck (hslot c hj)
      · obtain ⟨rfl, rfl⟩ : other = field ∧ c = arg.conn := by simpa [not_or] using hne
        -- Slot `i` is the only slot of the connection, and the string fits its array
        obtain rfl := honly j hj
        have hlogin : (s.storeField arg j other).login other arg.conn = some m := hm
        obtain rfl := Option.some.inj ((login_storeField_self arg j other).symm.trans hlogin)
        exact stored_storeField_self arg j other }

/-- Every step of a worker that meets the condition keeps the invariant. -/
private theorem IdInv.worker_step {a : Action} (h : s.IdInv) (ha : s.OwnSlot a)
    (hs : s.WorkerMoves a s') : s'.IdInv := by
  have hcarries : ∀ arg, s'.Carries arg → s.Carries arg := fun arg hc => hs.carries hc
  have hold := fun arg hc => h.old (hcarries arg hc)
  cases hs with
  | @copy w arg i field hpc =>
    obtain ⟨hslot, honly⟩ := ha w arg i field rfl hpc
    exact h.copy hpc hslot honly hcarries
  | _ => exact h.frame (.same rfl rfl rfl) id id hold fun _ => id

/-- The invariant holds in every state of a run in which SENDUI copies to slots of its own
    connection. -/
theorem idInv_of_reach (h : Transition.Reach system OwnSlot s) : s.IdInv := by
  refine h.invariant ?_ fun s a s' hr hinv ha hs => ?_
  · rintro s ⟨t, n, rfl⟩
    exact idInv_start t n
  · have hnet := netInv_of_reach hr
    rcases (step_moves hs).2 with hm | hm | hm
    · exact hinv.accept_step hnet hm
    · exact hinv.loop_step hnet hm
    · exact hinv.worker_step ha hm

/-! ### GETREMOTE -/

/-- Slot `i` is occupied by a connection that copied the user id `u` of a SENDUI last. -/
def OnlineAs (s : Server) (i : Fin maxEvents) (u : List UInt8) : Prop :=
  s.table.Occupied i ∧ ∃ c m, s.owner i = some c ∧ s.login .userId c = some m ∧ m.userId.str = u

/-- The reply to GETREMOTE finds exactly the users that are online. -/
structure FindsOnline (s : Server) (grMsg : GetRemoteMessage) : Prop where
  flag : (responsGetRemote s.table grMsg).flag = true ↔ ∃ i, s.OnlineAs i grMsg.userId.str
  address : (responsGetRemote s.table grMsg).flag = true → ∃ i, s.OnlineAs i grMsg.userId.str ∧
    (responsGetRemote s.table grMsg).ip = inetAddr (s.table i).clientIpAddr.str ∧
    (responsGetRemote s.table grMsg).port = (s.table i).clientPort

/-- Slot `i` stores the user id `u` in the characters that are compared. -/
def StoresId (s : Server) (i : Fin maxEvents) (u : List UInt8) : Prop :=
  (s.table i).usrhashId.str.take 9 = u

/-- The lowest slot that stores the user id has the address of a slot that is online
    under it, if there is such a slot. -/
def LowestOnline (s : Server) (u : List UInt8) : Prop :=
  ∀ i, s.StoresId i u → (∀ j < i, ¬ s.StoresId j u) → ∃ k, s.OnlineAs k u ∧
    inetAddr (s.table i).clientIpAddr.str = inetAddr (s.table k).clientIpAddr.str ∧
    (s.table i).clientPort = (s.table k).clientPort

/-- A slot that is online under a user id of at most 9 characters stores it. -/
theorem IdInv.storesId {i : Fin maxEvents} {u : List UInt8} (h : s.IdInv) (hu : u.length ≤ 9)
    (hon : s.OnlineAs i u) : s.StoresId i u := by
  obtain ⟨-, c, m, hc, hm, rfl⟩ := hon
  have hstored : (s.table i).usrhashId.str = m.userId.str := h.identity .userId i c m hc hm
  rw [StoresId, hstored, List.take_of_length_le hu]

/-- The search for a user id of at most 9 characters finds the slots that store it. -/
theorem strncmp_usrhashId {grMsg : GetRemoteMessage} (hu : grMsg.userId.str.length ≤ 9)
    (i : Fin maxEvents) : CString.strncmp 9 (s.table i).usrhashId.bytes
      (CharArray.strncpy 10 grMsg.userId.bytes).bytes = 0 ↔ s.StoresId i grMsg.userId.str := by
  have hcopy : CString.str (CharArray.strncpy 10 grMsg.userId.bytes).bytes = grMsg.userId.str :=
    CharArray.str_strncpy grMsg.userId
  rw [CString.strncmp_eq_zero_iff, hcopy, List.take_of_length_le hu]
  exact Iff.rfl

/-- In a run in which SENDUI copies to slots of its own connection, GETREMOTE is right
    exactly for the user ids whose lowest slot shows somebody who is online. -/
theorem getRemote_finds_online_iff (h : Transition.Reach system OwnSlot s)
    (grMsg : GetRemoteMessage) (hu : grMsg.userId.str.length ≤ 9) :
    s.FindsOnline grMsg ↔ s.LowestOnline grMsg.userId.str := by
  have hinv := idInv_of_reach h
  cases hf : s.table.getMatchedEventIndexByUsrHashId
      (CharArray.strncpy 10 grMsg.userId.bytes).bytes with
  | none =>
    -- No slot shows the user id: the reply is "offline" and nobody is online under it
    have hreply : (responsGetRemote s.table grMsg).flag = false := by
      simp only [responsGetRemote, hf]
    have hnot : ∀ i, ¬ s.StoresId i grMsg.userId.str := fun i hi => by
      simpa using (Fin.firstIndex_eq_none_iff.mp hf i).symm.trans
        (decide_eq_true ((strncmp_usrhashId hu i).mpr hi))
    constructor
    · exact fun _ i hi => absurd hi (hnot i)
    · refine fun _ => ⟨⟨fun ht => ?_, fun ⟨i, hi⟩ => ?_⟩, fun ht => ?_⟩
      · exact nomatch hreply.symm.trans ht
      · exact absurd (hinv.storesId hu hi) (hnot i)
      · exact nomatch hreply.symm.trans ht
  | some i =>
    obtain ⟨hi, hlow⟩ := Fin.firstIndex_eq_some_iff.mp hf
    have hstores : s.StoresId i grMsg.userId.str :=
      (strncmp_usrhashId hu i).mp (of_decide_eq_true hi)
    have hlowest : ∀ j < i, ¬ s.StoresId j grMsg.userId.str := fun j hj hs =>
      absurd ((strncmp_usrhashId hu j).mpr hs) (of_decide_eq_false (hlow j hj))
    have hreply : (responsGetRemote s.table grMsg).flag = true ∧
        (responsGetRemote s.table grMsg).ip = inetAddr (s.table i).clientIpAddr.str ∧
        (responsGetRemote s.table grMsg).port = (s.table i).clientPort := by
      simp only [responsGetRemote, hf, and_self]
    obtain ⟨hflag, hip, hport⟩ := hreply
    -- The reply is of slot `i`, which is the lowest one
    constructor
    · intro hfinds j hj hjlow
      have hij : j = i := le_antisymm (le_of_not_gt fun hlt => hjlow i hlt hstores)
        (le_of_not_gt fun hlt => hlowest j hlt hj)
      obtain ⟨k, hk, hkip, hkport⟩ := hfinds.address hflag
      rw [hij, ← hip, ← hport]
      exact ⟨k, hk, hkip, hkport⟩
    · intro hon
      obtain ⟨k, hk, hkip, hkport⟩ := hon i hstores hlowest
      exact ⟨⟨fun _ => ⟨k, hk⟩, fun _ => hflag⟩,
        fun _ => ⟨k, hk, hip.trans hkip, hport.trans hkport⟩⟩

/-- A run in which no handler copies meets the condition on slots. -/
private theorem meets_ownSlot {as : List Action} (h : ∀ w, .copy w ∉ as) (s : Server) :
    system.Meets OwnSlot s as := by
  refine system.meets_of_mem (fun a ha t w arg i field heq => ?_) s
  subst heq
  exact absurd ha (h w)

/-- The GETREMOTE message for the user id "a". -/
private def requestA : GetRemoteMessage where
  userId := .ofBytes 10 [97]
  passwd := .zero _

/-- The job of the login of user "a". -/
private def jobA : JobParameter := .received (sendUIBytes [97]) 5 0

/-- The steps that lead to the first `strncpy` of a login of user "a". -/
private def loginRun : List Action :=
  acceptRun { fd := 5, addr := .zero _, port := 80 } 0 ++ receiveRun 5 (sendUIBytes [97]) 0 ++
    takeJobRun 0 ++ [.dispatch 0]

set_option maxRecDepth 100000 in
/-- The run reaches the first `strncpy`, and both are made. -/
private theorem exists_login :
    ∃ t u s : Server, system.run (start 0) loginRun = some t ∧
      system.step t (.copy 0) = some u ∧ system.step u (.copy 0) = some s ∧
      (t.handlers 0 = .sendUI jobA 0 .userId ∧
        t.owner = Function.update (fun _ => none) 0 (some 0)) ∧
      (u.handlers 0 = .sendUI jobA 0 .passwd ∧
        u.owner = Function.update (fun _ => none) 0 (some 0)) ∧
      (u.table 0).usrhashId.str = [97] ∧ s.fdAt 0 = 5 ∧ s.owner 0 = some 0 ∧
      (∃ m, s.login .userId 0 = some m ∧ m.userId.str = [97]) ∧ s.StoresId 0 [97] :=
  ⟨_, _, _, rfl, rfl, rfl, ⟨rfl, rfl⟩, ⟨rfl, rfl⟩, rfl, rfl, rfl, ⟨_, rfl, rfl⟩, rfl⟩

/-- It is the slot of the connection that is copied to. -/
private theorem ownSlot_login {field : SendUIField} (hpc : s.handlers 0 = .sendUI jobA 0 field)
    (howner : s.owner = Function.update (fun _ => none) 0 (some 0)) : s.OwnSlot (.copy 0) := by
  intro w arg i field' heq hpc'
  cases heq
  obtain ⟨rfl, rfl, -⟩ := HandlerPc.sendUI.inj (hpc.symm.trans hpc')
  refine ⟨fun c hc => ?_, fun j hj => ?_⟩
  · rw [howner, Function.update_self] at hc
    exact (Option.some.inj hc).symm
  · by_contra hne
    rw [howner, Function.update_of_ne hne] at hj
    cases hj

/-- A user who logs in is found. -/
theorem getRemote_finds_login :
    ∃ s : Server, system.run (start 0) (loginRun ++ [.copy 0] ++ [.copy 0]) = some s ∧
      s.FindsOnline requestA := by
  obtain ⟨t, u, s, ht, hu, hs, ⟨htpc, htowner⟩, ⟨hupc, huowner⟩, -, hfd, howner, ⟨m, hm, hid⟩,
    hstores⟩ := exists_login
  have hreach : Transition.Reach system OwnSlot t :=
    .run (.init ⟨0, 15, rfl⟩)
      (meets_ownSlot (by simp [loginRun, acceptRun, fillRun, receiveRun, takeJobRun]) _) ht
  have hreach : Transition.Reach system OwnSlot s :=
    .step (.step hreach (ownSlot_login htpc htowner) hu) (ownSlot_login hupc huowner) hs
  refine ⟨s, Transition.System.run_snoc (Transition.System.run_snoc ht hu) hs,
    (getRemote_finds_online_iff hreach requestA (by decide)).mpr ?_⟩
  intro i _ hlow
  have honline : s.OnlineAs 0 [97] := by
    refine ⟨?_, 0, m, howner, hm, hid⟩
    rw [Table.Occupied, show (s.table 0).connectFd = 5 from hfd]
    decide
  by_cases hi : i = 0
  · exact hi ▸ ⟨0, honline, rfl, rfl⟩
  · exact absurd hstores (hlow 0 (Fin.pos_of_ne_zero hi))

set_option maxRecDepth 100000 in
/-- A user who has logged in and hung up is still found. -/
theorem getRemote_finds_online_fails :
    ¬ ∀ (s : Server) (grMsg : GetRemoteMessage), Transition.Reachable system s →
      grMsg.userId.str.length ≤ 9 → s.FindsOnline grMsg := by
  intro h
  have hrun : ∃ s : Server,
      system.run (start 0) (loginRun ++ [.copy 0] ++ [.copy 0] ++ hangUpRun 5 0) = some s ∧
        (responsGetRemote s.table requestA).flag = true ∧
        s.owner = Function.update (Function.update (fun _ => none) 0 (some 0)) 0 none :=
    ⟨_, rfl, rfl, rfl⟩
  obtain ⟨s, hs, hflag, howner⟩ := hrun
  obtain ⟨i, -, c, m, hc, -⟩ := (h s requestA (.of_run ⟨0, 15, rfl⟩ hs) (by decide)).flag.mp hflag
  rw [howner, Function.update_idem] at hc
  by_cases hi : i = 0
  · rw [hi, Function.update_self] at hc
    cases hc
  · rw [Function.update_of_ne hi] at hc
    cases hc

/-! ### Slot reuse -/

/-- A SENDUI of connection `c` is between its two copies to slot `i`. -/
def LoggingIn (s : Server) (i : Fin maxEvents) (c : Nat) : Prop :=
  ∃ w arg, s.handlers w = .sendUI arg i .passwd ∧ arg.conn = c

/-- The user id and the password in slot `i` are those of SENDUIs of connection `c`, and
    empty if there was none; both are of the last one, unless one is between its copies. -/
structure IdentityOf (s : Server) (i : Fin maxEvents) (c : Nat) : Prop where
  copied : ∀ field : SendUIField,
    field.stored (s.table i) = (s.login field c).elim [] field.sent
  last : ¬ s.LoggingIn i c →
    (s.table i).usrhashId.str = (s.login .passwd c).elim [] fun msg => msg.userId.str

/-- The user id and the password in slot `i` are those of the connection that occupies it. -/
def IdentityOwn (s : Server) (i : Fin maxEvents) : Prop :=
  ∃ c, s.owner i = some c ∧ s.IdentityOf i c

/-- A slot that gets the descriptor of a new connection has no identity in it. -/
def BlankSlot (s : Server) (a : Action) : Prop :=
  ∀ c i ws, a = .fill → s.accept = .filling c i (.connectFd c.fd :: ws) →
    (s.table i).usrhashId.str = [] ∧ (s.table i).passwd.str = []

/-- A SENDUI that stores its password finds its own user id in the slot of its connection,
    unless another one of the connection is between its copies to it. -/
def OwnUserId (s : Server) (a : Action) : Prop :=
  ∀ w arg i, a = .copy w → s.handlers w = .sendUI arg i .passwd →
    s.owner i = some arg.conn →
    (∀ v arg', v ≠ w → s.handlers v = .sendUI arg' i .passwd → arg'.conn ≠ arg.conn) →
    (s.table i).usrhashId.str = (SendUIMessage.ofBuffer arg.recvBuffer).userId.str

/-- The condition of `identities_own`. -/
def OwnIdentity (s : Server) (a : Action) : Prop := s.OwnSlot a ∧ s.BlankSlot a ∧ s.OwnUserId a

/-- A connection that has not copied a field has a slot in which it is empty, and a slot
    holds the user id that goes with its password once no SENDUI is between its copies. -/
structure SlotOwn (s : Server) : Prop where
  blank : ∀ (field : SendUIField) i c, s.owner i = some c → s.login field c = none →
    field.stored (s.table i) = []
  last : ∀ i c, s.owner i = some c → ¬ s.LoggingIn i c →
    (s.table i).usrhashId.str = (s.login .passwd c).elim [] fun msg => msg.userId.str

/-- It holds at the start. -/
theorem slotOwn_start (t n : Int) : (start t n).SlotOwn where
  blank := nofun
  last := nofun

/-- A handler in CMD_SENDUI stays there until its next `strncpy`. -/
theorem sendUI_step {a : Action} {v : Nat} {i : Fin maxEvents} {field : SendUIField}
    (ha : a ≠ .copy v) (hs : s.step a = some s') (hpc : s.handlers v = .sendUI arg i field) :
    s'.handlers v = .sendUI arg i field := by
  have hmoves := step_handlers hs v
  generalize s'.handlers v = pc at hmoves
  cases hmoves with
  | same => exact hpc
  | copy => exact absurd rfl ha
  | leave h | skip h | lookup h | handshake h | sendUI h | getRemote h | getAllUser h | other h
  | skipUser h | fillUser h | filled h | write h => cases h.symm.trans hpc

/-- A step that writes no identity and occupies no slot. -/
private theorem SlotOwn.frame {a : Action} (h : s.SlotOwn) (hs : s.step a = some s')
    (ha : ∀ w, a ≠ .copy w)
    (hstrings : ∀ i (field : SendUIField), field.stored (s'.table i) = field.stored (s.table i))
    (hlogin : s'.login = s.login)
    (howner : ∀ {i c}, s'.owner i = some c → s.owner i = some c) : s'.SlotOwn where
  blank field i c hi hc := by
    rw [hstrings i field]
    exact h.blank field i c (howner hi) (hlogin ▸ hc)
  last i c hi hnot := by
    have hold : ¬ s.LoggingIn i c := fun ⟨w, arg, hpc, hc⟩ =>
      hnot ⟨w, arg, sendUI_step (ha w) hs hpc, hc⟩
    have hstring : (s'.table i).usrhashId.str = (s.table i).usrhashId.str :=
      hstrings i .userId
    rw [hstring, hlogin]
    exact h.last i c (howner hi) hold

/-- A blank slot is filled for a new client. -/
private theorem SlotOwn.fill {c : Client} {i : Fin maxEvents} {ws : List SlotWrite}
    (h : s.SlotOwn) (hnew : s.NewClient c)
    (hblank : (s.table i).usrhashId.str = [] ∧ (s.table i).passwd.str = []) :
    SlotOwn { s.fillSlot c i (.connectFd c.fd) with accept := .filling c i ws } := by
  have hother : ∀ {j x}, j ≠ i → Function.update s.owner i (some c.conn) j = some x →
      s.owner j = some x := by
    intro j x hji hj
    rwa [Function.update_of_ne hji] at hj
  -- The new client has not logged in, and its slot has no strings
  refine ⟨fun field j x hj hx => ?_, fun j x hj hnot => ?_⟩ <;> by_cases hji : j = i
  · subst hji
    simp only [fillSlot, Function.update_self]
    cases field with
    | userId => exact hblank.1
    | passwd => exact hblank.2
  · simp only [fillSlot, Function.update_of_ne hji]
    exact h.blank field j x (hother hji hj) hx
  · subst hji
    have hx : c.conn = x := by
      simpa only [fillSlot, Function.update_self, Option.some.injEq] using hj
    subst hx
    simp only [fillSlot, Function.update_self, hnew.login .passwd]
    exact hblank.1
  · simp only [fillSlot, Function.update_of_ne hji]
    exact h.last j x (hother hji hj) hnot

/-- A `strncpy` of SENDUI to the slot of its connection. -/
private theorem SlotOwn.copy {w : Nat} {i : Fin maxEvents} {field : SendUIField} (h : s.SlotOwn)
    (hpc : s.handlers w = .sendUI arg i field) (ha : s.OwnUserId (.copy w))
    (hslot : ∀ c, s.owner i = some c → c = arg.conn)
    (honly : ∀ j, s.owner j = some arg.conn → j = i) :
    ((s.storeField arg i field).setHandler w (field.next arg i)).SlotOwn := by
  have hw : ((s.storeField arg i field).setHandler w (field.next arg i)).handlers w =
      field.next arg i := Function.update_self ..
  have hv : ∀ v, v ≠ w → ((s.storeField arg i field).setHandler w (field.next arg i)).handlers v =
      s.handlers v := fun v hne => Function.update_of_ne hne ..
  refine ⟨fun other j c hj hc => ?_, fun j c hj hnot => ?_⟩
  · have hlogin : (s.storeField arg i field).login other c = none := hc
    by_cases hne : other ≠ field ∨ c ≠ arg.conn
    · rw [login_storeField_of_ne i hne] at hlogin
      refine (stored_storeField_of_ne _ _ (hne.imp_right ?_)).trans (h.blank other j c hj hlogin)
      rintro hck rfl
      exact hck (hslot c hj)
    · obtain ⟨rfl, rfl⟩ : other = field ∧ c = arg.conn := by simpa [not_or] using hne
      cases (login_storeField_self arg i other).symm.trans hlogin
  · by_cases hck : c = arg.conn
    · subst hck
      obtain rfl := honly j hj
      cases field with
      | userId => exact absurd ⟨w, arg, hw, rfl⟩ hnot
      | passwd =>
        -- The last SENDUI to copy its password has found its own user id
        have hown := ha w arg j rfl hpc hj fun v arg' hne hpc' hconn =>
          hnot ⟨v, arg', (hv v hne).trans hpc', hconn⟩
        have hstored : (((s.storeField arg j .passwd).setHandler w .done).table j).usrhashId.str =
            (s.table j).usrhashId.str :=
          stored_storeField_of_ne .passwd .userId (.inl (by decide))
        have hlogin : ((s.storeField arg j .passwd).setHandler w .done).login .passwd arg.conn =
            some (.ofBuffer arg.recvBuffer) := login_storeField_self arg j .passwd
        rw [show SendUIField.next arg j .passwd = .done from rfl, hstored, hlogin, hown]
        rfl
    · have hji : j ≠ i := by
        rintro rfl
        exact hck (hslot c hj)
      have hold : ¬ s.LoggingIn j c := by
        rintro ⟨v, arg', hpc', rfl⟩
        by_cases hvw : v = w
        · obtain ⟨rfl, -⟩ := HandlerPc.sendUI.inj (hpc.symm.trans (hvw ▸ hpc'))
          exact hck rfl
        · exact hnot ⟨v, arg', (hv v hvw).trans hpc', rfl⟩
      have hstored : (((s.storeField arg i field).setHandler w (field.next arg i)).table j
          ).usrhashId.str = (s.table j).usrhashId.str :=
        stored_storeField_of_ne field .userId (.inr hji)
      have hlogin : ((s.storeField arg i field).setHandler w (field.next arg i)).login .passwd c =
          s.login .passwd c := login_storeField_of_ne i (.inr hck)
      rw [hstored, hlogin]
      exact h.last j c hj hold

/-- A step that is no `strncpy` of SENDUI keeps it. -/
private theorem SlotOwn.step_of_ne {a : Action} (h : s.SlotOwn) (hinv : s.IdInv) (hnet : s.NetInv)
    (ha : ∀ w, a ≠ .copy w) (hblank : s.BlankSlot a) (hs : s.step a = some s') : s'.SlotOwn := by
  obtain hm | hm | hm := (step_moves hs).2
  · cases hm with
    | @fill c i w ws hpc =>
      obtain ⟨now, hsuf⟩ := hnet.accept.writes c i _ hpc
      rcases fill_cases hsuf with ⟨rfl, -⟩ | ⟨hw, -⟩
      · have hnew : s.NewClient c := hinv.client c (by
          simp only [hpc, AcceptPc.unfilled, List.mem_cons, true_or, ↓reduceIte])
        exact h.fill hnew (hblank c i ws rfl hpc)
      · obtain ⟨hid, hpw⟩ := w.apply_strings (s.table i)
        have howner := (fdAt_fillSlot_other (s := s) (c := c) (i := i) hw).2
        have hsame : s.SameIdentity (s.fillSlot c i w) := .update rfl rfl rfl hid hpw
        exact h.frame hs ha hsame.strings rfl (fun hi => howner ▸ hi)
    | _ => exact h.frame hs ha (fun _ _ => rfl) rfl id
  · refine h.frame hs ha hm.sameIdentity.strings hm.sameIdentity.login fun {i c} hi => ?_
    rcases hm.releases.slot i with ⟨-, h2⟩ | ⟨-, h2⟩
    · exact h2 ▸ hi
    · cases h2.symm.trans hi
  · cases hm with
    | copy => exact absurd rfl (ha _)
    | _ => exact h.frame hs ha (fun _ _ => rfl) rfl id

/-- Every step that meets the condition keeps it. -/
private theorem SlotOwn.step {a : Action} (h : s.SlotOwn) (hinv : s.IdInv) (hnet : s.NetInv)
    (ha : s.OwnIdentity a) (hs : s.step a = some s') : s'.SlotOwn := by
  obtain ⟨hslot, hblank, huserId⟩ := ha
  by_cases hcopy : ∃ w, a = .copy w
  · obtain ⟨w, rfl⟩ := hcopy
    -- A copy for a job that is freed stops the server
    obtain ⟨arg, i, field, hpc, rfl⟩ := copy_step hs
    obtain ⟨hslot, honly⟩ := hslot w arg i field rfl hpc
    simp only [copyStep]
    cases s.parameter w with
    | none => exact ⟨h.blank, h.last⟩
    | some parameter => exact h.copy hpc huserId hslot honly
  · exact h.step_of_ne hinv hnet (fun w heq => hcopy ⟨w, heq⟩) hblank hs

/-- No identity survives slot reuse, in every run in which SENDUI copies to slots of its
    own connection and finds its own user id there, and a slot that is filled has no identity
    left in it. -/
theorem identities_own (h : Transition.Reach system OwnIdentity s) (i : Fin maxEvents)
    (hi : s.table.Occupied i) : s.IdentityOwn i := by
  have hslots : s.SlotOwn := by
    refine h.invariant ?_ fun s a s' hr hinv ha hs => ?_
    · rintro s ⟨t, n, rfl⟩
      exact slotOwn_start t n
    · exact hinv.step (idInv_of_reach (hr.mono fun _ _ => And.left)) (netInv_of_reach hr) ha hs
  have hinv := idInv_of_reach (h.mono fun _ _ => And.left)
  obtain ⟨c, hc⟩ := Option.ne_none_iff_exists'.mp (((netInv_of_reach h).owner i).mp hi)
  refine ⟨c, hc, fun field => ?_, hslots.last i c hc⟩
  cases hm : s.login field c with
  | some m => exact hinv.identity field i c m hc hm
  -- The connection has sent no SENDUI, and nobody left anything in its slot
  | none => exact hslots.blank field i c hc hm

/-- A step that copies no field meets the condition if the slot that it fills is blank. -/
private theorem ownIdentity_of_ne {a : Action} (hcopy : ∀ w, a ≠ .copy w) (hblank : s.BlankSlot a) :
    s.OwnIdentity a :=
  ⟨fun w _ _ _ heq => absurd heq (hcopy w), hblank, fun w _ _ heq => absurd heq (hcopy w)⟩

/-- No slot has an identity in it. -/
private def Blank (s : Server) : Prop :=
  ∀ i, (s.table i).usrhashId.str = [] ∧ (s.table i).passwd.str = []

/-- Only a handler's `strncpy` brings an identity into the table. -/
private theorem Blank.step {a : Action} (h : s.Blank) (ha : ∀ w, a ≠ .copy w)
    (hs : s.step a = some s') : s'.Blank := by
  have hsame : ∀ t : Server, s.SameIdentity t → t.Blank := fun t ht i =>
    ⟨(ht.strings i .userId).trans (h i).1, (ht.strings i .passwd).trans (h i).2⟩
  obtain hm | hm | hm := (step_moves hs).2
  · cases hm with
    | @fill c i w ws hpc =>
      intro j
      -- The accept thread writes no string of the identity
      obtain ⟨hid, hpw⟩ := w.apply_strings (s.table i)
      by_cases hji : j = i
      · subst hji
        simp only [fillSlot, Function.update_self, hid, hpw]
        exact h j
      · simp only [fillSlot, Function.update_of_ne hji]
        exact h j
    | _ => exact h
  · exact hsame s' hm.sameIdentity
  · cases hm with
    | copy => exact absurd rfl (ha _)
    | _ => exact h

/-- From a blank table, a run in which no handler copies meets the condition. -/
private theorem Blank.meets {as : List Action} (h : s.Blank) (has : ∀ w, .copy w ∉ as) :
    system.Meets OwnIdentity s as := by
  induction as generalizing s with
  | nil => trivial
  | cons a as ih =>
    have ha : ∀ w, a ≠ .copy w := by
      rintro w rfl
      exact has w List.mem_cons_self
    refine ⟨ownIdentity_of_ne ha fun c i ws _ _ => h i, fun t ht => ?_⟩
    exact ih (h.step ha ht) fun w hw => has w (List.mem_cons_of_mem a hw)

/-- A user who logs in shows the identity of that login. -/
theorem identities_own_login :
    ∃ s : Server, system.run (start 0) (loginRun ++ [.copy 0] ++ [.copy 0]) = some s ∧
      s.IdentityOwn 0 := by
  obtain ⟨t, u, s, ht, hu, hs, ⟨htpc, htowner⟩, ⟨hupc, huowner⟩, hid, hfd, -⟩ := exists_login
  have hblank : (start 0).Blank := fun i => ⟨CharArray.str_zero, CharArray.str_zero⟩
  have hreach : Transition.Reach system OwnIdentity t := .run (.init ⟨0, 15, rfl⟩)
    (hblank.meets (by simp [loginRun, acceptRun, fillRun, receiveRun, takeJobRun])) ht
  have huserId : t.OwnUserId (.copy 0) := by
    intro w arg i heq hpc
    cases heq
    cases htpc.symm.trans hpc
  have hpasswd : u.OwnUserId (.copy 0) := by
    intro w arg i heq hpc _ _
    cases heq
    obtain ⟨rfl, rfl, -⟩ := HandlerPc.sendUI.inj (hupc.symm.trans hpc)
    exact hid
  have hnofill : ∀ v : Server, v.BlankSlot (.copy 0) := fun v _ _ _ heq => by cases heq
  refine ⟨s, Transition.System.run_snoc (Transition.System.run_snoc ht hu) hs,
    identities_own (.step (.step hreach ⟨ownSlot_login htpc htowner, hnofill t, huserId⟩ hu)
      ⟨ownSlot_login hupc huowner, hnofill u, hpasswd⟩ hs) 0 ?_⟩
  rw [Table.Occupied, show (s.table 0).connectFd = 5 from hfd]
  decide

set_option maxRecDepth 100000 in
/-- A user logs in and hangs up; the next connection shows the user's identity. -/
theorem identities_own_fails :
    ¬ ∀ s : Server, Transition.Reach system OwnSlot s →
      ∀ i, s.table.Occupied i → s.IdentityOwn i := by
  intro h
  obtain ⟨t, u, s, ht, hu, hs, ⟨htpc, htowner⟩, ⟨hupc, huowner⟩, -⟩ := exists_login
  have hrun : ∃ v : Server, system.run (start 0) ((loginRun ++ [.copy 0] ++ [.copy 0]) ++
      (hangUpRun 5 0 ++ acceptRun { fd := 6, addr := .zero _, port := 80 } 0)) = some v ∧
        v.fdAt 0 = 6 ∧ v.owner 0 = some 1 ∧ v.login .userId 1 = none ∧
        (v.table 0).usrhashId.str = [97] := ⟨_, rfl, rfl, rfl, rfl, rfl⟩
  obtain ⟨v, hv, hfd, howner, hlogin, hid⟩ := hrun
  rw [Transition.System.run_append,
    Transition.System.run_snoc (Transition.System.run_snoc ht hu) hs, Option.bind_some] at hv
  have hreach : Transition.Reach system OwnSlot t :=
    .run (.init ⟨0, 15, rfl⟩)
      (meets_ownSlot (by simp [loginRun, acceptRun, fillRun, receiveRun, takeJobRun]) _) ht
  have hreach : Transition.Reach system OwnSlot s :=
    .step (.step hreach (ownSlot_login htpc htowner) hu) (ownSlot_login hupc huowner) hs
  have hend : Transition.Reach system OwnSlot v :=
    .run hreach (meets_ownSlot (by simp [hangUpRun, acceptRun, fillRun]) _) hv
  obtain ⟨c, hc, hof⟩ := h v hend 0 (by
    rw [Table.Occupied, show (v.table 0).connectFd = 6 from hfd]
    decide)
  obtain rfl := Option.some.inj (howner.symm.trans hc)
  have hstored : (v.table 0).usrhashId.str = (v.login .userId 1).elim [] SendUIField.userId.sent :=
    hof.copied .userId
  rw [hlogin, hid] at hstored
  cases hstored

/-- The condition on slots excludes nothing but violations: a slot that is filled with
    an identity left in it shows that identity for the new connection. -/
theorem identity_left_fails (h : Transition.Reach system OwnSlot s) {c : Client}
    {i : Fin maxEvents} {ws : List SlotWrite}
    (hpc : s.accept = .filling c i (.connectFd c.fd :: ws))
    (hleft : (s.table i).usrhashId.str ≠ [] ∨ (s.table i).passwd.str ≠ [])
    (hs : s.step .fill = some s') : s'.table.Occupied i ∧ ¬ s'.IdentityOwn i := by
  have hnew : s.NewClient c := (idInv_of_reach h).client c (by
    simp only [hpc, AcceptPc.unfilled, List.mem_cons, true_or, ↓reduceIte])
  have hpos := ((netInv_of_reach h).accept.client c (by rw [hpc]; rfl)).2
  have hstep : s' = { s.fillSlot c i (.connectFd c.fd) with accept := .filling c i ws } := by
    obtain hm | hm | hm := (step_moves hs).2
    · cases hm with
      | fill hpc' =>
        obtain ⟨rfl, rfl, hws⟩ := AcceptPc.filling.inj (hpc.symm.trans hpc')
        obtain ⟨rfl, rfl⟩ := List.cons.inj hws
        rfl
    · cases hm
    · cases hm with
      | crash _ ha | move ha => cases ha
  subst hstep
  constructor
  · -- The descriptor of a client is not negative
    simp only [Table.Occupied, fillSlot, Function.update_self, SlotWrite.apply]
    omega
  · -- The client has not logged in, so both strings would have to be empty
    rintro ⟨x, hx, hof⟩
    simp only [fillSlot, Function.update_self, Option.some.injEq] at hx
    subst hx
    have hempty : ∀ field : SendUIField, field.stored (s.table i) = [] := by
      intro field
      have hstored := hof.copied field
      simp only [fillSlot, hnew.login, Function.update_self, SlotWrite.apply,
        Option.elim_none] at hstored
      exact (field.stored_congr rfl rfl).symm.trans hstored
    exact hleft.elim (· (hempty .userId)) (· (hempty .passwd))

/-- The condition on user ids excludes nothing but violations: a SENDUI that is the last to
    store its password, and whose user id is not in the slot of its connection, leaves the
    slot with another user id. -/
theorem mixed_identity_fails {w : Nat} {i : Fin maxEvents}
    (hpc : s.handlers w = .sendUI arg i .passwd) (hparam : s.parameter w ≠ none)
    (howner : s.owner i = some arg.conn)
    (halone : ∀ v arg', v ≠ w → s.handlers v = .sendUI arg' i .passwd → arg'.conn ≠ arg.conn)
    (hne : (s.table i).usrhashId.str ≠ (SendUIMessage.ofBuffer arg.recvBuffer).userId.str)
    (hs : s.step (.copy w) = some s') : ¬ s'.IdentityOwn i := by
  obtain ⟨arg', i', field, hpc', rfl⟩ := copy_step hs
  obtain ⟨rfl, rfl, rfl⟩ := HandlerPc.sendUI.inj (hpc.symm.trans hpc')
  obtain ⟨parameter, hjob⟩ := Option.ne_none_iff_exists'.mp hparam
  simp only [copyStep, hjob, SendUIField.next]
  rintro ⟨c, hc, hof⟩
  obtain rfl : arg.conn = c := Option.some.inj (howner.symm.trans hc)
  -- No other SENDUI of the connection is between its copies
  have hidle : ¬ ((s.storeField arg i .passwd).setHandler w .done).LoggingIn i arg.conn := by
    rintro ⟨v, arg', hv, hconn⟩
    by_cases hvw : v = w
    · simp only [setHandler, hvw, Function.update_self, reduceCtorEq] at hv
    · simp only [setHandler, Function.update_of_ne hvw] at hv
      exact halone v arg' hvw hv hconn
  have hlast := hof.last hidle
  have hstored : (((s.storeField arg i .passwd).setHandler w .done).table i).usrhashId.str =
      (s.table i).usrhashId.str :=
    stored_storeField_of_ne .passwd .userId (.inl (by decide))
  have hlogin : ((s.storeField arg i .passwd).setHandler w .done).login .passwd arg.conn =
      some (.ofBuffer arg.recvBuffer) := login_storeField_self arg i .passwd
  rw [hstored, hlogin] at hlast
  exact hne hlast

end Server

end JQServer
