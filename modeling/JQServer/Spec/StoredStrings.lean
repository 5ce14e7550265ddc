import JQServer.Spec.HandlerMoves
import JQServer.Spec.UserList
import JQServer.Spec.NetInvariant

/-!
# Strings in the connection table

`get_all_users` copies the strings of a slot with `strcpy`, so each has to end within its
field. CMD_SENDUI fills the fields of the user id and of the password with `strncpy`,
which writes no NUL when the message has none. `strings_terminated` holds in every run in
which every field that a SENDUI copies has one; `unterminated_login_fails` says that the
condition excludes nothing but violations.
-/

namespace JQServer

/-- Every string of a slot ends within its field. -/
structure EpollConnect.Terminated (e : EpollConnect) : Prop where
  clientIpAddr : 0 ∈ e.clientIpAddr.bytes
  usrhashId : 0 ∈ e.usrhashId.bytes
  passwd : 0 ∈ e.passwd.bytes

/-- The `strcpy`s to a node copy at most the size of each field. -/
structure JQUserNode.Terminated (n : JQUserNode) : Prop where
  clientIpAddr : n.clientIpAddr.length + 1 ≤ ipAddrLength
  usrhashId : n.usrhashId.length + 1 ≤ 10
  passwd : n.passwd.length + 1 ≤ 7

/-- The nodes of a GETALLUSER_ACK that a handler fills or sends. -/
def HandlerPc.nodes : HandlerPc → List JQUserNode
  | .filling _ _ _ node | .sending _ (.getAllUserAck _ node) _ => node
  | _ => []

/-- The bytes of a field of a message. -/
def SendUIField.bytes (msg : SendUIMessage) : SendUIField → List UInt8
  | .userId => msg.userId.bytes
  | .passwd => msg.passwd.bytes

/-- A NUL in what `strncpy` copies is in what it writes. -/
theorem CharArray.zero_mem_strncpy {n : Nat} {a : CharArray n} :
    0 ∈ (CharArray.strncpy n a.bytes).bytes ↔ 0 ∈ a.bytes := by
  have hstr : (CharArray.strncpy n a.bytes).str = a.str := CharArray.str_strncpy a
  constructor
  · intro h
    have hlt := CharArray.length_str_lt h
    by_contra hno
    rw [hstr, CharArray.str, CString.str_of_zero_notMem hno, a.size_eq] at hlt
    exact absurd hlt (Nat.lt_irrefl n)
  · intro h
    have hlt := CharArray.length_str_lt h
    by_contra hno
    rw [← hstr, CharArray.str, CString.str_of_zero_notMem hno, CharArray.size_eq] at hlt
    exact absurd hlt (Nat.lt_irrefl n)

/-- The node of a slot whose strings end within their fields. -/
theorem EpollConnect.Terminated.node {t : Table} {i : Fin maxEvents} {n : JQUserNode}
    (h : (t i).Terminated) (hn : t.getAllUsersNode i = some n) : n.Terminated := by
  have hid : (t i).usrhashIdStr = (t i).usrhashId.str := CString.str_append_of_mem h.usrhashId _
  unfold Table.getAllUsersNode at hn
  split at hn
  · obtain rfl := Option.some.inj hn
    exact {
      clientIpAddr := CharArray.length_str_lt h.clientIpAddr
      usrhashId := by
        show (t i).usrhashIdStr.length < 10
        rw [hid]
        exact CharArray.length_str_lt h.usrhashId
      passwd := CharArray.length_str_lt h.passwd }
  · cases hn

namespace Server

variable {s s' : Server}

/-- The addresses that `inet_ntoa` returns end within `IP_ADDR_LENGTH`. -/
def AddressTerminated (_ : Server) (a : Action) : Prop :=
  ∀ p, a = .accept (some p) → 0 ∈ p.addr.bytes

/-- A user id or password that a SENDUI copies ends within its field. -/
def LoginTerminated (s : Server) (a : Action) : Prop :=
  ∀ w arg i field, a = .copy w → s.handlers w = .sendUI arg i field →
    0 ∈ field.bytes (.ofBuffer arg.recvBuffer)

/-- Stored strings end within their fields, and so do their copies in a user list. -/
structure StringsTerminated (s : Server) : Prop where
  stored : ∀ i, 0 ∈ (s.table i).usrhashId.bytes ∧ 0 ∈ (s.table i).passwd.bytes
  copied : ∀ i n, s.table.getAllUsersNode i = some n → n.Terminated
  listed : ∀ w, ∀ n ∈ (s.handlers w).nodes, n.Terminated

/-- The invariant: the address of a client that is not in a slot yet ends within its
    field too. -/
structure StringsInv (s : Server) : Prop where
  slots : ∀ i, (s.table i).Terminated
  client : ∀ c, s.accept.client = some c → 0 ∈ c.addr.bytes
  nodes : ∀ w, ∀ n ∈ (s.handlers w).nodes, n.Terminated

/-- The invariant holds at the start. -/
theorem stringsInv_start (t n : Int) : (start t n).StringsInv where
  slots _ := ⟨List.mem_cons_self, List.mem_cons_self, List.mem_cons_self⟩
  client := by rintro _ ⟨⟩
  nodes := by rintro _ _ ⟨⟩

/-- A table with one slot overwritten. -/
private theorem slots_update {t : Table} (h : ∀ i, (t i).Terminated) {i : Fin maxEvents}
    {e : EpollConnect} (he : e.Terminated) (j : Fin maxEvents) :
    (Function.update t i e j).Terminated := by
  by_cases hj : j = i
  · rwa [hj, Function.update_self]
  · rw [Function.update_of_ne hj]
    exact h j

/-- A write of `init_epoll_connect_by_index`. -/
private theorem apply_terminated {e : EpollConnect} (h : e.Terminated) {now : Int} {c : Client}
    (hc : 0 ∈ c.addr.bytes) {w : SlotWrite}
    (hw : w ∈ initEpollConnectByIndex now c.fd c.addr c.port) : (w.apply e).Terminated := by
  have hzero : 0 ∈ (CharArray.zero ipAddrLength).bytes := by decide
  simp only [initEpollConnectByIndex, List.mem_cons, List.not_mem_nil, or_false] at hw
  rcases hw with rfl | rfl | rfl | rfl | rfl | rfl
  · exact ⟨h.clientIpAddr, h.usrhashId, h.passwd⟩
  · exact ⟨hzero, h.usrhashId, h.passwd⟩
  · exact ⟨hc, h.usrhashId, h.passwd⟩
  all_goals exact ⟨h.clientIpAddr, h.usrhashId, h.passwd⟩

/-- Every step keeps the strings of slots terminated. -/
private theorem StringsInv.slots_step {a : Action} (h : s.StringsInv) (hnet : s.NetInv)
    (ha : s.LoginTerminated a) (hs : s.step a = some s') (i : Fin maxEvents) :
    (s'.table i).Terminated := by
  have hslot := h.slots
  -- A slot whose strings are left alone
  have hother : ∀ (j : Fin maxEvents) (e : EpollConnect),
      e.clientIpAddr = (s.table j).clientIpAddr → e.usrhashId = (s.table j).usrhashId →
      e.passwd = (s.table j).passwd → (Function.update s.table j e i).Terminated := by
    intro j e hip hid hpw
    exact slots_update hslot ⟨hip ▸ (hslot j).clientIpAddr, hid ▸ (hslot j).usrhashId,
      hpw ▸ (hslot j).passwd⟩ i
  rcases (step_moves hs).2 with hm | hm | hm
  · cases hm with
    | @fill c j w ws hpc =>
      -- The write is one of those of `init_epoll_connect_by_index` for this client
      obtain ⟨now, hsuf⟩ := hnet.accept.writes c j _ hpc
      exact slots_update hslot (apply_terminated (hslot j) (h.client c (by rw [hpc]; rfl))
        (hsuf.subset List.mem_cons_self)) i
    | _ => exact hslot i
  · cases hm with
    | op _ hop =>
      cases hop with
      | free | freeMatched | updateTime => exact hother _ _ rfl rfl rfl
      | _ => exact hslot i
    | _ => exact hslot i
  · cases hm with
    | @copy w arg j field hpc =>
      -- The condition is about this field
      have hmsg := ha w arg j field rfl hpc
      have hstored : (field.strncpy (s.table j) (.ofBuffer arg.recvBuffer)).Terminated := by
        cases field with
        | userId => exact ⟨(hslot j).clientIpAddr, CharArray.zero_mem_strncpy.mpr hmsg,
            (hslot j).passwd⟩
        | passwd => exact ⟨(hslot j).clientIpAddr, (hslot j).usrhashId,
            CharArray.zero_mem_strncpy.mpr hmsg⟩
      exact slots_update hslot hstored i
    | _ => exact hslot i

/-- Every step keeps the address of the client terminated. -/
private theorem StringsInv.client_step {a : Action} (h : s.StringsInv)
    (ha : s.AddressTerminated a) (hs : s.step a = some s') :
    ∀ c, s'.accept.client = some c → 0 ∈ c.addr.bytes := by
  have hold : ∀ {pc}, s.accept.client = pc → ∀ c, pc = some c → 0 ∈ c.addr.bytes := by
    rintro pc rfl c hc
    exact h.client c hc
  rcases (step_moves hs).2 with hm | hm | hm
  · cases hm with
    -- A new client: its address ends within the field by the condition
    | @accept p =>
      intro c hc
      obtain rfl := Option.some.inj hc
      exact ha p rfl
    -- Where the accept thread goes without a client
    | gate _ hpc => rcases hpc with rfl | rfl <;> rintro _ ⟨⟩
    | acceptError | epollAdd | countAdd | closeFailed => rintro _ ⟨⟩
    | _ hpc => exact hold (by rw [hpc]; rfl)
  · rw [hm.accept_eq]
    exact h.client
  · rw [hm.sameNet.accept]
    exact h.client

/-- Every step keeps the nodes of user lists terminated. -/
private theorem StringsInv.nodes_step {a : Action} (h : s.StringsInv)
    (hs : s.step a = some s') (w : Nat) : ∀ n ∈ (s'.handlers w).nodes, n.Terminated := by
  have hmoves := step_handlers hs w
  have hold := h.nodes w
  generalize s'.handlers w = pc at hmoves
  cases hmoves with
  | same => exact hold
  | leave | skip | lookup | handshake | sendUI | getRemote | getAllUser | other => rintro _ ⟨⟩
  | @copy _ _ field => cases field <;> rintro _ ⟨⟩
  | skipUser hpc => rwa [hpc] at hold
  | fillUser hpc hn =>
    rw [hpc] at hold
    intro n hmem
    rcases List.mem_append.mp hmem with hmem | hmem
    · exact hold n hmem
    · rw [List.mem_singleton.mp hmem]
      exact (h.slots _).node hn
  -- A sent part leaves the reply as it is
  | filled hpc => rwa [hpc] at hold
  | @write arg reply n r hpc =>
    rw [hpc] at hold
    cases sendBufferStep n r with
    | none => rintro _ ⟨⟩
    | some n' =>
      have hnodes : (HandlerPc.sending arg reply n').nodes =
          (HandlerPc.sending arg reply n).nodes := by cases reply <;> rfl
      rw [Option.elim_some, hnodes]
      exact hold

/-- Stored strings end within their fields, in every run in which the user ids and the
    passwords that SENDUIs copy do, and every address. -/
theorem strings_terminated (h : Transition.Reach system
    (fun s a => s.AddressTerminated a ∧ s.LoginTerminated a) s) : s.StringsTerminated := by
  have hinv : s.StringsInv := by
    refine h.invariant ?_ fun s a s' hr hinv ha hs => ?_
    · rintro s ⟨t, n, rfl⟩
      exact stringsInv_start t n
    · exact ⟨hinv.slots_step (netInv_of_reach hr) ha.2 hs, hinv.client_step ha.1 hs,
        hinv.nodes_step hs⟩
  exact ⟨fun i => ⟨(hinv.slots i).usrhashId, (hinv.slots i).passwd⟩,
    fun i _ hn => (hinv.slots i).node hn, hinv.nodes⟩

/-- The steps that lead to the first copy of a login. -/
private def loginSteps (userId : List UInt8) : List Action :=
  acceptRun { fd := 5, addr := .zero _, port := 80 } 0 ++ receiveRun 5 (sendUIBytes userId) 0 ++
    takeJobRun 0 ++ [.dispatch 0]

/-- The address of the peer in these steps ends within its field. -/
private theorem addressTerminated_of_mem {userId : List UInt8} {a : Action}
    (ha : a ∈ loginSteps userId ++ [.copy 0, .copy 0]) : s.AddressTerminated a := by
  rintro p rfl
  -- Its only `accept` is that of the first client
  have hp : p = { fd := 5, addr := .zero _, port := 80 } := by
    simpa [loginSteps, acceptRun, fillRun, receiveRun, takeJobRun] using ha
  rw [hp]
  exact List.mem_cons_self

/-- The fields of a login as user "a" end within their arrays. -/
private theorem loginTerminated_a {field : SendUIField}
    (hw : s.handlers 0 = .sendUI (.received (sendUIBytes [97]) 5 0) 0 field) :
    s.LoginTerminated (.copy 0) := by
  intro w arg i field' heq hpc
  cases heq
  obtain ⟨rfl, -⟩ := HandlerPc.sendUI.inj (hw.symm.trans hpc)
  cases field' <;> decide

set_option maxRecDepth 100000 in
/-- A login with a short user id keeps the strings of all slots terminated. -/
theorem strings_terminated_login :
    ∃ s : Server, system.run (start 0) (loginSteps [97] ++ [.copy 0] ++ [.copy 0]) = some s ∧
      s.StringsTerminated := by
  have hrun : ∃ t u s : Server, system.run (start 0) (loginSteps [97]) = some t ∧
      system.step t (.copy 0) = some u ∧ system.step u (.copy 0) = some s ∧
      t.handlers 0 = .sendUI (.received (sendUIBytes [97]) 5 0) 0 .userId ∧
      u.handlers 0 = .sendUI (.received (sendUIBytes [97]) 5 0) 0 .passwd :=
    ⟨_, _, _, rfl, rfl, rfl, rfl, rfl⟩
  obtain ⟨t, u, s, ht, hu, hs, hw, hw'⟩ := hrun
  have hreach : Transition.Reach system
      (fun s a => s.AddressTerminated a ∧ s.LoginTerminated a) t := by
    refine .run (.init ⟨0, 15, rfl⟩) (system.meets_of_mem (fun a ha u => ⟨?_, ?_⟩) _) ht
    · exact addressTerminated_of_mem (List.mem_append_left _ ha)
    · rintro w arg i field rfl -
      simp [loginSteps, acceptRun, fillRun, receiveRun, takeJobRun] at ha
  exact ⟨s, Transition.System.run_snoc (Transition.System.run_snoc ht hu) hs,
    strings_terminated (.step (.step hreach ⟨by rintro _ ⟨⟩, loginTerminated_a hw⟩ hu)
      ⟨by rintro _ ⟨⟩, loginTerminated_a hw'⟩ hs)⟩

/-- The steps that lead to a login with a user id of 10 characters. -/
private def longLoginRun : List Action :=
  loginSteps (CString.ascii "abcdefghij") ++ [.copy 0, .copy 0]

set_option maxRecDepth 100000 in
/-- A user id of 10 characters is stored without a NUL. -/
theorem strings_terminated_fails :
    ¬ ∀ s : Server, Transition.Reach system AddressTerminated s → s.StringsTerminated := by
  intro h
  have hrun : ∃ s : Server, system.run (start 0) longLoginRun = some s ∧
      (s.table 0).usrhashId.bytes = CString.ascii "abcdefghij" := ⟨_, rfl, rfl⟩
  obtain ⟨s, hs, hid⟩ := hrun
  have hmeets : system.Meets AddressTerminated (start 0) longLoginRun :=
    system.meets_of_mem (fun _ ha _ => addressTerminated_of_mem ha) _
  have hstored := ((h s (.run (.init ⟨0, 15, rfl⟩) hmeets hs)).stored 0).1
  rw [hid] at hstored
  exact absurd hstored (by decide)

/-- A SENDUI that copies a field which does not end within its array stores it so. -/
theorem unterminated_login_fails {w : Nat} {arg : JobParameter} {i : Fin maxEvents}
    {field : SendUIField} (hpc : s.handlers w = .sendUI arg i field)
    (hparam : s.parameter w ≠ none) (hmsg : 0 ∉ field.bytes (.ofBuffer arg.recvBuffer))
    (hs : s.step (.copy w) = some s') : ¬ s'.StringsTerminated := by
  intro h
  have hslot : s'.table i = field.strncpy (s.table i) (.ofBuffer arg.recvBuffer) := by
    obtain ⟨arg', i', field', hpc', rfl⟩ := copy_step hs
    obtain ⟨rfl, rfl, rfl⟩ := HandlerPc.sendUI.inj (hpc.symm.trans hpc')
    obtain ⟨parameter, hjob⟩ := Option.ne_none_iff_exists'.mp hparam
    simp only [copyStep, hjob, setHandler, storeField, Function.update_self]
  obtain ⟨hid, hpw⟩ := h.stored i
  rw [hslot] at hid hpw
  cases field with
  | userId => exact hmsg (CharArray.zero_mem_strncpy.mp hid)
  | passwd => exact hmsg (CharArray.zero_mem_strncpy.mp hpw)

end Server

end JQServer
