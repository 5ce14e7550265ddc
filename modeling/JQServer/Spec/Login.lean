import JQServer.Spec.Framing
import JQServer.Spec.Identity

/-!
# Login and query

The packets that the client builds, taken to the table and back: a login is stored in
the slot of its descriptor, and a query for the same user id is answered from the table.

`get_matched_event_index_by_UsrHashId` compares 9 characters, and a user id fills its
field of 10 when it comes without a NUL. So the slot found is the lowest whose user id
starts with the one asked for, which `login_round_trip` compares with the lowest whose
user id equals it.
-/

namespace JQServer

namespace Table

/-- Slot `j` stores the user id `u` once slot `i` does. -/
def HasId (t : Table) (i : Fin maxEvents) (u : List UInt8) (j : Fin maxEvents) : Prop :=
  j = i ∨ (t j).usrhashId.str = u

/-- Slot `j` is found for the user id `u` once slot `i` stores it. -/
def MatchesId (t : Table) (i : Fin maxEvents) (u : List UInt8) (j : Fin maxEvents) : Prop :=
  j = i ∨ (t j).usrhashId.str.take 9 = u

/-- The lowest slot found for the user id `u` has the address and the port of the lowest
    slot that stores it, once slot `i` does. -/
def LowestAgree (t : Table) (i : Fin maxEvents) (u : List UInt8) : Prop :=
  ∀ k j, t.MatchesId i u k → (∀ l < k, ¬ t.MatchesId i u l) →
    t.HasId i u j → (∀ l < j, ¬ t.HasId i u l) →
      inetAddr (t k).clientIpAddr.str = inetAddr (t j).clientIpAddr.str ∧
        (t k).clientPort = (t j).clientPort

end Table

namespace Server

/-- Both copies of CMD_SENDUI, to slot `i`. -/
def storeFields (s : Server) (w : Nat) (arg : JobParameter) (i : Fin maxEvents) : Server :=
  ((s.storeField arg i .userId).storeField arg i .passwd).setHandler w .done

/-- `respons_stb_info` up to its reply, with no step of another thread in it. -/
def responsStbInfo (s : Server) (w : Nat) (arg : JobParameter) : Server :=
  if arg.fd = -1 then s.setHandler w .done
  else
    let index := s.table.getMatchedEventIndexByFd arg.fd
    match Command.ofBuffer arg.recvBuffer, index with
    | .sendUI _, some i => s.storeFields w arg i
    | .sendUI _, none | .handshake _, _ | .getRemote _, _ | .getAllUser, _ | .other _, _ =>
      s.switchMessageType w arg index

/-- The server after worker `w` has run the job of a packet up to its reply. -/
def handled (s : Server) (w : Nat) (p : Packet) (fd : Int) (conn : Nat) : Server :=
  s.responsStbInfo w (.received p.bytes fd conn)

/-- The address that a query for the user id `u` has to return. -/
def AddressOf (t : Table) (u : List UInt8) (ack : GetRemoteAckMessage) : Prop :=
  ∃ j, (t j).usrhashId.str = u ∧ (∀ l < j, (t l).usrhashId.str ≠ u) ∧
    ack.ip = inetAddr (t j).clientIpAddr.str ∧ ack.port = (t j).clientPort

/-- A login is stored, a query for it finds the lowest slot that stores it, and a
    greeting is read as it was sent. -/
structure LoginRoundTrip (s : Server) (w : Nat) (userId : CStr 10) (passwd : CStr 7)
    (greets : CStr 504) (fd : Int) (conn : Nat) (i : Fin maxEvents) : Prop where
  storedId : ((s.handled w (.sendUI userId passwd) fd conn).table i).usrhashId.str = userId.chars
  storedPasswd : ((s.handled w (.sendUI userId passwd) fd conn).table i).passwd.str = passwd.chars
  query : ∀ w' passwd' fd' conn', fd' ≠ -1 →
    (∃ k, ((s.handled w (.sendUI userId passwd) fd conn).table k).connectFd = fd') →
    ∃ arg ack n, ((s.handled w (.sendUI userId passwd) fd conn).handled w'
        (.getRemote userId passwd') fd' conn').handlers w' = .sending arg (.getRemoteAck ack) n ∧
      ack.flag = true ∧
      AddressOf (s.handled w (.sendUI userId passwd) fd conn).table userId.chars ack
  greeting : dispatched fd conn [constructHandShakePkt greets] = some [.handshake greets.chars]

variable {s : Server} {w : Nat} {fd : Int} {conn : Nat} {i : Fin maxEvents}

/-- Both copies store the message. -/
theorem storeFields_table (w : Nat) (arg : JobParameter) (i : Fin maxEvents) :
    (s.storeFields w arg i).table = Function.update s.table i
      (responsSendUI (s.table i) (.ofBuffer arg.recvBuffer)) := by
  simp only [storeFields, storeField, setHandler, Function.update_self, Function.update_idem]
  rfl

/-- The search of a handler, and what follows. -/
private theorem run_lookup {arg : JobParameter} (hc : s.crashed = none) (hf : s.pool.fault = false)
    (hw : s.handlers w = .entered) (hjob : s.parameter w = some arg) (hfd : arg.fd ≠ -1)
    (hi : s.table.getMatchedEventIndexByFd arg.fd = some i) (as : List Action) :
    system.run s (.lookup w :: .dispatch w :: as) =
      system.run
        ((s.setHandler w (.matched arg (some i))).switchMessageType w arg (some i)) as := by
  have hlookup : system.step s (.lookup w) = some (s.setHandler w (.matched arg (some i))) := by
    refine (step_lookup hc hf hw hjob).trans ?_
    simp only [lookupStep, hjob, hfd, ↓reduceIte, hi]
  have hparam : (s.setHandler w (.matched arg (some i))).parameter w = some arg := hjob
  have hdispatch : system.step (s.setHandler w (.matched arg (some i))) (.dispatch w) =
      some ((s.setHandler w (.matched arg (some i))).switchMessageType w arg (some i)) := by
    refine (step_dispatch (s := s.setHandler w _) hc hf (setHandler_self ..)).trans ?_
    simp only [dispatchStep, hparam]
  rw [Transition.System.run_cons, hlookup, Option.bind_some, Transition.System.run_cons, hdispatch,
    Option.bind_some]

/-- The steps of the handler before its reply, taken one after the other. -/
theorem run_responsStbInfo {arg : JobParameter} (hc : s.crashed = none)
    (hf : s.pool.fault = false) (hw : s.handlers w = .entered) (hjob : s.parameter w = some arg)
    (hfd : arg.fd ≠ -1) (hi : s.table.getMatchedEventIndexByFd arg.fd = some i) :
    (arg.SendsUI → system.run s (.lookup w :: sendUIRun w) = some (s.responsStbInfo w arg)) ∧
      (¬ arg.SendsUI →
        system.run s [.lookup w, .dispatch w] = some (s.responsStbInfo w arg)) := by
  constructor
  · intro hcmd
    rw [JobParameter.SendsUI] at hcmd
    have hswitch : (s.setHandler w (.matched arg (some i))).switchMessageType w arg (some i) =
        s.setHandler w (.sendUI arg i .userId) := by
      simp only [switchMessageType, hcmd, setHandler, Function.update_idem]
    -- Both fields are copied while the job is in memory
    have huserId : system.step (s.setHandler w (.sendUI arg i .userId)) (.copy w) =
        some ((s.storeField arg i .userId).setHandler w (.sendUI arg i .passwd)) := by
      have hparam : (s.setHandler w (.sendUI arg i .userId)).parameter w = some arg := hjob
      refine (step_copy (s := s.setHandler w _) hc hf (setHandler_self ..)).trans ?_
      simp only [copyStep, hparam]
      simp only [storeField, setHandler, Function.update_idem, SendUIField.next]
    have hpasswd : system.step ((s.storeField arg i .userId).setHandler w (.sendUI arg i .passwd))
        (.copy w) = some (s.storeFields w arg i) := by
      have hparam :
          ((s.storeField arg i .userId).setHandler w (.sendUI arg i .passwd)).parameter w =
            some arg := hjob
      refine (step_copy (s := (s.storeField arg i .userId).setHandler w _) hc hf
        (setHandler_self ..)).trans ?_
      simp only [copyStep, hparam]
      simp only [storeFields, storeField, setHandler, Function.update_idem, SendUIField.next]
    rw [sendUIRun, run_lookup hc hf hw hjob hfd hi, hswitch, Transition.System.run_cons, huserId,
      Option.bind_some, Transition.System.run_cons, hpasswd, Option.bind_some,
      Transition.System.run_nil]
    simp only [responsStbInfo, if_neg hfd, hi, hcmd]
  · intro hcmd
    rw [run_lookup hc hf hw hjob hfd hi, Transition.System.run_nil]
    simp only [responsStbInfo, if_neg hfd, hi, switchMessageType]
    -- The program counter that the search left behind is overwritten
    cases hbuf : Command.ofBuffer arg.recvBuffer with
    | sendUI msg => exact absurd (arg.sendsUI_of_eq hbuf) hcmd
    | handshake => simp only [handshakeStep, setHandler, Function.update_idem]
    | _ => simp only [setHandler, Function.update_idem]

/-- The table after a login in slot `i`. -/
private theorem handled_sendUI (hfd : fd ≠ -1)
    (hi : s.table.getMatchedEventIndexByFd fd = some i) (u : CStr 10) (pw : CStr 7) :
    (s.handled w (.sendUI u pw) fd conn).table = Function.update s.table i
      (responsSendUI (s.table i)
        { userId := .ofBytes 10 u.chars, passwd := .ofBytes 7 pw.chars }) := by
  have hcmd := (Packet.sendUI u pw).ofBuffer_bytes
  have hmsg := SendUIMessage.eq_ofBuffer hcmd
  simp only [handled, responsStbInfo, JobParameter.received, if_neg hfd, hcmd, hi]
  simp only [Packet.command, storeFields_table, ← hmsg]

/-- The reply to a query. -/
private theorem handled_getRemote (hfd : fd ≠ -1) (u : CStr 10) (pw : CStr 7) :
    (s.handled w (.getRemote u pw) fd conn).handlers w =
      .sending (.received (Packet.getRemote u pw).bytes fd conn)
        (.getRemoteAck (responsGetRemote s.table
          { userId := .ofBytes 10 u.chars, passwd := .ofBytes 7 pw.chars }))
        (sizeofStJQMessage + (3 * 4 + 256)) := by
  have hcmd := (Packet.getRemote u pw).ofBuffer_bytes
  simp only [handled, responsStbInfo, JobParameter.received, if_neg hfd, hcmd]
  simp only [switchMessageType, hcmd, Packet.command, setHandler, Function.update_self,
    Reply.iMessageLen]

/-- A user id that the client sends is stored as it is. -/
private theorem str_stored {n : Nat} (x : CStr n) :
    (CharArray.strncpy n (CharArray.ofBytes n x.chars).bytes).str = x.chars := by
  rw [CharArray.str_strncpy, CharArray.str_ofBytes x.nulFree (Nat.le_of_lt x.fits)]

/-- The slot found for a user id is the lowest that matches it, and its address is sent. -/
private theorem responsGetRemote_eq {msg : GetRemoteMessage} (hu : msg.userId.str.length ≤ 9)
    {k : Fin maxEvents} (hk : s.StoresId k msg.userId.str)
    (hlow : ∀ l < k, ¬ s.StoresId l msg.userId.str) :
    (responsGetRemote s.table msg).flag = true ∧
      (responsGetRemote s.table msg).ip = inetAddr (s.table k).clientIpAddr.str ∧
      (responsGetRemote s.table msg).port = (s.table k).clientPort := by
  have hf : s.table.getMatchedEventIndexByUsrHashId
      (CharArray.strncpy 10 msg.userId.bytes).bytes = some k := by
    refine Fin.firstIndex_eq_some_iff.mpr ⟨decide_eq_true ((strncmp_usrhashId hu k).mpr hk), ?_⟩
    intro l hl
    exact decide_eq_false fun h => hlow l hl ((strncmp_usrhashId hu l).mp h)
  simp only [responsGetRemote, hf, and_self]

/-- There is a lowest slot with a property that some slot has. -/
private theorem exists_lowest {P : Fin maxEvents → Prop} [DecidablePred P] (hi : P i) :
    ∃ j, P j ∧ ∀ l < j, ¬ P l := by
  obtain ⟨j, hj⟩ := Fin.exists_firstIndex (p := fun j => decide (P j)) (decide_eq_true hi)
  obtain ⟨hj, hlow⟩ := Fin.firstIndex_eq_some_iff.mp hj
  exact ⟨j, of_decide_eq_true hj, fun l hl => of_decide_eq_false (hlow l hl)⟩

/-- Two lowest slots are the same. -/
private theorem lowest_unique {P : Fin maxEvents → Prop} {j k : Fin maxEvents} (hj : P j)
    (hjlow : ∀ l < j, ¬ P l) (hk : P k) (hklow : ∀ l < k, ¬ P l) : j = k :=
  le_antisymm (le_of_not_gt fun hlt => hjlow k hlt hk) (le_of_not_gt fun hlt => hklow j hlt hj)

/-- The replies to queries after a login in slot `i`, by the table before it. -/
private theorem query_iff {t : Table} {s' : Server} {u : CStr 10}
    (haddr : ∀ j, (s'.table j).clientIpAddr = (t j).clientIpAddr ∧
      (s'.table j).clientPort = (t j).clientPort)
    (hid : ∀ j, (s'.table j).usrhashId.str = u.chars ↔ t.HasId i u.chars j)
    (hmatch : ∀ j, s'.StoresId j u.chars ↔ t.MatchesId i u.chars j)
    (msg : GetRemoteMessage) (hmsg : msg.userId.str = u.chars) :
    (responsGetRemote s'.table msg).flag = true ∧
      AddressOf s'.table u.chars (responsGetRemote s'.table msg) ↔ t.LowestAgree i u.chars := by
  classical
  have hu : msg.userId.str.length ≤ 9 := hmsg ▸ Nat.le_of_lt_succ u.fits
  -- The server finds slot `k`, slot `j` stores the user id
  obtain ⟨k, hk, hklow⟩ := exists_lowest (P := t.MatchesId i u.chars) (.inl rfl)
  obtain ⟨j, hj, hjlow⟩ := exists_lowest (P := t.HasId i u.chars) (.inl rfl)
  obtain ⟨hflag, hip, hport⟩ := responsGetRemote_eq (s := s') (k := k) hu
    (hmsg ▸ (hmatch k).mpr hk) fun l hl h => hklow l hl ((hmatch l).mp (hmsg ▸ h))
  rw [(haddr k).1] at hip
  rw [(haddr k).2] at hport
  constructor
  · rintro ⟨-, j', hj', hjlow', hip', hport'⟩ k₁ j₁ hk₁ hklow₁ hj₁ hjlow₁
    -- The lowest slots are those found above
    obtain rfl := lowest_unique hk₁ hklow₁ hk hklow
    obtain rfl := lowest_unique hj₁ hjlow₁ hj hjlow
    obtain rfl := lowest_unique ((hid j').mp hj')
      (fun l hl h => hjlow' l hl ((hid l).mpr h)) hj hjlow
    rw [(haddr j').1, hip] at hip'
    rw [(haddr j').2, hport] at hport'
    exact ⟨hip', hport'⟩
  · -- They show the same address and port
    intro hagree
    obtain ⟨hip', hport'⟩ := hagree k j hk hklow hj hjlow
    refine ⟨hflag, j, (hid j).mpr hj, fun l hl h => hjlow l hl ((hid l).mp h), ?_, ?_⟩
    · rw [hip, hip', (haddr j).1]
    · rw [hport, hport', (haddr j).2]

/-- A greeting reaches the handler as it was sent, if it fits in the buffer of `dumpInfo`. -/
private theorem greeting_iff (greets : CStr 504) :
    dispatched fd conn [constructHandShakePkt greets] = some [.handshake greets.chars] ↔
      greets.chars.length ≤ 54 := by
  have hlen : (constructHandShakePkt greets).length = 8 + (greets.chars.length + 1) := by
    have h := (Packet.handshake greets).bytes_length
    simpa only [Packet.bytes, Packet.payload, List.length_append, List.length_singleton] using h
  have hfits := greets.fits
  have hcmd : dispatchedCommand (constructHandShakePkt greets) =
      some (.handshake greets.chars) := by
    have h := (Packet.handshake greets).ofBuffer_bytes
    simp only [Packet.bytes, Packet.command] at h
    simp only [dispatchedCommand, h]
  -- The packet fits in the receive buffer, so only `dumpInfo` can fail
  have hbuf : ∀ p ∈ [constructHandShakePkt greets], p.length < bufLen := by
    simp only [List.mem_singleton, forall_eq, hlen, bufLen]
    omega
  rw [dispatched_eq_some_iff fd conn hbuf, List.filterMap_cons_some hcmd, List.filterMap_nil]
  simp only [List.mem_singleton, forall_eq, hlen, and_true]
  omega

/-- What a login in slot `i` changes: its strings, and nothing else in any slot. -/
private theorem handled_slot (w conn : Nat) (hfd : fd ≠ -1)
    (hi : s.table.getMatchedEventIndexByFd fd = some i) (u : CStr 10) (pw : CStr 7)
    (j : Fin maxEvents) :
    ((s.handled w (.sendUI u pw) fd conn).table j).clientIpAddr = (s.table j).clientIpAddr ∧
      ((s.handled w (.sendUI u pw) fd conn).table j).clientPort = (s.table j).clientPort ∧
      ((s.handled w (.sendUI u pw) fd conn).table j).connectFd = (s.table j).connectFd ∧
      (j = i → ((s.handled w (.sendUI u pw) fd conn).table j).usrhashId.str = u.chars ∧
        ((s.handled w (.sendUI u pw) fd conn).table j).passwd.str = pw.chars) ∧
      (j ≠ i → (s.handled w (.sendUI u pw) fd conn).table j = s.table j) := by
  rw [handled_sendUI hfd hi u pw]
  by_cases hj : j = i
  · rw [hj, Function.update_self]
    exact ⟨rfl, rfl, rfl, fun _ => ⟨str_stored u, str_stored pw⟩, fun h => absurd rfl h⟩
  · rw [Function.update_of_ne hj]
    exact ⟨rfl, rfl, rfl, fun h => absurd h hj, fun _ => rfl⟩

/-- The reply to a query after a login in slot `i`. -/
private theorem query_login_iff (w conn : Nat) (hfd : fd ≠ -1)
    (hi : s.table.getMatchedEventIndexByFd fd = some i) (u : CStr 10) (pw : CStr 7)
    (msg : GetRemoteMessage) (hmsg : msg.userId.str = u.chars) :
    (responsGetRemote (s.handled w (.sendUI u pw) fd conn).table msg).flag = true ∧
      AddressOf (s.handled w (.sendUI u pw) fd conn).table u.chars
        (responsGetRemote (s.handled w (.sendUI u pw) fd conn).table msg) ↔
      s.table.LowestAgree i u.chars := by
  have hslot := handled_slot w conn hfd hi u pw
  refine query_iff (fun j => ⟨(hslot j).1, (hslot j).2.1⟩) (fun j => ?_) (fun j => ?_) msg hmsg
  · by_cases hj : j = i
    · exact iff_of_true ((hslot j).2.2.2.1 hj).1 (.inl hj)
    · -- The user ids after the login are those of `HasId`
      rw [(hslot j).2.2.2.2 hj, Table.HasId, or_iff_right hj]
  · -- Those that agree in 9 characters are those of `MatchesId`
    unfold StoresId
    by_cases hj : j = i
    · have hu : u.chars.length ≤ 9 := Nat.le_of_lt_succ u.fits
      refine iff_of_true ?_ (.inl hj)
      rw [((hslot j).2.2.2.1 hj).1, List.take_of_length_le hu]
    · rw [(hslot j).2.2.2.2 hj, Table.MatchesId, or_iff_right hj]

/-- A login in slot `i` is stored, found under its user id and its greeting read, exactly
    if the lowest slot whose user id starts with the one of the login has the address and
    the port of the lowest slot that stores it, and the greeting fits in the buffer of
    `dumpInfo`. -/
theorem login_round_trip (s : Server) (w : Nat) (userId : CStr 10) (passwd : CStr 7)
    (greets : CStr 504) (fd : Int) (conn : Nat) (i : Fin maxEvents) (hfd : fd ≠ -1)
    (hi : s.table.getMatchedEventIndexByFd fd = some i) :
    s.LoginRoundTrip w userId passwd greets fd conn i ↔
      s.table.LowestAgree i userId.chars ∧ greets.chars.length ≤ 54 := by
  have hslot := handled_slot w conn hfd hi userId passwd i
  have hstored := hslot.2.2.2.1 rfl
  have hmsg : (CharArray.ofBytes 10 userId.chars).str = userId.chars :=
    CharArray.str_ofBytes userId.nulFree (Nat.le_of_lt userId.fits)
  have hquery := fun passwd' : CStr 7 => query_login_iff w conn hfd hi userId
    passwd { userId := .ofBytes 10 userId.chars, passwd := .ofBytes 7 passwd'.chars } hmsg
  constructor
  · -- The client itself is connected and may ask
    intro h
    refine ⟨?_, (greeting_iff greets).mp h.greeting⟩
    have hconnected : ((s.handled w (.sendUI userId passwd) fd conn).table i).connectFd = fd :=
      hslot.2.2.1.trans (Table.getMatchedEventIndexByFd_some hi)
    obtain ⟨arg, ack, n, hsend, hack⟩ := h.query w passwd fd conn hfd ⟨i, hconnected⟩
    rw [handled_getRemote hfd] at hsend
    obtain ⟨-, hreply, -⟩ := HandlerPc.sending.inj hsend
    obtain rfl := Reply.getRemoteAck.inj hreply
    exact (hquery passwd).mp hack
  · rintro ⟨hagree, hlen⟩
    exact {
      storedId := hstored.1
      storedPasswd := hstored.2
      query := fun w' passwd' fd' conn' hfd' _ =>
        ⟨_, _, _, handled_getRemote hfd' userId passwd', (hquery passwd').mpr hagree⟩
      greeting := (greeting_iff greets).mpr hlen }

/-- The greeting "hi". -/
private def greetHi : CStr 504 := ⟨[104, 105], by decide, by decide⟩

/-- One client is connected, on descriptor 5. -/
private def oneClient : Server :=
  { start 0 with
    table := Function.update initEpollConnect 0 { initEpollConnect 0 with connectFd := 5 } }

/-- The first user of a server that logs in is found. -/
theorem login_round_trip_first : oneClient.LoginRoundTrip 0 userA passwdB greetHi 5 0 0 := by
  have hfind : oneClient.table.getMatchedEventIndexByFd 5 = some 0 :=
    Fin.firstIndex_eq_some_iff.mpr ⟨rfl, fun j hj => absurd hj (Fin.not_lt_zero j)⟩
  refine (login_round_trip oneClient 0 userA passwdB greetHi 5 0 0 (by decide) hfind).mpr
    ⟨fun k j hk hklow hj hjlow => ?_, by decide⟩
  -- No lower slot than the first has the user id
  have hk0 : k = 0 := by
    by_contra h
    exact hklow 0 (Fin.pos_of_ne_zero h) (.inl rfl)
  have hj0 : j = 0 := by
    by_contra h
    exact hjlow 0 (Fin.pos_of_ne_zero h) (.inl rfl)
  rw [hk0, hj0]
  exact ⟨rfl, rfl⟩

/-- A client on descriptor 4 has sent the user id "abcdefghij", without a NUL; another one
    has connected on descriptor 5. -/
private def longId : Server :=
  { start 0 with
    table := Function.update (Function.update initEpollConnect 0 { initEpollConnect 0 with
        connectFd := 4
        clientPort := 1
        usrhashId := .ofBytes 10 (CString.ascii "abcdefghij") })
      1 { initEpollConnect 0 with
        connectFd := 5
        clientPort := 2 } }

/-- The user id "abcdefghi". -/
private def id9 : CStr 10 := ⟨CString.ascii "abcdefghi", by decide, by decide⟩

set_option maxRecDepth 100000 in
/-- A query for a user id of 9 characters finds a longer one in a lower slot. -/
theorem login_round_trip_fails :
    ¬ ∀ (s : Server) (w : Nat) (userId : CStr 10) (passwd : CStr 7) (greets : CStr 504)
      (fd : Int) (conn : Nat) (i : Fin maxEvents), fd ≠ -1 →
      s.table.getMatchedEventIndexByFd fd = some i → greets.chars.length ≤ 255 →
      s.LoginRoundTrip w userId passwd greets fd conn i := by
  intro h
  have hfind : longId.table.getMatchedEventIndexByFd 5 = some 1 := by
    refine Fin.firstIndex_eq_some_iff.mpr ⟨rfl, fun j hj => ?_⟩
    obtain rfl : j = 0 := Fin.ext (Nat.lt_one_iff.mp hj)
    rfl
  have hslot := handled_slot 0 0 (by decide) hfind id9 passwdB 1
  have hround := h longId 0 id9 passwdB greetHi 5 0 1 (by decide) hfind (by decide)
  obtain ⟨arg, ack, n, hsend, hack⟩ := hround.query 0 passwdB 5 0 (by decide) ⟨1, hslot.2.2.1⟩
  rw [handled_getRemote (by decide)] at hsend
  obtain ⟨-, hreply, -⟩ := HandlerPc.sending.inj hsend
  obtain rfl := Reply.getRemoteAck.inj hreply
  have hagree : longId.table.LowestAgree 1 id9.chars :=
    (query_login_iff 0 0 (by decide) hfind id9 passwdB _ rfl).mp hack
  -- Slot 0 is found, slot 1 stores the user id
  have hport := (hagree 0 1 (.inr rfl) (fun l hl => absurd hl (Fin.not_lt_zero l)) (.inl rfl)
    fun l hl => ?_).2
  · exact absurd hport (by decide)
  · obtain rfl : l = 0 := Fin.ext (Nat.lt_one_iff.mp hl)
    rintro (h01 | hstr)
    · exact absurd h01 (by decide)
    · exact absurd hstr (by decide)

end Server

end JQServer
