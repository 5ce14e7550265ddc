import JQServer.Spec.ServerMoves

/-!
# The password of GETREMOTE

The branch for GETREMOTE copies the password of the message to `Pass` and never looks at
it again: a slot that is found by its user id is disclosed whatever the password is.

That a reply says nothing of a slot is stated by comparing tables: it is the same whatever
address and port the slot has. So a slot is disclosed if another address or port in it
makes another reply.
-/

namespace JQServer

namespace Table

/-- The table with another address and port in slot `i`. -/
def withAddress (t : Table) (i : Fin maxEvents) (ip : CharArray ipAddrLength) (port : Int) :
    Table :=
  Function.update t i { t i with clientIpAddr := ip, clientPort := port }

/-- The slot that `respons_stb_info` finds for the user id of a message. -/
def found (t : Table) (grMsg : GetRemoteMessage) : Option (Fin maxEvents) :=
  t.getMatchedEventIndexByUsrHashId (CharArray.strncpy 10 grMsg.userId.bytes).bytes

/-- The message carries the password that slot `i` stores. -/
def RightPasswd (t : Table) (grMsg : GetRemoteMessage) (i : Fin maxEvents) : Prop :=
  grMsg.passwd.str = (t i).passwd.str

/-- The reply says nothing of the address and the port in slot `i`. -/
def Hides (t : Table) (grMsg : GetRemoteMessage) (i : Fin maxEvents) : Prop :=
  ∀ ip port, responsGetRemote (t.withAddress i ip port) grMsg = responsGetRemote t grMsg

/-- The reply has the flag and the address and the port of slot `i`. -/
def Discloses (t : Table) (grMsg : GetRemoteMessage) (i : Fin maxEvents) : Prop :=
  (responsGetRemote t grMsg).flag = true ∧ ¬ t.Hides grMsg i

/-- Slot `i` is disclosed to messages with its password only, and messages with a wrong one
    are answered alike. -/
structure PasswdGuards (t : Table) (grMsg : GetRemoteMessage) (i : Fin maxEvents) : Prop where
  checked : t.Discloses grMsg i → t.RightPasswd grMsg i
  alike : ∀ grMsg' : GetRemoteMessage, grMsg'.userId = grMsg.userId →
    ¬ t.RightPasswd grMsg i → ¬ t.RightPasswd grMsg' i →
      responsGetRemote t grMsg' = responsGetRemote t grMsg ∧ t.Hides grMsg i

variable {t : Table} {grMsg : GetRemoteMessage} {i j : Fin maxEvents}

/-- The search does not look at addresses. -/
theorem found_withAddress (t : Table) (grMsg : GetRemoteMessage) (i : Fin maxEvents)
    (ip : CharArray ipAddrLength) (port : Int) :
    (t.withAddress i ip port).found grMsg = t.found grMsg := by
  have hid : ∀ j, (t.withAddress i ip port j).usrhashId = (t j).usrhashId := by
    intro j
    by_cases hj : j = i
    · rw [hj, withAddress, Function.update_self]
    · rw [withAddress, Function.update_of_ne hj]
  unfold found getMatchedEventIndexByUsrHashId
  simp only [hid]

/-- The reply to a message for which no slot is found. -/
theorem responsGetRemote_of_none (h : t.found grMsg = none) :
    responsGetRemote t grMsg = {
      flag := false
      info := .snprintf 256 (CString.ascii
        "Not Found client event index,  may be caused by the client being offline") } := by
  unfold found at h
  simp only [responsGetRemote, h]

/-- The reply to a message for which slot `j` is found. -/
theorem responsGetRemote_of_some (h : t.found grMsg = some j) :
    responsGetRemote t grMsg = {
      flag := true
      ip := inetAddr (t j).clientIpAddr.str
      port := (t j).clientPort
      info := .snprintf 256 (CString.ascii "clientIp:" ++ (t j).clientIpAddr.str ++
        CString.ascii " clientPort:" ++ decimal (t j).clientPort) } := by
  unfold found at h
  simp only [responsGetRemote, h]

/-- The reply shows the slot found, and no other one. -/
theorem hides_iff : t.Hides grMsg i ↔ t.found grMsg ≠ some i := by
  constructor
  · intro h hfound
    -- Another port in the slot is sent as well
    have hother := h (t i).clientIpAddr ((t i).clientPort + 1)
    rw [responsGetRemote_of_some hfound,
      responsGetRemote_of_some ((found_withAddress ..).trans hfound)] at hother
    have hport := congrArg GetRemoteAckMessage.port hother
    rw [withAddress, Function.update_self] at hport
    show False
    simp only at hport
    omega
  · intro h ip port
    cases hfound : t.found grMsg with
    | none =>
      rw [responsGetRemote_of_none hfound,
        responsGetRemote_of_none ((found_withAddress ..).trans hfound)]
    | some j =>
      have hji : j ≠ i := fun hji => h (hji ▸ hfound)
      rw [responsGetRemote_of_some hfound,
        responsGetRemote_of_some ((found_withAddress ..).trans hfound), withAddress,
        Function.update_of_ne hji]

/-- The password has no part in the reply. -/
theorem responsGetRemote_passwd {grMsg' : GetRemoteMessage} (h : grMsg'.userId = grMsg.userId) :
    responsGetRemote t grMsg' = responsGetRemote t grMsg := by
  simp only [responsGetRemote, h]

/-- The password guards every slot exactly if it is the one in the slot that is found. -/
theorem passwd_guards_iff (t : Table) (grMsg : GetRemoteMessage) :
    (∀ i, t.PasswdGuards grMsg i) ↔ ∀ i, t.found grMsg = some i → t.RightPasswd grMsg i := by
  constructor
  · intro h i hfound
    have hflag : (responsGetRemote t grMsg).flag = true := by
      rw [responsGetRemote_of_some hfound]
    exact (h i).checked ⟨hflag, fun hhides => hides_iff.mp hhides hfound⟩
  · intro h i
    -- With another password the reply is the same, and it is about the slot found
    refine ⟨fun hd => ?_, fun grMsg' hid hwrong _ => ⟨responsGetRemote_passwd hid, ?_⟩⟩
    · by_contra hwrong
      exact hd.2 (hides_iff.mpr fun hfound => hwrong (h i hfound))
    · exact hides_iff.mpr fun hfound => hwrong (h i hfound)

end Table

namespace Server

/-- The query for the user id "a" with the password "x". -/
private def queryA : GetRemoteMessage where
  userId := .ofBytes 10 [97]
  passwd := .ofBytes 7 [120]

set_option maxRecDepth 100000 in
/-- User "a" has logged in with the password "b", and a query with the password "x" gets the
    port 80 of this user. -/
theorem passwd_guards_fails :
    ¬ ∀ (s : Server) (grMsg : GetRemoteMessage), Transition.Reachable system s →
      ∀ i, s.table.PasswdGuards grMsg i := by
  intro h
  have hrun : ∃ s : Server, system.run (start 0)
      (acceptRun { fd := 5, addr := .zero _, port := 80 } 0 ++
        receiveRun 5 (sendUIBytes ([97] ++ List.replicate 9 0 ++ [98])) 0 ++ takeJobRun 0 ++
          sendUIRun 0) = some s ∧
        s.table.found queryA = some 0 ∧ (s.table 0).passwd.str = [98] := ⟨_, rfl, rfl, rfl⟩
  obtain ⟨s, hs, hfound, hpasswd⟩ := hrun
  have hflag : (responsGetRemote s.table queryA).flag = true := by
    rw [Table.responsGetRemote_of_some hfound]
  -- The slot found is disclosed, so its password would have to be the one of the query
  have hright := (h s queryA (.of_run ⟨0, 15, rfl⟩ hs) 0).checked
    ⟨hflag, fun hhides => Table.hides_iff.mp hhides hfound⟩
  rw [Table.RightPasswd, hpasswd] at hright
  exact absurd hright (by decide)

end Server

end JQServer
