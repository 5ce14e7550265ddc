import JQServer.Spec.LinuxPackets
import JQServer.Spec.LoginLookup

/-!
# Which clients find each other

The two clients lay out their messages differently, and the server reads both the same way. It
compares 9 characters of what it takes for the user id. For the Windows client this is the user
id; for the Linux client it is the end of the user id and the start of the password. So a login
of any client answers the queries of any client for which these characters are the same, and no
others (`clients_meet_iff`).
-/

namespace JQServer

/-- A user as one of the clients sends it, in a login or in a query. -/
inductive ClientUser where
  | win32 (userId : CStr 10) (passwd : CStr 7)
  | linux (userId : Chars 9) (passwd : Chars 6)

namespace ClientUser

/-- The login that the client sends. -/
def sendUIBytes : ClientUser → List UInt8
  | win32 userId passwd => (Packet.sendUI userId passwd).bytes
  | linux userId passwd => (LinuxClient.Packet.sendUI userId passwd).bytes

/-- The query that the client sends. -/
def getRemoteBytes : ClientUser → List UInt8
  | win32 userId passwd => (Packet.getRemote userId passwd).bytes
  | linux userId passwd => (LinuxClient.Packet.getRemote userId passwd).bytes

/-- What the server takes for the user id. -/
def readUserId : ClientUser → CharArray 10
  | win32 userId _ => .ofBytes 10 userId.chars
  | linux userId passwd => .ofBytes 10 (userId.chars.drop 4 ++ passwd.chars.take 5)

/-- What the server takes for the password. -/
def readPasswd : ClientUser → CharArray 7
  | win32 _ passwd => .ofBytes 7 passwd.chars
  | linux _ passwd => .ofBytes 7 (passwd.chars.drop 5)

/-- The characters by which the server finds the user. -/
def key : ClientUser → List UInt8
  | win32 userId _ => userId.chars
  | linux userId passwd => userId.chars.drop 4 ++ passwd.chars.take 4

/-- The login is read as a login. -/
theorem ofBuffer_sendUI (user : ClientUser) (fd : Int) (c : Nat) :
    Command.ofBuffer (JobParameter.received user.sendUIBytes fd c).recvBuffer =
      .sendUI { userId := user.readUserId, passwd := user.readPasswd } := by
  cases user with
  | win32 userId passwd => exact (Packet.sendUI userId passwd).ofBuffer_bytes
  | linux userId passwd => exact (LinuxClient.Packet.sendUI userId passwd).ofBuffer_bytes

/-- The query is read as a query, with the same fields. -/
theorem ofBuffer_getRemote (user : ClientUser) (fd : Int) (c : Nat) :
    Command.ofBuffer (JobParameter.received user.getRemoteBytes fd c).recvBuffer =
      .getRemote { userId := user.readUserId, passwd := user.readPasswd } := by
  cases user with
  | win32 userId passwd => exact (Packet.getRemote userId passwd).ofBuffer_bytes
  | linux userId passwd => exact (LinuxClient.Packet.getRemote userId passwd).ofBuffer_bytes

/-- The server compares the first 9 characters of what it takes for the user id. -/
theorem take_readUserId (user : ClientUser) : user.readUserId.str.take 9 = user.key := by
  cases user with
  | win32 userId passwd =>
    rw [readUserId, CharArray.str_ofBytes userId.nulFree (Nat.le_of_lt userId.fits), key,
      List.take_of_length_le (Nat.le_of_lt_succ userId.fits)]
  | linux userId passwd =>
    have hid : (userId.chars.drop 4).length = 5 := by
      rw [List.length_drop, userId.length_eq]
    have hpw : (passwd.chars.take 5).length = 5 := by
      rw [List.length_take, passwd.length_eq]
      rfl
    -- The characters that are read have no NUL among them, so all 10 are the string
    have hnul : 0 ∉ userId.chars.drop 4 ++ passwd.chars.take 5 := by
      intro hmem
      rcases List.mem_append.mp hmem with hmem | hmem
      · exact userId.nulFree (List.mem_of_mem_drop hmem)
      · exact passwd.nulFree (List.mem_of_mem_take hmem)
    have hlen : (userId.chars.drop 4 ++ passwd.chars.take 5).length ≤ 10 := by
      rw [List.length_append, hid, hpw]
    -- The user id takes 5 of the 9 characters, which leaves 4 of the password
    rw [readUserId, CharArray.str_ofBytes hnul hlen, key, List.take_append,
      List.take_of_length_le (by omega), hid, List.take_take]
    rfl

end ClientUser

namespace Server

open Transition

variable {s' : Server} {i : Fin maxEvents}

/-- After a login of `user` has copied its user id to slot `i`, and until another SENDUI copies
    one to this slot, in every run, a query for `other` matches the slot exactly if the two have
    the same key; and then it is answered about this slot or a lower one. -/
theorem clients_meet_iff {x x₁ x₂ : Server × (Nat → Option Peer)} {user other : ClientUser}
    {w w' : Nat} {fd fd' : Int} {c c' : Nat} {index : Option (Fin maxEvents)} {as : List Action}
    (h : Reachable peers x)
    (hlogin : x.1.handlers w = .sendUI (.received user.sendUIBytes fd c) i .userId)
    (hparam : x.1.parameter w ≠ none) (hs : peers.step x (.copy w) = some x₁)
    (hkeep : peers.Meets (fun y a => ¬ y.1.CopiesUserId i a) x₁ as)
    (hr : peers.run x₁ as = some x₂)
    (hquery : x₂.1.handlers w' = .matched (.received other.getRemoteBytes fd' c') index)
    (hparam' : x₂.1.parameter w' ≠ none)
    (hs' : x₂.1.step (.dispatch w') = some s') :
    (CString.strncmp 9 (x₂.1.table i).usrhashId.bytes
        (CharArray.strncpy 10 other.readUserId.bytes).bytes = 0 ↔ user.key = other.key) ∧
      (user.key = other.key → Answered x₂ s' w' i other.key) := by
  have hstored := usrhashId_of_login hlogin hparam (user.ofBuffer_sendUI fd c) hs hkeep hr
  have hreach : Reachable peers x₂ :=
    Reach.run (.step h trivial hs) (peers.meets_of_mem (fun _ _ _ => trivial) x₁) hr
  let grMsg : GetRemoteMessage := { userId := other.readUserId, passwd := other.readPasswd }
  have hkey : grMsg.userId.str.take 9 = other.key := other.take_readUserId
  -- What the slot stores since the login, and what the query is compared with
  have hmatch : x₂.1.StoresId i other.key ↔ user.key = other.key := by
    rw [StoresId, hstored, user.take_readUserId]
  constructor
  · rw [← hmatch, ← hkey]
    exact storesId_iff_match grMsg i
  · intro heq
    have hstores := hmatch.mpr heq
    rw [← hkey] at hstores ⊢
    exact answered_of_storesId hreach hstores hquery hparam' (other.ofBuffer_getRemote fd' c') hs'

/-- The strings that the Linux client sends. -/
private def linuxUserId : List UInt8 := CString.ascii "123456798"
private def linuxPasswd : List UInt8 := CString.ascii "WiGeWd"

/-- The user of the Linux client. -/
private def linuxUser : ClientUser :=
  .linux ⟨linuxUserId, by decide, by decide⟩ ⟨linuxPasswd, by decide, by decide⟩

/-- The user id under which a Windows client finds it. -/
private def linuxKey : ClientUser :=
  .win32 ⟨CString.ascii "56798WiGe", by decide, by decide⟩ passwdB

/-- The Linux client connects from 127.0.0.1. -/
private def linuxPeer : Peer where
  fd := 5
  addr := .ofBytes _ (inetNtoa 0x0100007f)
  port := 40000

/-- The steps up to the first `strncpy` of its login, behind which a Windows client connects. -/
private def linuxLoginRun : List Action :=
  acceptRun linuxPeer 0 ++ acceptRun { fd := 6, addr := .zero _, port := 80 } 0 ++
    receiveRun 5 linuxUser.sendUIBytes 0 ++ takeJobRun 0 ++ [.dispatch 0]

/-- The steps from there to the query of the Windows client. -/
private def linuxQueryRun : List Action :=
  .copy 0 :: (receiveRun 6 linuxKey.getRemoteBytes 0 ++ takeJobRun 1)

set_option maxRecDepth 100000 in
/-- The Windows client is told the address of the Linux client. -/
theorem clients_meet_linux : ∃ (x x₁ x₂ : Server × (Nat → Option Peer)) (s' : Server),
    peers.run (start 0, fun _ => none) linuxLoginRun = some x ∧
      peers.step x (.copy 0) = some x₁ ∧ peers.run x₁ linuxQueryRun = some x₂ ∧
      x₂.1.step (.dispatch 1) = some s' ∧ linuxUser.key = linuxKey.key ∧
      Answered x₂ s' 1 0 linuxKey.key := by
  have hrun : ∃ (x x₁ x₂ : Server × (Nat → Option Peer)) (s' : Server),
      peers.run (start 0, fun _ => none) linuxLoginRun = some x ∧
      x.1.handlers 0 = .sendUI (.received linuxUser.sendUIBytes 5 0) 0 .userId ∧
      x.1.parameter 0 = some (.received linuxUser.sendUIBytes 5 0) ∧
      peers.step x (.copy 0) = some x₁ ∧ peers.run x₁ linuxQueryRun = some x₂ ∧
      x₂.1.handlers 1 = .matched (.received linuxKey.getRemoteBytes 6 1) (some 1) ∧
      x₂.1.parameter 1 = some (.received linuxKey.getRemoteBytes 6 1) ∧
      x₂.1.step (.dispatch 1) = some s' ∧
      x₁.1.handlers 0 = .sendUI (.received linuxUser.sendUIBytes 5 0) 0 .passwd :=
    ⟨_, _, _, _, rfl, rfl, rfl, rfl, rfl, rfl, rfl, rfl, rfl⟩
  obtain ⟨x, x₁, x₂, s', hr, hlogin, hjob, hs, hr', hquery, hjob', hs', hpasswd⟩ := hrun
  have hkeep : peers.Meets (fun y a => ¬ y.1.CopiesUserId 0 a) x₁ linuxQueryRun := by
    -- The only `strncpy` of the run is that of the password
    have hno : ∀ w, .copy w ∉ receiveRun 6 linuxKey.getRemoteBytes 0 ++ takeJobRun 1 := by
      simp [receiveRun, takeJobRun]
    refine ⟨?_, fun y _ => peers.meets_of_mem (fun a ha z => ?_) y⟩
    · rintro ⟨w, arg, hcopy, hpc⟩
      cases hcopy
      cases hpasswd.symm.trans hpc
    · rintro ⟨w, -, rfl, -⟩
      exact hno w ha
  have hkey : linuxUser.key = linuxKey.key := by decide
  have hmeet := clients_meet_iff (.of_run ⟨⟨0, 15, rfl⟩, rfl⟩ hr) hlogin
    (hjob ▸ Option.some_ne_none _) hs hkeep hr' hquery (hjob' ▸ Option.some_ne_none _) hs'
  exact ⟨x, x₁, x₂, s', hr, hs, hr', hs', hkey, hmeet.2 hkey⟩

end Server

end JQServer
