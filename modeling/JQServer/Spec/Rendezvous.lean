import JQServer.Native.ReplyBytes
import JQServer.Spec.HandlerMoves
import JQServer.Spec.PasswordCheck
import JQServer.Spec.PeerAddresses

/-!
# Addresses in the reply to CMD_GETREMOTE

The server keeps the address of a peer as the text that `inet_ntoa` made of it, and the reply
has the number that `inet_addr` makes of this text. `inetAddr_inetNtoa` says that the number
comes back, so that a reply about an occupied slot tells the address and the port of the
connection that occupies it (`getRemote_names_peer`).
-/

namespace JQServer

/-! ### `inet_addr` after `inet_ntoa` -/

/-- `inet_addr` on the text of every byte. -/
private theorem decimal_bytes : ((List.range 256).all fun b =>
    inetNumber (decimal (b : Nat)) == some b && decide ((decimal (b : Nat)).length ≤ 3) &&
      (decimal (b : Nat)).all fun c => decide (48 ≤ c.toNat) && decide (c.toNat ≤ 57)) = true := by
  decide +kernel

/-- The text of a byte is a decimal number of at most three digits. -/
private theorem decimal_byte {b : Nat} (h : b < 256) : inetNumber (decimal (b : Nat)) = some b ∧
    (decimal (b : Nat)).length ≤ 3 ∧ ∀ c ∈ decimal (b : Nat), 48 ≤ c.toNat ∧ c.toNat ≤ 57 := by
  have hb := List.all_eq_true.mp decimal_bytes b (List.mem_range.mpr h)
  simpa only [Bool.and_eq_true, beq_iff_eq, decide_eq_true_eq, List.all_eq_true, and_assoc] using hb

/-- The four bytes of an address. -/
private def octets (addr : Nat) : List Nat :=
  [addr % 256, addr / 0x100 % 256, addr / 0x10000 % 256, addr / 0x1000000 % 256]

private theorem octet_lt {addr b : Nat} (h : b ∈ octets addr) : b < 256 := by
  simp only [octets, List.mem_cons, List.not_mem_nil, or_false] at h
  omega

/-- The address has digits and dots. -/
private theorem mem_inetNtoa {addr : Nat} {c : UInt8} (h : c ∈ inetNtoa addr) :
    c = 46 ∨ 48 ≤ c.toNat ∧ c.toNat ≤ 57 := by
  have hdigit : ∀ b ∈ octets addr, ∀ c ∈ decimal (b : Nat), 48 ≤ c.toNat ∧ c.toNat ≤ 57 :=
    fun b hb => (decimal_byte (octet_lt hb)).2.2
  simp only [octets, List.mem_cons, List.not_mem_nil, or_false, forall_eq_or_imp,
    forall_eq] at hdigit
  simp only [inetNtoa, List.map_cons, List.map_nil, List.intercalate, List.intersperse,
    List.flatten_cons, List.flatten_nil, List.append_nil, List.mem_append, List.mem_singleton] at h
  obtain h | h | h | h | h | h | h := h
  · exact .inr (hdigit.1 c h)
  · exact .inl h
  · exact .inr (hdigit.2.1 c h)
  · exact .inl h
  · exact .inr (hdigit.2.2.1 c h)
  · exact .inl h
  · exact .inr (hdigit.2.2.2 c h)

/-- The text of an address has at most 15 characters. -/
theorem inetNtoa_length (addr : Nat) : (inetNtoa addr).length ≤ 15 := by
  have hlen : ∀ b ∈ octets addr, (decimal (b : Nat)).length ≤ 3 :=
    fun b hb => (decimal_byte (octet_lt hb)).2.1
  simp only [octets, List.mem_cons, List.not_mem_nil, or_false, forall_eq_or_imp,
    forall_eq] at hlen
  simp only [inetNtoa, List.map_cons, List.map_nil, List.intercalate, List.intersperse,
    List.flatten_cons, List.flatten_nil, List.append_nil, List.length_append,
    List.length_singleton]
  omega

/-- `inet_addr` finds the four numbers that `inet_ntoa` has printed. -/
private theorem splitOn_inetNtoa (addr : Nat) :
    ((inetNtoa addr).splitOn 46).mapM inetNumber = some (octets addr) := by
  have hnodot : ∀ l ∈ (octets addr).map fun b : Nat => decimal b, 46 ∉ l := by
    intro l hl hdot
    obtain ⟨b, hb, rfl⟩ := List.mem_map.mp hl
    have hdigit := (decimal_byte (octet_lt hb)).2.2 46 hdot
    exact absurd hdigit.1 (by decide)
  have hsplit : (inetNtoa addr).splitOn 46 = (octets addr).map fun b : Nat => decimal b :=
    List.splitOn_intercalate 46 hnodot (by simp)
  have hnumber : ∀ b ∈ octets addr, inetNumber (decimal (b : Nat)) = some b :=
    fun b hb => (decimal_byte (octet_lt hb)).1
  simp only [octets, List.mem_cons, List.not_mem_nil, or_false, forall_eq_or_imp,
    forall_eq] at hnumber
  rw [hsplit]
  simp only [octets, List.map_cons, List.map_nil, List.mapM_cons, List.mapM_nil, hnumber.1,
    hnumber.2.1, hnumber.2.2.1, hnumber.2.2.2, Option.pure_def, Option.bind_eq_bind,
    Option.bind_some]

/-- The bytes of a number in network byte order. -/
private theorem htonl_octets {a b c d : Nat} (ha : a < 256) (hb : b < 256) (hc : c < 256)
    (hd : d < 256) : htonl (a * 0x1000000 + b * 0x10000 + c * 0x100 + d) =
      a + 256 * b + 0x10000 * c + 0x1000000 * d := by
  unfold htonl
  omega

/-- `inet_addr` takes back what `inet_ntoa` does. -/
theorem inetAddr_inetNtoa {addr : Nat} (h : addr < 0x100000000) :
    inetAddr (inetNtoa addr) = addr := by
  -- `inet_addr` stops at a blank, and there is none
  have hspace : ∀ c ∈ inetNtoa addr, (!(c = 32 || (9 ≤ c && c ≤ 13) : Bool)) = true := by
    intro c hc
    obtain rfl | ⟨hlo, hhi⟩ := mem_inetNtoa hc
    · decide
    · have h32 : c ≠ 32 := by
        intro heq
        rw [heq] at hlo
        exact absurd hlo (by decide)
      have h13 : ¬ c ≤ 13 := by
        intro hle
        have : c.toNat ≤ 13 := UInt8.le_iff_toNat_le.mp hle
        omega
      simp [h32, h13]
  have hwhole : (inetNtoa addr).takeWhile (fun c => !(c = 32 || (9 ≤ c && c ≤ 13))) =
      inetNtoa addr := List.takeWhile_eq_self_iff.mpr hspace
  simp only [inetAddr, hwhole, splitOn_inetNtoa, octets]
  rw [if_pos (by omega), htonl_octets (by omega) (by omega) (by omega) (by omega)]
  omega

/-! ### The reply -/

namespace Server

open Transition

variable {s s' : Server} {r : Nat → Option Peer}

/-- A reply that tells a peer that its slot is found: flag, address and port, in numbers and
    in bytes. -/
structure NamesPeer (msg : GetRemoteAckMessage) (p : Peer) : Prop where
  flag : msg.flag = true
  port : msg.port = p.port
  /-- The address that `inet_ntoa` printed for the peer. -/
  ip : ∀ addr < 0x100000000, p.addr = .ofBytes _ (inetNtoa addr) → msg.ip = addr
  bytes : ∀ garbage addr, addr < 0x100000000 → p.addr = .ofBytes _ (inetNtoa addr) →
    (((Reply.getRemoteAck msg).bytes garbage).drop 12).take 8 = toLE 4 addr ++ toLEInt 4 p.port

/-- The reply about a slot of a peer. -/
theorem namesPeer_of_found {t : Table} {grMsg : GetRemoteMessage} {i : Fin maxEvents} {p : Peer}
    (hfound : t.found grMsg = some i) (hslot : SlotOf (t i) p) :
    NamesPeer (responsGetRemote t grMsg) p := by
  -- The slot stores the text of the address, and the reply its number
  have hip : ∀ addr < 0x100000000, p.addr = .ofBytes _ (inetNtoa addr) →
      (responsGetRemote t grMsg).ip = addr := by
    intro addr hlt haddr
    have hzero : 0 ∉ inetNtoa addr := by
      intro hmem
      obtain h | h := mem_inetNtoa hmem
      · exact absurd h (by decide)
      · exact absurd h.1 (by decide)
    have hstr : (t i).clientIpAddr.str = inetNtoa addr := by
      rw [hslot.addr, haddr]
      exact CharArray.str_ofBytes hzero ((inetNtoa_length addr).trans (by decide))
    simp only [Table.responsGetRemote_of_some hfound, hstr, inetAddr_inetNtoa hlt]
  have hport : (responsGetRemote t grMsg).port = p.port := by
    simp only [Table.responsGetRemote_of_some hfound, hslot.port]
  refine ⟨by rw [Table.responsGetRemote_of_some hfound], hport, hip, ?_⟩
  intro garbage addr hlt haddr
  -- Type, length and flag come first
  have hhead : ∀ bs : List UInt8,
      (toLE 4 (Reply.getRemoteAck (responsGetRemote t grMsg)).iMessageType ++
      toLE 4 (Reply.getRemoteAck (responsGetRemote t grMsg)).iMessageLen ++
      toLE 4 (if (responsGetRemote t grMsg).flag then 1 else 0) ++ bs).drop 12 = bs := by
    intro bs
    apply List.drop_left'
    simp only [List.length_append, toLE_length]
  simp only [Reply.bytes, hip addr hlt haddr, hport, List.append_assoc] at hhead ⊢
  rw [hhead, ← List.append_assoc]
  apply List.take_left'
  rw [List.length_append, toLE_length, toLEInt_length]

/-- A worker that runs CMD_GETREMOTE with its job in memory and finds an occupied slot replies
    with the address and the port of the connection that occupies the slot, in every run. -/
theorem getRemote_names_peer {w : Nat} {arg : JobParameter} {index : Option (Fin maxEvents)}
    {grMsg : GetRemoteMessage} {i : Fin maxEvents} (h : Reachable peers (s, r))
    (hpc : s.handlers w = .matched arg index) (hparam : s.parameter w ≠ none)
    (hcmd : Command.ofBuffer arg.recvBuffer = .getRemote grMsg)
    (hfound : s.table.found grMsg = some i) (hocc : s.table.Occupied i)
    (hs : s.step (.dispatch w) = some s') :
    ∃ conn p msg, s.owner i = some conn ∧ r conn = some p ∧
      s'.handlers w = .sending arg (.getRemoteAck msg) (Reply.getRemoteAck msg).iMessageLen ∧
      NamesPeer msg p := by
  obtain ⟨conn, p, howner, hp, hslot⟩ := peers_recorded h hocc
  exact ⟨conn, p, _, howner, hp, dispatch_getRemote hpc hparam hcmd hs,
    namesPeer_of_found hfound hslot⟩

/-- The client at 127.0.0.1. -/
private def loopbackPeer : Peer where
  fd := 5
  addr := .ofBytes _ (inetNtoa 0x0100007f)
  port := 40000

/-- A CMD_GETREMOTE message for user "a". -/
private def rendezvousRequest : List UInt8 := [0xfd, 0xff, 0, 0, 25, 0, 0, 0, 97]

/-- The client logs in as "a" and asks for the address of "a". -/
private def rendezvousRun : List Action :=
  acceptRun loopbackPeer 0 ++ receiveRun 5 (sendUIBytes [97]) 0 ++ takeJobRun 0 ++ sendUIRun 0 ++
    receiveRun 5 rendezvousRequest 0 ++ takeJobRun 1

set_option maxRecDepth 100000 in
/-- The reply has the address of the client. -/
theorem getRemote_names_peer_loopback :
    ∃ (s : Server) (r : Nat → Option Peer) (s' : Server) (arg : JobParameter)
      (msg : GetRemoteAckMessage) (n : Nat),
      peers.run (start 0, fun _ => none) rendezvousRun = some (s, r) ∧
      s.step (.dispatch 1) = some s' ∧ s'.handlers 1 = .sending arg (.getRemoteAck msg) n ∧
      msg.flag = true ∧ msg.ip = 0x0100007f ∧ msg.port = 40000 := by
  have hrun : ∃ s r s' grMsg, peers.run (start 0, fun _ => none) rendezvousRun = some (s, r) ∧
      s.step (.dispatch 1) = some s' ∧
      s.handlers 1 = .matched (.received rendezvousRequest 5 0) (some 0) ∧
      s.parameter 1 = some (.received rendezvousRequest 5 0) ∧
      Command.ofBuffer (JobParameter.received rendezvousRequest 5 0).recvBuffer = .getRemote grMsg ∧
      s.table.found grMsg = some 0 ∧ (s.table 0).connectFd = 5 ∧ s.owner 0 = some 0 ∧
      r 0 = some loopbackPeer := ⟨_, _, _, _, rfl, rfl, rfl, rfl, rfl, rfl, rfl, rfl, rfl⟩
  obtain ⟨s, r, s', grMsg, hr, hs, hpc, hjob, hcmd, hfound, hfd, howner, hpeer⟩ := hrun
  have hocc : s.table.Occupied 0 := by
    rw [Table.Occupied, hfd]
    decide
  obtain ⟨conn, p, msg, hconn, hp, hsending, hnames⟩ :=
    getRemote_names_peer (.of_run ⟨⟨0, 15, rfl⟩, rfl⟩ hr) hpc (hjob ▸ Option.some_ne_none _) hcmd
      hfound hocc hs
  obtain rfl : 0 = conn := Option.some.inj (howner.symm.trans hconn)
  obtain rfl : loopbackPeer = p := Option.some.inj (hpeer.symm.trans hp)
  exact ⟨s, r, s', _, msg, _, hr, hs, hsending, hnames.flag,
    hnames.ip 0x0100007f (by decide) rfl, hnames.port⟩

end Server

end JQServer
