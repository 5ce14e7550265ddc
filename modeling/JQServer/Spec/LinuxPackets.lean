import JQServer.Native.LinuxClient

/-!
# What the server reads in the Linux client's packets

The client's header has 4 bytes, the server's has 8, and the client's handshake has the
number that `proto.h` gives to an acknowledgement. So the server takes no handshake for one,
and from a login or a query it reads the string that starts at the fifth character of the
user id, and a password of one character (`Packet.ofBuffer_bytes`).
-/

namespace JQServer.LinuxClient

/-- The server has found the command of the packet, with the same strings. -/
def Packet.ReadAs : Packet → Command → Prop
  | handshake greets, .handshake greetings => greetings = greets.chars
  | sendUI userId passwd, .sendUI msg =>
    msg.userId.str = userId.chars ∧ msg.passwd.str = passwd.chars
  | getRemote userId passwd, .getRemote msg =>
    msg.userId.str = userId.chars ∧ msg.passwd.str = passwd.chars
  | _, _ => False

/-! ### Layout -/

/-- A string that is stored with its NUL where the buffer is still clear. -/
theorem store_str (x y : List UInt8) {n k : Nat} (hk : x.length = k) (hy : y.length < n) :
    store (x ++ List.replicate n 0) k (y ++ [0]) =
      (x ++ y) ++ List.replicate (n - y.length) 0 := by
  have hstore := store_append x (List.replicate n 0) 0 (y ++ [0])
  have hzeros : List.replicate (n - y.length) (0 : UInt8) =
      0 :: List.replicate (n - (y.length + 1)) 0 := by
    rw [← List.replicate_succ]
    congr 1
    omega
  rw [hk, Nat.add_zero, store_replicate, List.length_append, List.length_singleton] at hstore
  rw [hstore, hzeros]
  simp only [List.append_assoc, List.singleton_append]

/-- The command word in the clear buffer. -/
theorem store_cmd (cmd : Nat) : store (List.replicate 1024 0) 0 (toLE 4 cmd) =
    toLE 4 cmd ++ List.replicate 1020 0 := by
  rw [store_replicate, toLE_length]

/-- The last NUL, up to which the buffer is sent. -/
theorem take_nul (x : List UInt8) {n k : Nat} (hk : x.length = k) (hn : 0 < n) :
    (store (x ++ List.replicate n 0) k [0]).take (k + 1) = x ++ [0] := by
  have hstore := store_str x [] hk hn
  obtain ⟨n, rfl⟩ := Nat.exists_eq_succ_of_ne_zero (Nat.ne_of_gt hn)
  rw [List.nil_append, List.append_nil, List.length_nil, Nat.sub_zero] at hstore
  rw [hstore, ← hk, List.take_length_add_append, List.replicate_succ]
  rfl

theorem handshakePkt_eq (greets : CStr 1020) :
    handshakePkt greets = toLE 4 cmdHandshake ++ greets.chars ++ [0] := by
  have hfits := greets.fits
  have hlen : (toLE 4 cmdHandshake).length = 4 := toLE_length ..
  have hgreets := store_append (toLE 4 cmdHandshake) (List.replicate 1020 0) 0 greets.chars
  rw [hlen, Nat.add_zero, store_replicate, ← List.append_assoc] at hgreets
  unfold handshakePkt
  simp only [store_cmd, hgreets]
  apply take_nul
  · rw [List.length_append, hlen]
  · omega

theorem userPkt_eq (cmd : Nat) (userId : Chars 9) (passwd : Chars 6) :
    userPkt cmd userId passwd = toLE 4 cmd ++ userId.chars ++ passwd.chars ++ [0] := by
  have hlen : (toLE 4 cmd).length = 4 := toLE_length ..
  have hid := userId.length_eq
  have hpw := passwd.length_eq
  have hlen' : (toLE 4 cmd ++ userId.chars).length = 13 := by
    rw [List.length_append, hlen, hid]
  -- The password is written over the NUL of the user id
  have hstoreId := store_str (toLE 4 cmd) userId.chars (n := 1020) hlen (by omega)
  have hstorePw := store_str (toLE 4 cmd ++ userId.chars) passwd.chars (n := 1011) hlen'
    (by omega)
  rw [hid] at hstoreId
  rw [hpw] at hstorePw
  unfold userPkt
  simp only [store_cmd, hstoreId, hstorePw]
  apply take_nul
  · rw [List.length_append, hlen', hpw]
  · omega

/-! ### What the server reads -/

/-- The message type is the command word. -/
theorem messageType (cmd : Nat) (payload : List UInt8) :
    leNat ((CharArray.ofBytes 1024 (toLE 4 cmd ++ payload)).field 0 4).bytes = cmd % 256 ^ 4 := by
  have hlen : (toLE 4 cmd).length = 4 := toLE_length ..
  have hbytes : (CharArray.ofBytes 4 (toLE 4 cmd)).bytes = toLE 4 cmd := by
    rw [CharArray.ofBytes_bytes_of_le (Nat.le_of_eq hlen), hlen, Nat.sub_self, List.replicate_zero,
      List.append_nil]
  rw [CharArray.field_ofBytes _ (by omega), List.drop_zero,
    CharArray.ofBytes_append_left (Nat.le_of_eq hlen.symm), hbytes, leNat_toLE]

/-- The user id starts behind 8 bytes, the password behind 18. -/
theorem user_fields (cmd : Nat) (userId : Chars 9) (passwd : Chars 6) :
    (CharArray.ofBytes 1024 (userPkt cmd userId passwd)).field 8 10 =
        .ofBytes 10 (userId.chars.drop 4 ++ passwd.chars.take 5) ∧
      (CharArray.ofBytes 1024 (userPkt cmd userId passwd)).field 18 7 =
        .ofBytes 7 (passwd.chars.drop 5) := by
  have hlen : (toLE 4 cmd).length = 4 := toLE_length ..
  have hid := userId.length_eq
  have hpw := passwd.length_eq
  have hid4 : (toLE 4 cmd ++ userId.chars.take 4).length = 8 := by
    rw [List.length_append, List.length_take, hlen, hid]
    rfl
  have hread : (userId.chars.drop 4 ++ passwd.chars.take 5).length = 10 := by
    rw [List.length_append, List.length_drop, List.length_take, hid, hpw]
    rfl
  -- The server's fields begin in the middle of the client's
  have hsplit : userPkt cmd userId passwd = (toLE 4 cmd ++ userId.chars.take 4) ++
      ((userId.chars.drop 4 ++ passwd.chars.take 5) ++ (passwd.chars.drop 5 ++ [0])) := by
    rw [userPkt_eq]
    simp only [List.append_assoc, List.append_cancel_left_eq]
    rw [← List.append_assoc (userId.chars.take 4), List.take_append_drop,
      ← List.append_assoc (passwd.chars.take 5), List.take_append_drop]
  constructor
  · rw [CharArray.field_ofBytes _ (by omega), hsplit, List.drop_left' hid4,
      CharArray.ofBytes_append_left (Nat.le_of_eq hread.symm)]
  · rw [CharArray.field_ofBytes _ (by omega), hsplit, ← List.append_assoc, List.drop_left',
      CharArray.ofBytes_append_zero]
    rw [List.length_append, hid4, hread]

/-- What the server makes of each packet. -/
theorem Packet.ofBuffer_bytes (p : Packet) :
    Command.ofBuffer (.ofBytes 1024 p.bytes) = match p with
      | handshake _ => .other cmdHandshake
      | sendUI userId passwd => .sendUI {
          userId := .ofBytes 10 (userId.chars.drop 4 ++ passwd.chars.take 5)
          passwd := .ofBytes 7 (passwd.chars.drop 5) }
      | getRemote userId passwd => .getRemote {
          userId := .ofBytes 10 (userId.chars.drop 4 ++ passwd.chars.take 5)
          passwd := .ofBytes 7 (passwd.chars.drop 5) } := by
  cases p with
  | handshake greets =>
    have htype := messageType cmdHandshake (greets.chars ++ [0])
    rw [← List.append_assoc, ← handshakePkt_eq] at htype
    -- 0xfffc is CMD_GETREMOTE_ACK in `proto.h`, and no command
    simp only [Packet.bytes, Command.ofBuffer, htype]
    rfl
  | sendUI userId passwd =>
    have htype := messageType cmdSendUI (userId.chars ++ passwd.chars ++ [0])
    rw [← List.append_assoc, ← List.append_assoc, ← userPkt_eq] at htype
    obtain ⟨hid, hpw⟩ := user_fields cmdSendUI userId passwd
    simp only [Packet.bytes, Command.ofBuffer, SendUIMessage.ofBuffer, htype, sizeofStJQMessage,
      hid, hpw]
    rfl
  | getRemote userId passwd =>
    have htype := messageType cmdGetRemote (userId.chars ++ passwd.chars ++ [0])
    rw [← List.append_assoc, ← List.append_assoc, ← userPkt_eq] at htype
    obtain ⟨hid, hpw⟩ := user_fields cmdGetRemote userId passwd
    simp only [Packet.bytes, Command.ofBuffer, htype, sizeofStJQMessage, hid, hpw]
    rfl

/-- The password that the server reads is the last character of the client's. -/
theorem passwd_ne (passwd : Chars 6) :
    (CharArray.ofBytes 7 (passwd.chars.drop 5)).str ≠ passwd.chars := by
  intro h
  have hlast : (passwd.chars.drop 5).length = 1 := by
    rw [List.length_drop, passwd.length_eq]
  have hnul : 0 ∉ passwd.chars.drop 5 := fun hmem => passwd.nulFree (List.mem_of_mem_drop hmem)
  rw [CharArray.str_ofBytes hnul (by omega)] at h
  rw [h, passwd.length_eq] at hlast
  exact absurd hlast (by decide)

/-- No packet of the Linux client is read as what it says. -/
theorem packet_misread (p : Packet) :
    ¬ p.ReadAs (Command.ofBuffer (.ofBytes 1024 p.bytes)) := by
  intro h
  rw [p.ofBuffer_bytes] at h
  cases p with
  | handshake greets => exact h
  | sendUI userId passwd => exact passwd_ne passwd h.2
  | getRemote userId passwd => exact passwd_ne passwd h.2

/-- The login of the client's own user. -/
def ownLogin : Packet :=
  .sendUI ⟨CString.ascii "123456798", by decide, by decide⟩
    ⟨CString.ascii "WiGeWd", by decide, by decide⟩

theorem packet_misread_login :
    ¬ ∀ p : Packet, p.ReadAs (Command.ofBuffer (.ofBytes 1024 p.bytes)) := by
  intro h
  simp only [Packet.ofBuffer_bytes] at h
  have hpw : (CharArray.ofBytes 7 _).str = CString.ascii "WiGeWd" := (h ownLogin).2
  exact absurd hpw (by decide)

end JQServer.LinuxClient
