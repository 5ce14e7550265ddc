import JQServer.Native.Proto

/-!
# Packets of the client (`Win32ClientTest/Win32ClientTest.cpp`)

The functions that build the packets a client sends. Each clears 512 bytes of the
caller's buffer, stores the header and the strings, and returns the number of bytes to
send; here it returns these bytes. The header files of client and server define the
same messages.
-/

namespace JQServer

/-- A C string that fits in a `char [n]`. -/
structure CStr (n : Nat) where
  chars : List UInt8
  nulFree : 0 ∉ chars
  fits : chars.length < n

/-- The buffer after a store of bytes at an offset. -/
def store (buf : List UInt8) (offset : Nat) (bs : List UInt8) : List UInt8 :=
  buf.take offset ++ bs ++ buf.drop (offset + bs.length)

/-- `ConstructHandShakePkt`. The greeting and its NUL fit in the cleared bytes. -/
def constructHandShakePkt (greets : CStr 504) : List UInt8 :=
  let buf := List.replicate 512 0
  let buf := store buf 0 (toLE 4 cmdHandshake)
  let buf := store buf sizeofStJQMessage greets.chars
  let len := sizeofStJQMessage + greets.chars.length + 1
  (store buf 4 (toLE 4 len)).take len

/-- `ConstructSendUIPkt` and `ConstructGetRemotePkt`, whose messages have the same
    fields. -/
def constructUserPkt (cmd : Nat) (userId : CStr 10) (passwd : CStr 7) : List UInt8 :=
  let buf := List.replicate 512 0
  let buf := store buf 0 (toLE 4 cmd)
  let buf := store buf sizeofStJQMessage (userId.chars ++ [0])
  let buf := store buf (sizeofStJQMessage + 10) (passwd.chars ++ [0])
  let len := sizeofStJQMessage + 17
  (store buf 4 (toLE 4 len)).take len

/-- `ConstructSendUIPkt` -/
def constructSendUIPkt : CStr 10 → CStr 7 → List UInt8 := constructUserPkt cmdSendUI

/-- `ConstructGetRemotePkt` -/
def constructGetRemotePkt : CStr 10 → CStr 7 → List UInt8 := constructUserPkt cmdGetRemote

/-- `ConstructGetAllUserPkt` -/
def constructGetAllUserPkt : List UInt8 :=
  let buf := List.replicate 512 0
  let buf := store buf 0 (toLE 4 cmdGetAllUser)
  let len := sizeofStJQMessage
  (store buf 4 (toLE 4 len)).take len

/-- A packet that a client sends. -/
inductive Packet where
  | handshake (greets : CStr 504)
  | sendUI (userId : CStr 10) (passwd : CStr 7)
  | getRemote (userId : CStr 10) (passwd : CStr 7)
  | getAllUser

namespace Packet

/-- The bytes that are sent. -/
def bytes : Packet → List UInt8
  | handshake greets => constructHandShakePkt greets
  | sendUI userId passwd => constructSendUIPkt userId passwd
  | getRemote userId passwd => constructGetRemotePkt userId passwd
  | getAllUser => constructGetAllUserPkt

/-- The command that the client means. -/
def command : Packet → Command
  | handshake greets => .handshake greets.chars
  | sendUI userId passwd => .sendUI {
      userId := .ofBytes 10 userId.chars
      passwd := .ofBytes 7 passwd.chars }
  | getRemote userId passwd => .getRemote {
      userId := .ofBytes 10 userId.chars
      passwd := .ofBytes 7 passwd.chars }
  | getAllUser => .getAllUser

/-- The low byte of the message type; the next one is 0xff. -/
def lead : Packet → UInt8
  | handshake _ => 0xfb
  | sendUI .. => 0xfe
  | getRemote .. => 0xfd
  | getAllUser => 0xf9

/-- The bytes after the header. -/
def payload : Packet → List UInt8
  | handshake greets => greets.chars ++ [0]
  | sendUI userId passwd | getRemote userId passwd =>
    (CharArray.ofBytes 10 userId.chars).bytes ++ (CharArray.ofBytes 7 passwd.chars).bytes
  | getAllUser => []

end Packet

/-! ### Layout -/

namespace Packet

/-- The header of a packet: its type and its length. -/
def header (p : Packet) : List UInt8 :=
  [p.lead, 0xff, 0, 0] ++ toLE 4 (sizeofStJQMessage + p.payload.length)

@[simp] theorem header_length (p : Packet) : p.header.length = 8 := by
  simp [header]

/-- The payload fits in what the client clears. -/
theorem payload_length_le (p : Packet) : p.payload.length ≤ 504 := by
  cases p with
  | handshake g =>
    have := g.fits
    simp only [payload, List.length_append, List.length_singleton]
    omega
  | sendUI u w | getRemote u w =>
    simp only [payload, List.length_append, CharArray.size_eq]
    omega
  | getAllUser => simp [payload]

end Packet

/-- A store behind a prefix. -/
theorem store_append (as bs : List UInt8) (k : Nat) (x : List UInt8) :
    store (as ++ bs) (as.length + k) x = as ++ store bs k x := by
  simp only [store, List.take_length_add_append, Nat.add_assoc, List.drop_length_add_append,
    List.append_assoc]

/-- The first store into a cleared buffer. -/
theorem store_replicate (n : Nat) (x : List UInt8) :
    store (List.replicate n 0) 0 x = x ++ List.replicate (n - x.length) 0 := by
  simp only [store, List.take_zero, List.nil_append, Nat.zero_add, List.drop_replicate]

/-- The store of the message length into a buffer that holds the type and a body. -/
private theorem packet_layout {t z x : List UInt8} (ht : t.length = 4) (hz : z.length = 4)
    (hx : x.length = 4) (body : List UInt8) (n : Nat) :
    (store (t ++ (z ++ body)) 4 x).take (8 + n) = t ++ x ++ body.take n := by
  have hstore := store_append t (z ++ body) 0 x
  have hover : store (z ++ body) 0 x = x ++ body := by
    simp only [store, List.take_zero, List.nil_append, Nat.zero_add, hx, ← hz, List.drop_left]
  rw [ht, Nat.add_zero, hover] at hstore
  have hlen : 8 + n = (t ++ x).length + n := by rw [List.length_append, ht, hx]
  rw [hstore, ← List.append_assoc, hlen, List.take_length_add_append]

/-- The first store into the cleared buffer. -/
private theorem store_type (cmd : Nat) : store (List.replicate 512 0) 0 (toLE 4 cmd) =
    toLE 4 cmd ++ (List.replicate 4 0 ++ List.replicate 504 0) := by
  rw [store_replicate, toLE_length, List.replicate_append_replicate]

/-- A store into the body of a packet. -/
private theorem store_body {t z : List UInt8} (ht : t.length = 4) (hz : z.length = 4)
    (body : List UInt8) (k : Nat) (x : List UInt8) :
    store (t ++ (z ++ body)) (8 + k) x = t ++ (z ++ store body k x) := by
  have h := store_append (t ++ z) body k x
  have hlen : 8 + k = (t ++ z).length + k := by rw [List.length_append, ht, hz]
  rw [hlen, ← List.append_assoc, h, List.append_assoc]

/-- A string that is stored with its NUL in a cleared body. -/
private theorem strcpy_body (n : Nat) (x : List UInt8) (hx : x.length < n) :
    store (List.replicate n 0) 0 (x ++ [0]) = x ++ List.replicate (n - x.length) 0 := by
  rw [store_replicate, List.append_assoc, List.length_append, List.length_singleton,
    ← List.replicate_one, List.replicate_append_replicate]
  congr 2
  omega

/-- The two strings of a user message. -/
private theorem user_body (u : CStr 10) (w : CStr 7) :
    (store (store (List.replicate 504 0) 0 (u.chars ++ [0])) 10 (w.chars ++ [0])).take 17 =
      (CharArray.ofBytes 10 u.chars).bytes ++ (CharArray.ofBytes 7 w.chars).bytes := by
  have hu := u.fits
  have hw := w.fits
  rw [strcpy_body 504 u.chars (by omega), CharArray.ofBytes_bytes_of_le (Nat.le_of_lt hu),
    CharArray.ofBytes_bytes_of_le (Nat.le_of_lt hw)]
  have hsplit : u.chars ++ List.replicate (504 - u.chars.length) 0 =
      (u.chars ++ List.replicate (10 - u.chars.length) 0) ++ List.replicate 494 (0 : UInt8) := by
    rw [List.append_assoc, List.replicate_append_replicate]
    congr 2
    omega
  have hlen : (u.chars ++ List.replicate (10 - u.chars.length) (0 : UInt8)).length = 10 := by
    rw [List.length_append, List.length_replicate]
    omega
  have hstore := store_append (u.chars ++ List.replicate (10 - u.chars.length) 0)
    (List.replicate 494 0) 0 (w.chars ++ [0])
  rw [hlen] at hstore
  rw [hsplit, hstore, strcpy_body 494 w.chars (by omega)]
  have htake : ∀ x y : List UInt8, (x ++ y).take (x.length + 7) = x ++ y.take 7 :=
    fun _ _ => List.take_length_add_append 7
  have htake := htake (u.chars ++ List.replicate (10 - u.chars.length) 0)
    (w.chars ++ List.replicate (494 - w.chars.length) 0)
  rw [hlen] at htake
  rw [htake, List.take_append, List.take_of_length_le (Nat.le_of_lt hw), List.take_replicate]
  congr 3
  omega

/-- Each function builds the header and the payload. -/
theorem Packet.bytes_eq (p : Packet) : p.bytes = p.header ++ p.payload := by
  have h4 : ∀ x, (toLE 4 x).length = 4 := toLE_length 4
  have hz : (List.replicate 4 (0 : UInt8)).length = 4 := List.length_replicate
  cases p with
  | handshake g =>
    have hg := g.fits
    have hbody : (store (List.replicate 504 0) 0 g.chars).take (g.chars.length + 1) =
        g.chars ++ [0] := by
      have h504 : 504 - g.chars.length = (503 - g.chars.length) + 1 := by omega
      rw [store_replicate, h504, List.replicate_succ, List.take_length_add_append]
      rfl
    have hlayout := packet_layout (h4 cmdHandshake) hz (h4 (8 + (g.chars.length + 1)))
      (store (List.replicate 504 0) 0 g.chars) (g.chars.length + 1)
    have hstore := store_body (h4 cmdHandshake) hz (List.replicate 504 0) 0 g.chars
    simp only [bytes, constructHandShakePkt, store_type, sizeofStJQMessage]
    rw [hstore, Nat.add_assoc, hlayout, hbody]
    simp only [header, payload, lead, sizeofStJQMessage, List.length_append, List.length_singleton]
    rfl
  | sendUI u w | getRemote u w =>
    have hlayout := fun cmd => packet_layout (h4 cmd) hz (h4 25)
      (store (store (List.replicate 504 0) 0 (u.chars ++ [0])) 10 (w.chars ++ [0])) 17
    have hstore := fun cmd => store_body (h4 cmd) hz (List.replicate 504 0) 0 (u.chars ++ [0])
    have hstore' := fun cmd => store_body (h4 cmd) hz
      (store (List.replicate 504 0) 0 (u.chars ++ [0])) 10 (w.chars ++ [0])
    simp only [bytes, constructSendUIPkt, constructGetRemotePkt, constructUserPkt, store_type,
      sizeofStJQMessage]
    rw [hstore, hstore', hlayout, user_body]
    simp only [header, payload, lead, sizeofStJQMessage, List.length_append, CharArray.size_eq]
    rfl
  | getAllUser => rfl

end JQServer
