import JQServer.Native.ClientPackets

/-!
# Packets of the Linux client (`client_test/JQClient.c`)

`connect_to_g_net` builds its packets in place: a command word and the payload right after
it. The constants are the file's own.
-/

namespace JQServer

/-- Exactly `n` characters. -/
structure Chars (n : Nat) where
  chars : List UInt8
  nulFree : 0 ∉ chars
  length_eq : chars.length = n

namespace LinuxClient

def cmdSendUI : Nat := 0xfffe
def cmdGetRemote : Nat := 0xfffd
def cmdHandshake : Nat := 0xfffc

/-- The handshake. The greeting and its NUL fit in `send_buffer`. -/
def handshakePkt (greets : CStr 1020) : List UInt8 :=
  let sendBuffer := List.replicate 1024 0
  let sendBuffer := store sendBuffer 0 (toLE 4 cmdHandshake)
  let curDptr := 4
  let sendBuffer := store sendBuffer curDptr greets.chars
  let curDptr := curDptr + greets.chars.length
  let sendBuffer := store sendBuffer curDptr [0]
  sendBuffer.take (curDptr + 1)

/-- The login and the query, which differ in the command only. -/
def userPkt (cmd : Nat) (userId : Chars 9) (passwd : Chars 6) : List UInt8 :=
  let sendBuffer := List.replicate 1024 0
  let sendBuffer := store sendBuffer 0 (toLE 4 cmd)
  let curDptr := 4
  let sendBuffer := store sendBuffer curDptr (userId.chars ++ [0])
  let curDptr := curDptr + 9
  let sendBuffer := store sendBuffer curDptr (passwd.chars ++ [0])
  let curDptr := curDptr + 6
  let sendBuffer := store sendBuffer curDptr [0]
  sendBuffer.take (curDptr + 1)

/-- A packet that the client sends. -/
inductive Packet where
  | handshake (greets : CStr 1020)
  | sendUI (userId : Chars 9) (passwd : Chars 6)
  | getRemote (userId : Chars 9) (passwd : Chars 6)

/-- The bytes that are sent. -/
def Packet.bytes : Packet → List UInt8
  | handshake greets => handshakePkt greets
  | sendUI userId passwd => userPkt cmdSendUI userId passwd
  | getRemote userId passwd => userPkt cmdGetRemote userId passwd

end LinuxClient

end JQServer
