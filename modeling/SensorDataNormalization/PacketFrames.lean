import SensorDataNormalization.PacketBodies

set_option autoImplicit false

/-! The bodies that the factory returns for whole frames: a link header, an IP header without
options, a UDP or TCP header, and the payload. -/
namespace SensorDataNormalization.PacketFrames
open PythonText PcapRecords PacketBodies

/-! ## Slices of joined bytes -/

theorem bytesAt_append_left {a : Bytes} {j : ℕ} (b : Bytes) (i : ℕ) (h : j ≤ a.length) :
    bytesAt (a ++ b) i j = bytesAt a i j := by
  rw [bytesAt, List.take_append_of_le_length h]
  rfl

theorem bytesAt_append_right (a b : Bytes) (i j : ℕ) :
    bytesAt (a ++ b) (a.length + i) (a.length + j) = bytesAt b i j := by
  unfold bytesAt
  rw [List.take_length_add_append, List.drop_length_add_append]

theorem getElem?_bytesAt (data : Bytes) {i j k : ℕ} (h : i + k < j) :
    (bytesAt data i j)[k]? = data[i + k]? := by
  rw [bytesAt, List.getElem?_drop, List.getElem?_take_of_lt h]

/-! ## Frames -/

inductive LinkType
  | ethernet
  | linuxSll
  | linuxSllV2
  deriving DecidableEq

def LinkType.code : LinkType → ℕ
  | .ethernet => ETHERNET
  | .linuxSll => LINUX_SLL
  | .linuxSllV2 => LINUX_SLL_V2

def LinkType.headerSize : LinkType → ℕ
  | .ethernet => 14
  | .linuxSll => 16
  | .linuxSllV2 => 20

def LinkType.udpClass : LinkType → Bytes → PcapBody
  | .ethernet => udpEthernet
  | .linuxSll => udpLinuxSll
  | .linuxSllV2 => udpLinuxSllV2

def LinkType.tcpClass : LinkType → Bytes → PcapBody
  | .ethernet => tcpEthernet
  | .linuxSll => tcpLinuxSll
  | .linuxSllV2 => tcpLinuxSllV2

/-- A frame of a link type, with an IP header of 20 bytes for a protocol and a header of
`size` bytes for that protocol. -/
structure Frame (link : LinkType) (protocol size : ℕ) where
  linkHeader : Bytes
  ipHeader : Bytes
  header : Bytes
  payload : Bytes
  link_size : linkHeader.length = link.headerSize
  ip_size : ipHeader.length = 20
  ip_protocol : intAt ipHeader 9 10 = protocol
  header_size : header.length = size

namespace Frame
variable {link : LinkType} {protocol size : ℕ} (frame : Frame link protocol size)

def bytes : Bytes :=
  frame.linkHeader ++ (frame.ipHeader ++ (frame.header ++ frame.payload))

def sourceIp : Str := dotted (bytesAt frame.ipHeader 12 16)
def destinationIp : Str := dotted (bytesAt frame.ipHeader 16 20)

theorem bytesAt_ip {i j : ℕ} (h : j ≤ 20) :
    bytesAt frame.bytes (link.headerSize + i) (link.headerSize + j) =
      bytesAt frame.ipHeader i j := by
  have hj : j ≤ frame.ipHeader.length := by rw [frame.ip_size]; exact h
  rw [← frame.link_size, bytes, bytesAt_append_right, bytesAt_append_left _ _ hj]

theorem bytesAt_header {i j : ℕ} (h : j ≤ size) :
    bytesAt frame.bytes (link.headerSize + 20 + i) (link.headerSize + 20 + j) =
      bytesAt frame.header i j := by
  have hj : j ≤ frame.header.length := by rw [frame.header_size]; exact h
  rw [Nat.add_assoc, Nat.add_assoc, ← frame.link_size, bytes, bytesAt_append_right,
    ← frame.ip_size, bytesAt_append_right, bytesAt_append_left _ _ hj]

theorem drop_header (k : ℕ) : frame.bytes.drop (link.headerSize + 20 + k) =
    (frame.header ++ frame.payload).drop k := by
  rw [Nat.add_assoc, ← frame.link_size, bytes, List.drop_length_add_append, ← frame.ip_size,
    List.drop_length_add_append]

theorem drop_payload : frame.bytes.drop (link.headerSize + 20 + size) = frame.payload := by
  rw [frame.drop_header]
  exact List.drop_left' frame.header_size

theorem length : frame.bytes.length = link.headerSize + 20 + size + frame.payload.length := by
  simp only [bytes, List.length_append, frame.link_size, frame.ip_size, frame.header_size]
  omega

/-- The protocol byte is looked for in the right place for every link type. -/
theorem detectProtocol_eq : detectProtocol link.code frame.bytes = some protocol := by
  have hoffset : protocolOffset.lookup link.code = some (link.headerSize + 9) := by
    cases link <;> rfl
  have hbyte : intAt frame.bytes (link.headerSize + 9) (link.headerSize + 9 + 1) = protocol := by
    rw [Nat.add_assoc, intAt, frame.bytesAt_ip (by omega)]
    exact frame.ip_protocol
  rw [detectProtocol, hoffset, Option.map_some, hbyte]

theorem parseBody_eq {parse : Bytes → PcapBody}
    (h : bodyTable.lookup (link.code, protocol) = some parse) (rest : Bytes) :
    parseBody link.code frame.bytes.length (frame.bytes ++ rest) =
      some (some (parse frame.bytes, rest)) := by
  have hlength := frame.length
  have hsize : 0 < link.headerSize := by cases link <;> exact Nat.succ_pos _
  have hbytes : frame.bytes ≠ [] := List.length_pos_iff.mp (by omega)
  rw [parseBody_def, if_neg (by omega), List.take_left, List.drop_left]
  rw [if_neg hbytes, frame.detectProtocol_eq]
  dsimp only
  rw [h, Option.some_or]

end Frame

/-! ## UDP -/

/-- The number that bytes encode in network byte order. -/
def networkOrder (data : Bytes) : ℕ := fromBytesLittle data.reverse

/-- Two bytes are the same number in both orders exactly when they are equal. -/
theorem networkOrder_eq_iff {data : Bytes} (h : data.length = 2) :
    fromBytesLittle data = networkOrder data ↔ data[0]? = data[1]? := by
  obtain ⟨x, y, rfl⟩ := List.length_eq_two.mp h
  have hlittle : fromBytesLittle [x, y] = x.toNat + 256 * (y.toNat + 256 * 0) := rfl
  have hnetwork : networkOrder [x, y] = y.toNat + 256 * (x.toNat + 256 * 0) := rfl
  rw [hlittle, hnetwork]
  change _ ↔ some x = some y
  rw [Option.some.injEq, ← UInt8.toNat_inj]
  omega

abbrev UdpFrame (link : LinkType) := Frame link UDP 8

def UdpDecoded {link : LinkType} (frame : UdpFrame link) (body : PcapBody) : Prop :=
  body = link.udpClass frame.bytes ∧ body.protocol = UDP ∧
    body.sourceIp = frame.sourceIp ∧ body.destinationIp = frame.destinationIp ∧
    body.length = networkOrder (bytesAt frame.header 4 6) ∧
    body.checksum = networkOrder (bytesAt frame.header 6 8) ∧
    body.payload = frame.payload

/-- The two fields read the same from both ends. -/
def Palindromic {link : LinkType} (frame : UdpFrame link) : Prop :=
  frame.header[4]? = frame.header[5]? ∧ frame.header[6]? = frame.header[7]?

section Udp
variable {link : LinkType} (frame : UdpFrame link)

theorem parseBody_udp (rest : Bytes) :
    parseBody link.code frame.bytes.length (frame.bytes ++ rest) =
      some (some (link.udpClass frame.bytes, rest)) := by
  have hclass : bodyTable.lookup (link.code, UDP) = some link.udpClass := by
    cases link <;> rfl
  exact frame.parseBody_eq hclass rest

theorem udpClass_eq : ∃ linkType,
    link.udpClass frame.bytes = udpBody linkType link.headerSize frame.bytes := by
  cases link
  · exact ⟨ETHERNET, rfl⟩
  · exact ⟨LINUX_SLL, rfl⟩
  · exact ⟨LINUX_SLL, rfl⟩

/-- All but the two numbers are what was sent, for every frame. -/
theorem udpDecoded_iff : UdpDecoded frame (link.udpClass frame.bytes) ↔
    fromBytesLittle (bytesAt frame.header 4 6) = networkOrder (bytesAt frame.header 4 6) ∧
      fromBytesLittle (bytesAt frame.header 6 8) = networkOrder (bytesAt frame.header 6 8) := by
  obtain ⟨linkType, hclass⟩ := udpClass_eq frame
  have hprotocol : (link.udpClass frame.bytes).protocol = UDP := by
    rw [hclass]
    exact (congrArg fromBytesLittle (frame.bytesAt_ip (by omega))).trans frame.ip_protocol
  have hsource : (link.udpClass frame.bytes).sourceIp = frame.sourceIp := by
    rw [hclass]
    exact congrArg dotted (frame.bytesAt_ip (by omega))
  have hdestination : (link.udpClass frame.bytes).destinationIp = frame.destinationIp := by
    rw [hclass]
    exact congrArg dotted (frame.bytesAt_ip (by omega))
  have hpayload : (link.udpClass frame.bytes).payload = frame.payload := by
    rw [hclass]
    exact frame.drop_payload
  have hlength : (link.udpClass frame.bytes).length =
      fromBytesLittle (bytesAt frame.header 4 6) := by
    rw [hclass]
    exact congrArg fromBytesLittle (frame.bytesAt_header (by omega))
  have hchecksum : (link.udpClass frame.bytes).checksum =
      fromBytesLittle (bytesAt frame.header 6 8) := by
    rw [hclass]
    exact congrArg fromBytesLittle (frame.bytesAt_header (by omega))
  rw [UdpDecoded, hprotocol, hsource, hdestination, hpayload, hlength, hchecksum]
  constructor
  · exact fun h => ⟨h.2.2.2.2.1, h.2.2.2.2.2.1⟩
  · exact fun h => ⟨rfl, rfl, rfl, rfl, h.1, h.2, rfl⟩

/-- A UDP frame is decoded to what was sent exactly when the length and the checksum are both
made of two equal bytes: the code reads them with the low byte first. -/
theorem udp_decoded_iff (rest : Bytes) :
    (∃ body, parseBody link.code frame.bytes.length (frame.bytes ++ rest) =
      some (some (body, rest)) ∧ UdpDecoded frame body) ↔ Palindromic frame := by
  have hfield : ∀ i, i + 2 ≤ 8 → (fromBytesLittle (bytesAt frame.header i (i + 2)) =
      networkOrder (bytesAt frame.header i (i + 2)) ↔
        frame.header[i]? = frame.header[i + 1]?) := by
    intro i hi
    have hlength : (bytesAt frame.header i (i + 2)).length = 2 := by
      rw [bytesAt, List.length_drop, List.length_take, frame.header_size]
      omega
    rw [networkOrder_eq_iff hlength, getElem?_bytesAt _ (by omega),
      getElem?_bytesAt _ (by omega), Nat.add_zero]
  have hdecoded := udpDecoded_iff frame
  rw [hfield 4 (by omega), hfield 6 (by omega)] at hdecoded
  rw [parseBody_udp frame rest, Palindromic, ← hdecoded]
  constructor
  · rintro ⟨body, hparse, hbody⟩
    cases hparse
    exact hbody
  · exact fun h => ⟨_, rfl, h⟩

end Udp

def ipHeaderOf (protocol : UInt8) : Bytes :=
  [69, 0, 0, 0, 0, 0, 0, 0, 64, protocol, 0, 0, 10, 0, 0, 1, 10, 0, 0, 2]

def oneByteDatagram : UdpFrame .ethernet where
  linkHeader := List.replicate 14 0
  ipHeader := ipHeaderOf 17
  header := [0, 53, 0, 53, 0, 9, 0, 0]
  payload := [7]
  link_size := rfl
  ip_size := rfl
  ip_protocol := rfl
  header_size := rfl

/-- Its length is 9, and is read as 2304. -/
theorem oneByteDatagram_not_decoded :
    networkOrder (bytesAt oneByteDatagram.header 4 6) = 8 + oneByteDatagram.payload.length ∧
    ∃ body, parseBody LinkType.ethernet.code oneByteDatagram.bytes.length oneByteDatagram.bytes =
      some (some (body, [])) ∧ body.length = 2304 ∧ ¬ UdpDecoded oneByteDatagram body := by
  have hparse := parseBody_udp oneByteDatagram []
  rw [List.append_nil] at hparse
  refine ⟨by decide, _, hparse, by decide, ?_⟩
  rw [udpDecoded_iff]
  decide

/-! ## TCP -/

abbrev TcpFrame (link : LinkType) := Frame link TCP 32

def flagBit {link : LinkType} (frame : TcpFrame link) (mask : ℕ) : ℕ :=
  if intAt frame.header 13 14 &&& mask = 0 then 0 else 1

def TcpDecoded {link : LinkType} (frame : TcpFrame link) (body : PcapBody) : Prop :=
  body.protocol = TCP ∧ body.sourceIp = frame.sourceIp ∧
    body.destinationIp = frame.destinationIp ∧
    body.flags.map TcpFlags.ack = some (flagBit frame 16) ∧
    body.flags.map TcpFlags.psh = some (flagBit frame 8) ∧
    body.payload = frame.payload

/-- How many bytes too early the TCP class of a link type looks for the IP header and for the
payload. -/
def LinkType.tcpShift : LinkType → ℕ
  | .ethernet => 0
  | .linuxSll => 0
  | .linuxSllV2 => 4

section Tcp
variable {link : LinkType} (frame : TcpFrame link)

theorem parseBody_tcp (rest : Bytes) :
    parseBody link.code frame.bytes.length (frame.bytes ++ rest) =
      some (some (link.tcpClass frame.bytes, rest)) := by
  have hclass : bodyTable.lookup (link.code, TCP) = some link.tcpClass := by
    cases link <;> rfl
  exact frame.parseBody_eq hclass rest

theorem tcpClass_eq : ∃ linkType flagsOffset checksumOffset lengthOffset,
    link.tcpClass frame.bytes = tcpBody linkType (link.headerSize - link.tcpShift) flagsOffset
      checksumOffset lengthOffset frame.bytes := by
  cases link
  · exact ⟨ETHERNET, 46, 50, 57, rfl⟩
  · exact ⟨LINUX_SLL, 48, 52, 59, rfl⟩
  · exact ⟨LINUX_SLL, 52, 56, 63, rfl⟩

theorem tcpShift_le : link.tcpShift ≤ 4 ∧ link.tcpShift ≤ link.headerSize := by
  cases link <;> decide

/-- Every field is read `tcpShift` bytes before its place. -/
theorem bytesAt_shifted {i j : ℕ} (hi : 4 ≤ i) (hj : j ≤ 20) (hij : i ≤ j) :
    bytesAt frame.bytes (link.headerSize - link.tcpShift + i)
      (link.headerSize - link.tcpShift + j) =
        bytesAt frame.ipHeader (i - link.tcpShift) (j - link.tcpShift) := by
  obtain ⟨hshift, hsize⟩ := @tcpShift_le link
  have hmove : ∀ k, 4 ≤ k → link.headerSize - link.tcpShift + k =
      link.headerSize + (k - link.tcpShift) := by
    intro k hk
    omega
  rw [hmove i hi, hmove j (by omega), frame.bytesAt_ip (by omega)]

theorem payload_shifted : frame.bytes.drop (link.headerSize - link.tcpShift + 20 + 32) =
    frame.header.drop (32 - link.tcpShift) ++ frame.payload := by
  obtain ⟨hshift, hsize⟩ := @tcpShift_le link
  have hmove : link.headerSize - link.tcpShift + 20 + 32 =
      link.headerSize + 20 + (32 - link.tcpShift) := by
    omega
  have hheader : 32 - link.tcpShift ≤ frame.header.length := by
    rw [frame.header_size]
    exact Nat.sub_le _ _
  rw [hmove, frame.drop_header, List.drop_append_of_le_length hheader]

theorem tcpClass_fields :
    (link.tcpClass frame.bytes).protocol =
      intAt frame.ipHeader (9 - link.tcpShift) (10 - link.tcpShift) ∧
    (link.tcpClass frame.bytes).sourceIp =
      dotted (bytesAt frame.ipHeader (12 - link.tcpShift) (16 - link.tcpShift)) ∧
    (link.tcpClass frame.bytes).destinationIp =
      dotted (bytesAt frame.ipHeader (16 - link.tcpShift) (20 - link.tcpShift)) ∧
    (link.tcpClass frame.bytes).payload =
      frame.header.drop (32 - link.tcpShift) ++ frame.payload := by
  obtain ⟨linkType, flagsOffset, checksumOffset, lengthOffset, hclass⟩ := tcpClass_eq frame
  rw [hclass]
  refine ⟨?_, ?_, ?_, payload_shifted frame⟩
  · exact congrArg fromBytesLittle (bytesAt_shifted frame (by omega) (by omega) (by omega))
  · exact congrArg dotted (bytesAt_shifted frame (by omega) (by omega) (by omega))
  · exact congrArg dotted (bytesAt_shifted frame (by omega) (by omega) (by omega))

end Tcp

/-- What a TCP frame is decoded to, apart from its flags: what was sent for the first two link
types, and the bytes that stand four places earlier for version 2, whose class keeps the offsets
of version 1. -/
theorem tcp_decoded (link : LinkType) (frame : TcpFrame link) (rest : Bytes) :
    ∃ body, parseBody link.code frame.bytes.length (frame.bytes ++ rest) =
      some (some (body, rest)) ∧ body = link.tcpClass frame.bytes ∧
      (link ≠ .linuxSllV2 → body.protocol = TCP ∧ body.sourceIp = frame.sourceIp ∧
        body.destinationIp = frame.destinationIp ∧ body.payload = frame.payload) ∧
      (link = .linuxSllV2 → body.protocol = intAt frame.ipHeader 5 6 ∧
        body.sourceIp = dotted (bytesAt frame.ipHeader 8 12) ∧
        body.destinationIp = frame.sourceIp ∧
        body.payload = frame.header.drop 28 ++ frame.payload) := by
  obtain ⟨hprotocol, hsource, hdestination, hpayload⟩ := tcpClass_fields frame
  refine ⟨_, parseBody_tcp frame rest, rfl, ?_, ?_⟩
  · intro hlink
    have hshift : link.tcpShift = 0 := by
      cases link
      · rfl
      · rfl
      · exact absurd rfl hlink
    rw [hshift] at hprotocol hsource hdestination hpayload
    have hheader : frame.header.drop 32 = [] :=
      List.drop_of_length_le (Nat.le_of_eq frame.header_size)
    rw [Nat.sub_zero, hheader, List.nil_append] at hpayload
    exact ⟨hprotocol.trans frame.ip_protocol, hsource, hdestination, hpayload⟩
  · rintro rfl
    exact ⟨hprotocol, hsource, hdestination, hpayload⟩

def acknowledgement (link : LinkType) : TcpFrame link where
  linkHeader := List.replicate link.headerSize 0
  ipHeader := ipHeaderOf 6
  header := List.replicate 13 0 ++ 16 :: List.replicate 18 0
  payload := [7]
  link_size := List.length_replicate
  ip_size := rfl
  ip_protocol := rfl
  header_size := rfl

theorem tcp_decoded_acknowledgement : ∃ body,
    parseBody LINUX_SLL_V2 (acknowledgement .linuxSllV2).bytes.length
      ((acknowledgement .linuxSllV2).bytes ++ []) = some (some (body, [])) ∧
      body.protocol = 0 ∧ body.destinationIp = "10.0.0.1".toList ∧
      body.payload = [0, 0, 0, 0, 7] := by
  obtain ⟨body, hparse, -, -, hlegacy⟩ := tcp_decoded .linuxSllV2 (acknowledgement .linuxSllV2) []
  obtain ⟨hprotocol, -, hdestination, hpayload⟩ := hlegacy rfl
  have hprotocol' : intAt (acknowledgement .linuxSllV2).ipHeader 5 6 = 0 := by decide
  have hdestination' : (acknowledgement .linuxSllV2).sourceIp = "10.0.0.1".toList := by decide
  have hpayload' : (acknowledgement .linuxSllV2).header.drop 28 ++
      (acknowledgement .linuxSllV2).payload = [0, 0, 0, 0, 7] := by decide
  exact ⟨body, hparse, hprotocol.trans hprotocol', hdestination.trans hdestination',
    hpayload.trans hpayload'⟩

/-- With version 2 the protocol is not 6; with Ethernet the two flags are exchanged. -/
theorem acknowledgement_not_decoded :
    (∃ body, parseBody LINUX_SLL_V2 (acknowledgement .linuxSllV2).bytes.length
      (acknowledgement .linuxSllV2).bytes = some (some (body, [])) ∧ body.protocol = 0 ∧
        ¬ TcpDecoded (acknowledgement .linuxSllV2) body) ∧
    ∃ body, parseBody ETHERNET (acknowledgement .ethernet).bytes.length
      (acknowledgement .ethernet).bytes = some (some (body, [])) ∧
        body.flags.map TcpFlags.ack = some 0 ∧ body.flags.map TcpFlags.psh = some 1 ∧
        ¬ TcpDecoded (acknowledgement .ethernet) body := by
  have hv2 := parseBody_tcp (acknowledgement .linuxSllV2) []
  have hethernet := parseBody_tcp (acknowledgement .ethernet) []
  rw [List.append_nil] at hv2 hethernet
  have hprotocol : (tcpLinuxSllV2 (acknowledgement .linuxSllV2).bytes).protocol = 0 := by decide
  have hack : (tcpEthernet (acknowledgement .ethernet).bytes).flags.map TcpFlags.ack =
      some 0 := by decide
  have hpsh : (tcpEthernet (acknowledgement .ethernet).bytes).flags.map TcpFlags.psh =
      some 1 := by decide
  have hbit : flagBit (acknowledgement .ethernet) 16 = 1 := by decide
  constructor
  · refine ⟨_, hv2, hprotocol, fun h => ?_⟩
    have hsent : (0 : ℕ) = TCP := hprotocol.symm.trans h.1
    exact absurd hsent (by decide)
  · refine ⟨_, hethernet, hack, hpsh, fun h => ?_⟩
    have hsent : some 0 = some (flagBit (acknowledgement .ethernet) 16) :=
      hack.symm.trans h.2.2.2.1
    rw [hbit] at hsent
    exact absurd hsent (by decide)

end SensorDataNormalization.PacketFrames
