import SensorDataNormalization.PcapRecords
import SensorDataNormalization.PythonText

set_option autoImplicit false

/-! The headers and packet bodies of the `pcap` package, read from the rest of an open file. -/
namespace SensorDataNormalization.PacketBodies
open SeparatedLists PythonText PcapRecords

/-- `data[i:j]`. -/
def bytesAt (data : Bytes) (i j : ℕ) : Bytes := (data.take j).drop i

/-- `int.from_bytes(data[i:j], "little")`. -/
def intAt (data : Bytes) (i j : ℕ) : ℕ := fromBytesLittle (bytesAt data i j)

/-- `file_point.read(n)`, and what is left of the file. -/
def read (n : ℕ) (filePoint : Bytes) : Bytes × Bytes := (filePoint.take n, filePoint.drop n)

/-! ## Headers -/

structure FileHeader where
  magic : Bytes
  major : ℕ
  minor : ℕ
  gmtToLocal : ℕ
  timestamp : ℕ
  maxCaplen : ℕ
  linkType : ℕ
  deriving DecidableEq

def FileHeader.fromFile (filePoint : Bytes) : FileHeader × Bytes :=
  let (magic, filePoint) := read 4 filePoint
  let (major, filePoint) := read 2 filePoint
  let (minor, filePoint) := read 2 filePoint
  let (gmtToLocal, filePoint) := read 4 filePoint
  let (timestamp, filePoint) := read 4 filePoint
  let (maxCaplen, filePoint) := read 4 filePoint
  let (linkType, filePoint) := read 4 filePoint
  ({ magic := magic
     major := fromBytesLittle major
     minor := fromBytesLittle minor
     gmtToLocal := fromBytesLittle gmtToLocal
     timestamp := fromBytesLittle timestamp
     maxCaplen := fromBytesLittle maxCaplen
     linkType := fromBytesLittle linkType }, filePoint)

/-- `PacketHeader.from_file`: only the first of the four reads is tested for the end. -/
def packetHeaderFromFile (filePoint : Bytes) : Option (PacketHeader × Bytes) :=
  let (binary, filePoint) := read 4 filePoint
  if binary = [] then none
  else
    let (caputime, filePoint) := read 4 filePoint
    let (caplen, filePoint) := read 4 filePoint
    let (packlen, filePoint) := read 4 filePoint
    some ({ captime := fromBytesLittle binary
            caputime := fromBytesLittle caputime
            caplen := fromBytesLittle caplen
            packlen := fromBytesLittle packlen }, filePoint)

theorem fromFile_rest (file : Bytes) : (FileHeader.fromFile file).2 = file.drop 24 := by
  simp only [FileHeader.fromFile, read, List.drop_drop]

theorem packetHeaderFromFile_eq (data : Bytes) : packetHeaderFromFile data =
    if data = [] then none
    else some (packetHeader (data.take pcapPacketHeaderSize), data.drop pcapPacketHeaderSize) := by
  have hnil : data.take 4 = [] ↔ data = [] := by simp
  have hheader : packetHeader (data.take pcapPacketHeaderSize) =
      { captime := fromBytesLittle (data.take 4)
        caputime := fromBytesLittle ((data.drop 4).take 4)
        caplen := fromBytesLittle ((data.drop 8).take 4)
        packlen := fromBytesLittle ((data.drop 12).take 4) } := by
    simp [packetHeader, pcapPacketHeaderSize, List.take_take, List.drop_take]
  simp only [packetHeaderFromFile, read, List.drop_drop, hnil, hheader]
  rfl

/-! ## Bodies -/

def ETHERNET : ℕ := 1
def LINUX_SLL : ℕ := 113
def LINUX_SLL_V2 : ℕ := 276
def UDP : ℕ := 17
def TCP : ℕ := 6
def ACK_AND_PSH : ℕ := 24

structure IpHeader where
  protocol : ℕ
  sourceIp : Str
  destinationIp : Str

/-- `".".join(map(str, address))`. -/
def dotted (address : Bytes) : Str :=
  ['.'].intercalate (address.map (fun b => Nat.toDigits 10 b.toNat))

def IpHeader.parse (data : Bytes) (baseOffset : ℕ) : IpHeader where
  protocol := intAt data (baseOffset + 9) (baseOffset + 10)
  sourceIp := dotted (bytesAt data (baseOffset + 12) (baseOffset + 16))
  destinationIp := dotted (bytesAt data (baseOffset + 16) (baseOffset + 20))

structure UdpHeader where
  length : ℕ
  checksum : ℕ

def UdpHeader.parse (data : Bytes) (ipEndOffset : ℕ) : UdpHeader where
  length := intAt data (ipEndOffset + 4) (ipEndOffset + 6)
  checksum := intAt data (ipEndOffset + 6) (ipEndOffset + 8)

structure TcpFlags where
  ack : ℕ
  psh : ℕ

def TcpFlags.parse (data : Bytes) (flagsOffset mask : ℕ) : TcpFlags :=
  let flagBytes := bytesAt data flagsOffset (flagsOffset + 2)
  let ackAndPsh := fromBytesLittle (flagBytes.drop 1) &&& mask
  { ack := (ackAndPsh >>> 3) &&& 1
    psh := (ackAndPsh >>> 4) &&& 1 }

/-- A parsed body. Only the TCP classes have `flags`. -/
structure PcapBody where
  linkType : ℕ
  protocol : ℕ
  data : Bytes
  sourceIp : Str
  destinationIp : Str
  length : ℕ
  checksum : ℕ
  flags : Option TcpFlags
  payloadOffset : ℕ

def PcapBody.payload (body : PcapBody) : Bytes := body.data.drop body.payloadOffset

/-- A UDP class: its `link_type`, and the size of the link header. -/
def udpBody (linkType linkHeaderSize : ℕ) (data : Bytes) : PcapBody :=
  let ip := IpHeader.parse data linkHeaderSize
  let udp := UdpHeader.parse data (linkHeaderSize + 20)
  { linkType := linkType
    protocol := ip.protocol
    data := data
    sourceIp := ip.sourceIp
    destinationIp := ip.destinationIp
    length := udp.length
    checksum := udp.checksum
    flags := none
    payloadOffset := linkHeaderSize + 20 + 8 }

/-- A TCP class: its `link_type`, the size of the link header, and where it looks for the
flags, the checksum and the length. -/
def tcpBody (linkType linkHeaderSize flagsOffset checksumOffset lengthOffset : ℕ)
    (data : Bytes) : PcapBody :=
  let ip := IpHeader.parse data linkHeaderSize
  { linkType := linkType
    protocol := ip.protocol
    data := data
    sourceIp := ip.sourceIp
    destinationIp := ip.destinationIp
    length := intAt data lengthOffset (lengthOffset + 1)
    checksum := intAt data checksumOffset (checksumOffset + 2)
    flags := some (TcpFlags.parse data flagsOffset ACK_AND_PSH)
    payloadOffset := linkHeaderSize + 20 + 32 }

def udpEthernet : Bytes → PcapBody := udpBody ETHERNET 14
def tcpEthernet : Bytes → PcapBody := tcpBody ETHERNET 14 46 50 57
def udpLinuxSll : Bytes → PcapBody := udpBody LINUX_SLL 16
def tcpLinuxSll : Bytes → PcapBody := tcpBody LINUX_SLL 16 48 52 59

-- Both classes of version 2 keep the link type of version 1, and the TCP class its offsets.
def udpLinuxSllV2 : Bytes → PcapBody := udpBody LINUX_SLL 20
def tcpLinuxSllV2 : Bytes → PcapBody := tcpBody LINUX_SLL 16 52 56 63

/-! ## `PcapBodyFactory` -/

/-- A body class, as what an instance of it holds after `parse`. -/
abbrev BodyClass := Bytes → PcapBody

/-- `_BODY_TABLE` as a dictionary: what `get` returns for a key. -/
abbrev BodyTable := ℕ × ℕ → Option BodyClass

/-- The rows of `_BODY_TABLE` in the source. -/
def bodyTable : List ((ℕ × ℕ) × BodyClass) :=
  [((ETHERNET, UDP), udpEthernet), ((ETHERNET, TCP), tcpEthernet),
    ((LINUX_SLL, UDP), udpLinuxSll), ((LINUX_SLL, TCP), tcpLinuxSll),
    ((LINUX_SLL_V2, UDP), udpLinuxSllV2), ((LINUX_SLL_V2, TCP), tcpLinuxSllV2)]

def initialTable : BodyTable := fun key => bodyTable.lookup key

def protocolOffset : List (ℕ × ℕ) := [(ETHERNET, 23), (LINUX_SLL, 25), (LINUX_SLL_V2, 29)]

/-- `_detect_protocol`; `none` is the `KeyError` of a link type that is not supported. -/
def detectProtocol (linkType : ℕ) (data : Bytes) : Option ℕ :=
  (protocolOffset.lookup linkType).map (fun offset => intAt data offset (offset + 1))

/-- `PcapBodyFactory.parse` with the current table: the outer `none` is an exception, the inner
one the end. -/
def parseWith (table : BodyTable) (linkType pakLen : ℕ) (filePoint : Bytes) :
    Option (Option (PcapBody × Bytes)) :=
  if pakLen ≤ 0 then some none
  else
    let (data, filePoint) := read pakLen filePoint
    if data = [] then some none
    else
      match detectProtocol linkType data with
      | none => none
      | some protocol =>
        match (table (linkType, protocol)).or (table (linkType, TCP)) with
        | none => some none
        | some parse => some (some (parse data, filePoint))

/-- `PcapBodyFactory.parse` when nothing was registered. -/
def parseBody (linkType pakLen : ℕ) (filePoint : Bytes) : Option (Option (PcapBody × Bytes)) :=
  parseWith initialTable linkType pakLen filePoint

theorem parseBody_def (linkType pakLen : ℕ) (filePoint : Bytes) :
    parseBody linkType pakLen filePoint =
      if pakLen ≤ 0 then some none
      else if filePoint.take pakLen = [] then some none
      else
        match detectProtocol linkType (filePoint.take pakLen) with
        | none => none
        | some protocol =>
          match (bodyTable.lookup (linkType, protocol)).or (bodyTable.lookup (linkType, TCP)) with
          | none => some none
          | some parse => some (some (parse (filePoint.take pakLen), filePoint.drop pakLen)) :=
  rfl

def supportedLinkTypes : List ℕ := [ETHERNET, LINUX_SLL, LINUX_SLL_V2]

theorem bodyTable_data : ∀ row ∈ bodyTable, ∀ data, (row.2 data).data = data := by
  simp [bodyTable, udpEthernet, tcpEthernet, udpLinuxSll, tcpLinuxSll, udpLinuxSllV2,
    tcpLinuxSllV2, udpBody, tcpBody]

/-- With a supported link type some class parses every non-empty packet, and keeps its bytes. -/
theorem parseBody_supported {linkType : ℕ} (h : linkType ∈ supportedLinkTypes) (pakLen : ℕ)
    (filePoint : Bytes) : ∃ parse : Bytes → PcapBody, (∀ data, (parse data).data = data) ∧
    parseBody linkType pakLen filePoint =
      some (if filePoint.take pakLen = [] then none
        else some (parse (filePoint.take pakLen), filePoint.drop pakLen)) := by
  have hoffset : ∀ t ∈ supportedLinkTypes, (protocolOffset.lookup t).isSome := by decide
  have htcp : ∀ t ∈ supportedLinkTypes, (bodyTable.lookup (t, TCP)).isSome := by decide
  obtain ⟨offset, hoff⟩ := Option.isSome_iff_exists.mp (hoffset _ h)
  let protocol := intAt (filePoint.take pakLen) offset (offset + 1)
  have hsome : ((bodyTable.lookup (linkType, protocol)).or
      (bodyTable.lookup (linkType, TCP))).isSome := by
    rw [Option.isSome_or, htcp _ h, Bool.or_true]
  obtain ⟨parse, hparse⟩ := Option.isSome_iff_exists.mp hsome
  refine ⟨parse, ?_, ?_⟩
  · have hrow : ∃ key, (key, parse) ∈ bodyTable := by
      rcases Option.or_eq_some_iff.mp hparse with hk | ⟨-, hk⟩
      · exact ⟨_, mem_of_lookup hk⟩
      · exact ⟨_, mem_of_lookup hk⟩
    obtain ⟨key, hkey⟩ := hrow
    exact bodyTable_data _ hkey
  · rw [parseBody_def]
    by_cases hlen : pakLen ≤ 0
    · rw [if_pos hlen, Nat.le_zero.mp hlen, List.take_zero, if_pos rfl]
    · rw [if_neg hlen]
      by_cases hdata : filePoint.take pakLen = []
      · rw [if_pos hdata, if_pos hdata]
      · rw [if_neg hdata, if_neg hdata, detectProtocol, hoff]
        simp only [Option.map_some]
        rw [hparse]

end SensorDataNormalization.PacketBodies
