import Mathlib.Algebra.Order.Floor.Ring
import Mathlib.Data.Rat.Floor

set_option autoImplicit false

/-! The record layer of a PCAP file: a 24-byte file header, then records of a
16-byte packet header and `caplen` bytes of payload. -/
namespace SensorDataNormalization.PcapRecords

abbrev Bytes := List UInt8

def pcapFileHeaderSize : ℕ := 24
def pcapPacketHeaderSize : ℕ := 16

def fromBytesLittle : Bytes → ℕ
  | [] => 0
  | b :: bs => b.toNat + 256 * fromBytesLittle bs

structure PacketHeader where
  captime : ℕ
  caputime : ℕ
  caplen : ℕ
  packlen : ℕ
  deriving DecidableEq

def packetHeader (headerBytes : Bytes) : PacketHeader where
  captime := fromBytesLittle (headerBytes.take 4)
  caputime := fromBytesLittle ((headerBytes.take 8).drop 4)
  caplen := fromBytesLittle ((headerBytes.take 12).drop 8)
  packlen := fromBytesLittle ((headerBytes.take 16).drop 12)

def PacketHeader.timeStamp (h : PacketHeader) : ℚ := h.captime + h.caputime / 1000000

/-- `int(header.time_stamp)`. -/
def PacketHeader.second (h : PacketHeader) : ℕ := h.captime + h.caputime / 1000000

theorem PacketHeader.floor_timeStamp (h : PacketHeader) : ⌊h.timeStamp⌋ = (h.second : ℤ) := by
  have hdiv : ⌊((h.caputime : ℕ) : ℚ) / ((1000000 : ℕ) : ℚ)⌋ = ((h.caputime / 1000000 : ℕ) : ℤ) :=
    Rat.floor_natCast_div_natCast h.caputime 1000000
  rw [timeStamp, Int.floor_natCast_add, second, Nat.cast_add]
  exact congrArg (((h.captime : ℕ) : ℤ) + ·) (by simpa using hdiv)

/-- A complete record: the payload has the length that its header announces. -/
structure Record where
  headerBytes : Bytes
  payload : Bytes
  header_size : headerBytes.length = pcapPacketHeaderSize
  payload_size : payload.length = (packetHeader headerBytes).caplen
  deriving DecidableEq

def Record.header (r : Record) : PacketHeader := packetHeader r.headerBytes
def Record.second (r : Record) : ℕ := r.header.second
def Record.bytes (r : Record) : Bytes := r.headerBytes ++ r.payload

/-- The first record of the remaining bytes, if it is there completely. -/
def firstRecord (data : Bytes) : Option Record :=
  let headerBytes := data.take pcapPacketHeaderSize
  if hh : headerBytes.length = pcapPacketHeaderSize then
    let payload := (data.drop pcapPacketHeaderSize).take (packetHeader headerBytes).caplen
    if hp : payload.length = (packetHeader headerBytes).caplen then
      some ⟨headerBytes, payload, hh, hp⟩
    else none
  else none

/-- The `while True` loop of `_read_pcap_records`; the fuel bounds the number of records. -/
def readLoop : ℕ → Bytes → List Record
  | 0, _ => []
  | fuel + 1, data =>
    match firstRecord data with
    | none => []
    | some r => r :: readLoop fuel (data.drop r.bytes.length)

def readRecords (data : Bytes) : List Record := readLoop data.length data

def readPcapRecords (file : Bytes) : Bytes × List Record :=
  (file.take pcapFileHeaderSize, readRecords (file.drop pcapFileHeaderSize))

def recordsBytes (records : List Record) : Bytes := records.flatMap Record.bytes

def writePcap (fileHeaderBytes : Bytes) (records : List Record) : Bytes :=
  fileHeaderBytes ++ recordsBytes records

theorem Record.bytes_length (r : Record) :
    r.bytes.length = pcapPacketHeaderSize + (packetHeader r.headerBytes).caplen := by
  rw [Record.bytes, List.length_append, r.header_size, r.payload_size]

theorem Record.bytes_pos (r : Record) : 0 < r.bytes.length := by
  rw [r.bytes_length]
  exact Nat.add_pos_left (by decide) _

theorem Record.take_bytes (r : Record) (rest : Bytes) :
    (r.bytes ++ rest).take pcapPacketHeaderSize = r.headerBytes := by
  rw [Record.bytes, List.append_assoc, ← r.header_size]
  exact List.take_left

theorem Record.drop_bytes (r : Record) (rest : Bytes) :
    (r.bytes ++ rest).drop pcapPacketHeaderSize = r.payload ++ rest := by
  rw [Record.bytes, List.append_assoc, ← r.header_size]
  exact List.drop_left

theorem firstRecord_bytes (r : Record) (rest : Bytes) :
    firstRecord (r.bytes ++ rest) = some r := by
  have hpay : (r.payload ++ rest).take (packetHeader r.headerBytes).caplen = r.payload := by
    rw [← r.payload_size]
    exact List.take_left
  unfold firstRecord
  simp only [r.take_bytes, r.drop_bytes, hpay, r.header_size, r.payload_size, ↓reduceDIte]

theorem firstRecord_some {data : Bytes} {r : Record} (h : firstRecord data = some r) :
    data = r.bytes ++ data.drop r.bytes.length := by
  unfold firstRecord at h
  dsimp only at h
  split_ifs at h with hh hp
  cases Option.some.inj h
  rw [Record.bytes_length]
  change data = (data.take pcapPacketHeaderSize ++ (data.drop pcapPacketHeaderSize).take _) ++
    data.drop (pcapPacketHeaderSize + (packetHeader (data.take pcapPacketHeaderSize)).caplen)
  rw [List.append_assoc, ← List.drop_drop, List.take_append_drop, List.take_append_drop]

/-- The remaining bytes do not start with a complete record exactly when they are
shorter than a header, or than the record that their header announces. -/
theorem firstRecord_none {data : Bytes} : firstRecord data = none ↔
    data.length < pcapPacketHeaderSize ∨
      data.length < pcapPacketHeaderSize + (packetHeader (data.take pcapPacketHeaderSize)).caplen := by
  unfold firstRecord
  dsimp only
  split_ifs with hh hp
  · simp only [List.length_take, List.length_drop] at hh hp
    simp only [false_iff, not_or, not_lt]
    omega
  · simp only [List.length_take, List.length_drop] at hh hp
    simp only [true_iff]
    omega
  · simp only [List.length_take] at hh
    simp only [true_iff]
    omega

theorem readLoop_fuel {fuel : ℕ} {data : Bytes} (h : data.length ≤ fuel) :
    readLoop fuel data = readRecords data := by
  have hstep : ∀ n (xs : Bytes), xs.length ≤ n → ∀ m, xs.length ≤ m →
      readLoop n xs = readLoop m xs := by
    intro n
    induction n with
    | zero =>
      intro xs hn m _
      have hnil : xs = [] := List.length_eq_zero_iff.mp (by omega)
      subst hnil
      cases m <;> rfl
    | succ n ih =>
      intro xs hn m hm
      cases m with
      | zero =>
        have hnil : xs = [] := List.length_eq_zero_iff.mp (by omega)
        subst hnil
        rfl
      | succ m =>
        unfold readLoop
        cases hf : firstRecord xs with
        | none => rfl
        | some r =>
          have hpos := r.bytes_pos
          have hlen : (xs.drop r.bytes.length).length = xs.length - r.bytes.length :=
            List.length_drop
          exact congrArg (r :: ·) (ih _ (by omega) m (by omega))
  exact hstep fuel data h data.length (le_refl _)

theorem readRecords_cons {data : Bytes} {r : Record} (h : firstRecord data = some r) :
    readRecords data = r :: readRecords (data.drop r.bytes.length) := by
  have hlen := congrArg List.length (firstRecord_some h)
  rw [List.length_append] at hlen
  have hpos := r.bytes_pos
  obtain ⟨n, hn⟩ : ∃ n, data.length = n + 1 := ⟨data.length - 1, by omega⟩
  rw [readRecords, hn, readLoop, h]
  exact congrArg (r :: ·) (readLoop_fuel (by omega))

theorem readRecords_none {data : Bytes} (h : firstRecord data = none) : readRecords data = [] := by
  unfold readRecords
  cases data.length with
  | zero => rfl
  | succ n => rw [readLoop, h]

theorem recordsBytes_cons (r : Record) (records : List Record) :
    recordsBytes (r :: records) = r.bytes ++ recordsBytes records := by
  rw [recordsBytes, List.flatMap_cons]
  rfl

theorem readRecords_append (records : List Record) (rest : Bytes) :
    readRecords (recordsBytes records ++ rest) = records ++ readRecords rest := by
  induction records with
  | nil => rfl
  | cons r records ih =>
    rw [recordsBytes_cons, List.append_assoc, readRecords_cons (firstRecord_bytes r _),
      List.drop_left, ih]
    rfl

theorem readRecords_recordsBytes (records : List Record) :
    readRecords (recordsBytes records) = records := by
  have h := readRecords_append records []
  have hnil : readRecords [] = [] := readRecords_none rfl
  rwa [List.append_nil, hnil, List.append_nil] at h

/-- The records read, followed by bytes that do not start with a complete record. -/
theorem readRecords_spec (data : Bytes) : ∃ rest,
    data = recordsBytes (readRecords data) ++ rest ∧ firstRecord rest = none := by
  induction hn : data.length using Nat.strong_induction_on generalizing data with
  | _ n ih =>
    cases hf : firstRecord data with
    | none => exact ⟨data, by rw [readRecords_none hf]; rfl, hf⟩
    | some r =>
      have hdata := firstRecord_some hf
      have hlen := congrArg List.length hdata
      rw [List.length_append] at hlen
      have hpos := r.bytes_pos
      obtain ⟨rest, hrest, hnone⟩ := ih _ (by omega) (data.drop r.bytes.length) rfl
      refine ⟨rest, ?_, hnone⟩
      rw [readRecords_cons hf, recordsBytes_cons, List.append_assoc]
      exact hdata.trans (congrArg (r.bytes ++ ·) hrest)

section WritePcap
variable {header : Bytes} (h : header.length = pcapFileHeaderSize) (records : List Record)
include h

theorem take_writePcap : (writePcap header records).take pcapFileHeaderSize = header := by
  rw [writePcap, ← h]
  exact List.take_left

theorem drop_writePcap :
    (writePcap header records).drop pcapFileHeaderSize = recordsBytes records := by
  rw [writePcap, ← h]
  exact List.drop_left

theorem readPcapRecords_writePcap :
    readPcapRecords (writePcap header records) = (header, records) := by
  rw [readPcapRecords, take_writePcap h, drop_writePcap h, readRecords_recordsBytes]

end WritePcap

theorem header_length_of_records {file : Bytes} (h : (readPcapRecords file).2 ≠ []) :
    (readPcapRecords file).1.length = pcapFileHeaderSize := by
  change (file.take pcapFileHeaderSize).length = _
  rw [List.length_take, Nat.min_eq_left]
  by_contra hshort
  apply h
  have hd : file.drop pcapFileHeaderSize = [] := List.drop_eq_nil_of_le (by omega)
  rw [readPcapRecords, hd]
  exact readRecords_none rfl

/-- The bytes do not start with a complete record. -/
def Incomplete (data : Bytes) : Prop :=
  data.length < pcapPacketHeaderSize ∨
    data.length < pcapPacketHeaderSize + (packetHeader (data.take pcapPacketHeaderSize)).caplen

theorem readPcapRecords_split (file : Bytes) : ∃ rest,
    file = writePcap (readPcapRecords file).1 (readPcapRecords file).2 ++ rest ∧
      Incomplete rest := by
  obtain ⟨rest, hrest, hnone⟩ := readRecords_spec (file.drop pcapFileHeaderSize)
  refine ⟨rest, ?_, firstRecord_none.mp hnone⟩
  change file = file.take pcapFileHeaderSize ++
    recordsBytes (readRecords (file.drop pcapFileHeaderSize)) ++ rest
  rw [List.append_assoc, ← hrest, List.take_append_drop]

/-- Any other way to cut records off the front of the file cuts off fewer of them. -/
theorem readPcapRecords_longest {file rest : Bytes} {records : List Record}
    (h : file = writePcap (readPcapRecords file).1 records ++ rest) :
    records <+: (readPcapRecords file).2 := by
  have hbody : file.drop pcapFileHeaderSize = recordsBytes records ++ rest := by
    have hcut : file.take pcapFileHeaderSize ++ file.drop pcapFileHeaderSize =
        file.take pcapFileHeaderSize ++ (recordsBytes records ++ rest) := by
      rw [List.take_append_drop, ← List.append_assoc]
      exact h
    exact List.append_cancel_left hcut
  change records <+: readRecords (file.drop pcapFileHeaderSize)
  rw [hbody, readRecords_append]
  exact List.prefix_append _ _

/-- Reading undoes writing, and what is read of any bytes is the longest possible reading. -/
theorem record_codec_exact :
    (∀ header records, header.length = pcapFileHeaderSize →
      readPcapRecords (writePcap header records) = (header, records)) ∧
    ∀ file, (∃ rest, file = writePcap (readPcapRecords file).1 (readPcapRecords file).2 ++ rest ∧
        Incomplete rest) ∧
      ∀ records rest, file = writePcap (readPcapRecords file).1 records ++ rest →
        records <+: (readPcapRecords file).2 :=
  ⟨fun _ records h => readPcapRecords_writePcap h records,
    fun file => ⟨readPcapRecords_split file, fun _ _ h => readPcapRecords_longest h⟩⟩

/-- The chunked copy loop of `merge_pcap_files`. -/
def copyLoop : ℕ → Bytes → Bytes
  | 0, _ => []
  | fuel + 1, src =>
    let chunk := src.take 65536
    if chunk = [] then [] else chunk ++ copyLoop fuel (src.drop 65536)

def copyChunks (src : Bytes) : Bytes := copyLoop (src.length + 1) src

theorem copyLoop_eq {fuel : ℕ} {src : Bytes} (h : src.length < fuel) : copyLoop fuel src = src := by
  induction fuel generalizing src with
  | zero => omega
  | succ fuel ih =>
    unfold copyLoop
    dsimp only
    split_ifs with hchunk
    · exact ((List.take_eq_nil_iff.mp hchunk).resolve_left (by decide)).symm
    · have hne : src ≠ [] := fun he => hchunk (by rw [he]; rfl)
      have hpos := List.length_pos_iff.mpr hne
      rw [ih (by rw [List.length_drop]; omega)]
      exact List.take_append_drop 65536 src

theorem copyChunks_eq (src : Bytes) : copyChunks src = src := copyLoop_eq (Nat.lt_succ_self _)

/-! ## Small captures -/

def littleBytes (n : ℕ) : Bytes :=
  [UInt8.ofNat n, UInt8.ofNat (n / 256), UInt8.ofNat (n / 65536), UInt8.ofNat (n / 16777216)]

def packetBytes (captime : ℕ) (payload : UInt8) : Bytes :=
  littleBytes captime ++ littleBytes 0 ++ littleBytes 1 ++ littleBytes 1 ++ [payload]

def captureOf (packets : List (ℕ × UInt8)) : Bytes :=
  List.replicate 24 0 ++ packets.flatMap (fun p => packetBytes p.1 p.2)

example : (readPcapRecords (captureOf [(7, 1), (9, 2)] ++ [0, 0])).2.map
    (fun r => (r.second, r.payload)) = [(7, [1]), (9, [2])] := by decide

theorem record_codec_exact_two_packets :
    (readPcapRecords (captureOf [(7, 1), (9, 2)])).2.length = 2 ∧
    readPcapRecords (writePcap (List.replicate 24 0)
        (readPcapRecords (captureOf [(7, 1), (9, 2)])).2) =
      (List.replicate 24 0, (readPcapRecords (captureOf [(7, 1), (9, 2)])).2) ∧
    ∃ rest, captureOf [(7, 1)] ++ [5, 5] =
      writePcap (readPcapRecords (captureOf [(7, 1)] ++ [5, 5])).1
        (readPcapRecords (captureOf [(7, 1)] ++ [5, 5])).2 ++ rest ∧ Incomplete rest :=
  ⟨by decide, record_codec_exact.1 _ _ (by decide),
    (record_codec_exact.2 (captureOf [(7, 1)] ++ [5, 5])).1⟩

end SensorDataNormalization.PcapRecords
