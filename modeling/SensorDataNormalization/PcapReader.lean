import SensorDataNormalization.PacketBodies

set_option autoImplicit false

/-! `PcapReader.read`, and when it reads the records of the splitter. -/
namespace SensorDataNormalization.PcapReader
open PcapRecords PacketBodies

/-! ## The reader -/

/-- Times in seconds, in exact arithmetic. -/
structure TimeInfo where
  timeStamp : ℚ
  offsetTime : ℚ
  accumulateOffsetTime : ℚ
  worldAccumulateOffsetTime : ℚ

def calculate (timeStamp : ℚ) (previousTime firstTime worldFirstTime : Option ℚ) : TimeInfo :=
  let since : Option ℚ → ℚ := fun reference => (reference.map (timeStamp - ·)).getD 0
  { timeStamp := timeStamp
    offsetTime := since previousTime
    accumulateOffsetTime := since firstTime
    worldAccumulateOffsetTime :=
      if worldFirstTime.isNone then since firstTime else since worldFirstTime }

structure PcapPacket where
  no : ℕ
  header : PacketHeader
  body : PcapBody
  time : TimeInfo

abbrev FilterFn := PacketHeader → PcapBody → Bool

def isFiltering (filterFn : Option FilterFn) (header : PacketHeader) (body : PcapBody) : Bool :=
  (filterFn.map (fun filter => filter header body)).getD false

structure Progress where
  packetIndex : ℕ
  firstTime : Option ℚ
  previousTime : Option ℚ
  pool : List PcapPacket

def Progress.new : Progress := ⟨1, none, none, []⟩

/-- The part of the loop after a packet is read. -/
def Progress.add (filterFn : Option FilterFn) (worldFirstTime : Option ℚ) (s : Progress)
    (header : PacketHeader) (body : PcapBody) : Progress :=
  let time := calculate header.timeStamp s.previousTime s.firstTime worldFirstTime
  let filtered := isFiltering filterFn header body
  { packetIndex := if filtered then s.packetIndex else s.packetIndex + 1
    firstTime := some (s.firstTime.getD header.timeStamp)
    previousTime := some header.timeStamp
    pool := if filtered then s.pool else s.pool ++ [⟨s.packetIndex, header, body, time⟩] }

/-- The loop of `read` with the current table of the factory; `none` is an exception. The fuel
bounds the number of packets. -/
def readLoopWith (table : BodyTable) (filterFn : Option FilterFn) (linkType : ℕ)
    (worldFirstTime : Option ℚ) : ℕ → Progress → Bytes → Option (List PcapPacket)
  | 0, s, _ => some s.pool
  | fuel + 1, s, filePoint =>
    match packetHeaderFromFile filePoint with
    | none => some s.pool
    | some (header, filePoint) =>
      match parseWith table linkType header.packlen filePoint with
      | none => none
      | some none => some s.pool
      | some (some (body, filePoint)) =>
        readLoopWith table filterFn linkType worldFirstTime fuel
          (s.add filterFn worldFirstTime header body) filePoint

/-- The file header and the pool after `read` on a new reader, with the current table. -/
def readWith (table : BodyTable) (filterFn : Option FilterFn) (worldFirstTime : Option ℚ)
    (file : Bytes) : Option (FileHeader × List PcapPacket) :=
  let (fileHeader, filePoint) := FileHeader.fromFile file
  (readLoopWith table filterFn fileHeader.linkType worldFirstTime filePoint.length .new
    filePoint).map (fun pool => (fileHeader, pool))

def readLoop (filterFn : Option FilterFn) (linkType : ℕ) (worldFirstTime : Option ℚ) :
    ℕ → Progress → Bytes → Option (List PcapPacket) :=
  readLoopWith initialTable filterFn linkType worldFirstTime

/-- `read` when nothing was registered. -/
def read (filterFn : Option FilterFn) (worldFirstTime : Option ℚ) (file : Bytes) :
    Option (FileHeader × List PcapPacket) :=
  readWith initialTable filterFn worldFirstTime file

theorem readLoop_succ (filterFn : Option FilterFn) (linkType : ℕ) (worldFirstTime : Option ℚ)
    (fuel : ℕ) (s : Progress) (filePoint : Bytes) :
    readLoop filterFn linkType worldFirstTime (fuel + 1) s filePoint =
      match packetHeaderFromFile filePoint with
      | none => some s.pool
      | some (header, filePoint) =>
        match parseBody linkType header.packlen filePoint with
        | none => none
        | some none => some s.pool
        | some (some (body, filePoint)) =>
          readLoop filterFn linkType worldFirstTime fuel
            (s.add filterFn worldFirstTime header body) filePoint :=
  rfl

theorem read_eq (filterFn : Option FilterFn) (worldFirstTime : Option ℚ) (file : Bytes) :
    read filterFn worldFirstTime file =
      (readLoop filterFn (FileHeader.fromFile file).1.linkType worldFirstTime
        (FileHeader.fromFile file).2.length .new (FileHeader.fromFile file).2).map
          (fun pool => ((FileHeader.fromFile file).1, pool)) :=
  rfl

/-! ## The packets it reads -/

/-- What is compared of a packet: its header and its bytes. -/
def PcapPacket.view (p : PcapPacket) : PacketHeader × Bytes := (p.header, p.body.data)

def recordView (r : Record) : PacketHeader × Bytes := (r.header, r.payload)

/-- A header, and as many of the `packlen` bytes after it as there are. -/
def firstPacket (data : Bytes) : Option ((PacketHeader × Bytes) × Bytes) :=
  let header := packetHeader (data.take pcapPacketHeaderSize)
  let captured := (data.drop pcapPacketHeaderSize).take header.packlen
  if captured = [] then none
  else some ((header, captured), (data.drop pcapPacketHeaderSize).drop header.packlen)

def packets : ℕ → Bytes → List (PacketHeader × Bytes)
  | 0, _ => []
  | fuel + 1, data =>
    match firstPacket data with
    | none => []
    | some (packet, rest) => packet :: packets fuel rest

theorem readLoop_view {linkType : ℕ} (h : linkType ∈ supportedLinkTypes)
    (worldFirstTime : Option ℚ) (fuel : ℕ) (s : Progress) (data : Bytes) :
    ∃ pool, readLoop none linkType worldFirstTime fuel s data = some pool ∧
      pool.map PcapPacket.view = s.pool.map PcapPacket.view ++ packets fuel data := by
  induction fuel generalizing s data with
  | zero => exact ⟨s.pool, rfl, (List.append_nil _).symm⟩
  | succ fuel ih =>
    unfold packets firstPacket
    rw [readLoop_succ, packetHeaderFromFile_eq]
    by_cases hdata : data = []
    · subst hdata
      exact ⟨s.pool, rfl, by simp⟩
    rw [if_neg hdata]
    dsimp only
    obtain ⟨parse, hkeeps, hparse⟩ := parseBody_supported h
      (packetHeader (data.take pcapPacketHeaderSize)).packlen (data.drop pcapPacketHeaderSize)
    rw [hparse]
    by_cases hcaptured : (data.drop pcapPacketHeaderSize).take
        (packetHeader (data.take pcapPacketHeaderSize)).packlen = []
    · rw [if_pos hcaptured, if_pos hcaptured]
      exact ⟨s.pool, rfl, (List.append_nil _).symm⟩
    · rw [if_neg hcaptured, if_neg hcaptured]
      obtain ⟨pool, hpool, hview⟩ := ih (s.add none worldFirstTime
        (packetHeader (data.take pcapPacketHeaderSize)) (parse ((data.drop pcapPacketHeaderSize).take
          (packetHeader (data.take pcapPacketHeaderSize)).packlen)))
        ((data.drop pcapPacketHeaderSize).drop
          (packetHeader (data.take pcapPacketHeaderSize)).packlen)
      refine ⟨pool, hpool, hview.trans ?_⟩
      simp [Progress.add, isFiltering, PcapPacket.view, hkeeps]

/-! ## When it reads the records of the splitter -/

/-- The bytes after the last record that both readers take whole. -/
inductive Ending : Bytes → Prop
  | cut (tail : Bytes) : Incomplete tail → (tail.length ≤ pcapPacketHeaderSize ∨
      (packetHeader (tail.take pcapPacketHeaderSize)).packlen = 0) → Ending tail
  | snapped (r : Record) : 0 < r.header.caplen → r.header.caplen < r.header.packlen →
      Ending r.bytes

/-- Records whose two lengths are equal and positive, and an ending. -/
def ReadAlike (data : Bytes) : Prop :=
  ∃ records tail, data = recordsBytes records ++ tail ∧
    (∀ r ∈ records, 0 < r.header.caplen ∧ r.header.packlen = r.header.caplen) ∧ Ending tail

theorem readAlike_none {data : Bytes} (h : firstRecord data = none) :
    ReadAlike data ↔ data.length ≤ pcapPacketHeaderSize ∨
      (packetHeader (data.take pcapPacketHeaderSize)).packlen = 0 := by
  have hno : ∀ (r : Record) (rest : Bytes), data ≠ r.bytes ++ rest := by
    rintro r rest rfl
    rw [firstRecord_bytes] at h
    cases h
  constructor
  · rintro ⟨records, tail, hdata, -, hend⟩
    cases records with
    | cons r records =>
      rw [recordsBytes_cons, List.append_assoc] at hdata
      exact absurd hdata (hno r _)
    | nil =>
      cases hend with
      | cut _ _ hshort => exact hdata ▸ hshort
      | snapped r _ _ => exact absurd (hdata.trans (List.append_nil _).symm) (hno r [])
  · exact fun hshort => ⟨[], data, rfl, by simp, .cut data (firstRecord_none.mp h) hshort⟩

theorem readAlike_some {r : Record} {rest : Bytes} : ReadAlike (r.bytes ++ rest) ↔
    0 < r.header.caplen ∧ ((r.header.packlen = r.header.caplen ∧ ReadAlike rest) ∨
      (r.header.caplen < r.header.packlen ∧ rest = [])) := by
  have hsame : ∀ (r' : Record) (rest' : Bytes), r.bytes ++ rest = r'.bytes ++ rest' →
      r' = r ∧ rest' = rest := by
    intro r' rest' hbytes
    have hfirst := firstRecord_bytes r rest
    rw [hbytes, firstRecord_bytes] at hfirst
    cases hfirst
    exact ⟨rfl, (List.append_cancel_left hbytes).symm⟩
  constructor
  · rintro ⟨records, tail, hdata, hrecords, hend⟩
    cases records with
    | cons r' records =>
      rw [recordsBytes_cons, List.append_assoc] at hdata
      obtain ⟨rfl, rfl⟩ := hsame r' _ hdata
      obtain ⟨hpos, hlen⟩ := hrecords r' List.mem_cons_self
      exact ⟨hpos, Or.inl ⟨hlen, records, tail, rfl,
        fun r hr => hrecords r (List.mem_cons_of_mem _ hr), hend⟩⟩
    | nil =>
      cases hend with
      | cut _ hincomplete _ =>
        have hfirst := firstRecord_none.mpr hincomplete
        rw [← List.nil_append tail] at hfirst
        change firstRecord (recordsBytes [] ++ tail) = none at hfirst
        rw [← hdata, firstRecord_bytes] at hfirst
        cases hfirst
      | snapped r' hpos hlt =>
        obtain ⟨rfl, hrest⟩ := hsame r' [] (hdata.trans (List.append_nil _).symm)
        exact ⟨hpos, Or.inr ⟨hlt, hrest.symm⟩⟩
  · rintro ⟨hpos, ⟨hlen, records, tail, rfl, hrecords, hend⟩ | ⟨hlt, rfl⟩⟩
    · refine ⟨r :: records, tail, by rw [recordsBytes_cons, List.append_assoc], ?_, hend⟩
      intro r' hr'
      rcases List.mem_cons.mp hr' with rfl | hr'
      · exact ⟨hpos, hlen⟩
      · exact hrecords r' hr'
    · exact ⟨[], r.bytes, List.append_nil _, by simp, .snapped r hpos hlt⟩

theorem firstPacket_record (r : Record) (rest : Bytes) : firstPacket (r.bytes ++ rest) =
    if (r.payload ++ rest).take r.header.packlen = [] then none
    else some ((r.header, (r.payload ++ rest).take r.header.packlen),
      (r.payload ++ rest).drop r.header.packlen) := by
  unfold firstPacket
  rw [r.take_bytes, r.drop_bytes]
  rfl

theorem packets_nil (fuel : ℕ) : packets fuel [] = [] := by
  cases fuel <;> rfl

/-- The two readers after a record: what the first packet is, by its two lengths. -/
theorem packets_record (fuel : ℕ) (r : Record) (rest : Bytes) :
    packets (fuel + 1) (r.bytes ++ rest) = recordView r :: (readRecords rest).map recordView ↔
      0 < r.header.caplen ∧
        ((r.header.packlen = r.header.caplen ∧
          packets fuel rest = (readRecords rest).map recordView) ∨
        (r.header.caplen < r.header.packlen ∧ rest = [])) := by
  have hsize : r.payload.length = r.header.caplen := r.payload_size
  have hempty : (r.payload ++ rest).take r.header.packlen = [] ↔
      r.header.packlen = 0 ∨ r.payload ++ rest = [] := List.take_eq_nil_iff
  rw [packets, firstPacket_record]
  by_cases hnone : (r.payload ++ rest).take r.header.packlen = []
  · rw [if_pos hnone]
    constructor
    · intro h
      cases h
    · rintro ⟨hpos, hlen⟩
      have hpayload : r.payload ≠ [] := List.length_pos_iff.mp (by omega)
      rcases hempty.mp hnone with hzero | happend
      · omega
      · exact absurd (List.append_eq_nil_iff.mp happend).1 hpayload
  rw [if_neg hnone]
  dsimp only
  rw [List.cons.injEq, recordView, Prod.mk.injEq, and_iff_right rfl]
  rcases lt_trichotomy r.header.packlen r.header.caplen with hlt | heq | hgt
  · -- The reader takes too few bytes of this record for its packet.
    constructor
    · rintro ⟨hsame, -⟩
      have hlength := congrArg List.length hsame
      rw [List.length_take] at hlength
      omega
    · rintro ⟨-, ⟨hlen, -⟩ | ⟨hlen, -⟩⟩ <;> omega
  · have htake : (r.payload ++ rest).take r.header.packlen = r.payload := by
      rw [heq, ← hsize]
      exact List.take_left
    have hdrop : (r.payload ++ rest).drop r.header.packlen = rest := by
      rw [heq, ← hsize]
      exact List.drop_left
    have hpos : 0 < r.header.caplen := by
      rw [htake] at hnone
      rw [← hsize]
      exact List.length_pos_iff.mpr hnone
    rw [htake, hdrop]
    constructor
    · rintro ⟨-, hrest⟩
      exact ⟨hpos, Or.inl ⟨heq, hrest⟩⟩
    · rintro ⟨-, ⟨-, hrest⟩ | ⟨hlen, -⟩⟩
      · exact ⟨rfl, hrest⟩
      · omega
  · -- The packet takes bytes that follow the record, unless nothing does.
    constructor
    · rintro ⟨hsame, -⟩
      have hlength := congrArg List.length hsame
      rw [List.length_take, List.length_append] at hlength
      have hrest : rest = [] := List.length_eq_zero_iff.mp (by omega)
      refine ⟨?_, Or.inr ⟨hgt, hrest⟩⟩
      rw [hsame] at hnone
      rw [← hsize]
      exact List.length_pos_iff.mpr hnone
    · rintro ⟨-, ⟨hlen, -⟩ | ⟨-, rfl⟩⟩
      · omega
      · rw [List.append_nil, List.take_of_length_le (by omega), List.drop_of_length_le (by omega),
          packets_nil]
        exact ⟨rfl, rfl⟩

theorem packets_eq_iff {fuel : ℕ} {data : Bytes} (h : data.length ≤ fuel) :
    packets fuel data = (readRecords data).map recordView ↔ ReadAlike data := by
  induction fuel generalizing data with
  | zero =>
    have hnil := List.length_eq_zero_iff.mp (Nat.le_zero.mp h)
    subst hnil
    have hnone : firstRecord [] = none := rfl
    rw [readAlike_none hnone, readRecords_none hnone]
    simp [packets]
  | succ fuel ih =>
    cases hf : firstRecord data with
    | none =>
      have hempty : (data.drop pcapPacketHeaderSize).take
          (packetHeader (data.take pcapPacketHeaderSize)).packlen = [] ↔
            data.length ≤ pcapPacketHeaderSize ∨
              (packetHeader (data.take pcapPacketHeaderSize)).packlen = 0 := by
        rw [List.take_eq_nil_iff, List.drop_eq_nil_iff, or_comm]
      rw [readAlike_none hf, readRecords_none hf, ← hempty, packets, firstPacket]
      by_cases hcaptured : (data.drop pcapPacketHeaderSize).take
          (packetHeader (data.take pcapPacketHeaderSize)).packlen = []
      · simp [hcaptured]
      · simp [hcaptured]
    | some r =>
      have hdata := firstRecord_some hf
      have hlength := congrArg List.length hdata
      rw [List.length_append] at hlength
      have hpos := r.bytes_pos
      rw [readRecords_cons hf, List.map_cons]
      generalize data.drop r.bytes.length = rest at hdata hlength ⊢
      subst hdata
      rw [packets_record, ih (by omega), readAlike_some]

/-- `read` without a filter raises nothing for a supported link type. -/
theorem read_view {file : Bytes}
    (hlink : (FileHeader.fromFile file).1.linkType ∈ supportedLinkTypes)
    (worldFirstTime : Option ℚ) : ∃ pool,
    read none worldFirstTime file = some ((FileHeader.fromFile file).1, pool) ∧
      pool.map PcapPacket.view = packets (file.drop pcapFileHeaderSize).length
        (file.drop pcapFileHeaderSize) := by
  have hrest : (FileHeader.fromFile file).2 = file.drop pcapFileHeaderSize := fromFile_rest file
  obtain ⟨pool, hpool, hview⟩ := readLoop_view hlink worldFirstTime
    (file.drop pcapFileHeaderSize).length .new (file.drop pcapFileHeaderSize)
  rw [← hrest] at hpool
  refine ⟨pool, ?_, hview⟩
  rw [read_eq, hpool, Option.map_some]

/-- The reader yields the packets of the splitter, with the same headers and bytes, exactly when
every record has two equal positive lengths, apart from a last one that the snap length has cut,
and what remains is no more than a header or announces no packet. -/
theorem readers_agree_iff {file : Bytes}
    (hlink : (FileHeader.fromFile file).1.linkType ∈ supportedLinkTypes)
    (worldFirstTime : Option ℚ) :
    (∃ fileHeader pool, read none worldFirstTime file = some (fileHeader, pool) ∧
      pool.map PcapPacket.view = (readPcapRecords file).2.map recordView) ↔
      ReadAlike (file.drop pcapFileHeaderSize) := by
  obtain ⟨pool, hread, hview⟩ := read_view hlink worldFirstTime
  rw [← packets_eq_iff (le_refl _)]
  constructor
  · rintro ⟨_, pool', hread', hsame⟩
    rw [hread] at hread'
    cases hread'
    exact hview.symm.trans hsame
  · exact fun h => ⟨_, pool, hread, hview.trans h⟩

/-! ## Two Ethernet captures -/

def ethernetCapture (data : Bytes) : Bytes :=
  List.replicate 20 0 ++ littleBytes ETHERNET ++ data

theorem readers_agree_two_packets :
    ∃ fileHeader pool,
      read none none (ethernetCapture (packetBytes 7 1 ++ packetBytes 8 5 ++ [3, 3])) =
        some (fileHeader, pool) ∧
      pool.map PcapPacket.view = (readPcapRecords
        (ethernetCapture (packetBytes 7 1 ++ packetBytes 8 5 ++ [3, 3]))).2.map recordView :=
  (readers_agree_iff (by decide) none).mpr ((packets_eq_iff (le_refl _)).mp (by decide))

/-- A packet of two bytes of which the snap length kept one, and a packet after it. -/
def snappedCapture : Bytes :=
  ethernetCapture (littleBytes 7 ++ littleBytes 0 ++ littleBytes 1 ++ littleBytes 2 ++ [9] ++
    packetBytes 8 5)

/-- The reader takes the first byte of the next header for the second byte of the packet, and
finds no other packet. -/
theorem snapped_packet_shifts_reader :
    (FileHeader.fromFile snappedCapture).1.linkType = ETHERNET ∧
    ∃ fileHeader pool, read none none snappedCapture = some (fileHeader, pool) ∧
      pool.map PcapPacket.view = [(⟨7, 0, 1, 2⟩, [9, 8])] ∧
      (readPcapRecords snappedCapture).2.map recordView =
        [(⟨7, 0, 1, 2⟩, [9]), (⟨8, 0, 1, 1⟩, [5])] := by
  obtain ⟨pool, hread, hview⟩ := @read_view snappedCapture (by decide) none
  exact ⟨by decide, _, pool, hread, hview.trans (by decide), by decide⟩

end SensorDataNormalization.PcapReader
