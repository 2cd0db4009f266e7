import SensorDataNormalization.MultiReader

set_option autoImplicit false

/-! Sessions of `MultiPcapReader` without a filter, over files that are read record by record. -/
namespace SensorDataNormalization.ReaderSession
open PcapRecords PacketBodies PcapReader MultiReader

/-! ## Files that are read record by record -/

def packetOf (linkType : ℕ) (r : Record) : Option Parsed :=
  (parseBody linkType r.payload.length r.payload).join.map (fun p => (r.header, p.1))

/-- A record that was not cut by the snap length. -/
structure Whole (r : Record) : Prop where
  positive : 0 < r.header.caplen
  full : r.header.packlen = r.header.caplen

/-- No packet follows: not more than a header is left, or it announces no bytes. -/
def Exhausted (tail : Bytes) : Prop :=
  tail.length ≤ pcapPacketHeaderSize ∨ (packetHeader (tail.take pcapPacketHeaderSize)).packlen = 0

structure Clean (linkType : ℕ) (file : Bytes) : Prop where
  link : (FileHeader.fromFile file).1.linkType = linkType
  whole : ∀ r ∈ (readPcapRecords file).2, Whole r
  ending : ∃ tail, file.drop pcapFileHeaderSize = recordsBytes (readPcapRecords file).2 ++ tail ∧
    Exhausted tail

/-- The body of a packet does not depend on what follows it in the file. -/
theorem parseBody_append {linkType : ℕ} {data : Bytes} {body : PcapBody} (rest : Bytes)
    (h : (parseBody linkType data.length data).join = some (body, [])) :
    parseBody linkType data.length (data ++ rest) = some (some (body, rest)) := by
  rw [parseBody_def] at h ⊢
  rw [List.take_left, List.drop_left]
  rw [List.take_length, List.drop_length] at h
  by_cases hlen : data.length ≤ 0
  · rw [if_pos hlen] at h
    cases h
  · rw [if_neg hlen] at h ⊢
    by_cases hdata : data = []
    · rw [if_pos hdata] at h
      cases h
    · rw [if_neg hdata] at h ⊢
      cases hprotocol : detectProtocol linkType data with
      | none =>
        rw [hprotocol] at h
        cases h
      | some protocol =>
        rw [hprotocol] at h
        dsimp only at h ⊢
        cases hclass : (bodyTable.lookup (linkType, protocol)).or
            (bodyTable.lookup (linkType, TCP)) with
        | none =>
          rw [hclass] at h
          cases h
        | some parse =>
          rw [hclass] at h
          cases h
          rfl

theorem packetOf_whole {linkType : ℕ} (h : linkType ∈ supportedLinkTypes) {r : Record}
    (hr : Whole r) : ∃ body, packetOf linkType r = some (r.header, body) ∧ ∀ rest,
      parseBody linkType r.header.packlen (r.payload ++ rest) = some (some (body, rest)) := by
  have hsize : r.payload.length = r.header.packlen := r.payload_size.trans hr.full.symm
  have hpayload : r.payload ≠ [] := List.length_pos_iff.mp (r.payload_size ▸ hr.positive)
  obtain ⟨parse, -, hparse⟩ := parseBody_supported h r.payload.length r.payload
  rw [List.take_length, List.drop_length, if_neg hpayload] at hparse
  have hjoin : (parseBody linkType r.payload.length r.payload).join =
      some (parse r.payload, []) := by
    rw [hparse]
    rfl
  refine ⟨parse r.payload, ?_, fun rest => ?_⟩
  · rw [packetOf, hjoin]
    rfl
  · rw [← hsize]
    exact parseBody_append rest hjoin

theorem parsed_exhausted {linkType : ℕ} (h : linkType ∈ supportedLinkTypes) {tail : Bytes}
    (ht : Exhausted tail) (fuel : ℕ) : parsed linkType fuel tail = some [] := by
  cases fuel with
  | zero => rfl
  | succ fuel =>
    unfold parsed
    rw [packetHeaderFromFile_eq]
    by_cases hnil : tail = []
    · rw [if_pos hnil]
    · rw [if_neg hnil]
      dsimp only
      obtain ⟨parse, -, hparse⟩ := parseBody_supported h
        (packetHeader (tail.take pcapPacketHeaderSize)).packlen (tail.drop pcapPacketHeaderSize)
      have hempty : (tail.drop pcapPacketHeaderSize).take
          (packetHeader (tail.take pcapPacketHeaderSize)).packlen = [] := by
        rcases ht with hshort | hzero
        · rw [List.drop_of_length_le hshort, List.take_nil]
        · rw [hzero, List.take_zero]
      rw [hparse, if_pos hempty]

theorem parsed_records {linkType : ℕ} (h : linkType ∈ supportedLinkTypes) {records : List Record}
    (hwhole : ∀ r ∈ records, Whole r) {tail : Bytes} (ht : Exhausted tail) {fuel : ℕ}
    (hfuel : records.length ≤ fuel) :
    parsed linkType fuel (recordsBytes records ++ tail) =
      some (records.filterMap (packetOf linkType)) := by
  induction records generalizing fuel with
  | nil => exact parsed_exhausted h ht fuel
  | cons r records ih =>
    obtain ⟨fuel, rfl⟩ : ∃ k, fuel = k + 1 := ⟨fuel - 1, by simp at hfuel; omega⟩
    obtain ⟨body, hpacket, hparse⟩ := packetOf_whole h (hwhole r List.mem_cons_self)
    have hrest := ih (fun s hs => hwhole s (List.mem_cons_of_mem _ hs))
      (Nat.le_of_succ_le_succ hfuel)
    have hne : r.bytes ++ (recordsBytes records ++ tail) ≠ [] := by
      intro hnil
      have hpos := r.bytes_pos
      rw [(List.append_eq_nil_iff.mp hnil).1] at hpos
      exact absurd hpos (lt_irrefl 0)
    rw [recordsBytes_cons, List.append_assoc]
    unfold parsed
    rw [packetHeaderFromFile_eq, if_neg hne, r.take_bytes, r.drop_bytes]
    dsimp only
    have hbody := hparse (recordsBytes records ++ tail)
    change parseBody linkType (packetHeader r.headerBytes).packlen _ = _ at hbody
    rw [hbody]
    dsimp only
    rw [hrest, List.filterMap_cons, hpacket]
    rfl

theorem recordsBytes_length (records : List Record) :
    records.length ≤ (recordsBytes records).length := by
  induction records with
  | nil => exact le_refl 0
  | cons r records ih =>
    have hpos := r.bytes_pos
    rw [recordsBytes_cons, List.length_append, List.length_cons]
    omega

theorem parsedFile_clean {linkType : ℕ} (h : linkType ∈ supportedLinkTypes) {file : Bytes}
    (hc : Clean linkType file) :
    parsedFile file = some ((readPcapRecords file).2.filterMap (packetOf linkType)) := by
  obtain ⟨tail, hbytes, htail⟩ := hc.ending
  have hlength := recordsBytes_length (readPcapRecords file).2
  unfold parsedFile
  dsimp only
  rw [fromFile_rest, hc.link]
  change parsed linkType (file.drop pcapFileHeaderSize).length (file.drop pcapFileHeaderSize) = _
  rw [hbytes]
  refine parsed_records h hc.whole htail ?_
  rw [List.length_append]
  omega

/-! ## Sessions -/

/-- The pools and the time after reading the files one after the other on a new reader. A file
that cannot be opened raises and is passed over. -/
def session (files : List (Option Bytes)) : List (List PcapPacket) × Option ℚ :=
  readAll reset (files.map (Call.mk none))

/-- What a session tells of a packet, apart from its place in its own file. -/
def seen (p : PcapPacket) : Parsed × ℚ × ℚ :=
  ((p.header, p.body), p.time.timeStamp, p.time.worldAccumulateOffsetTime)

def against (origin : ℚ) (packet : Parsed) : Parsed × ℚ × ℚ :=
  (packet, packet.1.timeStamp, packet.1.timeStamp - origin)

theorem seen_timed {origin : ℚ} {pool : List PcapPacket} (h : ∀ p ∈ pool, Timed origin p) :
    pool.map seen = (pool.map (fun p => (p.header, p.body))).map (against origin) := by
  rw [List.map_map]
  apply List.map_congr_left
  intro p hp
  obtain ⟨hstamp, hworld⟩ := h p hp
  simp only [seen, against, Function.comp_apply, hworld, hstamp]

def filePackets (file : Option Bytes) : List Parsed := (Call.mk none file).packets

theorem kept_all (file : Option Bytes) : (Call.mk none file).kept = filePackets file :=
  List.filter_eq_self.mpr (fun _ _ => rfl)

/-- A session depends only on the packets of its files, put one after the other. -/
theorem readAll_packets (worldFirstTime : Option ℚ) (files : List (Option Bytes))
    {packets : List Parsed} (h : files.flatMap filePackets = packets) :
    (readAll worldFirstTime (files.map (Call.mk none))).1.flatten.map seen =
        packets.map (against (worldFirstTime.getD ((firstTimeOf packets).getD 0))) ∧
      (readAll worldFirstTime (files.map (Call.mk none))).2 =
        worldFirstTime.or (firstTimeOf packets) := by
  induction files generalizing worldFirstTime packets with
  | nil =>
    subst h
    exact ⟨rfl, (Option.or_none).symm⟩
  | cons file files ih =>
    obtain ⟨pool, hpool, hkept, htimed, hnext⟩ := read_spec worldFirstTime (Call.mk none file)
    obtain ⟨hflatten, hlast⟩ :=
      readAll_cons worldFirstTime (Call.mk none file) (files.map (Call.mk none))
    obtain ⟨hrest, hstate⟩ := ih (read worldFirstTime (Call.mk none file)).2 rfl
    rw [kept_all] at hkept hnext
    change (∀ p ∈ pool, Timed (worldFirstTime.getD ((firstTimeOf (filePackets file)).getD 0)) p)
      at htimed
    rw [List.map_cons, hflatten, hlast, hstate, List.map_append, hpool, hrest, seen_timed htimed,
      hkept, hnext, ← h, List.flatMap_cons, List.map_append]
    cases hp : filePackets file with
    | nil =>
      have hnone : firstTimeOf ([] : List Parsed) = none := rfl
      rw [hnone, Option.or_none]
      exact ⟨rfl, rfl⟩
    | cons packet rest =>
      have hsome : ∀ others, firstTimeOf (packet :: others) = some packet.1.timeStamp :=
        fun _ => rfl
      rw [List.cons_append, hsome, hsome]
      cases worldFirstTime with
      | none => exact ⟨rfl, rfl⟩
      | some origin => exact ⟨rfl, rfl⟩

theorem session_congr {files files' : List (Option Bytes)}
    (h : files.flatMap filePackets = files'.flatMap filePackets) :
    (session files).1.flatten.map seen = (session files').1.flatten.map seen ∧
      (session files).2 = (session files').2 := by
  obtain ⟨hpackets, hworld⟩ := readAll_packets reset files h
  obtain ⟨hpackets', hworld'⟩ := readAll_packets reset files' rfl
  exact ⟨hpackets.trans hpackets'.symm, hworld.trans hworld'.symm⟩

end SensorDataNormalization.ReaderSession
