import SensorDataNormalization.PcapMerge

set_option autoImplicit false

/-! `split_once` as a partition of the records by their second. -/
namespace SensorDataNormalization.SecondPartition
open PythonText WallClock PcapFilename PcapRecords KeyedGrouping StoreProgram PcapSplit PcapMerge

variable {E G : Type}

/-- The records whose time stamp, rounded down, is the given second. -/
def recordsAt (file : Bytes) (second : ℕ) : List Record :=
  (readPcapRecords file).2.filter (fun r => decide (⌊r.header.timeStamp⌋ = (second : ℤ)))

def pieceOf (clock : HostClock) (moduleName : Str) (t : SplitTemplate) (position : Position)
    (second : ℕ) : SplitedPcap where
  savePath := t.pathAt (label clock second)
  moduleName := moduleName
  date := (label clock second).date
  hours := (label clock second).hours
  minutes := (label clock second).minutes
  second := (label clock second).second
  position := position

section Partition
variable (clock : HostClock) (moduleName : Str) (t : SplitTemplate) (file : Bytes)

/-- The writes and the result of `split_once`, and the disk after the writes. -/
structure Partition (disk disk' : Store Str Bytes) (writes : List (Op Str Bytes E G))
    (outcome : SplitOutcome) (seconds : List ℕ) : Prop where
  ascending : seconds.Pairwise (· < ·)
  distinct : ∀ s, s ∈ seconds ↔ ∃ r ∈ (readPcapRecords file).2, ⌊r.header.timeStamp⌋ = (s : ℤ)
  header : (readPcapRecords file).2 ≠ [] → (readPcapRecords file).1.length = pcapFileHeaderSize
  files : writes = seconds.map (fun s => writeFile (t.pathAt (label clock s))
    (writePcap (readPcapRecords file).1 (recordsAt file s)))
  paths : (seconds.map (fun s => t.pathAt (label clock s))).Nodup
  written : ∀ s ∈ seconds, disk' (t.pathAt (label clock s)) =
    some (writePcap (readPcapRecords file).1 (recordsAt file s))
  untouched : ∀ path ∉ seconds.map (fun s => t.pathAt (label clock s)), disk' path = disk path
  nothing : (readPcapRecords file).2 = [] →
    writes = [] ∧ outcome.processed = [] ∧ outcome.unprocessed = []
  one : ∀ s, seconds = [s] → outcome.processed = [] ∧
    outcome.unprocessed = [pieceOf clock moduleName t .HEAD s]
  more : ∀ first middle last, seconds = first :: (middle ++ [last]) →
    outcome.processed = middle.map (pieceOf clock moduleName t .MID) ∧
      outcome.unprocessed =
        [pieceOf clock moduleName t .HEAD first, pieceOf clock moduleName t .TAIL last]
  once : (seconds.flatMap (recordsAt file)).Perm (readPcapRecords file).2

theorem floor_eq_iff (r : Record) (second : ℕ) :
    ⌊r.header.timeStamp⌋ = (second : ℤ) ↔ r.second = second := by
  rw [PacketHeader.floor_timeStamp]
  exact Int.ofNat_inj

theorem recordsAt_eq (second : ℕ) : recordsAt file second =
    (readPcapRecords file).2.filter (fun r => decide (r.second = second)) :=
  List.filter_congr (fun r _ => decide_eq_decide.mpr (floor_eq_iff r second))

theorem pieceAt_eq {headSecond tailSecond second : ℕ} {position : Position}
    (h : classifyPosition second headSecond tailSecond = position) :
    pieceAt clock moduleName t file headSecond tailSecond second =
      { piece := pieceOf clock moduleName t position second
        contents := writePcap (readPcapRecords file).1 (recordsAt file second) } := by
  rw [recordsAt_eq, ← h]
  rfl

theorem outcomeOf_one {s : ℕ} (h : sortedSeconds file = [s]) :
    outcomeOf (filePieces clock moduleName t file) =
      { processed := [], unprocessed := [pieceOf clock moduleName t .HEAD s] } := by
  have hpieces : filePieces clock moduleName t file =
      [pieceAt clock moduleName t file s s s] := by
    simp [filePieces, h]
  rw [hpieces, pieceAt_eq clock moduleName t file (if_pos rfl)]
  simp [outcomeOf, pieceOf]

theorem outcomeOf_more {first last : ℕ} {middle : List ℕ}
    (h : sortedSeconds file = first :: (middle ++ [last])) :
    outcomeOf (filePieces clock moduleName t file) =
      { processed := middle.map (pieceOf clock moduleName t .MID)
        unprocessed :=
          [pieceOf clock moduleName t .HEAD first, pieceOf clock moduleName t .TAIL last] } := by
  obtain ⟨hhead, htail, hmid⟩ := ends_positions file h
  have hmiddle : middle.map (pieceAt clock moduleName t file first last) =
      middle.map (fun s => { piece := pieceOf clock moduleName t .MID s
                             contents := writePcap (readPcapRecords file).1 (recordsAt file s) }) :=
    List.map_congr_left (fun s hs => pieceAt_eq clock moduleName t file (hmid s hs))
  rw [filePieces_ends clock moduleName t file h, pieceAt_eq clock moduleName t file hhead,
    pieceAt_eq clock moduleName t file htail, hmiddle]
  rw [outcomeOf_ends (by simp [pieceOf]) (by simp [pieceOf]) (by simp [pieceOf]), List.map_map]
  rfl

theorem writePieces_eq :
    (writePieces (filePieces clock moduleName t file) : List (Op Str Bytes E G)) =
      (sortedSeconds file).map (fun s => writeFile (t.pathAt (label clock s))
      (writePcap (readPcapRecords file).1 (recordsAt file s))) := by
  rw [writePieces, filePieces, List.map_map]
  refine List.map_congr_left (fun s _ => ?_)
  rw [recordsAt_eq]
  rfl

theorem recordsAt_once :
    ((sortedSeconds file).flatMap (recordsAt file)).Perm (readPcapRecords file).2 := by
  have hgroups : (sortedSeconds file).flatMap (recordsAt file) =
      stableSort Record.second (readPcapRecords file).2 := by
    rw [← flatMap_sortedKeys]
    refine List.flatMap_congr (fun s _ => ?_)
    rw [recordsAt_eq, groupAt_groupsOf]
  rw [hgroups]
  exact List.perm_insertionSort _ _

end Partition

/-- `split_once` writes one file for each distinct second, with the records of that second in
their order, and sorts the pieces into HEAD and TAIL on one side and MID on the other. -/
theorem split_partitions_by_second (clock : HostClock) (t : SplitTemplate) (srcFile : Str)
    (parts : PcapFilenameParts) (hname : parse (basename srcFile) = some parts) (file : Bytes)
    (hlabels : Set.InjOn (label clock) {s | s ∈ sortedSeconds file}) (disk : Store Str Bytes)
    (hsrc : disk (abspath srcFile) = some file) :
    ∃ writes outcome disk' seconds,
      (splitOnce clock disk srcFile t.text : Option (List (Op Str Bytes E G) × _)) =
        some (writes, outcome) ∧
      run writes disk = some disk' ∧
      Partition clock parts.moduleName t file disk disk' writes outcome seconds := by
  have hnodup := filePieces_paths_nodup clock parts.moduleName t file hlabels
  obtain ⟨disk', hrun, hpieces⟩ := run_writePieces (E := E) (G := G) hnodup disk
  obtain ⟨disk'', hrun', hother⟩ :=
    run_writePieces_other (E := E) (G := G) (filePieces clock parts.moduleName t file) disk
  have hsame : disk'' = disk' := Option.some.inj (hrun'.symm.trans hrun)
  have hpaths : (filePieces clock parts.moduleName t file).map
      (fun p => abspath p.piece.savePath) =
        (sortedSeconds file).map (fun s => t.pathAt (label clock s)) := by
    rw [filePieces, List.map_map]
    exact List.map_congr_left (fun s _ => t.abspath_pathAt _)
  refine ⟨writePieces (filePieces clock parts.moduleName t file),
    outcomeOf (filePieces clock parts.moduleName t file), disk', sortedSeconds file, ?_, hrun,
    { ascending := sortedSeconds_pairwise file
      distinct := fun s => ?_
      header := header_length_of_records
      files := writePieces_eq clock parts.moduleName t file
      paths := hpaths ▸ hnodup
      written := fun s hs => ?_
      untouched := fun path hpath => ?_
      nothing := fun hnil => ?_
      one := fun s hs => ?_
      more := fun first middle last hs => ?_
      once := recordsAt_once file }⟩
  · rw [splitOnce, hname, Option.bind_some, hsrc, Option.bind_some, splitPieces_template]
    rfl
  · simp only [floor_eq_iff]
    exact mem_sortedSeconds
  · have hmem : pieceAt clock parts.moduleName t file ((sortedSeconds file).head?.getD 0)
        ((sortedSeconds file).getLast?.getD 0) s ∈ filePieces clock parts.moduleName t file :=
      List.mem_map_of_mem hs
    have hfile := hpieces _ hmem
    rw [pieceAt_eq clock parts.moduleName t file rfl] at hfile
    exact (congrArg disk' (t.abspath_pathAt _).symm).trans hfile
  · rw [← hsame]
    exact hother path (hpaths ▸ hpath)
  · have hseconds := sortedSeconds_eq_nil.mpr hnil
    simp [writePieces, filePieces, outcomeOf, hseconds]
  · rw [outcomeOf_one clock parts.moduleName t file hs]
    exact ⟨rfl, rfl⟩
  · rw [outcomeOf_more clock parts.moduleName t file hs]
    exact ⟨rfl, rfl⟩

/-! ## A capture out of order -/

theorem cache_ordinary : ∀ s ∈ ["cache".toList], Ordinary s := by decide

theorem cache_no_brace : ∀ s ∈ ["cache".toList], ∀ c ∈ s, c ≠ '{' ∧ c ≠ '}' :=
  fun _ hs => List.mem_singleton.mp hs ▸ forall_chars (by decide)

theorem gnss_plain : ∀ c ∈ "GNSS_split_".toList, c ≠ '/' ∧ c ≠ '{' ∧ c ≠ '}' :=
  forall_chars (by decide)

theorem pcap_plain : ∀ c ∈ ".pcap".toList, c ≠ '/' ∧ c ≠ '{' ∧ c ≠ '}' := forall_chars (by decide)

def gnssTemplate : SplitTemplate where
  folder := ["cache".toList]
  before := "GNSS_split_".toList
  after := ".pcap".toList
  ordinary := cache_ordinary
  folder_no_brace := cache_no_brace
  before_plain := gnss_plain
  after_plain := pcap_plain

def threeSeconds : Bytes := captureOf [(7, 1), (9, 2), (8, 3), (7, 4)] ++ [5, 5]

def threeSecondsDisk : Store Str Bytes :=
  Function.update (fun _ => none) "/in/GNSS_202401010000.pcap".toList (some threeSeconds)

example : sortedSeconds threeSeconds = [7, 8, 9] := by decide

/-- Three seconds, a record out of order, and a truncated record at the end. -/
theorem split_partitions_by_second_three_seconds : ∃ writes outcome disk' seconds,
    (splitOnce utcClock threeSecondsDisk "/in/GNSS_202401010000.pcap".toList gnssTemplate.text :
      Option (List (Op Str Bytes Unit Unit) × _)) = some (writes, outcome) ∧
    run writes threeSecondsDisk = some disk' ∧
    Partition utcClock "GNSS".toList gnssTemplate threeSeconds threeSecondsDisk disk' writes outcome
      seconds := by
  have hseconds : sortedSeconds threeSeconds = [7, 8, 9] := by decide
  have hlabels : Set.InjOn (label utcClock) {s | s ∈ sortedSeconds threeSeconds} := by
    rw [hseconds]
    exact label_injOn (by decide)
  exact split_partitions_by_second utcClock gnssTemplate "/in/GNSS_202401010000.pcap".toList
    ⟨"GNSS".toList, "20240101".toList, "00".toList, "00".toList, []⟩ (by decide) threeSeconds
    hlabels threeSecondsDisk (Function.update_self _ _ _)

end SensorDataNormalization.SecondPartition
