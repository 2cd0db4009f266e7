import SensorDataNormalization.CaptureOrder
import SensorDataNormalization.ReaderSession

set_option autoImplicit false

/-! Reading the objects of a stream second by second replays its raw files. -/
namespace SensorDataNormalization.CaptureReplay
open PythonText ProjectConfig WallClock PcapFilename PcapRecords KeyedGrouping PcapSplit PcapMerge
  StoreProgram WorkerPaths RawObjects WorkerProgram ManagerProgram RawFiles BatchOwnership PieceFlow
  NormalizerSystem SystemSteps CycleIsolation UploadKeys SecondObjects PacketConservation
  CaptureOrder PacketBodies PcapReader MultiReader ReaderSession

variable {n : ℕ} {env : Environment}

def streamSeconds (capture : List (RawFile env)) (stream : SensorStream) : List ℕ :=
  sortedKeys (groupsOf Record.second (captured capture stream))

def secondObject (s3 : Store Str Bytes) (capture : List (RawFile env)) (stream : SensorStream)
    (second : ℕ) : Option Bytes :=
  (holders capture stream second).head?.bind (fun f => s3 (objectKey f second))

def streamObjects (s3 : Store Str Bytes) (capture : List (RawFile env)) (stream : SensorStream) :
    List (Option Bytes) :=
  (streamSeconds capture stream).map (secondObject s3 capture stream)

def rawObjects (capture : List (RawFile env)) (stream : SensorStream) : List (Option Bytes) :=
  (capture.filter (fun f => decide (f.stream = stream))).map
    (fun f => env.raw (f.object.filePath env.config))

/-! ## The packets of an object -/

theorem linkType_of_header {file header : Bytes} (h : file.take pcapFileHeaderSize = header) :
    (FileHeader.fromFile file).1.linkType = intAt header 20 24 := by
  subst h
  simp [FileHeader.fromFile, PacketBodies.read, intAt, bytesAt, pcapFileHeaderSize, List.drop_drop,
    List.take_drop, List.take_take]

theorem filePackets_clean {linkType : ℕ} (h : linkType ∈ supportedLinkTypes) {file : Bytes}
    (hc : Clean linkType file) :
    filePackets (some file) = (readPcapRecords file).2.filterMap (packetOf linkType) := by
  change (parsedFile file).getD [] = _
  rw [parsedFile_clean h hc]
  rfl

theorem clean_writePcap {linkType : ℕ} {header : Bytes} {records : List Record}
    (hheader : header.length = pcapFileHeaderSize) (hlink : intAt header 20 24 = linkType)
    (hwhole : ∀ r ∈ records, Whole r) : Clean linkType (writePcap header records) where
  link := (linkType_of_header (take_writePcap hheader records)).trans hlink
  whole := by
    rw [readPcapRecords_writePcap hheader]
    exact hwhole
  ending := by
    rw [readPcapRecords_writePcap hheader, drop_writePcap hheader]
    exact ⟨[], (List.append_nil _).symm, Or.inl (Nat.zero_le _)⟩

section Stream
variable {capture : List (RawFile env)} {stream : SensorStream} {second : ℕ}

theorem captured_filter :
    (captured capture stream).filter (fun r => decide (r.second = second)) =
      (holders capture stream second).flatMap (fun f => f.packets second) := by
  rw [← rawPackets_holders, captured, List.filter_flatMap]
  rfl

theorem mem_streamSeconds : second ∈ streamSeconds capture stream ↔
    ∃ f ∈ capture, f.stream = stream ∧ second ∈ f.seconds := by
  rw [streamSeconds, mem_sortedKeys, captured]
  constructor
  · rintro ⟨r, hr, rfl⟩
    obtain ⟨f, hf, hrf⟩ := List.mem_flatMap.mp hr
    obtain ⟨hf, hstream⟩ := List.mem_filter.mp hf
    exact ⟨f, hf, of_decide_eq_true hstream, mem_sortedSeconds.mpr ⟨r, hrf, rfl⟩⟩
  · rintro ⟨f, hf, hstream, hsecond⟩
    obtain ⟨r, hr, hrs⟩ := mem_sortedSeconds.mp hsecond
    exact ⟨r, List.mem_flatMap.mpr
      ⟨f, List.mem_filter.mpr ⟨hf, decide_eq_true hstream⟩, hr⟩, hrs⟩

theorem exists_holder (h : second ∈ streamSeconds capture stream) : ∃ f others,
    holders capture stream second = f :: others ∧ f ∈ capture ∧ f.stream = stream ∧
      second ∈ f.seconds := by
  obtain ⟨f, hf, hstream, hsecond⟩ := mem_streamSeconds.mp h
  have hholds : f ∈ holders capture stream second := mem_holders.mpr ⟨hf, hstream, hsecond⟩
  obtain ⟨g, others, hg⟩ := List.exists_cons_of_ne_nil (List.ne_nil_of_mem hholds)
  exact ⟨g, others, hg, mem_holders.mp (hg ▸ List.mem_cons_self)⟩

/-- The files of the stream are clean captures of one link type. -/
def CleanStream (linkType : ℕ) (capture : List (RawFile env)) (stream : SensorStream) : Prop :=
  linkType ∈ supportedLinkTypes ∧ ∀ f ∈ capture, f.stream = stream → Clean linkType f.contents

/-- The object of a second is the file header of its first file and the packets of the second. -/
theorem object_bytes (h : second ∈ streamSeconds capture stream) : ∃ f ∈ capture,
    f.stream = stream ∧ (readPcapRecords f.contents).1.length = pcapFileHeaderSize ∧
      mergedBytes ((holders capture stream second).map (fun g => (g.cut second).contents)) =
        writePcap (readPcapRecords f.contents).1
          ((captured capture stream).filter (fun r => decide (r.second = second))) := by
  obtain ⟨f, others, hf, hfc, hstream, -⟩ := exists_holder h
  have hheader : ∀ g ∈ holders capture stream second,
      (readPcapRecords g.contents).1.length = pcapFileHeaderSize := by
    intro g hg
    obtain ⟨-, -, hgs⟩ := mem_holders.mp hg
    obtain ⟨r, hr, -⟩ := mem_sortedSeconds.mp hgs
    exact header_length_of_records (List.ne_nil_of_mem hr)
  refine ⟨f, hfc, hstream, hheader f (hf ▸ List.mem_cons_self), ?_⟩
  rw [captured_filter]
  rw [hf] at hheader ⊢
  exact mergedBytes_writePcap hheader

theorem object_packets {linkType : ℕ} (hclean : CleanStream linkType capture stream)
    (hsecond : second ∈ streamSeconds capture stream) :
    filePackets (some (mergedBytes
      ((holders capture stream second).map (fun g => (g.cut second).contents)))) =
        ((captured capture stream).filter (fun r => decide (r.second = second))).filterMap
          (packetOf linkType) := by
  obtain ⟨g, hg, hstream, hlength, hobject⟩ := object_bytes hsecond
  have hwhole : ∀ r ∈ (captured capture stream).filter (fun r => decide (r.second = second)),
      Whole r := by
    intro r hr
    obtain ⟨f, hf, hrf⟩ := List.mem_flatMap.mp (List.mem_of_mem_filter hr)
    obtain ⟨hf, hfstream⟩ := List.mem_filter.mp hf
    exact (hclean.2 f hf (of_decide_eq_true hfstream)).whole r hrf
  have hlink : intAt (readPcapRecords g.contents).1 20 24 = linkType :=
    (linkType_of_header rfl).symm.trans (hclean.2 g hg hstream).link
  rw [hobject, filePackets_clean hclean.1 (clean_writePcap hlength hlink hwhole),
    readPcapRecords_writePcap hlength]

theorem raw_packets {linkType : ℕ} (hclean : CleanStream linkType capture stream) :
    (rawObjects capture stream).flatMap filePackets =
      (captured capture stream).filterMap (packetOf linkType) := by
  rw [rawObjects, captured, List.flatMap_map, List.filterMap_flatMap]
  refine List.flatMap_congr (fun f hf => ?_)
  obtain ⟨hf, hstream⟩ := List.mem_filter.mp hf
  rw [f.stored]
  exact filePackets_clean hclean.1 (hclean.2 f hf (of_decide_eq_true hstream))

/-- Second by second the packets of the capture come out stably sorted by their second. -/
theorem seconds_packets (key : Record → Option Parsed) :
    (streamSeconds capture stream).flatMap (fun second =>
      ((captured capture stream).filter (fun r => decide (r.second = second))).filterMap key) =
        (stableSort Record.second (captured capture stream)).filterMap key := by
  rw [← flatMap_sortedKeys, List.filterMap_flatMap]
  refine List.flatMap_congr (fun second _ => ?_)
  rw [groupAt_groupsOf]

end Stream

theorem map_some_filterMap {α β : Type} {f : α → Option β} {xs : List α}
    (h : ∀ a ∈ xs, (f a).isSome) : (xs.filterMap f).map some = xs.map f := by
  induction xs with
  | nil => rfl
  | cons a xs ih =>
    obtain ⟨b, hb⟩ := Option.isSome_iff_exists.mp (h a List.mem_cons_self)
    rw [List.filterMap_cons, hb, List.map_cons, List.map_cons, hb,
      ih (fun x hx => h x (List.mem_cons_of_mem _ hx))]

/-! ## The replay -/

section Cycle
variable {files capture : List (RawFile env)} {request : Request} {answer : StorageAnswer}
  {s₀ s₁ s : System n} (hc : Capture capture) (hlabels : DistinctLabels capture)
  (hfiles : files.Perm capture) (h : Starts files request answer s₀ s₁)
  (run : Runs env (Timely files capture) s₁ s) (hreturned : s.phase = .returned)
  {stream : SensorStream}
include hc hlabels hfiles h run hreturned

theorem stored_second {second : ℕ} (hsecond : second ∈ streamSeconds capture stream) :
    secondObject s.s3 capture stream second = some (mergedBytes
      ((holders capture stream second).map (fun g => (g.cut second).contents))) := by
  obtain ⟨hstored, -⟩ := timely_store hc hlabels hfiles h run hreturned
  obtain ⟨g, others, hg, hgc, hgstream, hgs⟩ := exists_holder hsecond
  have hkey := hstored g hgc second hgs
  rw [hgstream] at hkey
  rw [secondObject, hg]
  rw [hg] at hkey
  exact hkey

/-- When the files of a stream have the same file header, the objects of a cycle in capture order
are the files that `split_once` writes for the whole capture in one file, second by second, and
merging them gives that file back, stably sorted by second. -/
theorem cycle_splits_capture {header : Bytes} (hlength : header.length = pcapFileHeaderSize)
    (hheader : ∀ f ∈ capture, f.stream = stream → (readPcapRecords f.contents).1 = header)
    {E G : Type} (t : SplitTemplate) {srcFile : Str} {parts : PcapFilenameParts}
    (hname : parse (basename srcFile) = some parts) {disk : Store Str Bytes}
    (hsrc : disk (abspath srcFile) = some (writePcap header (captured capture stream))) :
    ∃ pieces outcome,
      splitOnce env.clock disk srcFile t.text =
        some ((writePieces pieces : List (Op Str Bytes E G)), outcome) ∧
      pieces.map (fun p => p.piece.savePath) =
        (streamSeconds capture stream).map (fun second => t.pathAt (label env.clock second)) ∧
      streamObjects s.s3 capture stream = pieces.map (fun p => some p.contents) ∧
      (captured capture stream ≠ [] → mergedBytes (pieces.map PieceFile.contents) =
        writePcap header (stableSort Record.second (captured capture stream))) := by
  let whole := writePcap header (captured capture stream)
  have hread : readPcapRecords whole = (header, captured capture stream) :=
    readPcapRecords_writePcap hlength _
  have hseconds : sortedSeconds whole = streamSeconds capture stream := by
    rw [sortedSeconds, hread]
    rfl
  refine ⟨filePieces env.clock parts.moduleName t whole,
    outcomeOf (filePieces env.clock parts.moduleName t whole), ?_, ?_, ?_, fun hne => ?_⟩
  · rw [splitOnce, hname, Option.bind_some, hsrc, Option.bind_some, splitPieces_template]
    rfl
  · rw [filePieces_savePaths, hseconds]
  · rw [streamObjects, filePieces, List.map_map, hseconds]
    refine List.map_congr_left (fun second hsecond => ?_)
    obtain ⟨g, hg, hstream, -, hobject⟩ := object_bytes hsecond
    rw [stored_second hc hlabels hfiles h run hreturned hsecond, hobject, hheader g hg hstream]
    change some (writePcap header _) = some (writePcap (readPcapRecords whole).1 _)
    rw [hread]
  · have hrecords : (readPcapRecords whole).2 ≠ [] := by
      rw [hread]
      exact hne
    have hmerged := mergedBytes_filePieces env.clock parts.moduleName t hrecords
    rw [hread] at hmerged
    exact hmerged

/-- After a cycle in capture order, a session over the objects of a stream in the order of their
seconds reads the packets of its raw files, stably sorted by second; when these are in time order
it tells of every packet what a session over the raw files does, down to the offset from the
common origin of time. -/
theorem capture_replayed {linkType : ℕ} (hclean : CleanStream linkType capture stream) :
    (∀ object ∈ streamObjects s.s3 capture stream, object.isSome) ∧
      (session (streamObjects s.s3 capture stream)).1.flatten.map
          (fun p => some (p.header, p.body)) =
        (stableSort Record.second (captured capture stream)).map (packetOf linkType) ∧
      (Ascending Record.second (captured capture stream) →
        (session (streamObjects s.s3 capture stream)).1.flatten.map seen =
            (session (rawObjects capture stream)).1.flatten.map seen ∧
          (session (streamObjects s.s3 capture stream)).2 =
            (session (rawObjects capture stream)).2) := by
  have hobject : ∀ second ∈ streamSeconds capture stream, _ :=
    fun second hsecond => stored_second hc hlabels hfiles h run hreturned hsecond
  have hpackets : (streamObjects s.s3 capture stream).flatMap filePackets =
      (stableSort Record.second (captured capture stream)).filterMap (packetOf linkType) := by
    rw [← seconds_packets, streamObjects, List.flatMap_map]
    refine List.flatMap_congr (fun second hsecond => ?_)
    rw [hobject second hsecond]
    exact object_packets hclean hsecond
  have hwhole : ∀ r ∈ stableSort Record.second (captured capture stream),
      (packetOf linkType r).isSome := by
    intro r hr
    obtain ⟨f, hf, hrf⟩ := List.mem_flatMap.mp ((List.perm_insertionSort _ _).mem_iff.mp hr)
    obtain ⟨hf, hstream⟩ := List.mem_filter.mp hf
    obtain ⟨body, hbody, -⟩ := packetOf_whole hclean.1
      ((hclean.2 f hf (of_decide_eq_true hstream)).whole r hrf)
    rw [hbody]
    rfl
  refine ⟨?_, ?_, fun hordered => ?_⟩
  · intro object ho
    obtain ⟨second, hsecond, rfl⟩ := List.mem_map.mp ho
    rw [hobject second hsecond]
    rfl
  · obtain ⟨hseen, -⟩ := readAll_packets reset _ hpackets
    have hread := congrArg (List.map (fun x => some x.1)) hseen
    rw [List.map_map, List.map_map] at hread
    refine hread.trans ((List.map_congr_left (fun _ _ => rfl)).trans ?_)
    exact map_some_filterMap hwhole
  · refine session_congr (hpackets.trans ?_)
    rw [raw_packets hclean, stableSort_eq_self hordered]

end Cycle

/-! ### Two files that share a second -/

def ethernetDay : List (RawObject × Bytes) :=
  [(.gnss "20240101".toList "202401010000".toList stamp_first,
      ethernetCapture (packetBytes 1704067200 1 ++ packetBytes 1704067201 2)),
    (.gnss "20240101".toList "202401010001".toList stamp_second,
      ethernetCapture (packetBytes 1704067201 3 ++ [0, 0]))]

theorem ethernetDay_stored : ∀ o ∈ ethernetDay, (hostOf ethernetDay).raw
    (o.1.filePath (hostOf ethernetDay).config) = some o.2 := by
  decide +kernel

def ethernetFiles : List (RawFile (hostOf ethernetDay)) := filesOf ethernetDay ethernetDay_stored

instance (r : Record) : Decidable (Whole r) :=
  decidable_of_iff (0 < r.header.caplen ∧ r.header.packlen = r.header.caplen)
    ⟨fun h => ⟨h.1, h.2⟩, fun h => ⟨h.1, h.2⟩⟩

theorem ethernetDay_capture : Capture ethernetFiles where
  minutes := by decide +kernel
  ordered := by decide +kernel
  shared := shared_of_length (by decide +kernel)

theorem ethernetDay_labels : DistinctLabels ethernetFiles :=
  distinctLabels_of_text (by decide +kernel)

/-- What follows the last complete record. -/
def unread (file : Bytes) : Bytes :=
  file.drop (pcapFileHeaderSize + (recordsBytes (readPcapRecords file).2).length)

theorem ethernetDay_clean (stream : SensorStream) : CleanStream ETHERNET ethernetFiles stream := by
  refine ⟨by decide, fun f hf _ => ?_⟩
  have hwhole : ∀ f ∈ ethernetFiles, ∀ r ∈ (readPcapRecords f.contents).2, Whole r := by
    decide +kernel
  have hlink : ∀ f ∈ ethernetFiles, (FileHeader.fromFile f.contents).1.linkType = ETHERNET := by
    decide +kernel
  have hending : ∀ f ∈ ethernetFiles, f.contents.drop pcapFileHeaderSize =
      recordsBytes (readPcapRecords f.contents).2 ++ unread f.contents ∧
        (unread f.contents).length ≤ pcapPacketHeaderSize := by
    decide +kernel
  exact ⟨hlink f hf, hwhole f hf, _, (hending f hf).1, Or.inl (hending f hf).2⟩

def dayRequest : Request := ⟨[], "20240101".toList, [], none⟩

theorem ethernet_cycle : ∃ s₁ s : System 1,
    Starts ethernetFiles dayRequest (.listing (listingOf ethernetDay)) .polling s₁ ∧
      Runs (hostOf ethernetDay) (Timely ethernetFiles ethernetFiles) s₁ s ∧
      s.phase = .returned := by
  have hrun : (NormalizerSystem.step (hostOf ethernetDay) (.polling : System 1)
      (.request dayRequest (.listing (listingOf ethernetDay)))).any (fun s₁ =>
        (runWhile (hostOf ethernetDay) (Timely ethernetFiles ethernetFiles) twoFilesInTurn s₁).any
          (fun s => decide (s.phase = .returned))) = true := by
    decide +kernel
  obtain ⟨s₁, hstart, hs₁⟩ := (Option.any_eq_true _ _).mp hrun
  obtain ⟨s, hruns, hs⟩ := runs_of_any hs₁
  exact ⟨s₁, s, ⟨⟨rfl, rfl, fun _ => rfl⟩, rfl, by decide +kernel, hstart⟩, hruns,
    of_decide_eq_true hs⟩

def gnssStream : SensorStream :=
  (RawObject.gnss "20240101".toList "202401010000".toList stamp_first).stream

def ethernetHeader : Bytes := List.replicate 20 0 ++ littleBytes ETHERNET

theorem cycle_splits_capture_two_files : ∃ s : System 1, ∃ pieces outcome,
    splitOnce utcClock (Function.update (fun _ => none) "/in/GNSS_202401010000.pcap".toList
        (some (writePcap ethernetHeader (captured ethernetFiles gnssStream))))
        "/in/GNSS_202401010000.pcap".toList
        ((RawObject.gnss "20240101".toList "202401010000".toList stamp_first).template
          applicationConf).text =
      some ((writePieces pieces : List (Op Str Bytes Unit Unit)), outcome) ∧
    pieces.length = 2 ∧
    streamObjects s.s3 ethernetFiles gnssStream = pieces.map (fun p => some p.contents) := by
  obtain ⟨s₁, s, hstarts, hruns, hreturned⟩ := ethernet_cycle
  have hheader : ∀ f ∈ ethernetFiles, f.stream = gnssStream →
      (readPcapRecords f.contents).1 = ethernetHeader := by
    decide +kernel
  have hname : parse (basename "/in/GNSS_202401010000.pcap".toList) =
      some ⟨"GNSS".toList, "20240101".toList, "00".toList, "00".toList, []⟩ := by
    decide
  obtain ⟨pieces, outcome, hsplit, hpaths, hobjects, -⟩ :=
    cycle_splits_capture ethernetDay_capture ethernetDay_labels (List.Perm.refl _) hstarts hruns
      hreturned (by decide) hheader _ hname (Function.update_self _ _ _)
  have hlength := congrArg List.length hpaths
  rw [List.length_map, List.length_map] at hlength
  exact ⟨s, pieces, outcome, hsplit, hlength.trans (by decide +kernel), hobjects⟩

theorem capture_replayed_two_files : ∃ s : System 1,
    (streamSeconds ethernetFiles gnssStream).length = 2 ∧
      (session (streamObjects s.s3 ethernetFiles gnssStream)).1.flatten.map seen =
        (session (rawObjects ethernetFiles gnssStream)).1.flatten.map seen := by
  obtain ⟨s₁, s, hstarts, hruns, hreturned⟩ := ethernet_cycle
  have hordered : Ascending Record.second (captured ethernetFiles gnssStream) := by
    unfold Ascending
    decide +kernel
  exact ⟨s, by decide +kernel, ((capture_replayed ethernetDay_capture ethernetDay_labels
    (List.Perm.refl _) hstarts hruns hreturned (ethernetDay_clean _)).2.2 hordered).1⟩

end SensorDataNormalization.CaptureReplay
