import SensorDataNormalization.PcapMerge
import SensorDataNormalization.WorkerProgram

set_option autoImplicit false

/-! What a worker does with a raw object, as one program. -/
namespace SensorDataNormalization.RawFiles
open PythonText SensorRegistry ProjectConfig WallClock PcapFilename PcapRecords PcapSplit PcapMerge
  KeyedGrouping StoreProgram WorkerPaths RawObjects Messages WorkerProgram

/-- A raw object and the bytes that S3 holds for it. -/
structure RawFile (env : Environment) where
  object : RawObject
  contents : Bytes
  stored : env.raw (object.filePath env.config) = some contents
  deriving DecidableEq

namespace RawFile
variable {env : Environment} (f : RawFile env)

def stream : SensorStream := f.object.stream
def template : SplitTemplate := f.object.template env.config
def entry : StorageFile := storageFile env.config f.object

def seconds : List ℕ := sortedSeconds f.contents

def downloadPath : Str := f.object.downloadPath env.config
def pathAt (second : ℕ) : Str := f.template.pathAt (label env.clock second)

/-- The piece of a packet second. -/
def cut (second : ℕ) : PieceFile :=
  pieceAt env.clock f.stream.moduleName f.template f.contents (f.seconds.head?.getD 0)
    (f.seconds.getLast?.getD 0) second

def pieces : List PieceFile := f.seconds.map f.cut

/-- Every local path that a worker uses for the file. -/
def paths : List Str := f.downloadPath :: f.seconds.map f.pathAt

def packets (second : ℕ) : List Record :=
  (readPcapRecords f.contents).2.filter (fun r => decide (r.second = second))

def isMid (second : ℕ) : Bool := decide ((f.cut second).piece.position = .MID)

def mids : List ℕ := f.seconds.filter f.isMid
def ends : List ℕ := f.seconds.filter (fun second => !f.isMid second)

def source (job : Job) (second : ℕ) : Source := ⟨job, (f.cut second).piece⟩

def put (job : Job) (second : ℕ) : PairPut where
  source := f.source job second
  pairKey := f.stream.pairKey (label env.clock second)
  item :=
    { srcPath := f.pathAt second
      outFilePath := f.stream.outPath env.config (label env.clock second)
      prefixPath := f.stream.endKey env.config (label env.clock second) }

def midDestination (job : Job) (second : ℕ) : Destination :=
  ⟨f.stream.splitKey env.config (label env.clock second), [f.source job second]⟩

def midOps (job : Job) (second : ℕ) : Program :=
  [.emit (f.pathAt second) (f.midDestination job second), .erase (f.pathAt second)]

def endOp (job : Job) (second : ℕ) : WorkOp := .give (f.pathAt second) (f.put job second)

def workProgram (job : Job) : Program :=
  writePieces f.pieces ++ .erase f.downloadPath ::
    (f.mids.flatMap (f.midOps job) ++ f.ends.map (f.endOp job))

theorem cut_savePath (second : ℕ) : (f.cut second).piece.savePath = f.pathAt second := rfl

theorem abspath_pathAt (second : ℕ) : abspath (f.pathAt second) = f.pathAt second :=
  f.template.abspath_pathAt _

theorem abspath_downloadPath : abspath f.downloadPath = f.downloadPath :=
  f.object.abspath_downloadPath env.config

theorem cut_pieceOf (second : ℕ) :
    f.stream.PieceOf (label env.clock second) (f.cut second).piece :=
  ⟨rfl, rfl, rfl, rfl, rfl⟩

theorem vehicleIdOf_entry : vehicleIdOf f.entry.filePath = some f.stream.vehicle :=
  f.object.vehicleIdOf_filePath env.config

theorem buildDownloadDstPath_entry :
    buildDownloadDstPath env.config f.stream.vehicle f.entry.fileName =
      some (pathOf (f.object.workFolder env.config)) :=
  f.object.buildDownloadDstPath_raw env.config

theorem downloadFile_entry :
    pathOf (f.object.workFolder env.config) ++ '/' :: f.entry.fileName = f.downloadPath :=
  f.object.downloadFile_raw env.config

theorem download_entry {job : Job} (h : job.file = f.entry) :
    download env job = [.put f.downloadPath f.contents] := by
  have hraw : env.raw f.entry.filePath = some f.contents := f.stored
  unfold download
  rw [h, f.vehicleIdOf_entry]
  dsimp only
  rw [f.buildDownloadDstPath_entry, hraw]
  dsimp only
  rw [f.downloadFile_entry, writeFile, f.abspath_downloadPath]

theorem midKey_cut (second : ℕ) : midKey env.config f.stream.vehicle (f.cut second).piece =
    some (f.stream.splitKey env.config (label env.clock second)) := by
  have hbase : basename (f.pathAt second) =
      splitName f.stream.moduleName (label env.clock second) := by
    change basename (pathOf (_ ++ [f.template.nameAt _])) = _
    exact basename_pathOf (f.template.nameAt_no_slash _)
  rw [midKey, SensorStream.buildUploadDstPath_piece (f.cut_pieceOf second), f.cut_savePath, hbase,
    Option.map_some]
  simp [SensorStream.splitKey, pathOf, SeparatedLists.joined]

theorem uploadProcessed_cut (job : Job) {second : ℕ} (h : f.isMid second = true) :
    uploadProcessed env job f.stream.vehicle (f.cut second).piece = f.midOps job second := by
  rw [uploadProcessed_mid (of_decide_eq_true h), f.midKey_cut, f.cut_savePath, f.abspath_pathAt]
  rfl

theorem unprocessedPcap_cut (job : Job) (second : ℕ) :
    unprocessedPcap env.config f.stream.vehicle (f.cut second).piece =
      some (f.put job second).item := by
  have hkey : getStorageFullPath env.config.toSettings ++
      pathOf (f.stream.labelFolder (label env.clock second)) ++
        '/' :: endName f.stream.moduleName (label env.clock second) =
      f.stream.endKey env.config (label env.clock second) := by
    simp [SensorStream.endKey, pathOf, SeparatedLists.joined]
  rw [unprocessedPcap, SensorStream.buildUnpairedOutPath_piece (f.cut_pieceOf second),
    SensorStream.buildUploadDstPath_piece (f.cut_pieceOf second), Option.bind_some,
    Option.map_some, SensorStream.basename_outPath, hkey]
  rfl

theorem sendUnprocessed_cut (job : Job) {second : ℕ} (h : f.isMid second = false) :
    sendUnprocessedToManager env job f.stream.vehicle (f.cut second).piece =
      [f.endOp job second] := by
  rw [sendUnprocessed_end (of_decide_eq_false h), f.unprocessedPcap_cut job, f.cut_savePath,
    f.abspath_pathAt, SensorStream.buildPairKey_piece (f.cut_pieceOf second)]
  rfl

theorem moduleTypeOf_entry : (moduleTypeOf f.entry.fileName).isNone = false := by
  obtain ⟨sensorType, ht, -⟩ := f.stream.getModuleType_stream
  have hparse : parse f.entry.fileName = some f.object.parts := f.object.parse_fileName
  rw [moduleTypeOf, hparse, Option.bind_some]
  change (getModuleType f.stream.moduleName).isNone = false
  rw [ht]
  rfl

theorem buildSplitOutTemplate_entry :
    buildSplitOutTemplate env.config f.stream.vehicle f.entry.fileName = some f.template.text :=
  f.object.buildSplitOutTemplate_raw env.config

theorem splitOnce_entry {disk : Store Str Bytes} (hdisk : disk f.downloadPath = some f.contents) :
    (splitOnce env.clock disk f.downloadPath f.template.text : Option (Program × SplitOutcome)) =
      some (writePieces f.pieces, outcomeOf f.pieces) := by
  have hparse : parse (basename f.downloadPath) = some f.object.parts := by
    rw [downloadPath, f.object.basename_downloadPath]
    exact f.object.parse_fileName
  rw [splitOnce, hparse, Option.bind_some, f.abspath_downloadPath, hdisk, Option.bind_some,
    splitPieces_template]
  rfl

/-- After the download a worker runs `workProgram`. -/
theorem splitUploadSend_entry {job : Job} (h : job.file = f.entry) {disk : Store Str Bytes}
    (hdisk : disk f.downloadPath = some f.contents) :
    splitUploadSend env disk job = f.workProgram job := by
  have hprocessed : (outcomeOf f.pieces).processed = f.mids.map (fun s => (f.cut s).piece) := by
    simp only [outcomeOf, pieces, List.map_map, List.filter_map]
    rfl
  have hunprocessed : (outcomeOf f.pieces).unprocessed = f.ends.map (fun s => (f.cut s).piece) := by
    simp only [outcomeOf, pieces, List.map_map, List.filter_map]
    refine congrArg (List.map _) (List.filter_congr (fun s _ => ?_))
    simp [isMid]
  have hmids : (f.mids.map (fun s => (f.cut s).piece)).flatMap
      (uploadProcessed env job f.stream.vehicle) = f.mids.flatMap (f.midOps job) := by
    rw [List.flatMap_map]
    refine List.flatMap_congr (fun s hs => ?_)
    exact f.uploadProcessed_cut job (List.mem_filter.mp hs).2
  have hends : (f.ends.map (fun s => (f.cut s).piece)).flatMap
      (sendUnprocessedToManager env job f.stream.vehicle) = f.ends.map (f.endOp job) := by
    rw [List.flatMap_map, List.map_eq_flatMap]
    refine List.flatMap_congr (fun s hs => ?_)
    have hend : f.isMid s = false := by simpa using (List.mem_filter.mp hs).2
    exact f.sendUnprocessed_cut job hend
  have hprogram : processDownloaded env disk job = some (f.workProgram job) := by
    unfold processDownloaded
    rw [h, f.vehicleIdOf_entry]
    simp only [Option.bind_eq_bind, Option.bind_some, f.buildDownloadDstPath_entry,
      f.buildSplitOutTemplate_entry, f.downloadFile_entry, f.splitOnce_entry hdisk,
      f.moduleTypeOf_entry, hprocessed, hunprocessed, hmids, hends]
    simp [workProgram, removeFile, f.abspath_downloadPath]
  rw [splitUploadSend, hprogram, Option.getD_some]

/-! ## The paths of a file -/

theorem seconds_nodup : f.seconds.Nodup := sortedSeconds_nodup f.contents

theorem downloadPath_ne_pathAt (g : RawFile env) (second : ℕ) : f.downloadPath ≠ g.pathAt second :=
  f.object.downloadPath_ne_pathAt env.config g.object _

theorem downloadPath_ne_outPath (s : SensorStream) (l : Label) :
    f.downloadPath ≠ s.outPath env.config l :=
  f.object.cache_ne_outPath env.config f.object.fileName_no_slash s l

theorem pathAt_ne_outPath (second : ℕ) (s : SensorStream) (l : Label) :
    f.pathAt second ≠ s.outPath env.config l :=
  f.object.cache_ne_outPath env.config (splitName_no_slash f.stream.registered _) s l

theorem pathAt_mem {second : ℕ} (h : second ∈ f.seconds) : f.pathAt second ∈ f.paths :=
  List.mem_cons_of_mem _ (List.mem_map.mpr ⟨second, h, rfl⟩)

theorem downloadPath_mem : f.downloadPath ∈ f.paths := List.mem_cons_self

theorem mem_mids {second : ℕ} (h : second ∈ f.mids) : second ∈ f.seconds :=
  (List.mem_filter.mp h).1

theorem mem_ends {second : ℕ} (h : second ∈ f.ends) : second ∈ f.seconds :=
  (List.mem_filter.mp h).1

/-- A worker touches no other local path than those of its file. -/
theorem touches_workProgram {job : Job} {cell : Str} (h : cell ∈ touches (f.workProgram job)) :
    cell ∈ f.paths := by
  obtain ⟨op, hop, hc⟩ := List.mem_flatMap.mp h
  simp only [workProgram, List.mem_append, List.mem_cons, writePieces, pieces, List.mem_map,
    List.mem_flatMap] at hop
  rcases hop with ⟨p, ⟨s, hs, rfl⟩, rfl⟩ | rfl | ⟨s, hs, hop⟩ | ⟨s, hs, rfl⟩
  · rw [List.mem_singleton.mp hc, f.cut_savePath, f.abspath_pathAt]
    exact f.pathAt_mem hs
  · rw [List.mem_singleton.mp hc]
    exact f.downloadPath_mem
  · have hcell : cell = f.pathAt s := by
      simp only [midOps, List.mem_cons, List.not_mem_nil, or_false] at hop
      rcases hop with rfl | rfl <;> exact List.mem_singleton.mp hc
    rw [hcell]
    exact f.pathAt_mem (f.mem_mids hs)
  · rw [List.mem_singleton.mp hc]
    exact f.pathAt_mem (f.mem_ends hs)

/-- Two files share a local path exactly when their names announce the same minute of one
sensor and they have the same name, or packets with the same wall-clock label. -/
theorem paths_disjoint_iff (g : RawFile env) : f.paths.Disjoint g.paths ↔
    ¬ (f.object.SameMinute g.object ∧ (f.object.fileName = g.object.fileName ∨
      ∃ a ∈ f.seconds, ∃ b ∈ g.seconds, label env.clock a = label env.clock b)) := by
  constructor
  · rintro hdis ⟨hminute, hname | ⟨a, ha, b, hb, hlabel⟩⟩
    · have hpath : f.downloadPath = g.downloadPath :=
        (f.object.downloadPath_eq_iff env.config g.object).mpr ⟨hminute, hname⟩
      exact hdis f.downloadPath_mem (hpath ▸ g.downloadPath_mem)
    · have hpath : f.pathAt a = g.pathAt b :=
        (f.object.pathAt_eq_iff env.config g.object _ _).mpr ⟨hminute, hlabel⟩
      exact hdis (f.pathAt_mem ha) (hpath ▸ g.pathAt_mem hb)
  · intro hno p hp hp'
    apply hno
    rcases List.mem_cons.mp hp with rfl | hp
    · rcases List.mem_cons.mp hp' with hpath | hp'
      · obtain ⟨hminute, hname⟩ := (f.object.downloadPath_eq_iff env.config g.object).mp hpath
        exact ⟨hminute, Or.inl hname⟩
      · obtain ⟨b, -, hpath⟩ := List.mem_map.mp hp'
        exact absurd hpath.symm (f.downloadPath_ne_pathAt g b)
    · obtain ⟨a, ha, rfl⟩ := List.mem_map.mp hp
      rcases List.mem_cons.mp hp' with hpath | hp'
      · exact absurd hpath.symm (g.downloadPath_ne_pathAt f a)
      · obtain ⟨b, hb, hpath⟩ := List.mem_map.mp hp'
        obtain ⟨hminute, hlabel⟩ := (f.object.pathAt_eq_iff env.config g.object _ _).mp hpath.symm
        exact ⟨hminute, Or.inr ⟨a, ha, b, hb, hlabel⟩⟩

theorem paths_disjoint {g : RawFile env} (h : ¬ f.object.SameMinute g.object) :
    f.paths.Disjoint g.paths :=
  (f.paths_disjoint_iff g).mpr (fun hboth => h hboth.1)

end RawFile

/-- Without the downloaded file the rest of the job fails. -/
theorem splitUploadSend_absent {env : Environment} {r : RawObject} {job : Job}
    (h : job.file = storageFile env.config r) {disk : Store Str Bytes}
    (hdisk : disk (r.downloadPath env.config) = none) : splitUploadSend env disk job = [.fail] := by
  rcases splitUploadSend_parts env disk job with hfail |
    ⟨vehicleId, folder, template, writes, outcome, hvehicle, hfolder, -, hsplit, -⟩
  · exact hfail
  · rw [h] at hvehicle hfolder hsplit
    obtain rfl := Option.some.inj (hvehicle.symm.trans (r.vehicleIdOf_filePath env.config))
    obtain rfl := Option.some.inj (hfolder.symm.trans (r.buildDownloadDstPath_raw env.config))
    obtain ⟨parts, file, pieces, -, hfile, -⟩ := splitOnce_some hsplit
    have hpath : abspath (pathOf (r.workFolder env.config) ++
        '/' :: (storageFile env.config r).fileName) = r.downloadPath env.config := by
      change abspath (pathOf (r.workFolder env.config) ++ '/' :: r.fileName) = _
      rw [r.downloadFile_raw, r.abspath_downloadPath]
    rw [hpath, hdisk] at hfile
    cases hfile

def filesOf {env : Environment} (objects : List (RawObject × Bytes))
    (h : ∀ o ∈ objects, env.raw (o.1.filePath env.config) = some o.2) : List (RawFile env) :=
  objects.attach.map (fun (o : { o // o ∈ objects }) =>
    { object := o.1.1, contents := o.1.2, stored := h o.1 o.2 })

end SensorDataNormalization.RawFiles
