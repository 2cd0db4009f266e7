import SensorDataNormalization.Messages
import SensorDataNormalization.RawObjects

set_option autoImplicit false
namespace SensorDataNormalization.WorkerProgram
open PythonText SensorRegistry ProjectConfig WallClock PcapFilename PcapRecords PcapSplit
  WorkerPaths RawObjects StoreProgram Messages

/-- What the processes read and never change: the configuration, the clock of the host,
`str.lower`, and the raw objects in S3. -/
structure Environment where
  config : Config
  clock : HostClock
  lower : Str → Str
  raw : Str → Option Bytes

def storageFile (c : Config) (r : RawObject) : StorageFile := ⟨r.filePath c, r.fileName, false⟩

/-- The shipped configuration on a host in UTC, with the given raw objects. -/
def hostOf (objects : List (RawObject × Bytes)) : Environment where
  config := applicationConf
  clock := utcClock
  lower := lowerAscii
  raw := fun path => (objects.map (fun o => (o.1.filePath applicationConf, o.2))).lookup path

def listingOf (objects : List (RawObject × Bytes)) : List StorageFile :=
  objects.map (fun o => storageFile applicationConf o.1)

variable (env : Environment)

def download (job : Job) : Program :=
  match vehicleIdOf job.file.filePath with
  | none => [.fail]
  | some vehicleId =>
    match buildDownloadDstPath env.config vehicleId job.file.fileName,
      env.raw job.file.filePath with
    | some downloadDstPath, some contents =>
      [writeFile (downloadDstPath ++ '/' :: job.file.fileName) contents]
    | _, _ => [.fail]

/-- One turn of the loop of `_upload_processed`. -/
def uploadProcessed (job : Job) (vehicleId : Str) (piece : SplitedPcap) : Program :=
  if piece.position ≠ .MID then []
  else
    let srcPath := abspath piece.savePath
    match buildUploadDstPath env.config vehicleId piece with
    | none => [.fail]
    | some dstDir =>
      [.emit srcPath ⟨dstDir ++ '/' :: basename piece.savePath, [⟨job, piece⟩]⟩, .erase srcPath]

/-- One turn of the loop of `_send_unprocessed_to_manager`. -/
def sendUnprocessedToManager (job : Job) (vehicleId : Str) (piece : SplitedPcap) : Program :=
  if piece.position = .MID then []
  else
    match buildUnpairedOutPath env.config vehicleId piece,
      buildUploadDstPath env.config vehicleId piece with
    | some outFilePath, some dstDir =>
      [.give (abspath piece.savePath)
        { source := ⟨job, piece⟩
          pairKey := buildPairKey vehicleId piece
          item :=
            { srcPath := piece.savePath
              outFilePath := outFilePath
              prefixPath := dstDir ++ '/' :: basename outFilePath } }]
    | _, _ => [.fail]

/-- The key under which `_upload_processed` stores a piece. -/
def midKey (c : Config) (vehicleId : Str) (piece : SplitedPcap) : Option Str :=
  (buildUploadDstPath c vehicleId piece).map (fun dstDir =>
    dstDir ++ '/' :: basename piece.savePath)

def unprocessedPcap (c : Config) (vehicleId : Str) (piece : SplitedPcap) :
    Option UnprocessedPcap :=
  (buildUnpairedOutPath c vehicleId piece).bind (fun outFilePath =>
    (buildUploadDstPath c vehicleId piece).map (fun dstDir =>
      { srcPath := piece.savePath
        outFilePath := outFilePath
        prefixPath := dstDir ++ '/' :: basename outFilePath }))

section Pieces
variable {env} {job : Job} {vehicleId : Str} {piece : SplitedPcap}

theorem uploadProcessed_mid (hmid : piece.position = .MID) :
    uploadProcessed env job vehicleId piece =
      ((midKey env.config vehicleId piece).map (fun key =>
        [.emit (abspath piece.savePath) ⟨key, [⟨job, piece⟩]⟩,
          .erase (abspath piece.savePath)])).getD [.fail] := by
  unfold uploadProcessed midKey
  rw [if_neg (not_not.mpr hmid)]
  cases buildUploadDstPath env.config vehicleId piece <;> rfl

theorem sendUnprocessed_end (hend : piece.position ≠ .MID) :
    sendUnprocessedToManager env job vehicleId piece =
      ((unprocessedPcap env.config vehicleId piece).map (fun item =>
        [.give (abspath piece.savePath)
          { source := ⟨job, piece⟩
            pairKey := buildPairKey vehicleId piece
            item := item }])).getD [.fail] := by
  unfold sendUnprocessedToManager unprocessedPcap
  rw [if_neg hend]
  cases buildUnpairedOutPath env.config vehicleId piece with
  | none => rfl
  | some outFilePath => cases buildUploadDstPath env.config vehicleId piece <;> rfl

end Pieces

def moduleTypeOf (fileName : Str) : Option Str :=
  (parse fileName).bind (fun parts => getModuleType parts.moduleName)

/-- `_process_file` after the download: split, upload the MID pieces, send the others. -/
def processDownloaded (disk : Store Str Bytes) (job : Job) : Option Program := do
  let fileName := job.file.fileName
  let vehicleId ← vehicleIdOf job.file.filePath
  let downloadDstPath ← buildDownloadDstPath env.config vehicleId fileName
  let splitSrcFile := downloadDstPath ++ '/' :: fileName
  let splitOutTemplate ← buildSplitOutTemplate env.config vehicleId fileName
  let (writes, outcome) ← splitOnce env.clock disk splitSrcFile splitOutTemplate
  return writes ++ removeFile splitSrcFile ::
    (outcome.processed.flatMap (uploadProcessed env job vehicleId) ++
      outcome.unprocessed.flatMap (sendUnprocessedToManager env job vehicleId) ++
      (if (moduleTypeOf fileName).isNone then [.fail] else []))

def splitUploadSend (disk : Store Str Bytes) (job : Job) : Program :=
  (processDownloaded env disk job).getD [.fail]

/-- The program raises at once, or is made of the parts for an outcome of the split. -/
theorem splitUploadSend_parts (disk : Store Str Bytes) (job : Job) :
    splitUploadSend env disk job = [.fail] ∨
      ∃ vehicleId folder template writes outcome,
        vehicleIdOf job.file.filePath = some vehicleId ∧
        buildDownloadDstPath env.config vehicleId job.file.fileName = some folder ∧
        buildSplitOutTemplate env.config vehicleId job.file.fileName = some template ∧
        splitOnce env.clock disk (folder ++ '/' :: job.file.fileName) template =
          some (writes, outcome) ∧
        splitUploadSend env disk job = writes ++
          removeFile (folder ++ '/' :: job.file.fileName) ::
            (outcome.processed.flatMap (uploadProcessed env job vehicleId) ++
              outcome.unprocessed.flatMap (sendUnprocessedToManager env job vehicleId) ++
              (if (moduleTypeOf job.file.fileName).isNone then [.fail] else [])) := by
  unfold splitUploadSend
  cases hprogram : processDownloaded env disk job with
  | none => exact Or.inl rfl
  | some program =>
    right
    obtain ⟨vehicleId, hvehicle, h⟩ := Option.bind_eq_some_iff.mp hprogram
    obtain ⟨folder, hfolder, h⟩ := Option.bind_eq_some_iff.mp h
    obtain ⟨template, htemplate, h⟩ := Option.bind_eq_some_iff.mp h
    obtain ⟨⟨writes, outcome⟩, hsplit, h⟩ := Option.bind_eq_some_iff.mp h
    cases h
    exact ⟨vehicleId, folder, template, writes, outcome, hvehicle, hfolder, htemplate, hsplit, rfl⟩

end SensorDataNormalization.WorkerProgram
