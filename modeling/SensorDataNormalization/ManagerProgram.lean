import SensorDataNormalization.ProcessState
import SensorDataNormalization.WorkerProgram

set_option autoImplicit false
namespace SensorDataNormalization.ManagerProgram
open PythonText SensorRegistry ProjectConfig PcapFilename PcapRecords PcapSplit StoreProgram
  Messages WorkerProgram ProcessState

/-! ## Merging and sweeping -/

def mergePair (pairedList : List PairPut) : Program :=
  match pairedList with
  | [] => [.fail]
  | first :: _ =>
    let pcapFiles := pairedList.map (fun p => p.item.srcPath)
    let outFilePath := first.item.outFilePath
    mergePcapFiles pcapFiles outFilePath ++
      .emit (abspath outFilePath) ⟨first.item.prefixPath, pairedList.map PairPut.source⟩ ::
        removeFile outFilePath :: pcapFiles.map removeFile

/-- What follows a `put`: a pair is merged at once. -/
def mergeReady : Option (List PairPut) → Program
  | none => []
  | some paired => mergePair paired

/-- One turn of the loop of `_upload_unpaired`. -/
def uploadBucket (bucket : List PairPut) : Program :=
  match bucket with
  | [] => [.fail]
  | head :: _ =>
    let srcPath := abspath head.item.srcPath
    [.emit srcPath ⟨head.item.prefixPath, [head.source]⟩, .erase srcPath]

def uploadUnpaired (unpaired : List (List PairPut)) : Program := unpaired.flatMap uploadBucket

/-! ## Selecting the files of a request -/

/-- A request after the checks of the listener. -/
structure Request where
  requestId : Str
  date : Str
  vehicleId : Str
  selectedDevice : Option Str

/-- What storage answers for the folder of the request. -/
inductive StorageAnswer
  | raises
  | absent
  | listing (files : List StorageFile)

def collectFileList (answer : StorageAnswer) (vehicleId : Str) : Option (List StorageFile) :=
  match answer with
  | .raises => none
  | .absent => some []
  | .listing files =>
    let allFiles := files.filter (fun f => !f.isDir)
    some (if vehicleId ≠ [] then allFiles.filter (fun f => decide (vehicleId <:+: f.filePath))
      else allFiles)

/-- One turn of the loop of `_filter_by_device`: whether the file is kept. -/
def keepsFile (lower : Str → Str) (selectedDevice : Str) (file : StorageFile) : Option Bool :=
  if "temp".toList <:+: file.fileName then some false
  else if selectedDevice = SensorType.ALL then some true
  else do
    let parts ← parse file.fileName
    let sensorType ← getSensorType (upper parts.moduleName)
    return upper selectedDevice = sensorType ∨ lower selectedDevice <:+: file.fileName

def filterByDevice (lower : Str → Str) (fileList : List StorageFile) (selectedDevice : Str) :
    Option (List StorageFile) :=
  match fileList with
  | [] => some []
  | file :: rest => do
    let keep ← keepsFile lower selectedDevice file
    let kept ← filterByDevice lower rest selectedDevice
    return if keep then file :: kept else kept

def selectedDeviceOf (c : Config) (request : Request) : Str :=
  match request.selectedDevice with
  | none => c.selectedDevice
  | some device => if device = [] then c.selectedDevice else device

def selectFiles (env : Environment) (request : Request) (answer : StorageAnswer) :
    Option (List StorageFile) := do
  let fileList ← collectFileList answer request.vehicleId
  filterByDevice env.lower fileList (selectedDeviceOf env.config request)

def summaryOf (c : Config) (request : Request) : Str :=
  "date=".toList ++ request.date ++ " vehicle_id=".toList ++
    (if request.vehicleId = [] then "ALL".toList else request.vehicleId) ++
    " selected_device=".toList ++ selectedDeviceOf c request

end SensorDataNormalization.ManagerProgram
