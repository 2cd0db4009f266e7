import SensorDataNormalization.PythonText

set_option autoImplicit false
namespace SensorDataNormalization.ProjectConfig
open PythonText

/-- The values of `application.conf` that the pipeline reads. -/
structure Settings where
  storageRoot : Str
  storagePrefix : Str
  rawStorageRoot : Str
  rawStoragePrefix : Str
  cacheStorageRoot : Str
  cacheStoragePrefix : Str
  unpairedMergeRoot : Str
  unpairedMergePrefix : Str
  redisReceiver : Str
  selectedDevice : Str

def getStorageFullPath (c : Settings) : Str := slashes [c.storageRoot, c.storagePrefix]
def getRawStorageFullPath (c : Settings) : Str := slashes [c.rawStorageRoot, c.rawStoragePrefix]
def getCacheStorageFullPath (c : Settings) : Str :=
  slashes [c.cacheStorageRoot, c.cacheStoragePrefix]
def getUnpairedMergeFullPath (c : Settings) : Str :=
  slashes [c.unpairedMergeRoot, c.unpairedMergePrefix]

/-- An absolute folder in normal form, without format fields. -/
structure Folder (path : Str) where
  segments : List Str
  path_eq : path = pathOf segments
  nonempty : segments ≠ []
  ordinary : ∀ s ∈ segments, Ordinary s
  no_brace : ∀ s ∈ segments, ∀ c ∈ s, c ≠ '{' ∧ c ≠ '}'

/-- The two local work folders are absolute, and they are not the same folder. -/
structure Config extends Settings where
  cache : Folder (getCacheStorageFullPath toSettings)
  unpaired : Folder (getUnpairedMergeFullPath toSettings)
  separate : cache.segments ≠ unpaired.segments

def applicationConf : Config where
  storageRoot := "/oncx-dev-common-assets-bucket".toList
  storagePrefix := "test/split".toList
  rawStorageRoot := "/oncx-dev-common-assets-bucket".toList
  rawStoragePrefix := "test/raw".toList
  cacheStorageRoot := "/data1/sensor-data-normalization".toList
  cacheStoragePrefix := "cache".toList
  unpairedMergeRoot := "/data1/sensor-data-normalization".toList
  unpairedMergePrefix := "unpaired_merge".toList
  redisReceiver := "normalizer".toList
  selectedDevice := "ALL".toList
  cache :=
    { segments := ["data1".toList, "sensor-data-normalization".toList, "cache".toList]
      path_eq := by decide
      nonempty := by decide
      ordinary := by decide
      no_brace := List.forall_mem_cons.mpr ⟨forall_chars (by decide),
        List.forall_mem_cons.mpr ⟨forall_chars (by decide), List.forall_mem_singleton.mpr
          (forall_chars (by decide))⟩⟩ }
  unpaired :=
    { segments := ["data1".toList, "sensor-data-normalization".toList, "unpaired_merge".toList]
      path_eq := by decide
      nonempty := by decide
      ordinary := by decide
      no_brace := List.forall_mem_cons.mpr ⟨forall_chars (by decide),
        List.forall_mem_cons.mpr ⟨forall_chars (by decide), List.forall_mem_singleton.mpr
          (forall_chars (by decide))⟩⟩ }
  separate := by decide

theorem Folder.no_slash {path : Str} (f : Folder path) : ∀ s ∈ f.segments, '/' ∉ s :=
  fun s hs => (f.ordinary s hs).no_slash

end SensorDataNormalization.ProjectConfig
