import SensorDataNormalization.WorkerPaths

set_option autoImplicit false
namespace SensorDataNormalization.RawObjects
open SeparatedLists PythonText SensorRegistry ProjectConfig WallClock PcapFilename PcapSplit
  WorkerPaths

/-- A raw object `{raw_root}/{date}/{VEHICLE}/{MODULE}_{YYYYMMDDHHMM[SS]}.pcap`. -/
structure RawObject where
  dateFolder : Str
  stream : SensorStream
  stamp : Str
  stamp_wf : Stamp stamp
  deriving DecidableEq

namespace RawObject

def fileName (r : RawObject) : Str := stampedName r.stream.moduleName r.stamp

def filePath (c : Config) (r : RawObject) : Str :=
  slashes [getRawStorageFullPath c.toSettings, r.dateFolder, r.stream.vehicle, r.fileName]

/-- The minute that the file name announces. -/
def minute (r : RawObject) : Str := r.stamp.take 12

def minuteFolder (r : RawObject) : List Str :=
  r.stream.minuteFolder (r.stamp.take 8) (slice 8 10 r.stamp) (slice 10 12 r.stamp)

def workFolder (c : Config) (r : RawObject) : List Str := c.cache.segments ++ r.minuteFolder

def downloadPath (c : Config) (r : RawObject) : Str := pathOf (r.workFolder c ++ [r.fileName])

theorem fileName_no_slash (r : RawObject) : '/' ∉ r.fileName :=
  stampedName_no_slash (registered_no_slash r.stream.registered) r.stamp_wf.digits

theorem fileName_ordinary (r : RawObject) : Ordinary r.fileName := by
  refine ordinary_of_length ?_ r.fileName_no_slash
  have hs := r.stamp_wf.long
  simp only [fileName, stampedName, List.length_append, List.length_cons]
  omega

theorem minute_eq (r : RawObject) :
    r.minute = r.stamp.take 8 ++ slice 8 10 r.stamp ++ slice 10 12 r.stamp := by
  have h := r.stamp_wf.length
  have hlong : 12 ≤ r.stamp.length := by omega
  simp only [minute, slice]
  apply List.ext_getElem
  · simp only [List.length_take, List.length_append, List.length_drop]
    omega
  · intro i h₁ h₂
    simp only [List.length_take] at h₁
    simp only [List.getElem_take, List.getElem_append, List.getElem_drop, List.length_append,
      List.length_take, List.length_drop]
    split_ifs with h8 h10
    · rfl
    · congr 1
      omega
    · congr 1
      omega

theorem workFolder_ordinary (c : Config) (r : RawObject) : ∀ x ∈ r.workFolder c, Ordinary x := by
  have hpart : ∀ {i j : ℕ}, i < j → j ≤ 12 → Ordinary (slice i j r.stamp) := by
    intro i j hij hj
    refine digits_ordinary (slice_digits r.stamp_wf.digits i j) (fun h => ?_)
    have hl := r.stamp_wf.slice_length (i := i) hj
    rw [h] at hl
    exact absurd hl (by simp only [List.length_nil]; omega)
  intro x hx
  rcases List.mem_append.mp hx with hx | hx
  · exact c.cache.ordinary x hx
  · exact r.stream.minuteFolder_ordinary (hpart (i := 0) (by omega) (by omega))
      (hpart (by omega) (by omega)) (hpart (by omega) (by omega)) x hx

theorem workFolder_no_brace (c : Config) (r : RawObject) :
    ∀ x ∈ r.workFolder c, ∀ ch ∈ x, ch ≠ '{' ∧ ch ≠ '}' := by
  intro x hx
  rcases List.mem_append.mp hx with hx | hx
  · exact c.cache.no_brace x hx
  · exact r.stream.minuteFolder_no_brace
      (digits_no_brace (slice_digits r.stamp_wf.digits 0 8))
      (digits_no_brace (slice_digits r.stamp_wf.digits 8 10))
      (digits_no_brace (slice_digits r.stamp_wf.digits 10 12)) x hx

/-- The output template of a raw file. -/
def template (c : Config) (r : RawObject) : SplitTemplate where
  folder := r.workFolder c
  before := r.stream.moduleName ++ "_split_".toList
  after := ".pcap".toList
  ordinary := r.workFolder_ordinary c
  folder_no_brace := r.workFolder_no_brace c
  before_plain := by
    intro ch hc
    rcases List.mem_append.mp hc with hc | hc
    · refine ⟨?_, registered_no_brace r.stream.registered ch hc⟩
      rintro rfl
      exact registered_no_slash r.stream.registered hc
    · have hplain : ∀ ch ∈ "_split_".toList, ch ≠ '/' ∧ ch ≠ '{' ∧ ch ≠ '}' :=
        forall_chars (by decide)
      exact hplain ch hc
  after_plain := forall_chars (by decide)

def parts (r : RawObject) : PcapFilenameParts where
  moduleName := r.stream.moduleName
  date := r.stamp.take 8
  hours := slice 8 10 r.stamp
  minutes := slice 10 12 r.stamp
  second := if 14 ≤ r.stamp.length then slice 12 14 r.stamp else []

theorem parse_fileName (r : RawObject) : parse r.fileName = some r.parts :=
  parse_registered r.stream.registered r.stamp_wf

theorem vehicleIdOf_filePath (c : Config) (r : RawObject) :
    vehicleIdOf (r.filePath c) = some r.stream.vehicle := by
  have hcut : r.filePath c = (getRawStorageFullPath c.toSettings ++ '/' :: r.dateFolder) ++
      '/' :: (r.stream.vehicle ++ '/' :: r.fileName) := by
    simp [filePath, slashes_cons, pathOf, joined]
  rw [vehicleIdOf, hcut]
  exact fromEnd_splitOn_one r.stream.vehicle_ordinary.no_slash r.fileName_no_slash

theorem buildDownloadDstPath_raw (c : Config) (r : RawObject) :
    buildDownloadDstPath c r.stream.vehicle r.fileName = some (pathOf (r.workFolder c)) := by
  obtain ⟨sensorType, ht, hs⟩ := r.stream.getModuleType_stream
  have hpath : slashes (getCacheStorageFullPath c.toSettings :: r.minuteFolder) =
      pathOf (r.workFolder c) := by
    rw [c.cache.path_eq, slashes_root]
    rfl
  have hne : r.workFolder c ≠ [] := by simp [workFolder, minuteFolder, SensorStream.minuteFolder]
  rw [buildDownloadDstPath, r.parse_fileName]
  change (getModuleType r.stream.moduleName).bind _ = _
  rw [ht]
  change some (abspath (slashes [_, _, lowerAscii sensorType, _, _, _, _])) = _
  rw [← hs]
  change some (abspath (slashes (getCacheStorageFullPath c.toSettings :: r.minuteFolder))) = _
  rw [hpath, abspath_pathOf (r.workFolder_ordinary c) hne]

theorem buildSplitOutTemplate_raw (c : Config) (r : RawObject) :
    buildSplitOutTemplate c r.stream.vehicle r.fileName = some (r.template c).text := by
  obtain ⟨sensorType, ht, hs⟩ := r.stream.getModuleType_stream
  rw [buildSplitOutTemplate, r.parse_fileName]
  change (getModuleType r.stream.moduleName).bind _ = _
  rw [ht]
  change some (slashes [_, _, lowerAscii sensorType, _, _, _, _, _]) = _
  rw [← hs]
  change some (slashes (getCacheStorageFullPath c.toSettings ::
    (r.minuteFolder ++ [r.stream.moduleName ++ "_split_{}.pcap".toList]))) = _
  rw [c.cache.path_eq, slashes_root, ← List.append_assoc, pathOf_append]
  simp [SplitTemplate.text, template, workFolder, pathOf, joined]

theorem downloadFile_raw (c : Config) (r : RawObject) :
    pathOf (r.workFolder c) ++ '/' :: r.fileName = r.downloadPath c := by
  rw [downloadPath, pathOf_append]
  simp [pathOf, joined]

theorem abspath_downloadPath (c : Config) (r : RawObject) :
    abspath (r.downloadPath c) = r.downloadPath c := by
  refine abspath_pathOf (fun x hx => ?_) (by simp)
  rcases List.mem_append.mp hx with hx | hx
  · exact r.workFolder_ordinary c x hx
  · rw [List.mem_singleton.mp hx]
    exact r.fileName_ordinary

theorem basename_downloadPath (c : Config) (r : RawObject) :
    basename (r.downloadPath c) = r.fileName :=
  basename_pathOf r.fileName_no_slash

/-- An object of the GNSS module of the vehicle `V1`. -/
def gnss (dateFolder stamp : Str) (h : Stamp stamp) : RawObject where
  dateFolder := dateFolder
  stream :=
    { vehicle := "V1".toList
      moduleName := "GNSS".toList
      vehicle_ordinary := by decide
      vehicle_no_brace := forall_chars (by decide)
      registered := by decide }
  stamp := stamp
  stamp_wf := h

/-! ### Which local paths can meet -/

/-- The same vehicle, module, and minute of the file name: the same cache folder. -/
def SameMinute (r r' : RawObject) : Prop := r.stream = r'.stream ∧ r.minute = r'.minute

instance (r r' : RawObject) : Decidable (SameMinute r r') := inferInstanceAs (Decidable (_ ∧ _))

theorem workFolder_no_slash (c : Config) (r : RawObject) {name : Str} (h : '/' ∉ name) :
    ∀ x ∈ r.workFolder c ++ [name], '/' ∉ x := by
  intro x hx
  rcases List.mem_append.mp hx with hx | hx
  · exact (r.workFolder_ordinary c x hx).no_slash
  · rw [List.mem_singleton.mp hx]
    exact h

theorem workFolder_eq_iff (c : Config) (r r' : RawObject) :
    r.workFolder c = r'.workFolder c ↔ r.SameMinute r' := by
  constructor
  · intro h
    have hminute := List.append_cancel_left h
    simp only [minuteFolder, SensorStream.minuteFolder, List.cons.injEq] at hminute
    obtain ⟨hv, -, hm, hd, hh, hmi, -⟩ := hminute
    exact ⟨SensorStream.ext_names hv hm, by rw [minute_eq, minute_eq, hd, hh, hmi]⟩
  · rintro ⟨hs, hm⟩
    rw [minute_eq, minute_eq] at hm
    have hlen : ∀ x : RawObject, (x.stamp.take 8).length = 8 ∧ (slice 8 10 x.stamp).length = 2 ∧
        (slice 10 12 x.stamp).length = 2 := fun x =>
      ⟨x.stamp_wf.slice_length (i := 0) (j := 8) (by omega),
        x.stamp_wf.slice_length (i := 8) (j := 10) (by omega),
        x.stamp_wf.slice_length (i := 10) (j := 12) (by omega)⟩
    obtain ⟨hdh, hmi⟩ := List.append_inj' hm (by rw [(hlen r).2.2, (hlen r').2.2])
    obtain ⟨hd, hh⟩ := List.append_inj' hdh (by rw [(hlen r).2.1, (hlen r').2.1])
    simp only [workFolder, minuteFolder, hs, hd, hh, hmi]

theorem concat_path_eq_iff (c : Config) (r r' : RawObject) {name name' : Str} (h : '/' ∉ name)
    (h' : '/' ∉ name') : pathOf (r.workFolder c ++ [name]) = pathOf (r'.workFolder c ++ [name']) ↔
      r.SameMinute r' ∧ name = name' := by
  rw [← workFolder_eq_iff c]
  constructor
  · intro he
    have hsegments := joined_injective (r.workFolder_no_slash c h) (r'.workFolder_no_slash c h') he
    exact ⟨(List.append_inj' hsegments rfl).1, by simpa using (List.append_inj' hsegments rfl).2⟩
  · rintro ⟨hf, rfl⟩
    rw [hf]

theorem downloadPath_eq_iff (c : Config) (r r' : RawObject) :
    r.downloadPath c = r'.downloadPath c ↔ r.SameMinute r' ∧ r.fileName = r'.fileName :=
  concat_path_eq_iff c r r' r.fileName_no_slash r'.fileName_no_slash

theorem pathAt_eq_iff (c : Config) (r r' : RawObject) (l l' : Label) :
    (r.template c).pathAt l = (r'.template c).pathAt l' ↔ r.SameMinute r' ∧ l = l' := by
  refine (concat_path_eq_iff c r r' (splitName_no_slash r.stream.registered l)
    (splitName_no_slash r'.stream.registered l')).trans (and_congr_right (fun hs => ?_))
  constructor
  · exact fun h => (splitName_injective h).2
  · rintro rfl
    rw [hs.1]

theorem downloadPath_ne_pathAt (c : Config) (r r' : RawObject) (l : Label) :
    r.downloadPath c ≠ (r'.template c).pathAt l := by
  intro h
  have hname := ((concat_path_eq_iff c r r' r.fileName_no_slash
    (splitName_no_slash r'.stream.registered l)).mp h).2
  exact splitName_ne_stamped r.stream.registered r.stamp_wf.digits hname.symm

/-- No local work file is the output file of a merge. -/
theorem cache_ne_outPath (c : Config) (r : RawObject) {name : Str} (h : '/' ∉ name)
    (s : SensorStream) (l : Label) : pathOf (r.workFolder c ++ [name]) ≠ s.outPath c l := by
  intro he
  have hout : ∀ x ∈ c.unpaired.segments ++ (s.labelFolder l ++ [endName s.moduleName l]), '/' ∉ x :=
    fun x hx => (s.outPath_ordinary c l x hx).no_slash
  have hsegments := joined_injective (r.workFolder_no_slash c h) hout he
  rw [workFolder, List.append_assoc] at hsegments
  exact c.separate (List.append_inj' hsegments rfl).1

end RawObject
end SensorDataNormalization.RawObjects
