import SensorDataNormalization.PcapSplit
import SensorDataNormalization.ProjectConfig

set_option autoImplicit false
namespace SensorDataNormalization.WorkerPaths
open SeparatedLists PythonText SensorRegistry ProjectConfig WallClock PcapFilename PcapSplit

/-! ## The path builders of `NormalizerModule`

`none` is an exception: a name that does not parse, or an unknown module. -/

/-- `file_path.split("/")[-2]`. -/
def vehicleIdOf (filePath : Str) : Option Str := fromEnd (filePath.splitOn '/') 1

def buildDownloadDstPath (c : Config) (vehicleId fileName : Str) : Option Str := do
  let parts ← parse fileName
  let moduleType ← getModuleType parts.moduleName
  return abspath (slashes [getCacheStorageFullPath c.toSettings, vehicleId, lowerAscii moduleType,
    parts.moduleName, parts.date, parts.hours, parts.minutes])

def buildSplitOutTemplate (c : Config) (vehicleId fileName : Str) : Option Str := do
  let parts ← parse fileName
  let moduleType ← getModuleType parts.moduleName
  return slashes [getCacheStorageFullPath c.toSettings, vehicleId, lowerAscii moduleType,
    parts.moduleName, parts.date, parts.hours, parts.minutes,
    parts.moduleName ++ "_split_{}.pcap".toList]

def buildUploadDstPath (c : Config) (vehicleId : Str) (piece : SplitedPcap) : Option Str := do
  let moduleType ← getModuleType piece.moduleName
  return slashes [getStorageFullPath c.toSettings, vehicleId, lowerAscii moduleType,
    piece.moduleName, piece.date, piece.hours, piece.minutes]

def buildPairKey (vehicleId : Str) (piece : SplitedPcap) : Str :=
  slashes [vehicleId,
    piece.moduleName ++ '_' :: (piece.date ++ piece.hours ++ piece.minutes ++ piece.second)]

def buildUnpairedOutPath (c : Config) (vehicleId : Str) (piece : SplitedPcap) : Option Str := do
  let moduleType ← getModuleType piece.moduleName
  let dirPath := slashes [getUnpairedMergeFullPath c.toSettings, vehicleId, lowerAscii moduleType,
    piece.moduleName, piece.date, piece.hours, piece.minutes]
  let fileName := piece.moduleName ++
    '_' :: (piece.date ++ piece.hours ++ piece.minutes ++ piece.second ++ ".pcap".toList)
  return abspath (slashes [dirPath, fileName])

/-! ## The file names of pieces and objects -/

/-- The file of a split piece: `{module}_split_{label}.pcap`. -/
def splitName (moduleName : Str) (l : Label) : Str :=
  moduleName ++ "_split_".toList ++ l.text ++ ".pcap".toList

/-- The object of a boundary piece: `{module}_{label}.pcap`. -/
def endName (moduleName : Str) (l : Label) : Str := moduleName ++ '_' :: (l.text ++ ".pcap".toList)

section Names
variable {m m' : Str} {l l' : Label}

theorem splitName_eq_stamped (m : Str) (l : Label) :
    splitName m l = stampedName (m ++ "_split".toList) l.text := by
  simp [splitName, stampedName]

theorem endName_eq_stamped (m : Str) (l : Label) : endName m l = stampedName m l.text := by
  simp [endName, stampedName]

theorem splitName_no_slash (hm : Registered m) (l : Label) : '/' ∉ splitName m l := by
  simp only [splitName, List.mem_append, not_or]
  exact ⟨⟨⟨registered_no_slash hm, by decide⟩, fun h => absurd (l.digits _ h) (by decide)⟩,
    by decide⟩

theorem endName_no_slash (hm : Registered m) (l : Label) : '/' ∉ endName m l := by
  rw [endName_eq_stamped]
  exact stampedName_no_slash (registered_no_slash hm) l.digits

theorem endName_ordinary (hm : Registered m) (l : Label) : Ordinary (endName m l) := by
  refine ordinary_of_length ?_ (endName_no_slash hm l)
  have ht := l.text_length
  simp only [endName, List.length_append, List.length_cons]
  omega

theorem stampedName_injective {stamp stamp' : Str} (hs : ∀ c ∈ stamp, IsDigit c)
    (hs' : ∀ c ∈ stamp', IsDigit c) (h : stampedName m stamp = stampedName m' stamp') :
    m = m' ∧ stamp = stamp' :=
  append_sep_right_eq (digits_no_underscore hs) (digits_no_underscore hs')
    (List.append_cancel_right h)

theorem splitName_injective (h : splitName m l = splitName m' l') : m = m' ∧ l = l' := by
  rw [splitName_eq_stamped, splitName_eq_stamped] at h
  obtain ⟨hm, hl⟩ := stampedName_injective l.digits l'.digits h
  exact ⟨List.append_cancel_right hm, Label.text_injective hl⟩

theorem endName_injective (h : endName m l = endName m' l') : m = m' ∧ l = l' := by
  rw [endName_eq_stamped, endName_eq_stamped] at h
  obtain ⟨hm, hl⟩ := stampedName_injective l.digits l'.digits h
  exact ⟨hm, Label.text_injective hl⟩

/-- A name of the split pieces is no name `{module}_{digits}.pcap` of any module. -/
theorem splitName_ne_stamped {stamp : Str} (hm' : Registered m') (hs : ∀ c ∈ stamp, IsDigit c) :
    splitName m l ≠ stampedName m' stamp := by
  intro h
  rw [splitName_eq_stamped] at h
  exact registered_not_split hm' m (stampedName_injective l.digits hs h).1.symm

end Names

/-! ## Vehicles and modules -/

/-- A module of the registry in a vehicle folder. -/
structure SensorStream where
  vehicle : Str
  moduleName : Str
  vehicle_ordinary : Ordinary vehicle
  vehicle_no_brace : ∀ c ∈ vehicle, c ≠ '{' ∧ c ≠ '}'
  registered : Registered moduleName
  deriving DecidableEq

namespace SensorStream

def typeFolder (s : SensorStream) : Str := lowerAscii ((getModuleType s.moduleName).getD [])

theorem getModuleType_stream (s : SensorStream) :
    ∃ sensorType, getModuleType s.moduleName = some sensorType ∧
      s.typeFolder = lowerAscii sensorType := by
  obtain ⟨sensorType, h⟩ := Option.isSome_iff_exists.mp s.registered
  exact ⟨sensorType, h, by rw [typeFolder, h]; rfl⟩

theorem typeFolder_ordinary (s : SensorStream) : Ordinary s.typeFolder := by
  obtain ⟨_, h, hs⟩ := s.getModuleType_stream
  rw [hs]
  exact getModuleType_ordinary h

theorem typeFolder_no_brace (s : SensorStream) : ∀ c ∈ s.typeFolder, c ≠ '{' ∧ c ≠ '}' := by
  obtain ⟨_, h, hs⟩ := s.getModuleType_stream
  rw [hs]
  exact getModuleType_no_brace h

def minuteFolder (s : SensorStream) (date hours minutes : Str) : List Str :=
  [s.vehicle, s.typeFolder, s.moduleName, date, hours, minutes]

theorem minuteFolder_ordinary (s : SensorStream) {date hours minutes : Str}
    (hd : Ordinary date) (hh : Ordinary hours) (hm : Ordinary minutes) :
    ∀ x ∈ s.minuteFolder date hours minutes, Ordinary x := by
  intro x hx
  simp only [minuteFolder, List.mem_cons, List.not_mem_nil, or_false] at hx
  rcases hx with rfl | rfl | rfl | rfl | rfl | rfl
  · exact s.vehicle_ordinary
  · exact s.typeFolder_ordinary
  · exact registered_ordinary s.registered
  · exact hd
  · exact hh
  · exact hm

theorem minuteFolder_no_brace (s : SensorStream) {date hours minutes : Str}
    (hd : ∀ c ∈ date, c ≠ '{' ∧ c ≠ '}') (hh : ∀ c ∈ hours, c ≠ '{' ∧ c ≠ '}')
    (hm : ∀ c ∈ minutes, c ≠ '{' ∧ c ≠ '}') :
    ∀ x ∈ s.minuteFolder date hours minutes, ∀ c ∈ x, c ≠ '{' ∧ c ≠ '}' := by
  intro x hx
  simp only [minuteFolder, List.mem_cons, List.not_mem_nil, or_false] at hx
  rcases hx with rfl | rfl | rfl | rfl | rfl | rfl
  · exact s.vehicle_no_brace
  · exact s.typeFolder_no_brace
  · exact registered_no_brace s.registered
  · exact hd
  · exact hh
  · exact hm

def labelFolder (s : SensorStream) (l : Label) : List Str := s.minuteFolder l.date l.hours l.minutes

theorem labelFolder_ordinary (s : SensorStream) (l : Label) : ∀ x ∈ s.labelFolder l, Ordinary x :=
  s.minuteFolder_ordinary
    (digits_ordinary (l.part_digits (.inl rfl)) (by
      intro h
      have hl := l.date_length
      rw [h] at hl
      exact absurd hl (by decide)))
    (digits_ordinary (l.part_digits (.inr (.inl rfl))) (by
      intro h
      have hl := l.hours_length
      rw [h] at hl
      exact absurd hl (by decide)))
    (digits_ordinary (l.part_digits (.inr (.inr (.inl rfl)))) (by
      intro h
      have hl := l.minutes_length
      rw [h] at hl
      exact absurd hl (by decide)))

/-! ### S3 keys and the merge output of a packet second -/

def splitKey (c : Config) (s : SensorStream) (l : Label) : Str :=
  getStorageFullPath c.toSettings ++ pathOf (s.labelFolder l ++ [splitName s.moduleName l])

def endKey (c : Config) (s : SensorStream) (l : Label) : Str :=
  getStorageFullPath c.toSettings ++ pathOf (s.labelFolder l ++ [endName s.moduleName l])

def outPath (c : Config) (s : SensorStream) (l : Label) : Str :=
  pathOf (c.unpaired.segments ++ (s.labelFolder l ++ [endName s.moduleName l]))

def pairKey (s : SensorStream) (l : Label) : Str :=
  slashes [s.vehicle, s.moduleName ++ '_' :: l.text]

theorem labelFolder_no_slash (s : SensorStream) (l : Label) {name : Str} (h : '/' ∉ name) :
    ∀ x ∈ s.labelFolder l ++ [name], '/' ∉ x := by
  intro x hx
  rcases List.mem_append.mp hx with hx | hx
  · exact (s.labelFolder_ordinary l x hx).no_slash
  · rw [List.mem_singleton.mp hx]
    exact h

theorem ext_names {s s' : SensorStream} (hv : s.vehicle = s'.vehicle)
    (hm : s.moduleName = s'.moduleName) : s = s' := by
  cases s
  cases s'
  simp_all

theorem splitKey_injective {c : Config} {s s' : SensorStream} {l l' : Label}
    (h : splitKey c s l = splitKey c s' l') : s = s' ∧ l = l' := by
  have hsegments := joined_injective (s.labelFolder_no_slash l (splitName_no_slash s.registered l))
    (s'.labelFolder_no_slash l' (splitName_no_slash s'.registered l')) (List.append_cancel_left h)
  simp only [labelFolder, minuteFolder, List.cons_append, List.nil_append, List.cons.injEq]
    at hsegments
  obtain ⟨hm, hl⟩ := splitName_injective hsegments.2.2.2.2.2.2.1
  exact ⟨ext_names hsegments.1 hm, hl⟩

theorem endKey_injective {c : Config} {s s' : SensorStream} {l l' : Label}
    (h : endKey c s l = endKey c s' l') : s = s' ∧ l = l' := by
  have hsegments := joined_injective (s.labelFolder_no_slash l (endName_no_slash s.registered l))
    (s'.labelFolder_no_slash l' (endName_no_slash s'.registered l')) (List.append_cancel_left h)
  simp only [labelFolder, minuteFolder, List.cons_append, List.nil_append, List.cons.injEq]
    at hsegments
  obtain ⟨hm, hl⟩ := endName_injective hsegments.2.2.2.2.2.2.1
  exact ⟨ext_names hsegments.1 hm, hl⟩

theorem splitKey_ne_endKey (c : Config) (s s' : SensorStream) (l l' : Label) :
    splitKey c s l ≠ endKey c s' l' := by
  intro h
  have hsegments := joined_injective (s.labelFolder_no_slash l (splitName_no_slash s.registered l))
    (s'.labelFolder_no_slash l' (endName_no_slash s'.registered l')) (List.append_cancel_left h)
  simp only [labelFolder, minuteFolder, List.cons_append, List.nil_append, List.cons.injEq]
    at hsegments
  have hname := hsegments.2.2.2.2.2.2.1
  rw [endName_eq_stamped] at hname
  exact splitName_ne_stamped s'.registered l'.digits hname

theorem pairKey_injective {s s' : SensorStream} {l l' : Label}
    (h : pairKey s l = pairKey s' l') : s = s' ∧ l = l' := by
  have hcut : s.vehicle ++ '/' :: (s.moduleName ++ '_' :: l.text) =
      s'.vehicle ++ '/' :: (s'.moduleName ++ '_' :: l'.text) := by
    simpa [pairKey, slashes_cons, pathOf, joined] using h
  obtain ⟨hv, hname⟩ := append_sep_left_eq s.vehicle_ordinary.no_slash
    s'.vehicle_ordinary.no_slash hcut
  obtain ⟨hm, hl⟩ := append_sep_right_eq (digits_no_underscore l.digits)
    (digits_no_underscore l'.digits) hname
  exact ⟨ext_names hv hm, Label.text_injective hl⟩

theorem outPath_ordinary (c : Config) (s : SensorStream) (l : Label) :
    ∀ x ∈ c.unpaired.segments ++ (s.labelFolder l ++ [endName s.moduleName l]), Ordinary x := by
  intro x hx
  rcases List.mem_append.mp hx with hx | hx
  · exact c.unpaired.ordinary x hx
  · rcases List.mem_append.mp hx with hx | hx
    · exact s.labelFolder_ordinary l x hx
    · rw [List.mem_singleton.mp hx]
      exact endName_ordinary s.registered l

theorem abspath_outPath (c : Config) (s : SensorStream) (l : Label) :
    abspath (outPath c s l) = outPath c s l :=
  abspath_pathOf (s.outPath_ordinary c l) (by simp)

/-! ### The builders on a piece of the stream -/

/-- `piece` belongs to the module of the stream and to the second of the label. -/
structure PieceOf (s : SensorStream) (l : Label) (piece : SplitedPcap) : Prop where
  moduleName : piece.moduleName = s.moduleName
  date : piece.date = l.date
  hours : piece.hours = l.hours
  minutes : piece.minutes = l.minutes
  second : piece.second = l.second

section Pieces
variable {s : SensorStream} {l : Label} {piece : SplitedPcap} (h : PieceOf s l piece)
include h

theorem buildUploadDstPath_piece (c : Config) :
    buildUploadDstPath c s.vehicle piece =
      some (getStorageFullPath c.toSettings ++ pathOf (s.labelFolder l)) := by
  obtain ⟨sensorType, ht, hs⟩ := s.getModuleType_stream
  rw [buildUploadDstPath, h.moduleName, ht, h.date, h.hours, h.minutes]
  change some (slashes [_, _, lowerAscii sensorType, _, _, _, _]) = _
  rw [← hs, slashes_cons]
  rfl

theorem buildPairKey_piece : buildPairKey s.vehicle piece = pairKey s l := by
  rw [buildPairKey, h.moduleName, h.date, h.hours, h.minutes, h.second]
  rfl

theorem buildUnpairedOutPath_piece (c : Config) :
    buildUnpairedOutPath c s.vehicle piece = some (outPath c s l) := by
  obtain ⟨sensorType, ht, hs⟩ := s.getModuleType_stream
  have hpath : slashes [slashes [getUnpairedMergeFullPath c.toSettings, s.vehicle, s.typeFolder,
      s.moduleName, l.date, l.hours, l.minutes], endName s.moduleName l] = outPath c s l := by
    rw [slashes_cons (getUnpairedMergeFullPath c.toSettings), c.unpaired.path_eq, ← pathOf_append,
      slashes_root, List.append_assoc]
    rfl
  rw [buildUnpairedOutPath, h.moduleName, ht, h.date, h.hours, h.minutes, h.second]
  change some (abspath (slashes
    [slashes [_, _, lowerAscii sensorType, _, _, _, _], endName s.moduleName l])) = _
  rw [← hs, hpath, abspath_outPath]

end Pieces

theorem basename_outPath (c : Config) (s : SensorStream) (l : Label) :
    basename (outPath c s l) = endName s.moduleName l := by
  rw [outPath, ← List.append_assoc]
  exact basename_pathOf (endName_no_slash s.registered l)

end SensorStream

end SensorDataNormalization.WorkerPaths
