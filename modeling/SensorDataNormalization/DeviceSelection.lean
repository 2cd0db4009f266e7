import SensorDataNormalization.ManagerProgram

set_option autoImplicit false

/-! Which files of a listing `_filter_by_device` selects. -/
namespace SensorDataNormalization.DeviceSelection
open PythonText SensorRegistry PcapFilename Messages ManagerProgram

/-! ## File names -/

def Temp (file : StorageFile) : Prop := "temp".toList <:+: file.fileName

instance (file : StorageFile) : Decidable (Temp file) := inferInstanceAs (Decidable (_ <:+: _))

/-- The file name parses, to a module of the registry. -/
def Known (file : StorageFile) : Prop :=
  ∃ parts, parse file.fileName = some parts ∧ Registered parts.moduleName

def moduleOf (file : StorageFile) : Str := ((parse file.fileName).map (·.moduleName)).getD []

/-- The sensor type, or the module in any letter case, is the selected one; or all are. -/
def Asked (selectedDevice : Str) (file : StorageFile) : Prop :=
  upper selectedDevice = SensorType.ALL ∨
    getModuleType (moduleOf file) = some (upper selectedDevice) ∨
      upper (moduleOf file) = upper selectedDevice

instance (selectedDevice : Str) (file : StorageFile) : Decidable (Asked selectedDevice file) :=
  inferInstanceAs (Decidable (_ ∨ _ ∨ _))

section Selection
variable (lower : Str → Str) (selectedDevice : Str)

def Kept (file : StorageFile) : Prop :=
  ¬ Temp file ∧ (selectedDevice = SensorType.ALL ∨
    getModuleType (moduleOf file) = some (upper selectedDevice) ∨
      lower selectedDevice <:+: file.fileName)

instance (file : StorageFile) : Decidable (Kept lower selectedDevice file) :=
  inferInstanceAs (Decidable (_ ∧ (_ ∨ _ ∨ _)))

/-! ## One file -/

theorem keepsFile_eq (file : StorageFile) : keepsFile lower selectedDevice file =
    if Temp file then some false
    else if selectedDevice = SensorType.ALL then some true
    else (parse file.fileName).bind (fun parts => (getModuleType parts.moduleName).bind
      (fun sensorType => some (decide
        (upper selectedDevice = sensorType ∨ lower selectedDevice <:+: file.fileName)))) := rfl

theorem keepsFile_known {file : StorageFile} (h : Known file) :
    keepsFile lower selectedDevice file = some (decide (Kept lower selectedDevice file)) := by
  obtain ⟨parts, hparse, hregistered⟩ := h
  obtain ⟨sensorType, htype⟩ := Option.isSome_iff_exists.mp hregistered
  rw [keepsFile_eq]
  split_ifs with htemp hall
  · exact congrArg some (decide_eq_false (fun hk => hk.1 htemp)).symm
  · exact congrArg some (decide_eq_true ⟨htemp, Or.inl hall⟩).symm
  · have hmodule : getModuleType (moduleOf file) = some sensorType := by
      rw [moduleOf, hparse]
      exact htype
    rw [hparse, Option.bind_some, htype, Option.bind_some]
    refine congrArg some (decide_eq_decide.mpr ?_)
    unfold Kept
    rw [hmodule, Option.some.injEq, eq_comm]
    simp [htemp, hall]

/-- The loop raises on the files that it has to look at and does not know. -/
theorem keepsFile_isSome {file : StorageFile} : (keepsFile lower selectedDevice file).isSome ↔
    selectedDevice = SensorType.ALL ∨ Temp file ∨ Known file := by
  constructor
  · intro h
    rw [keepsFile_eq] at h
    split_ifs at h with htemp hall
    · exact Or.inr (Or.inl htemp)
    · exact Or.inl hall
    · obtain ⟨keep, hkeep⟩ := Option.isSome_iff_exists.mp h
      obtain ⟨parts, hparse, hkeep⟩ := Option.bind_eq_some_iff.mp hkeep
      obtain ⟨sensorType, htype, -⟩ := Option.bind_eq_some_iff.mp hkeep
      exact Or.inr (Or.inr ⟨parts, hparse, Option.isSome_iff_exists.mpr ⟨sensorType, htype⟩⟩)
  · rintro (rfl | htemp | hknown)
    · rw [keepsFile_eq, if_pos (rfl : SensorType.ALL = SensorType.ALL)]
      split_ifs <;> rfl
    · rw [keepsFile_eq, if_pos htemp]
      rfl
    · rw [keepsFile_known lower selectedDevice hknown]
      rfl

/-! ## The loop -/

theorem filterByDevice_known {files : List StorageFile} (h : ∀ file ∈ files, Known file) :
    filterByDevice lower files selectedDevice =
      some (files.filter (fun file => decide (Kept lower selectedDevice file))) := by
  induction files with
  | nil => rfl
  | cons file rest ih =>
    rw [filterByDevice, keepsFile_known lower selectedDevice (h file List.mem_cons_self),
      ih (fun g hg => h g (List.mem_cons_of_mem _ hg))]
    by_cases hk : Kept lower selectedDevice file <;> simp [hk]

theorem filterByDevice_keeps {files : List StorageFile}
    (h : ∀ file ∈ files, keepsFile lower selectedDevice file = some true) :
    filterByDevice lower files selectedDevice = some files := by
  induction files with
  | nil => rfl
  | cons file rest ih =>
    rw [filterByDevice, h file List.mem_cons_self, ih (fun g hg => h g (List.mem_cons_of_mem _ hg))]
    rfl

theorem filterByDevice_isSome {files : List StorageFile} :
    (filterByDevice lower files selectedDevice).isSome ↔
      ∀ file ∈ files, (keepsFile lower selectedDevice file).isSome := by
  induction files with
  | nil => simp [filterByDevice]
  | cons file rest ih =>
    rw [List.forall_mem_cons, ← ih, filterByDevice]
    cases keepsFile lower selectedDevice file <;>
      cases filterByDevice lower rest selectedDevice <;> simp

theorem filterByDevice_append (files files' : List StorageFile) :
    filterByDevice lower (files ++ files') selectedDevice =
      (filterByDevice lower files selectedDevice).bind (fun kept =>
        (filterByDevice lower files' selectedDevice).map (fun kept' => kept ++ kept')) := by
  induction files with
  | nil => simp [filterByDevice]
  | cons file rest ih =>
    rw [List.cons_append, filterByDevice, filterByDevice, ih]
    cases keepsFile lower selectedDevice file with
    | none => rfl
    | some keep =>
      cases filterByDevice lower rest selectedDevice with
      | none => rfl
      | some kept =>
        cases filterByDevice lower files' selectedDevice with
        | none => rfl
        | some kept' => cases keep <;> rfl

theorem filter_eq_iff {α : Type} {p q : α → Bool} {xs : List α} :
    xs.filter p = xs.filter q ↔ ∀ a ∈ xs, p a = q a := by
  constructor
  · intro h a ha
    rw [Bool.eq_iff_iff]
    have hmem : a ∈ xs.filter p ↔ a ∈ xs.filter q := by rw [h]
    simpa [List.mem_filter, ha] using hmem
  · exact List.filter_congr

/-! ## What is asked for -/

/-- `_filter_by_device` selects, in the order of the listing, the files that are asked for and
whose name does not contain "temp". -/
def SelectsAsked (files : List StorageFile) : Prop :=
  filterByDevice lower files selectedDevice =
    some (files.filter (fun file => decide (¬ Temp file ∧ Asked selectedDevice file)))

/-- The selection is exact if it is `ALL`, or if a file that is not of the selected type has
the lower-cased selection in its name just when it is asked for by that name. -/
theorem selects_asked_iff {files : List StorageFile} (hknown : ∀ file ∈ files, Known file) :
    SelectsAsked lower selectedDevice files ↔
      selectedDevice = SensorType.ALL ∨
        ∀ file ∈ files, ¬ Temp file →
          getModuleType (moduleOf file) ≠ some (upper selectedDevice) →
            (lower selectedDevice <:+: file.fileName ↔
              upper selectedDevice = SensorType.ALL ∨
                upper (moduleOf file) = upper selectedDevice) := by
  have hupper : upper SensorType.ALL = SensorType.ALL := by decide
  rw [SelectsAsked, filterByDevice_known lower selectedDevice hknown, Option.some.injEq,
    filter_eq_iff]
  constructor
  · intro h
    by_cases hall : selectedDevice = SensorType.ALL
    · exact Or.inl hall
    · refine Or.inr (fun file hfile htemp htype => ?_)
      have hsame := decide_eq_decide.mp (h file hfile)
      simpa [Kept, Asked, htemp, hall, htype] using hsame
  · rintro (rfl | h) file hfile
    · exact decide_eq_decide.mpr (by simp [Kept, Asked, hupper])
    · apply decide_eq_decide.mpr
      by_cases htemp : Temp file
      · simp [Kept, htemp]
      by_cases hall : selectedDevice = SensorType.ALL
      · subst hall
        simp [Kept, Asked, hupper]
      by_cases htype : getModuleType (moduleOf file) = some (upper selectedDevice)
      · simp [Kept, Asked, htemp, htype]
      · have hname := h file hfile htemp htype
        simp [Kept, Asked, htemp, hall, htype, hname]

/-! ## Unusable names -/

/-- The selection from two listings does not raise, and is that from each of them. -/
def Separate (files files' : List StorageFile) : Prop :=
  ∃ kept kept', filterByDevice lower files selectedDevice = some kept ∧
    filterByDevice lower files' selectedDevice = some kept' ∧
    filterByDevice lower (files ++ files') selectedDevice = some (kept ++ kept')

theorem separate_iff (files files' : List StorageFile) :
    Separate lower selectedDevice files files' ↔
      selectedDevice = SensorType.ALL ∨ ∀ file ∈ files ++ files', Temp file ∨ Known file := by
  have hboth : (filterByDevice lower (files ++ files') selectedDevice).isSome ↔
      selectedDevice = SensorType.ALL ∨ ∀ file ∈ files ++ files', Temp file ∨ Known file := by
    rw [filterByDevice_isSome]
    simp only [keepsFile_isSome]
    by_cases hall : selectedDevice = SensorType.ALL
    · simp [hall]
    · simp [hall]
  rw [← hboth]
  constructor
  · rintro ⟨kept, kept', -, -, h⟩
    rw [h]
    rfl
  · intro h
    rw [filterByDevice_append] at h
    cases hkept : filterByDevice lower files selectedDevice with
    | none =>
      rw [hkept] at h
      cases h
    | some kept =>
      cases hkept' : filterByDevice lower files' selectedDevice with
      | none =>
        rw [hkept, hkept'] at h
        cases h
      | some kept' =>
        refine ⟨kept, kept', hkept, hkept', ?_⟩
        rw [filterByDevice_append, hkept, hkept']
        rfl

end Selection

/-! ## Listings of one vehicle -/

def listed (fileName : Str) : StorageFile where
  filePath := "raw/20240130/V/".toList ++ fileName
  fileName := fileName
  isDir := false

def roofFront : StorageFile := listed "AT128_ROOF_FRONT_202401301045.pcap".toList
def roofFrontLower : StorageFile := listed "at128_roof_front_202401301045.pcap".toList
def position : StorageFile := listed "GNSS_202401301045.pcap".toList
def notes : StorageFile := listed "notes".toList

theorem known_roofFront : Known roofFront := ⟨_, rfl, by decide⟩
theorem known_roofFrontLower : Known roofFrontLower := ⟨_, rfl, by decide⟩
theorem known_position : Known position := ⟨_, rfl, by decide⟩

/-- The module written in lower case is found by its name. -/
theorem selects_asked_lower_case :
    SelectsAsked lowerAscii "AT128_ROOF_FRONT".toList [roofFrontLower, position] :=
  (selects_asked_iff lowerAscii "AT128_ROOF_FRONT".toList (by
      simp [known_roofFrontLower, known_position])).mpr (Or.inr (by decide))

/-- The documented name of a device selects none of its files. -/
theorem documented_name_selects_nothing :
    filterByDevice lowerAscii [roofFront, position] "AT128_ROOF_FRONT".toList = some [] ∧
      ¬ SelectsAsked lowerAscii "AT128_ROOF_FRONT".toList [roofFront, position] ∧
      Asked "AT128_ROOF_FRONT".toList roofFront ∧ Known roofFront ∧ Known position := by
  have hnone : filterByDevice lowerAscii [roofFront, position] "AT128_ROOF_FRONT".toList =
      some [] := by decide
  have hasked : [roofFront, position].filter (fun file => decide (¬ Temp file ∧
      Asked "AT128_ROOF_FRONT".toList file)) = [roofFront] := by decide
  refine ⟨hnone, fun h => ?_, by decide, known_roofFront, known_position⟩
  rw [SelectsAsked, hnone, hasked] at h
  cases h

/-- A file whose name has no dot ends the selection for all files; `ALL` selects it. -/
theorem one_bad_name_raises :
    filterByDevice lowerAscii [position] "GNSS".toList = some [position] ∧
      filterByDevice lowerAscii ([position] ++ [notes]) "GNSS".toList = none ∧
      ¬ Separate lowerAscii "GNSS".toList [position] [notes] ∧
      filterByDevice lowerAscii ([position] ++ [notes]) "ALL".toList = some [position, notes] := by
  have hnone : filterByDevice lowerAscii ([position] ++ [notes]) "GNSS".toList = none := by decide
  refine ⟨by decide, hnone, ?_, by decide⟩
  rintro ⟨kept, kept', -, -, h⟩
  rw [hnone] at h
  cases h

end SensorDataNormalization.DeviceSelection
