import SensorDataNormalization.DeviceSelection
import SensorDataNormalization.WorkerPaths

set_option autoImplicit false

/-! Which files of a listing `_collect_file_list` takes for a vehicle, and to which vehicle the
worker gives them. -/
namespace SensorDataNormalization.VehicleSelection
open SeparatedLists PythonText Messages WorkerProgram ManagerProgram WorkerPaths DeviceSelection

/-- A file `{raw_root}/{date}/{VEHICLE}/{file}`. -/
structure Stored (rawRoot date vehicle : Str) (file : StorageFile) : Prop where
  path : ∃ name, '/' ∉ name ∧
    file.filePath = rawRoot ++ '/' :: (date ++ '/' :: (vehicle ++ '/' :: name))
  no_slash : '/' ∉ vehicle

theorem stored_vehicle {rawRoot date vehicle : Str} {file : StorageFile}
    (h : Stored rawRoot date vehicle file) : vehicleIdOf file.filePath = some vehicle := by
  obtain ⟨name, hname, hpath⟩ := h.path
  have hjoin : file.filePath =
      (rawRoot ++ '/' :: date) ++ '/' :: (vehicle ++ '/' :: name) := by
    rw [hpath, List.append_assoc]
    rfl
  rw [vehicleIdOf, hjoin]
  exact fromEnd_splitOn_one h.no_slash hname

theorem stored_infix {rawRoot date vehicle : Str} {file : StorageFile}
    (h : Stored rawRoot date vehicle file) : vehicle <:+: file.filePath := by
  obtain ⟨name, -, hpath⟩ := h.path
  refine ⟨rawRoot ++ '/' :: (date ++ ['/']), '/' :: name, ?_⟩
  rw [hpath]
  simp

/-- Every file of the listing, apart from its folders, is stored for a vehicle. -/
def Listing (rawRoot date : Str) (files : List StorageFile) : Prop :=
  ∀ file ∈ files, file.isDir = false → ∃ vehicle, Stored rawRoot date vehicle file

def OfVehicle (vehicleId : Str) (file : StorageFile) : Prop :=
  file.isDir = false ∧ vehicleIdOf file.filePath = some vehicleId

instance (vehicleId : Str) (file : StorageFile) : Decidable (OfVehicle vehicleId file) :=
  inferInstanceAs (Decidable (_ ∧ _))

theorem collectFileList_listing {vehicleId : Str} (h : vehicleId ≠ [])
    (files : List StorageFile) : collectFileList (.listing files) vehicleId =
      some (files.filter (fun f => decide (f.isDir = false ∧ vehicleId <:+: f.filePath))) := by
  rw [collectFileList, if_pos h, List.filter_filter]
  refine congrArg some (List.filter_congr fun f _ => ?_)
  rw [Bool.decide_and, Bool.and_comm]
  cases f.isDir <;> rfl

/-- The files of the vehicle are collected, all of them, in order and nothing else; and no other
file is selected for the request. -/
def SelectsVehicle (env : Environment) (request : Request) (files : List StorageFile) : Prop :=
  collectFileList (.listing files) request.vehicleId =
      some (files.filter (fun f => decide (OfVehicle request.vehicleId f))) ∧
    ∀ selected, selectFiles env request (.listing files) = some selected →
      ∀ f ∈ selected, OfVehicle request.vehicleId f

theorem filterByDevice_sublist {lower : Str → Str} {selectedDevice : Str}
    {files kept : List StorageFile} (h : filterByDevice lower files selectedDevice = some kept) :
    kept.Sublist files := by
  induction files generalizing kept with
  | nil =>
    cases h
    exact .slnil
  | cons file rest ih =>
    obtain ⟨keep, -, h⟩ := Option.bind_eq_some_iff.mp h
    obtain ⟨kept', hkept', h⟩ := Option.bind_eq_some_iff.mp h
    cases h
    cases keep with
    | true => exact (ih hkept').cons_cons file
    | false => exact (ih hkept').cons file

/-- The search for the vehicle in the whole path finds the files of the vehicle exactly when no
other file has it somewhere in its path. -/
theorem selects_vehicle_iff {rawRoot date : Str} (env : Environment) (request : Request)
    {files : List StorageFile} (hlisting : Listing rawRoot date files)
    (hid : request.vehicleId ≠ []) : SelectsVehicle env request files ↔
      ∀ file ∈ files, file.isDir = false → ∀ vehicle, Stored rawRoot date vehicle file →
        vehicle ≠ request.vehicleId → ¬ request.vehicleId <:+: file.filePath := by
  have hcollect : collectFileList (.listing files) request.vehicleId =
      some (files.filter (fun f => decide (OfVehicle request.vehicleId f))) ↔
        ∀ file ∈ files, file.isDir = false → ∀ vehicle, Stored rawRoot date vehicle file →
          vehicle ≠ request.vehicleId → ¬ request.vehicleId <:+: file.filePath := by
    rw [collectFileList_listing hid, Option.some.injEq, filter_eq_iff]
    constructor
    · intro h file hfile hdir vehicle hstored hother hinfix
      have hsame := (decide_eq_decide.mp (h file hfile)).mp ⟨hdir, hinfix⟩
      have hvehicle := (stored_vehicle hstored).symm.trans hsame.2
      exact hother (Option.some.inj hvehicle)
    · intro h file hfile
      apply decide_eq_decide.mpr
      apply and_congr_right
      intro hdir
      obtain ⟨vehicle, hstored⟩ := hlisting file hfile hdir
      have hvehicle := stored_vehicle hstored
      constructor
      · intro hinfix
        refine hvehicle.trans (congrArg some ?_)
        by_contra hother
        exact h file hfile hdir vehicle hstored hother hinfix
      · intro hsame
        have heq : vehicle = request.vehicleId := Option.some.inj (hvehicle.symm.trans hsame)
        exact heq ▸ stored_infix hstored
  constructor
  · exact fun h => hcollect.mp h.1
  · intro h
    have hfiles := hcollect.mpr h
    refine ⟨hfiles, ?_⟩
    intro selected hselected f hf
    rw [selectFiles, hfiles] at hselected
    have hmem := (filterByDevice_sublist hselected).subset hf
    exact of_decide_eq_true (List.mem_filter.mp hmem).2

/-! ## Two vehicles -/

def storedFile (vehicle : Str) : StorageFile where
  filePath := "raw".toList ++ '/' :: ("20240130".toList ++ '/' :: (vehicle ++ '/' ::
    "GNSS_202401301045.pcap".toList))
  fileName := "GNSS_202401301045.pcap".toList
  isDir := false

def requestFor (vehicleId : Str) : Request := ⟨"r".toList, "20240130".toList, vehicleId, none⟩

theorem storedFile_stored {vehicle : Str} (h : '/' ∉ vehicle) :
    Stored "raw".toList "20240130".toList vehicle (storedFile vehicle) :=
  ⟨⟨"GNSS_202401301045.pcap".toList, by decide, rfl⟩, h⟩

theorem vehicle_unique {rawRoot date vehicle vehicle' : Str} {file : StorageFile}
    (h : Stored rawRoot date vehicle file) (h' : Stored rawRoot date vehicle' file) :
    vehicle = vehicle' :=
  Option.some.inj ((stored_vehicle h).symm.trans (stored_vehicle h'))

theorem selects_vehicle_two_vehicles : SelectsVehicle (hostOf []) (requestFor "V10".toList)
    [storedFile "V1".toList, storedFile "V10".toList] := by
  have hfirst := @storedFile_stored "V1".toList (by decide)
  have hsecond := @storedFile_stored "V10".toList (by decide)
  have hlisting : Listing "raw".toList "20240130".toList
      [storedFile "V1".toList, storedFile "V10".toList] := by
    intro file hfile _
    rcases List.mem_pair.mp hfile with rfl | rfl
    · exact ⟨_, hfirst⟩
    · exact ⟨_, hsecond⟩
  refine (selects_vehicle_iff (hostOf []) _ hlisting (by decide)).mpr ?_
  intro file hfile _ vehicle hstored hother
  rcases List.mem_pair.mp hfile with rfl | rfl
  · decide
  · exact absurd (vehicle_unique hstored hsecond) hother

/-- The request for the vehicle whose name begins the other takes the files of both. -/
theorem vehicle_of_longer_name_selected :
    collectFileList (.listing [storedFile "V1".toList, storedFile "V10".toList])
        "V1".toList = some [storedFile "V1".toList, storedFile "V10".toList] ∧
      vehicleIdOf (storedFile "V10".toList).filePath = some "V10".toList ∧
      Stored "raw".toList "20240130".toList "V1".toList (storedFile "V1".toList) ∧
      Stored "raw".toList "20240130".toList "V10".toList (storedFile "V10".toList) ∧
      ¬ SelectsVehicle (hostOf []) (requestFor "V1".toList)
        [storedFile "V1".toList, storedFile "V10".toList] := by
  have hboth : collectFileList (.listing [storedFile "V1".toList, storedFile "V10".toList])
      "V1".toList = some [storedFile "V1".toList, storedFile "V10".toList] := by decide
  have hfirst := @storedFile_stored "V1".toList (by decide)
  have hsecond := @storedFile_stored "V10".toList (by decide)
  refine ⟨hboth, stored_vehicle hsecond, hfirst, hsecond, ?_⟩
  rintro ⟨hone, -⟩
  have honly : [storedFile "V1".toList, storedFile "V10".toList].filter
      (fun f => decide (OfVehicle (requestFor "V1".toList).vehicleId f)) =
        [storedFile "V1".toList] := by decide
  rw [honly] at hone
  exact absurd (hboth.symm.trans hone) (by decide)

end SensorDataNormalization.VehicleSelection
