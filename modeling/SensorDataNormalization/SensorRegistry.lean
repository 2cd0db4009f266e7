import SensorDataNormalization.PythonText

set_option autoImplicit false
namespace SensorDataNormalization.SensorRegistry
open SeparatedLists PythonText

/-! ## `sensor_category.enum_sensor` -/

namespace SensorType
def ALL : Str := "ALL".toList
def GNSS : Str := "GNSS".toList
def LIDAR : Str := "LIDAR".toList
def CAMERA : Str := "CAMERA".toList
end SensorType

def lidarNames : List Str := [
  "AT128_ROOF_FRONT".toList, "AT128_ROOF_RIGHT".toList, "AT128_ROOF_REAR".toList,
  "AT128_ROOF_LEFT".toList, "RSBP_BUMP_FRONT".toList, "RSBP_BUMP_RIGHT".toList,
  "RSBP_BUMP_REAR".toList, "RSBP_BUMP_LEFT".toList]

def cameraNames : List Str := [
  "AM20_FRONT_CENTER_RIGHT_DOWN".toList, "AM20_FRONT_RIGHT_REAR".toList,
  "AM20_REAR_CENTER_RIGHT".toList, "AM20_FRONT_LEFT_REAR".toList,
  "AM20_REAR_RIGHT_EDGE".toList, "AM20_LEFT_REAR_EDGE".toList,
  "AM20_FRONT_CENTER_LEFT_UP".toList, "AM20_FRONT_CENTER_RIGHT_UP".toList,
  "AM20_FRONT_RIGHT_FRONT".toList, "AM20_FRONT_LEFT_FRONT".toList]

def gnssNames : List Str := ["GNSS".toList]

/-- `_type_by_name` after `register`, in insertion order. -/
def typeByName : List (Str × Str) :=
  lidarNames.map (·, SensorType.LIDAR) ++ cameraNames.map (·, SensorType.CAMERA) ++
    gnssNames.map (·, SensorType.GNSS)

/-- `none` is the `KeyError` of an unknown name. -/
def getSensorType (sensorName : Str) : Option Str := typeByName.lookup sensorName

/-- `_get_module_type` of the worker. -/
def getModuleType (moduleName : Str) : Option Str := getSensorType (upper moduleName)

/-- A module name, in any letter case, that the registry knows. -/
def Registered (moduleName : Str) : Prop := (getModuleType moduleName).isSome

instance (moduleName : Str) : Decidable (Registered moduleName) :=
  inferInstanceAs (Decidable (Option.isSome _ = true))

theorem registered_upper_mem {moduleName : Str} (h : Registered moduleName) :
    upper moduleName ∈ typeByName.map Prod.fst :=
  lookup_isSome.mp h

/-- No registered name has a path, pattern or file-name separator, or four digits. -/
theorem registered_names_plain : ∀ name ∈ typeByName.map Prod.fst,
    '/' ∉ name ∧ '.' ∉ name ∧ '{' ∉ name ∧ '}' ∉ name ∧
      name.countP (fun c => decide (IsDigit c)) < 4 := by
  decide

theorem registered_no_char {moduleName : Str} (h : Registered moduleName) {c : Char}
    (hself : upperChar c = [c]) (hc : ∀ name ∈ typeByName.map Prod.fst, c ∉ name) :
    c ∉ moduleName :=
  fun hm => hc _ (registered_upper_mem h) (mem_upper hm hself)

section Registered
variable {moduleName : Str} (h : Registered moduleName)
include h

theorem registered_no_slash : '/' ∉ moduleName :=
  registered_no_char h (by decide) (fun name hn => (registered_names_plain name hn).1)

theorem registered_no_dot : '.' ∉ moduleName :=
  registered_no_char h (by decide) (fun name hn => (registered_names_plain name hn).2.1)

theorem registered_no_brace : ∀ c ∈ moduleName, c ≠ '{' ∧ c ≠ '}' := by
  intro c hc
  constructor
  · rintro rfl
    exact registered_no_char h (by decide)
      (fun name hn => (registered_names_plain name hn).2.2.1) hc
  · rintro rfl
    exact registered_no_char h (by decide)
      (fun name hn => (registered_names_plain name hn).2.2.2.1) hc

theorem registered_nonempty : moduleName ≠ [] := by
  rintro rfl
  exact absurd h (by decide)

theorem registered_ordinary : Ordinary moduleName where
  nonempty := registered_nonempty h
  no_slash := registered_no_slash h
  not_dot := by
    rintro rfl
    exact registered_no_dot h (by simp)
  not_dots := by
    rintro rfl
    exact registered_no_dot h (by simp)

theorem registered_not_ends_split (before : Str) : moduleName ≠ before ++ "split".toList := by
  rintro rfl
  have hno : ∀ name ∈ typeByName.map Prod.fst, ¬ "SPLIT".toList <:+ name := by decide
  apply hno _ (registered_upper_mem h)
  exact ⟨upper before, by rw [upper_append]; rfl⟩

theorem registered_not_split (before : Str) : moduleName ≠ before ++ "_split".toList := by
  have hcut : before ++ "_split".toList = (before ++ ['_']) ++ "split".toList := by simp
  rw [hcut]
  exact registered_not_ends_split h _

/-- A registered name contains no underscore followed by four or more digits, also when
characters that are no digits follow it. -/
theorem registered_no_stamp_append {stamp after : Str} (hs : ∀ c ∈ stamp, IsDigit c)
    (hlen : 4 ≤ stamp.length)
    (hafter : (upper after).countP (fun c => decide (IsDigit c)) = 0) :
    ¬ ('_' :: stamp) <:+: moduleName ++ after := by
  rintro ⟨left, right, hm⟩
  have hname := (registered_names_plain _ (registered_upper_mem h)).2.2.2.2
  have hupper : upper moduleName ++ upper after =
      upper left ++ (upper ['_'] ++ stamp) ++ upper right := by
    have hcut : '_' :: stamp = ['_'] ++ stamp := rfl
    rw [← upper_append, ← hm, upper_append, upper_append, hcut, upper_append, upper_digits hs]
  have hdigits : stamp.countP (fun c => decide (IsDigit c)) = stamp.length :=
    List.countP_eq_length.mpr (fun c hc => decide_eq_true (hs c hc))
  have hcount := congrArg (List.countP (fun c => decide (IsDigit c))) hupper
  simp only [List.countP_append] at hcount
  omega

theorem registered_no_stamp {stamp : Str} (hs : ∀ c ∈ stamp, IsDigit c)
    (hlen : 4 ≤ stamp.length) : ¬ ('_' :: stamp) <:+: moduleName := by
  have hno := @registered_no_stamp_append moduleName h stamp [] hs hlen rfl
  rwa [List.append_nil] at hno

end Registered

theorem sensorTypes_ordinary : ∀ row ∈ typeByName, Ordinary (lowerAscii row.2) ∧
    ∀ c ∈ lowerAscii row.2, c ≠ '{' ∧ c ≠ '}' := by
  have hrows : ∀ row ∈ typeByName, Ordinary (lowerAscii row.2) ∧
      (lowerAscii row.2).all (fun c => decide (c ≠ '{' ∧ c ≠ '}')) = true := by
    decide
  exact fun row hrow => ⟨(hrows row hrow).1, forall_chars (hrows row hrow).2⟩

theorem getModuleType_ordinary {moduleName sensorType : Str}
    (h : getModuleType moduleName = some sensorType) : Ordinary (lowerAscii sensorType) :=
  (sensorTypes_ordinary _ (mem_of_lookup h)).1

theorem getModuleType_no_brace {moduleName sensorType : Str}
    (h : getModuleType moduleName = some sensorType) :
    ∀ c ∈ lowerAscii sensorType, c ≠ '{' ∧ c ≠ '}' :=
  (sensorTypes_ordinary _ (mem_of_lookup h)).2

end SensorDataNormalization.SensorRegistry
