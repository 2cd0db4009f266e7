import Mathlib.Data.Int.Notation
import SensorDataNormalization.PcapRecords
import SensorDataNormalization.PythonText

set_option autoImplicit false

/-! UTF-8 text, the values of `json.loads`, and the dataclass that is built from them. -/
namespace SensorDataNormalization.JsonMessages
open PythonText PcapRecords

/-! ## UTF-8 -/

def encodeUtf8 (text : Str) : Bytes := text.flatMap String.utf8EncodeChar

/-- `body.decode("utf-8")`: `none` is a UnicodeDecodeError. -/
def decodeUtf8 (body : Bytes) : Option Str :=
  body.toByteArray.utf8Decode?.map Array.toList

theorem decodeUtf8_encodeUtf8 (text : Str) : decodeUtf8 (encodeUtf8 text) = some text := by
  have hdecode : text.utf8Encode.utf8Decode? = some text.toArray := List.utf8Decode?_utf8Encode
  change text.utf8Encode.utf8Decode?.map Array.toList = some text
  rw [hdecode]
  rfl

theorem decodeUtf8_eq_some {body : Bytes} {text : Str} :
    decodeUtf8 body = some text ↔ encodeUtf8 text = body := by
  constructor
  · intro h
    obtain ⟨chars, hchars, rfl⟩ := Option.map_eq_some_iff.mp h
    have hsome : body.toByteArray.utf8Decode?.isSome := by
      rw [hchars]
      rfl
    have hencode := ByteArray.utf8Encode_get_utf8Decode? (h := hsome)
    simp only [hchars, Option.get_some] at hencode
    exact List.toByteArray_inj.mp hencode
  · rintro rfl
    exact decodeUtf8_encodeUtf8 text

/-! ## JSON values -/

/-- A `str` as the list of its code points: the escapes of JSON give surrogates too. -/
abbrev Text := List ℕ

def codes (s : Str) : Text := s.map Char.toNat

inductive Json
  | null
  | bool (value : Bool)
  | int (value : ℤ)
  | float (bits : UInt64)
  | str (value : Text)
  | list (items : List Json)
  | dict (fields : List (Text × Json))

def Json.eqStr (text : Text) : Json → Bool
  | .str value => decide (value = text)
  | _ => false

theorem Json.eqStr_iff {text : Text} {value : Json} :
    value.eqStr text = true ↔ value = .str text := by
  cases value with
  | str t => simp [Json.eqStr]
  | _ =>
    constructor
    · intro h
      cases h
    · intro h
      cases h

inductive PyException
  | unicodeDecode
  | jsonDecode
  | notAMapping
  | unexpectedKeyword (name : Text)
  | missingArgument (name : Str)
  | expectedString
  deriving DecidableEq

/-! ## Keyword arguments -/

abbrev Keywords := List (Text × Json)

/-- The keyword arguments of `cls(**value)` for a class with the given fields. -/
def keywords (names : List Str) : Json → Except PyException Keywords
  | .dict fields =>
    match fields.find? (fun field => decide (field.1 ∉ names.map codes)) with
    | some field => .error (.unexpectedKeyword field.1)
    | none => .ok fields
  | _ => .error .notAMapping

def required (given : Keywords) (name : Str) : Except PyException Json :=
  match given.lookup (codes name) with
  | some value => .ok value
  | none => .error (.missingArgument name)

def optional (given : Keywords) (name : Str) (value : Json) : Json :=
  (given.lookup (codes name)).getD value

theorem keywords_ok {names : List Str} {value : Json} {given : Keywords} :
    keywords names value = .ok given ↔
      value = .dict given ∧ ∀ field ∈ given, field.1 ∈ names.map codes := by
  cases value with
  | dict fields =>
    unfold keywords
    dsimp only
    cases hfind : fields.find? (fun field => decide (field.1 ∉ names.map codes)) with
    | some field =>
      have hfield := List.find?_some hfind
      have hmem := List.mem_of_find?_eq_some hfind
      constructor
      · intro h
        cases h
      · rintro ⟨he, hall⟩
        cases he
        exact absurd (hall field hmem) (of_decide_eq_true hfield)
    | none =>
      have hall : ∀ field ∈ fields, field.1 ∈ names.map codes := by
        intro field hfield
        have hnot := List.find?_eq_none.mp hfind field hfield
        simpa using hnot
      constructor
      · intro h
        cases h
        exact ⟨rfl, hall⟩
      · rintro ⟨he, -⟩
        cases he
        rfl
  | _ =>
    constructor
    · intro h
      cases h
    · rintro ⟨h, -⟩
      cases h

/-! ## `NormalizationRequest` -/

/-- The fields are not checked when the message is built, so each can be any value. -/
structure NormalizationRequest where
  protocolId : Json
  sender : Json
  receiver : Json
  requestId : Json
  date : Json
  vehicleId : Json
  selectedDevice : Json

def requestFields : List Str :=
  ["protocol_id".toList, "sender".toList, "receiver".toList, "request_id".toList, "date".toList,
    "vehicle_id".toList, "selected_device".toList]

/-- The request of keyword arguments with the given `receiver`, and the defaults of the class. -/
def requestOf (nextId : Str) (given : Keywords) (receiver : Json) : NormalizationRequest where
  protocolId := optional given "protocol_id".toList (.str (codes "NORMALIZATION_REQUEST".toList))
  sender := optional given "sender".toList (.str (codes "CLIENT".toList))
  receiver := receiver
  requestId := optional given "request_id".toList (.str (codes nextId))
  date := optional given "date".toList (.str [])
  vehicleId := optional given "vehicle_id".toList (.str [])
  selectedDevice := optional given "selected_device".toList .null

/-- `NormalizationRequest.from_json`; `loads` is `none` where `json.loads` raises. -/
def fromJson (loads : Str → Option Json) (nextId : Str) (jsonBody : Str) :
    Except PyException NormalizationRequest :=
  match loads jsonBody with
  | none => .error .jsonDecode
  | some value => do
    let given ← keywords requestFields value
    let receiver ← required given "receiver".toList
    return requestOf nextId given receiver

theorem fromJson_ok {loads : Str → Option Json} {nextId jsonBody : Str}
    {request : NormalizationRequest} : fromJson loads nextId jsonBody = .ok request ↔
      ∃ given receiver, loads jsonBody = some (.dict given) ∧
        (∀ field ∈ given, field.1 ∈ requestFields.map codes) ∧
        given.lookup (codes "receiver".toList) = some receiver ∧
        request = requestOf nextId given receiver := by
  unfold fromJson
  cases hloads : loads jsonBody with
  | none =>
    constructor
    · intro h
      cases h
    · rintro ⟨_, _, h, -⟩
      cases h
  | some value =>
    dsimp only
    cases hgiven : keywords requestFields value with
    | error e =>
      constructor
      · intro h
        cases h
      · rintro ⟨given, _, he, hall, -⟩
        rw [keywords_ok.mpr ⟨Option.some.inj he, hall⟩] at hgiven
        cases hgiven
    | ok given =>
      obtain ⟨rfl, hall⟩ := keywords_ok.mp hgiven
      change (required given "receiver".toList >>= fun receiver =>
        pure (requestOf nextId given receiver)) = .ok request ↔ _
      unfold required
      cases hreceiver : given.lookup (codes "receiver".toList) with
      | none =>
        constructor
        · intro h
          cases h
        · rintro ⟨given', _, he, -, hlookup, -⟩
          cases he
          rw [hreceiver] at hlookup
          cases hlookup
      | some receiver =>
        constructor
        · intro h
          cases h
          exact ⟨given, receiver, rfl, hall, hreceiver, rfl⟩
        · rintro ⟨given', receiver', he, -, hlookup, rfl⟩
          cases he
          rw [hreceiver] at hlookup
          cases hlookup
          rfl

end SensorDataNormalization.JsonMessages
