import SensorDataNormalization.JsonMessages

set_option autoImplicit false

/-! `NormalizationRequestListener.poll`: which queue entries become requests. -/
namespace SensorDataNormalization.RequestListener
open PythonText PcapRecords JsonMessages

/-- What `poll` takes from Python: `json.loads` (`none` where it raises), the next request id,
and the decimal digits of the Unicode database. -/
structure Python where
  loads : Str → Option Json
  nextId : Str
  decimal : ℕ → Bool
  decimal_ascii : ∀ c < 128, decimal c = decide (48 ≤ c ∧ c ≤ 57)

variable (py : Python)

/-- `_DATE_PATTERN.fullmatch`: eight of `\d`. -/
def fullmatch : Json → Except PyException Bool
  | .str value => .ok (decide (value.length = 8) && value.all py.decimal)
  | _ => .error .expectedString

def decode (body : Bytes) : Except PyException NormalizationRequest :=
  match decodeUtf8 body with
  | none => .error .unicodeDecode
  | some jsonBody => fromJson py.loads py.nextId jsonBody

/-- `poll`, from the answer of `brpop` on. Only the decoding is in the `try` block. -/
def poll (receiver : Str) (popped : Option (Bytes × Bytes)) :
    Except PyException (Option NormalizationRequest) :=
  match popped with
  | none => .ok none
  | some (_, body) =>
    match decode py body with
    | .error _ => .ok none
    | .ok request =>
      if request.receiver.eqStr (codes receiver) then
        match fullmatch py request.date with
        | .error e => .error e
        | .ok matched => .ok (if matched then some request else none)
      else .ok none

/-! ## The requests that are meant to pass -/

variable {py} {receiver : Str} {key body : Bytes} {given : Keywords}

/-- The bytes are the UTF-8 text of an object of request fields for this receiver. -/
structure Addressed (py : Python) (receiver : Str) (body : Bytes) (given : Keywords) : Prop where
  text : ∃ jsonBody, encodeUtf8 jsonBody = body ∧ py.loads jsonBody = some (.dict given)
  keys : ∀ field ∈ given, field.1 ∈ requestFields.map codes
  receiver : given.lookup (codes "receiver".toList) = some (.str (codes receiver))

def dateOf (given : Keywords) : Json := optional given "date".toList (.str [])

/-- A string of eight digits `0` to `9`. -/
def AsciiDate (date : Json) : Prop :=
  ∃ value, date = .str value ∧ value.length = 8 ∧ ∀ c ∈ value, 48 ≤ c ∧ c ≤ 57

/-- `poll` returns the request of the bytes when they are one, and `None` otherwise. -/
structure Guarded (py : Python) (receiver : Str) (key body : Bytes) : Prop where
  accepts : ∀ given, Addressed py receiver body given → AsciiDate (dateOf given) →
    poll py receiver (some (key, body)) =
      .ok (some (requestOf py.nextId given (.str (codes receiver))))
  drops : (∀ given, Addressed py receiver body given → ¬ AsciiDate (dateOf given)) →
    poll py receiver (some (key, body)) = .ok none

/-- Not a string, or eight decimal digits of which one is not ASCII. -/
def Misdated (py : Python) (date : Json) : Prop :=
  (∀ value, date ≠ .str value) ∨
    ∃ value, date = .str value ∧ value.length = 8 ∧ (∀ c ∈ value, py.decimal c = true) ∧
      ∃ c ∈ value, 128 ≤ c

theorem poll_addressed (h : Addressed py receiver body given) (key : Bytes) :
    poll py receiver (some (key, body)) = (fullmatch py (dateOf given)).map (fun matched =>
      if matched then some (requestOf py.nextId given (.str (codes receiver))) else none) := by
  obtain ⟨jsonBody, htext, hloads⟩ := h.text
  have hdecode : decode py body = .ok (requestOf py.nextId given (.str (codes receiver))) := by
    rw [decode, decodeUtf8_eq_some.mpr htext]
    exact fromJson_ok.mpr ⟨given, _, hloads, h.keys, h.receiver, rfl⟩
  have hreceiver : (requestOf py.nextId given (.str (codes receiver))).receiver.eqStr
      (codes receiver) = true := Json.eqStr_iff.mpr rfl
  unfold poll
  dsimp only
  rw [hdecode]
  dsimp only
  rw [if_pos hreceiver]
  change _ = (fullmatch py (requestOf py.nextId given (.str (codes receiver))).date).map _
  cases fullmatch py (requestOf py.nextId given (.str (codes receiver))).date <;> rfl

theorem poll_unaddressed (h : ∀ given, ¬ Addressed py receiver body given) (key : Bytes) :
    poll py receiver (some (key, body)) = .ok none := by
  unfold poll
  dsimp only
  cases hdecode : decode py body with
  | error e => rfl
  | ok request =>
    dsimp only
    apply if_neg
    intro hreceiver
    unfold decode at hdecode
    cases htext : decodeUtf8 body with
    | none =>
      rw [htext] at hdecode
      cases hdecode
    | some jsonBody =>
      rw [htext] at hdecode
      obtain ⟨given, value, hloads, hkeys, hlookup, rfl⟩ := fromJson_ok.mp hdecode
      have hvalue : value = .str (codes receiver) := Json.eqStr_iff.mp hreceiver
      rw [hvalue] at hlookup
      exact h given ⟨⟨jsonBody, decodeUtf8_eq_some.mp htext, hloads⟩, hkeys, hlookup⟩

theorem Addressed.unique {given' : Keywords} (h : Addressed py receiver body given)
    (h' : Addressed py receiver body given') : given' = given := by
  obtain ⟨jsonBody, htext, hloads⟩ := h.text
  obtain ⟨jsonBody', htext', hloads'⟩ := h'.text
  have hsame := (decodeUtf8_eq_some.mpr htext).symm.trans (decodeUtf8_eq_some.mpr htext')
  cases hsame
  rw [hloads] at hloads'
  cases hloads'
  rfl

theorem fullmatch_str {value : Text} : fullmatch py (.str value) = .ok true ↔
    value.length = 8 ∧ ∀ c ∈ value, py.decimal c = true := by
  simp [fullmatch]

theorem fullmatch_ascii {date : Json} (h : AsciiDate date) : fullmatch py date = .ok true := by
  obtain ⟨value, rfl, hlength, hdigits⟩ := h
  refine fullmatch_str.mpr ⟨hlength, fun c hc => ?_⟩
  obtain ⟨hlow, hhigh⟩ := hdigits c hc
  rw [py.decimal_ascii c (by omega)]
  exact decide_eq_true ⟨hlow, hhigh⟩

theorem fullmatch_ordinary {date : Json} (h : ¬ Misdated py date) (hascii : ¬ AsciiDate date) :
    fullmatch py date = .ok false := by
  cases date with
  | str value =>
    cases hmatch : decide (value.length = 8) && value.all py.decimal with
    | false => exact congrArg Except.ok hmatch
    | true =>
      obtain ⟨hlength, hdecimal⟩ := fullmatch_str.mp (congrArg Except.ok hmatch)
      exfalso
      by_cases hwide : ∃ c ∈ value, 128 ≤ c
      · exact h (Or.inr ⟨value, rfl, hlength, hdecimal, hwide⟩)
      · apply hascii
        refine ⟨value, rfl, hlength, fun c hc => ?_⟩
        have hsmall : c < 128 := by
          by_contra hlarge
          exact hwide ⟨c, hc, by omega⟩
        have hdigit := hdecimal c hc
        rw [py.decimal_ascii c hsmall] at hdigit
        exact of_decide_eq_true hdigit
  | _ => exact absurd (Or.inl (fun value he => by cases he)) h

/-- `poll` guards the queue on exactly the entries that are not misdated requests. -/
theorem poll_guarded_iff (py : Python) (receiver : Str) (key body : Bytes) :
    Guarded py receiver key body ↔
      ∀ given, Addressed py receiver body given → ¬ Misdated py (dateOf given) := by
  constructor
  · intro hguard given haddressed hmisdated
    have hnot : ¬ AsciiDate (dateOf given) := by
      rintro ⟨value, hdate, -, hdigits⟩
      rcases hmisdated with hother | ⟨value', hdate', -, -, c, hc, hwide⟩
      · exact hother value hdate
      · rw [hdate] at hdate'
        cases hdate'
        have hdigit := hdigits c hc
        omega
    have hnone := hguard.drops (fun given' h' => by rwa [haddressed.unique h'])
    rw [poll_addressed haddressed] at hnone
    rcases hmisdated with hother | ⟨value, hdate, hlength, hdecimal, -⟩
    · cases hdate : dateOf given with
      | str value => exact hother value hdate
      | _ =>
        rw [hdate] at hnone
        cases hnone
    · rw [hdate, fullmatch_str.mpr ⟨hlength, hdecimal⟩] at hnone
      cases hnone
  · intro hordinary
    constructor
    · intro given haddressed hascii
      rw [poll_addressed haddressed, fullmatch_ascii hascii]
      rfl
    · intro hnone
      by_cases haddressed : ∃ given, Addressed py receiver body given
      · obtain ⟨given, haddressed⟩ := haddressed
        rw [poll_addressed haddressed,
          fullmatch_ordinary (hordinary given haddressed) (hnone given haddressed)]
        rfl
      · exact poll_unaddressed (fun given h => haddressed ⟨given, h⟩) key

/-! ## Two entries that are misdated -/

/-- The zeros of the decimal digits: each is followed by its digits `1` to `9`. -/
def decimalZeros : List ℕ :=
  [0x30, 0x660, 0x6F0, 0x7C0, 0x966, 0x9E6, 0xA66, 0xAE6, 0xB66, 0xBE6, 0xC66, 0xCE6, 0xD66, 0xDE6,
    0xE50, 0xED0, 0xF20, 0x1040, 0x1090, 0x17E0, 0x1810, 0x1946, 0x19D0, 0x1A80, 0x1A90, 0x1B50,
    0x1BB0, 0x1C40, 0x1C50, 0xA620, 0xA8D0, 0xA900, 0xA9D0, 0xA9F0, 0xAA50, 0xABF0, 0xFF10, 0x104A0,
    0x10D30, 0x10D40, 0x11066, 0x110F0, 0x11136, 0x111D0, 0x112F0, 0x11450, 0x114D0, 0x11650,
    0x116C0, 0x116D0, 0x116DA, 0x11730, 0x118E0, 0x11950, 0x11BF0, 0x11C50, 0x11D50, 0x11DA0,
    0x11F50, 0x16130, 0x16A60, 0x16AC0, 0x16B50, 0x16D70, 0x1CCF0, 0x1D7CE, 0x1D7D8, 0x1D7E2,
    0x1D7EC, 0x1D7F6, 0x1E140, 0x1E2F0, 0x1E4F0, 0x1E5F1, 0x1E950, 0x1FBF0]

def unicodeDecimal (c : ℕ) : Bool := decimalZeros.any (fun first => first ≤ c && c < first + 10)

def numberText : Str := "\x7b\"receiver\":\"normalizer\",\"date\":20240101\x7d".toList
def arabicText : Str := "\x7b\"receiver\":\"normalizer\",\"date\":\"٢٠٢٤٠١٠١\"\x7d".toList

def numberGiven : Keywords :=
  [(codes "receiver".toList, .str (codes "normalizer".toList)),
    (codes "date".toList, .int 20240101)]

def arabicGiven : Keywords :=
  [(codes "receiver".toList, .str (codes "normalizer".toList)),
    (codes "date".toList, .str (codes "٢٠٢٤٠١٠١".toList))]

def loadsTwo (text : Str) : Option Json :=
  if text = numberText then some (.dict numberGiven)
  else if text = arabicText then some (.dict arabicGiven)
  else none

def twoTexts : Python where
  loads := loadsTwo
  nextId := "req-20240102-000000-00000000".toList
  decimal := unicodeDecimal
  decimal_ascii := by decide +kernel

/-- A date that is a number raises out of `poll`, and eight Arabic digits pass. -/
theorem misdated_requests : ∃ (py : Python) (receiver : Str) (key number arabic : Bytes),
    poll py receiver (some (key, number)) = .error .expectedString ∧
    ¬ Guarded py receiver key number ∧
    (∃ request, poll py receiver (some (key, arabic)) = .ok (some request)) ∧
    ¬ Guarded py receiver key arabic := by
  have hnumber : Addressed twoTexts "normalizer".toList (encodeUtf8 numberText) numberGiven :=
    { text := ⟨numberText, rfl, (if_pos rfl : loadsTwo numberText = _)⟩
      keys := by decide +kernel
      receiver := rfl }
  have harabic : Addressed twoTexts "normalizer".toList (encodeUtf8 arabicText) arabicGiven :=
    { text := ⟨arabicText, rfl, ((if_neg (by decide)).trans (if_pos rfl) : loadsTwo arabicText = _)⟩
      keys := by decide +kernel
      receiver := rfl }
  have hraises := poll_addressed hnumber []
  have hpasses := poll_addressed harabic []
  have hmatch : fullmatch twoTexts (dateOf arabicGiven) = .ok true :=
    fullmatch_str.mpr (by decide +kernel)
  rw [hmatch] at hpasses
  refine ⟨twoTexts, "normalizer".toList, [], encodeUtf8 numberText, encodeUtf8 arabicText, hraises,
    fun h => ?_, ⟨_, hpasses⟩, fun h => ?_⟩
  · have hnone := h.drops (fun given hgiven => by
      rw [hnumber.unique hgiven]
      rintro ⟨value, hdate, -⟩
      cases hdate)
    rw [hraises] at hnone
    cases hnone
  · have hnone := h.drops (fun given hgiven => by
      rw [harabic.unique hgiven]
      rintro ⟨value, hdate, -, hdigits⟩
      cases hdate
      revert hdigits
      decide +kernel)
    rw [hpasses] at hnone
    cases hnone

end SensorDataNormalization.RequestListener
