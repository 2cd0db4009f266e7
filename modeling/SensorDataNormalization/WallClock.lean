import Mathlib.Data.Set.Function
import SensorDataNormalization.PythonText

set_option autoImplicit false

/-! Wall-clock labels. `datetime.fromtimestamp` depends on the zone of the host, so
it is a parameter: a function from epoch seconds to the fields of a `datetime`. -/
namespace SensorDataNormalization.WallClock
open PythonText

/-- A `datetime` of four-digit year, as `fromtimestamp` returns it. -/
structure DateTime where
  year : ℕ
  month : ℕ
  day : ℕ
  hour : ℕ
  minute : ℕ
  second : ℕ
  year_range : 1000 ≤ year ∧ year ≤ 9999
  month_range : 1 ≤ month ∧ month ≤ 12
  day_range : 1 ≤ day ∧ day ≤ 31
  hour_range : hour ≤ 23
  minute_range : minute ≤ 59
  second_range : second ≤ 59

abbrev HostClock := ℕ → DateTime

/-- A host in UTC. The two remainders change nothing before the year 10000. -/
def utcClock : HostClock := fun s =>
  let z := s / 86400 + 719468
  let dayOfEra := z % 146097
  let yearOfEra := (dayOfEra - dayOfEra / 1460 + dayOfEra / 36524 - dayOfEra / 146096) / 365
  let dayOfYear := dayOfEra - (365 * yearOfEra + yearOfEra / 4 - yearOfEra / 100)
  let shifted := (5 * dayOfYear + 2) / 153
  let month := if shifted < 10 then shifted + 3 else shifted - 9
  let year := z / 146097 * 400 + yearOfEra + if month ≤ 2 then 1 else 0
  { year := 1000 + (year - 1000) % 9000
    month := 1 + (month - 1) % 12
    day := 1 + (dayOfYear - (153 * shifted + 2) / 5) % 31
    hour := s / 3600 % 24
    minute := s / 60 % 60
    second := s % 60
    year_range := by omega
    month_range := by omega
    day_range := by omega
    hour_range := by omega
    minute_range := by omega
    second_range := by omega }

def digitChar (n : ℕ) : Char := Char.ofNat (48 + n % 10)
def twoDigits (n : ℕ) : Str := [digitChar (n / 10), digitChar n]
def fourDigits (n : ℕ) : Str := twoDigits (n / 100) ++ twoDigits n

theorem digitChar_isDigit (n : ℕ) : IsDigit (digitChar n) := by
  have h : ∀ k, k < 10 → IsDigit (Char.ofNat (48 + k)) := by decide
  exact h (n % 10) (Nat.mod_lt _ (by omega))

theorem twoDigits_isDigit (n : ℕ) : ∀ c ∈ twoDigits n, IsDigit c := by
  intro c hc
  simp only [twoDigits, List.mem_cons, List.not_mem_nil, or_false] at hc
  rcases hc with rfl | rfl <;> exact digitChar_isDigit _

theorem fourDigits_isDigit (n : ℕ) : ∀ c ∈ fourDigits n, IsDigit c := by
  intro c hc
  rcases List.mem_append.mp hc with h | h <;> exact twoDigits_isDigit _ c h

/-- The four strings that `split_once` formats from a packet second. -/
structure Label where
  date : Str
  hours : Str
  minutes : Str
  second : Str
  date_length : date.length = 8
  hours_length : hours.length = 2
  minutes_length : minutes.length = 2
  second_length : second.length = 2
  digits : ∀ c ∈ date ++ hours ++ minutes ++ second, IsDigit c

/-- `timestamp_label`. -/
def Label.text (l : Label) : Str := l.date ++ l.hours ++ l.minutes ++ l.second

def strftime (t : DateTime) : Label where
  date := fourDigits t.year ++ twoDigits t.month ++ twoDigits t.day
  hours := twoDigits t.hour
  minutes := twoDigits t.minute
  second := twoDigits t.second
  date_length := rfl
  hours_length := rfl
  minutes_length := rfl
  second_length := rfl
  digits := by
    intro c hc
    simp only [List.mem_append] at hc
    rcases hc with ((((hc | hc) | hc) | hc) | hc) | hc
    · exact fourDigits_isDigit _ c hc
    all_goals exact twoDigits_isDigit _ c hc

def label (clock : HostClock) (second : ℕ) : Label := strftime (clock second)

theorem digitChar_injective {a b : ℕ} (h : digitChar a = digitChar b) : a % 10 = b % 10 := by
  have hall : ∀ i, i < 10 → ∀ j, j < 10 → Char.ofNat (48 + i) = Char.ofNat (48 + j) → i = j := by
    decide
  exact hall _ (Nat.mod_lt _ (by omega)) _ (Nat.mod_lt _ (by omega)) h

theorem twoDigits_injective {a b : ℕ} (ha : a < 100) (hb : b < 100)
    (h : twoDigits a = twoDigits b) : a = b := by
  obtain ⟨htens, hones⟩ := List.cons.inj h
  have htens := digitChar_injective htens
  have hones := digitChar_injective (List.cons.inj hones).1
  omega

theorem fourDigits_injective {a b : ℕ} (ha : a < 10000) (hb : b < 10000)
    (h : fourDigits a = fourDigits b) : a = b := by
  obtain ⟨hhigh, hlow⟩ := List.append_inj h rfl
  have hhigh := twoDigits_injective (by omega) (by omega) hhigh
  have hmod : ∀ n, twoDigits n = twoDigits (n % 100) := fun n => by
    simp only [twoDigits, digitChar]
    rw [show n % 100 / 10 % 10 = n / 10 % 10 by omega, show n % 100 % 10 = n % 10 by omega]
  rw [hmod a, hmod b] at hlow
  have hlow := twoDigits_injective (by omega) (by omega) hlow
  omega

/-- A label tells the wall-clock date and time. -/
theorem strftime_injective : Function.Injective strftime := by
  intro t u h
  have hdate := congrArg Label.date h
  obtain ⟨hyear, hday⟩ := List.append_inj' hdate rfl
  obtain ⟨hyear, hmonth⟩ := List.append_inj' hyear rfl
  have hyear := fourDigits_injective (by have := t.year_range; omega)
    (by have := u.year_range; omega) hyear
  have hmonth := twoDigits_injective (by have := t.month_range; omega)
    (by have := u.month_range; omega) hmonth
  have hday := twoDigits_injective (by have := t.day_range; omega)
    (by have := u.day_range; omega) hday
  have hhour := twoDigits_injective (by have := t.hour_range; omega)
    (by have := u.hour_range; omega) (congrArg Label.hours h)
  have hminute := twoDigits_injective (by have := t.minute_range; omega)
    (by have := u.minute_range; omega) (congrArg Label.minutes h)
  have hsecond := twoDigits_injective (by have := t.second_range; omega)
    (by have := u.second_range; omega) (congrArg Label.second h)
  cases t
  cases u
  simp_all only

theorem label_eq_iff (clock : HostClock) (a b : ℕ) :
    label clock a = label clock b ↔ clock a = clock b :=
  strftime_injective.eq_iff

example : (label utcClock 1709210096).text = "20240229123456".toList := by decide

theorem Label.text_length (l : Label) : l.text.length = 14 := by
  simp only [Label.text, List.length_append, l.date_length, l.hours_length,
    l.minutes_length, l.second_length]

theorem Label.text_injective {l l' : Label} (h : l.text = l'.text) : l = l' := by
  obtain ⟨d, hr, m, s, hd, hh, hm, hs, hdig⟩ := l
  obtain ⟨d', hr', m', s', hd', hh', hm', hs', hdig'⟩ := l'
  simp only [Label.text] at h
  obtain ⟨hdhm, rfl⟩ := List.append_inj' h (hs.trans hs'.symm)
  obtain ⟨hdh, rfl⟩ := List.append_inj' hdhm (hm.trans hm'.symm)
  obtain ⟨rfl, rfl⟩ := List.append_inj' hdh (hh.trans hh'.symm)
  rfl

theorem label_injOn {clock : HostClock} {seconds : List ℕ}
    (h : ∀ a ∈ seconds, ∀ b ∈ seconds, (label clock a).text = (label clock b).text → a = b) :
    Set.InjOn (label clock) {s | s ∈ seconds} :=
  fun a ha b hb hab => h a ha b hb (congrArg Label.text hab)

theorem Label.part_digits (l : Label) {part : Str}
    (h : part = l.date ∨ part = l.hours ∨ part = l.minutes ∨ part = l.second) :
    ∀ c ∈ part, IsDigit c := by
  intro c hc
  apply l.digits c
  simp only [List.mem_append]
  rcases h with rfl | rfl | rfl | rfl <;> simp [hc]

/-- Non-empty digit strings are ordinary path segments. -/
theorem digits_ordinary {s : Str} (h : ∀ c ∈ s, IsDigit c) (hne : s ≠ []) : Ordinary s where
  nonempty := hne
  no_slash := fun hm => absurd (h _ hm) (by decide)
  not_dot := by
    rintro rfl
    exact absurd (h '.' (by simp)) (by decide)
  not_dots := by
    rintro rfl
    exact absurd (h '.' (by simp)) (by decide)

theorem digits_no_brace {s : Str} (h : ∀ c ∈ s, IsDigit c) :
    ∀ c ∈ s, c ≠ '{' ∧ c ≠ '}' := by
  intro c hc
  constructor
  · rintro rfl
    exact absurd (h _ hc) (by decide)
  · rintro rfl
    exact absurd (h _ hc) (by decide)

end SensorDataNormalization.WallClock
