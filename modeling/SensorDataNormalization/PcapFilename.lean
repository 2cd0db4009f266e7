import SensorDataNormalization.SensorRegistry
import SensorDataNormalization.WallClock

set_option autoImplicit false
namespace SensorDataNormalization.PcapFilename
open SeparatedLists PythonText SensorRegistry WallClock

structure PcapFilenameParts where
  moduleName : Str
  date : Str
  hours : Str
  minutes : Str
  second : Str
  deriving DecidableEq

def slice (i j : ℕ) (s : Str) : Str := (s.take j).drop i

/-- `PcapFilenameParser.parse`; `none` is the `IndexError` of a name without a dot. -/
def parse (pcapFileName : Str) : Option PcapFilenameParts :=
  match fromEnd (pcapFileName.splitOn '.') 1 with
  | none => none
  | some baseName =>
    let tail := (fromEnd (baseName.splitOn '_') 0).getD []
    some
      { moduleName := eraseAll ('_' :: tail) baseName
        date := tail.take 8
        hours := slice 8 10 tail
        minutes := slice 10 12 tail
        second := if 14 ≤ tail.length then slice 12 14 tail else [] }

/-- The part of a base name that the parser reads the time from. -/
def tailOf (baseName : Str) : Str := (fromEnd (baseName.splitOn '_') 0).getD []

/-- A parsed name ends in a base name and an extension, and the base name follows a dot, if
anything. -/
theorem parse_some {fileName : Str} {parts : PcapFilenameParts} (h : parse fileName = some parts) :
    ∃ before baseName extension, fileName = before ++ (baseName ++ '.' :: extension) ∧
      '.' ∉ baseName ∧ '.' ∉ extension ∧ (before = [] ∨ ∃ text, before = text ++ ['.']) ∧
      parts.moduleName = eraseAll ('_' :: tailOf baseName) baseName := by
  obtain ⟨first, rest, hname, hfree⟩ := exists_joined '.' fileName
  obtain ⟨hfirst, hrest⟩ := List.forall_mem_cons.mp hfree
  have hsplit : fileName.splitOn '.' = first :: rest := by
    rw [hname, splitOn_append_joined hrest, List.splitOn_eq_singleton hfirst]
    rfl
  unfold parse at h
  rw [hsplit] at h
  rcases List.eq_nil_or_concat rest with rfl | ⟨init, extension, rfl⟩
  · cases h
  · rw [List.concat_eq_append] at hname hrest h
    have hext : '.' ∉ extension := hrest extension (by simp)
    rcases List.eq_nil_or_concat init with rfl | ⟨texts, baseName, rfl⟩
    · cases h
      refine ⟨[], first, extension, ?_, hfirst, hext, Or.inl rfl, rfl⟩
      rw [hname]
      simp [joined]
    · rw [List.concat_eq_append] at hname hrest h
      have hbase : fromEnd (first :: (texts ++ [baseName] ++ [extension])) 1 = some baseName := by
        simp [fromEnd]
      rw [hbase] at h
      cases h
      refine ⟨(first ++ joined '.' texts) ++ ['.'], baseName, extension, ?_,
        hrest baseName (by simp), hext, Or.inr ⟨_, rfl⟩, rfl⟩
      rw [hname, joined_append, joined_append]
      simp [joined]

def stampedName (moduleName stamp : Str) : Str := moduleName ++ '_' :: stamp ++ ".pcap".toList

theorem digits_no_underscore {s : Str} (h : ∀ c ∈ s, IsDigit c) : '_' ∉ s :=
  fun hm => absurd (h _ hm) (by decide)

theorem digits_no_dot {s : Str} (h : ∀ c ∈ s, IsDigit c) : '.' ∉ s :=
  fun hm => absurd (h _ hm) (by decide)

/-- The module is the base name less every occurrence of `_{stamp}`, not only the last. -/
theorem parse_stampedName_eq {moduleName stamp : Str} (hdot : '.' ∉ moduleName)
    (hs : ∀ c ∈ stamp, IsDigit c) : parse (stampedName moduleName stamp) = some
      { moduleName := eraseAll ('_' :: stamp) (moduleName ++ '_' :: stamp)
        date := stamp.take 8
        hours := slice 8 10 stamp
        minutes := slice 10 12 stamp
        second := if 14 ≤ stamp.length then slice 12 14 stamp else [] } := by
  have hbase : '.' ∉ moduleName ++ '_' :: stamp := by
    simp only [List.mem_append, List.mem_cons, not_or]
    exact ⟨hdot, by decide, digits_no_dot hs⟩
  have hcut : fromEnd ((stampedName moduleName stamp).splitOn '.') 1 =
      some (moduleName ++ '_' :: stamp) :=
    fromEnd_splitOn_one_of_two hbase (by decide)
  have htail : fromEnd ((moduleName ++ '_' :: stamp).splitOn '_') 0 = some stamp :=
    fromEnd_splitOn_zero (digits_no_underscore hs)
  simp only [parse, hcut, htail, Option.getD_some]

theorem parse_stampedName {moduleName stamp : Str} (hdot : '.' ∉ moduleName)
    (hs : ∀ c ∈ stamp, IsDigit c) (hno : ¬ ('_' :: stamp) <:+: moduleName) :
    parse (stampedName moduleName stamp) = some
      { moduleName := moduleName
        date := stamp.take 8
        hours := slice 8 10 stamp
        minutes := slice 10 12 stamp
        second := if 14 ≤ stamp.length then slice 12 14 stamp else [] } := by
  have herase : eraseAll ('_' :: stamp) (moduleName ++ '_' :: stamp) = moduleName :=
    eraseAll_append_pattern (digits_no_underscore hs) hno
  rw [parse_stampedName_eq hdot hs, herase]

/-- A stamp `YYYYMMDDHHMM[SS]`. -/
structure Stamp (s : Str) : Prop where
  digits : ∀ c ∈ s, IsDigit c
  length : s.length = 12 ∨ s.length = 14

instance (s : Str) : Decidable (Stamp s) :=
  decidable_of_iff (s.all (fun c => decide (IsDigit c)) = true ∧ (s.length = 12 ∨ s.length = 14))
    ⟨fun h => ⟨forall_chars h.1, h.2⟩,
      fun h => ⟨List.all_eq_true.mpr (fun c hc => decide_eq_true (h.1 c hc)), h.2⟩⟩

theorem Stamp.long {s : Str} (h : Stamp s) : 4 ≤ s.length := by
  rcases h.length with hl | hl <;> omega

theorem Stamp.second {s : Str} (h : Stamp s) :
    (if 14 ≤ s.length then slice 12 14 s else []) = slice 12 14 s := by
  rcases h.length with hl | hl
  · rw [if_neg (by omega), slice, List.drop_of_length_le (by rw [List.length_take]; omega)]
  · rw [if_pos (by omega)]

/-- The parser finds the parts of every stamp, and the module exactly when it does not hold the
stamp as well. -/
theorem parse_stamped_iff {moduleName stamp : Str} (hdot : '.' ∉ moduleName) (hs : Stamp stamp) :
    ∃ parts, parse (stampedName moduleName stamp) = some parts ∧
      parts.date = stamp.take 8 ∧ parts.hours = slice 8 10 stamp ∧
      parts.minutes = slice 10 12 stamp ∧ parts.second = slice 12 14 stamp ∧
      (stamp.length = 12 → parts.second = []) ∧
      (parts.moduleName = moduleName ↔ ¬ ('_' :: stamp) <:+: moduleName) := by
  refine ⟨_, parse_stampedName_eq hdot hs.digits, rfl, rfl, rfl, hs.second, ?_, ?_⟩
  · intro h12
    exact if_neg (by omega)
  · exact eraseAll_append_pattern_iff (digits_no_underscore hs.digits)

theorem parse_stamped_twice : ∃ parts,
    parse (stampedName "A_202401301045_B".toList "202401301045".toList) = some parts ∧
      parts.minutes = "45".toList ∧ parts.moduleName ≠ "A_202401301045_B".toList := by
  have hinfix : ('_' :: "202401301045".toList) <:+: "A_202401301045_B".toList :=
    ⟨"A".toList, "_B".toList, by decide⟩
  have hmodule : '.' ∉ "A_202401301045_B".toList := by decide
  have hstamp : Stamp "202401301045".toList := by decide
  obtain ⟨parts, hparse, -, -, hminutes, -, -, hname⟩ := parse_stamped_iff hmodule hstamp
  exact ⟨parts, hparse, hminutes.trans (by decide), fun h => hname.mp h hinfix⟩

theorem slice_digits {s : Str} (h : ∀ c ∈ s, IsDigit c) (i j : ℕ) :
    ∀ c ∈ slice i j s, IsDigit c :=
  fun c hc => h c (List.mem_of_mem_take (List.mem_of_mem_drop hc))

theorem Stamp.slice_length {s : Str} (h : Stamp s) {i j : ℕ} (hj : j ≤ 12) :
    (slice i j s).length = j - i := by
  have hs : 12 ≤ s.length := by rcases h.length with hl | hl <;> omega
  simp only [slice, List.length_drop, List.length_take]
  omega

theorem stampedName_no_slash {moduleName stamp : Str} (hm : '/' ∉ moduleName)
    (hs : ∀ c ∈ stamp, IsDigit c) : '/' ∉ stampedName moduleName stamp := by
  have hd : '/' ∉ stamp := fun hmem => absurd (hs _ hmem) (by decide)
  simp only [stampedName, List.mem_append, List.mem_cons, not_or]
  exact ⟨⟨hm, by decide, hd⟩, by decide⟩

theorem parse_registered {moduleName stamp : Str} (hm : Registered moduleName)
    (hs : Stamp stamp) : parse (stampedName moduleName stamp) = some
      { moduleName := moduleName
        date := stamp.take 8
        hours := slice 8 10 stamp
        minutes := slice 10 12 stamp
        second := if 14 ≤ stamp.length then slice 12 14 stamp else [] } :=
  parse_stampedName (registered_no_dot hm) hs.digits (registered_no_stamp hm hs.digits hs.long)

/-- The marker of the split stays in the module name. -/
theorem parse_marked {moduleName stamp : Str} (hm : Registered moduleName)
    (hs : Stamp stamp) : parse (stampedName (moduleName ++ "_split".toList) stamp) = some
      { moduleName := moduleName ++ "_split".toList
        date := stamp.take 8
        hours := slice 8 10 stamp
        minutes := slice 10 12 stamp
        second := if 14 ≤ stamp.length then slice 12 14 stamp else [] } := by
  have hdot : '.' ∉ moduleName ++ "_split".toList := by
    rw [List.mem_append, not_or]
    exact ⟨registered_no_dot hm, by decide⟩
  exact parse_stampedName hdot hs.digits
    (registered_no_stamp_append hm hs.digits hs.long (by decide))

theorem label_stamp (l : Label) : Stamp l.text := ⟨l.digits, Or.inr l.text_length⟩

/-- The parts of a label are read back from its text. -/
theorem label_slices (l : Label) : l.text.take 8 = l.date ∧ slice 8 10 l.text = l.hours ∧
    slice 10 12 l.text = l.minutes ∧ slice 12 14 l.text = l.second := by
  have hd := l.date_length
  have hh := l.hours_length
  have hm := l.minutes_length
  have hs := l.second_length
  refine ⟨?_, ?_, ?_, ?_⟩ <;>
    simp [slice, Label.text, List.take_append, List.drop_append, hd, hh, hm, hs,
      List.take_of_length_le, List.drop_of_length_le]

example : parse "AT128_ROOF_FRONT_202401301045.pcap".toList = some
    { moduleName := "AT128_ROOF_FRONT".toList, date := "20240130".toList,
      hours := "10".toList, minutes := "45".toList, second := [] } := by decide

end SensorDataNormalization.PcapFilename
