import SensorDataNormalization.PieceKeys

set_option autoImplicit false

/-! The file that `split_once` reads against the files that it writes. -/
namespace SensorDataNormalization.SplitSource
open SeparatedLists PythonText SensorRegistry ProjectConfig WallClock PcapFilename PcapRecords
  PcapSplit PcapMerge StoreProgram WorkerPaths Messages WorkerProgram PieceNames PieceKeys

/-! ## Names

A file name may have dots, underscores and slashes anywhere, also `..`. What the parser reads from
it is the text between its last two dots. -/

theorem splitName_eq (moduleName : Str) (l : Label) : splitName moduleName l =
    (moduleName ++ "_split".toList ++ '_' :: l.text) ++ '.' :: "pcap".toList := by
  simp [splitName]

/-- The marker stays in the module that the parser reads from the name of a split file. -/
theorem marked_not_registered (before : Str) (l : Label) :
    ¬ Registered (eraseAll ('_' :: tailOf (before ++ "_split".toList ++ '_' :: l.text))
      (before ++ "_split".toList ++ '_' :: l.text)) := by
  have hunderscore : '_' ∉ l.text := digits_no_underscore l.digits
  have htail : tailOf (before ++ "_split".toList ++ '_' :: l.text) = l.text := by
    rw [tailOf, fromEnd_splitOn_zero hunderscore]
    rfl
  have hlast : eraseAll ('_' :: l.text) (before ++ "_split".toList ++ '_' :: l.text) =
      eraseAll ('_' :: l.text) (before ++ "_split".toList) := by
    have h := eraseAll_append_pattern_append hunderscore (before ++ "_split".toList) []
    rw [List.append_nil] at h
    exact h.trans (List.append_nil _)
  have hplain : ∀ c ∈ "split".toList, c ≠ '_' ∧ ¬ IsDigit c := forall_chars (by decide)
  have hdisjoint : ∀ c ∈ "split".toList, c ∉ '_' :: l.text := by
    intro c hc hmem
    rcases List.mem_cons.mp hmem with rfl | hmem
    · exact (hplain _ hc).1 rfl
    · exact (hplain c hc).2 (l.digits c hmem)
  have hcut : before ++ "_split".toList = (before ++ ['_']) ++ "split".toList := by simp
  rw [htail, hlast, hcut, eraseAll_append_of_disjoint hdisjoint]
  exact fun h => registered_not_ends_split h _ rfl

theorem slash_not_registered (start tail rest : Str) (hunderscore : '_' ∉ start)
    (hslash : '/' ∈ start) : ¬ Registered (eraseAll ('_' :: tail) (start ++ rest)) := by
  rw [eraseAll_append_of_not_mem hunderscore]
  exact fun h => registered_no_slash h (List.mem_append_left _ hslash)

section Source
variable {baseName extension : Str} (hbase : '.' ∉ baseName) (hext : '.' ∉ extension)
  (hm : Registered (eraseAll ('_' :: tailOf baseName) baseName))
include hbase

section Dots
include hext

theorem dots_not_within : ¬ ['.', '.'] <:+: baseName ++ '.' :: extension := by
  rintro ⟨before, after, h⟩
  have hcut : before ++ '.' :: '.' :: after = baseName ++ '.' :: extension := by
    rw [← h]
    simp
  obtain ⟨-, rfl⟩ := append_sep_only_eq hbase hext hcut
  exact hext List.mem_cons_self

end Dots

include hm

theorem baseName_head : ∃ c text, baseName = c :: text ∧ c ≠ '/' ∧ c ≠ '.' := by
  cases baseName with
  | nil => exact absurd rfl (registered_nonempty hm)
  | cons c text =>
    refine ⟨c, text, rfl, ?_, ?_⟩
    · rintro rfl
      exact slash_not_registered ['/'] _ text (by decide) (by decide) hm
    · rintro rfl
      exact hbase List.mem_cons_self

include hext

theorem splitName_not_within (moduleName : Str) (l : Label) :
    ¬ splitName moduleName l <:+: baseName ++ '.' :: extension := by
  rintro ⟨before, after, h⟩
  have hcut : (before ++ moduleName ++ "_split".toList ++ '_' :: l.text) ++
      '.' :: ("pcap".toList ++ after) = baseName ++ '.' :: extension := by
    rw [← h, splitName_eq]
    simp
  obtain ⟨rfl, -⟩ := append_sep_only_eq hbase hext hcut
  exact marked_not_registered (before ++ moduleName) l hm

theorem not_extension_first (rest : List Str) :
    baseName ++ '.' :: extension ≠ "pcap".toList ++ joined '/' rest := by
  intro h
  have hdot : '.' ∈ "pcap".toList ++ joined '/' rest := by
    rw [← h]
    simp
  cases rest with
  | nil => exact absurd hdot (by decide)
  | cons segment rest =>
    have hstart : "pcap".toList ++ joined '/' (segment :: rest) =
        "pcap/".toList ++ (segment ++ joined '/' rest) := by
      rw [joined_cons]
      simp
    rw [hstart] at h hdot
    have hlater := (List.mem_append.mp hdot).resolve_left (by decide)
    obtain ⟨before, after, hcut⟩ := List.append_of_mem hlater
    rw [hcut, ← List.append_assoc] at h
    obtain ⟨rfl, -⟩ := append_sep_only_eq hbase hext h.symm
    exact slash_not_registered "pcap/".toList _ before (by decide) (by decide) hm

end Source

theorem exists_last_segment (path before : Str) : ∃ folder last,
    path ++ '/' :: before = folder ++ '/' :: last ∧ '/' ∉ last ∧ last <:+ before := by
  obtain ⟨first, rest, rfl, hfree⟩ := exists_joined '/' before
  rcases List.eq_nil_or_concat rest with rfl | ⟨segments, last, rfl⟩
  · refine ⟨path, first, by simp [joined], hfree first List.mem_cons_self, ?_⟩
    exact ⟨[], by simp [joined]⟩
  · rw [List.concat_eq_append] at hfree ⊢
    refine ⟨path ++ '/' :: (first ++ joined '/' segments), last, ?_, hfree last (by simp), ?_⟩
    · simp [joined]
    · exact ⟨first ++ joined '/' segments ++ ['/'], by simp [joined]⟩

section Segments
variable {baseName extension first : Str} {rest : List Str} (hbase : '.' ∉ baseName)
  (hext : '.' ∉ extension) (hm : Registered (eraseAll ('_' :: tailOf baseName) baseName))
  (htext : baseName ++ '.' :: extension = first ++ joined '/' rest)
include htext

theorem rest_within {s : Str} (hs : s ∈ rest) : s <:+: baseName ++ '.' :: extension := by
  rw [htext]
  exact (infix_joined hs).trans (List.suffix_append first _).isInfix

include hbase hm

/-- The segment in which the base name starts is ordinary, with what precedes it. -/
theorem first_ordinary {last : Str} (hlast : '/' ∉ last) (hfirst : '/' ∉ first) :
    Ordinary (last ++ first) := by
  obtain ⟨c, text, rfl, hslash, hdot⟩ := baseName_head hbase hm
  have hc : c ∈ last ++ first := by
    refine List.mem_append_right _ ?_
    cases first with
    | nil =>
      cases rest with
      | nil => cases htext
      | cons segment rest => exact absurd (List.cons.inj htext).1 hslash
    | cons d first =>
      rw [(List.cons.inj htext).1]
      exact List.mem_cons_self
  refine ⟨List.ne_nil_of_mem hc, ?_, ?_, ?_⟩
  · rw [List.mem_append, not_or]
    exact ⟨hlast, hfirst⟩
  · intro h
    rw [h] at hc
    exact hdot (List.mem_singleton.mp hc)
  · intro h
    rw [h] at hc
    simp [hdot] at hc

include hext

/-- What precedes the base name in its segment is empty, or it ends in a dot. -/
theorem first_ne_splitName {last : Str} (hlast : last = [] ∨ ∃ text, last = text ++ ['.'])
    {moduleName : Str} (hmodule : '.' ∉ moduleName) (l : Label) :
    splitName moduleName l ≠ last ++ first := by
  rcases hlast with rfl | ⟨text, rfl⟩
  · intro h
    refine splitName_not_within hbase hext hm moduleName l ?_
    rw [h, htext]
    exact (List.prefix_append first _).isInfix
  · intro h
    have hplain : '.' ∉ moduleName ++ "_split".toList ++ '_' :: l.text := by
      simp only [List.mem_append, List.mem_cons, not_or]
      exact ⟨⟨hmodule, by decide⟩, by decide, digits_no_dot l.digits⟩
    have hcut : text ++ '.' :: first =
        (moduleName ++ "_split".toList ++ '_' :: l.text) ++ '.' :: "pcap".toList := by
      rw [← splitName_eq, h]
      simp
    obtain ⟨-, rfl⟩ := append_sep_only_eq hplain (by decide) hcut
    exact not_extension_first hbase hext hm rest htext

end Segments

/-- No label gives a piece the name of the file that is split, wherever the file name leads. -/
theorem basename_source_ne {fileName : Str} {parts : PcapFilenameParts}
    (hparse : parse fileName = some parts) (hm : Registered parts.moduleName) (path : Str)
    (l : Label) :
    basename (abspath (path ++ '/' :: fileName)) ≠ splitName parts.moduleName l := by
  have hdot := registered_no_dot hm
  obtain ⟨before, baseName, extension, rfl, hbase, hext, hbefore, hmodule⟩ := parse_some hparse
  rw [hmodule] at hm
  obtain ⟨folder, last, hpath, hlast, hsuffix⟩ := exists_last_segment path before
  obtain ⟨first, rest, htext, hfree⟩ := exists_joined '/' (baseName ++ '.' :: extension)
  obtain ⟨hfirst, hrest⟩ := List.forall_mem_cons.mp hfree
  have hends : last = [] ∨ ∃ text, last = text ++ ['.'] := by
    rcases hbefore with rfl | ⟨before, rfl⟩
    · exact Or.inl (List.suffix_nil.mp hsuffix)
    · exact (List.suffix_concat_iff.mp hsuffix).imp id (fun ⟨text, h, _⟩ => ⟨text, h⟩)
  have hjoined : path ++ '/' :: (before ++ (baseName ++ '.' :: extension)) =
      folder ++ pathOf ((last ++ first) :: rest) := by
    have hleft : path ++ '/' :: (before ++ (baseName ++ '.' :: extension)) =
        (path ++ '/' :: before) ++ (baseName ++ '.' :: extension) := by simp
    rw [hleft, hpath, htext, pathOf, joined_cons]
    simp
  have hmem := basename_abspath_mem folder (first_ordinary hbase hm htext hlast hfirst) hrest
    (fun s hs h => dots_not_within hbase hext (h ▸ rest_within htext hs))
  rw [hjoined]
  intro hsplit
  rw [hsplit] at hmem
  rcases List.mem_cons.mp hmem with hhead | hmem
  · exact first_ne_splitName hbase hext hm htext hends hdot l hhead
  · exact splitName_not_within hbase hext hm parts.moduleName l (rest_within htext hmem)

/-- The path of a piece is not the path of the file that is split. -/
theorem path_ne_source {c : Config} {vehicleId fileName template path : Str} {l : Label}
    (htemplate : buildSplitOutTemplate c vehicleId fileName = some template)
    (hformat : format template l.text = some path) (downloadDstPath : Str) :
    abspath path ≠ abspath (downloadDstPath ++ '/' :: fileName) := by
  obtain ⟨parts, hparse, -⟩ := Option.bind_eq_some_iff.mp htemplate
  have hm := (buildSplitOutTemplate_some hparse htemplate).1
  obtain ⟨folder, rfl⟩ := format_template hparse htemplate hformat
  have hsplit : Ordinary (splitName parts.moduleName l) := by
    refine ordinary_of_length ?_ (splitName_no_slash hm l)
    have ht := l.text_length
    simp only [splitName, List.length_append]
    omega
  intro h
  have hbase := congrArg basename h
  rw [basename_abspath folder hsplit] at hbase
  exact basename_source_ne hparse hm downloadDstPath l hbase.symm

/-! ## Runs -/

theorem mem_splitPieces {clock : HostClock} {moduleName outTemplate : Str} {file : Bytes}
    {pieces : List PieceFile} (h : splitPieces clock moduleName outTemplate file = some pieces)
    {p : PieceFile} (hp : p ∈ pieces) :
    ∃ l : Label, format outTemplate l.text = some p.piece.savePath := by
  unfold splitPieces at h
  split at h
  · obtain ⟨second, -, hsecond⟩ := (mem_of_mapM h p).mp hp
    obtain ⟨savePath, hformat, rfl⟩ := Option.map_eq_some_iff.mp hsecond
    exact ⟨label clock second, hformat⟩
  · cases h
    cases hp

theorem mem_outcomeOf {pieces : List PieceFile} {piece : SplitedPcap}
    (h : piece ∈ (outcomeOf pieces).processed ++ (outcomeOf pieces).unprocessed) :
    ∃ p ∈ pieces, p.piece = piece := by
  rcases List.mem_append.mp h with h | h
  · exact List.mem_map.mp (List.mem_of_mem_filter h)
  · exact List.mem_map.mp (List.mem_of_mem_filter h)

theorem run_writePieces_isSome (pieces : List PieceFile) {disk after : Store Str Bytes}
    (h : run (writePieces pieces : Program) disk = some after) {path : Str}
    (hpath : (disk path).isSome ∨ path ∈ pieces.map (fun p => abspath p.piece.savePath)) :
    (after path).isSome := by
  induction pieces generalizing disk with
  | nil =>
    cases h
    exact hpath.resolve_right List.not_mem_nil
  | cons p pieces ih =>
    refine @ih (Function.update disk (abspath p.piece.savePath) (some p.contents)) h ?_
    by_cases hself : path = abspath p.piece.savePath
    · rw [hself, Function.update_self]
      exact Or.inl rfl
    · rw [Function.update_of_ne hself]
      rcases hpath with hpath | hpath
      · exact Or.inl hpath
      · exact Or.inr ((List.mem_cons.mp hpath).resolve_left hself)

theorem touches_writePieces (pieces : List PieceFile) :
    touches (writePieces pieces : Program) = pieces.map (fun p => abspath p.piece.savePath) := by
  induction pieces with
  | nil => rfl
  | cons p pieces ih => exact congrArg (abspath p.piece.savePath :: ·) ih

/-- No label gives a piece the path of the file that is split; so the writes of `split_once` leave
that file, and its removal leaves the file of every piece. -/
theorem split_keeps_source {c : Config} {vehicleId fileName downloadDstPath template : Str}
    (htemplate : buildSplitOutTemplate c vehicleId fileName = some template) :
    (∀ (l : Label) path, format template l.text = some path →
      path ≠ downloadDstPath ++ '/' :: fileName ∧
        abspath path ≠ abspath (downloadDstPath ++ '/' :: fileName)) ∧
    ∀ clock disk (writes : Program) outcome,
      splitOnce clock disk (downloadDstPath ++ '/' :: fileName) template = some (writes, outcome) →
      abspath (downloadDstPath ++ '/' :: fileName) ∉ touches writes ∧
      ∃ after final, run writes disk = some after ∧
        after (abspath (downloadDstPath ++ '/' :: fileName)) =
          disk (abspath (downloadDstPath ++ '/' :: fileName)) ∧
        run (writes ++ [removeFile (downloadDstPath ++ '/' :: fileName)]) disk = some final ∧
        final (abspath (downloadDstPath ++ '/' :: fileName)) = none ∧
        ∀ piece ∈ outcome.processed ++ outcome.unprocessed,
          (after (abspath piece.savePath)).isSome ∧
            final (abspath piece.savePath) = after (abspath piece.savePath) := by
  constructor
  · intro l path hformat
    have hne := path_ne_source htemplate hformat downloadDstPath
    exact ⟨fun h => hne (congrArg abspath h), hne⟩
  · intro clock disk writes outcome hsplit
    obtain ⟨parts, file, pieces, -, -, hpieces, rfl, rfl⟩ := splitOnce_some hsplit
    have hother : ∀ p ∈ pieces,
        abspath p.piece.savePath ≠ abspath (downloadDstPath ++ '/' :: fileName) := by
      intro p hp
      obtain ⟨l, hformat⟩ := mem_splitPieces hpieces hp
      exact path_ne_source htemplate hformat downloadDstPath
    have hsource : abspath (downloadDstPath ++ '/' :: fileName) ∉
        pieces.map (fun p => abspath p.piece.savePath) := by
      intro hmem
      obtain ⟨p, hp, hpath⟩ := List.mem_map.mp hmem
      exact hother p hp hpath
    obtain ⟨after, hrun, hkept⟩ :=
      run_writePieces_other (E := Destination) (G := PairPut) pieces disk
    have hfinal : run ((writePieces pieces : Program) ++
        [removeFile (downloadDstPath ++ '/' :: fileName)]) disk =
          some (Function.update after (abspath (downloadDstPath ++ '/' :: fileName)) none) := by
      rw [run_append, hrun]
      rfl
    rw [touches_writePieces]
    refine ⟨hsource, after, _, hrun, hkept _ hsource, hfinal, Function.update_self _ _ _, ?_⟩
    intro piece hpiece
    obtain ⟨p, hp, rfl⟩ := mem_outcomeOf hpiece
    exact ⟨run_writePieces_isSome pieces hrun (Or.inr (List.mem_map.mpr ⟨p, hp, rfl⟩)),
      Function.update_of_ne (hother p hp) _ _⟩

/-! ## A capture of three seconds -/

def gnssName : Str := "GNSS_202401301045.pcap".toList

def gnssFolder : Str := (buildDownloadDstPath applicationConf "V".toList gnssName).getD []

def gnssSplitTemplate : Str := (buildSplitOutTemplate applicationConf "V".toList gnssName).getD []

def gnssDisk : Store Str Bytes := fun path =>
  if path = abspath (gnssFolder ++ '/' :: gnssName) then some (captureOf [(7, 1), (9, 2), (8, 3)])
  else none

theorem split_keeps_source_three_seconds :
    ∃ (writes : Program) (outcome : SplitOutcome) (final : _),
    splitOnce utcClock gnssDisk (gnssFolder ++ '/' :: gnssName) gnssSplitTemplate =
      some (writes, outcome) ∧
    (outcome.processed ++ outcome.unprocessed).length = 3 ∧
    run (writes ++ [removeFile (gnssFolder ++ '/' :: gnssName)]) gnssDisk = some final ∧
    ∀ piece ∈ outcome.processed ++ outcome.unprocessed,
      (final (abspath piece.savePath)).isSome := by
  have htemplate : buildSplitOutTemplate applicationConf "V".toList gnssName =
      some gnssSplitTemplate := by decide +kernel
  have hany : (splitOnce utcClock gnssDisk (gnssFolder ++ '/' :: gnssName) gnssSplitTemplate :
      Option (Program × SplitOutcome)).any
        (fun r => decide ((r.2.processed ++ r.2.unprocessed).length = 3)) = true := by
    decide +kernel
  obtain ⟨⟨writes, outcome⟩, hsplit, hlength⟩ := (Option.any_eq_true _ _).mp hany
  obtain ⟨-, hruns⟩ := @split_keeps_source _ _ _ gnssFolder _ htemplate
  obtain ⟨-, after, final, -, -, hfinal, -, hpieces⟩ :=
    hruns utcClock gnssDisk writes outcome hsplit
  refine ⟨writes, outcome, final, hsplit, of_decide_eq_true hlength, hfinal, ?_⟩
  intro piece hpiece
  obtain ⟨hsome, hkept⟩ := hpieces piece hpiece
  rw [hkept]
  exact hsome

end SensorDataNormalization.SplitSource
