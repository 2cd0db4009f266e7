import SensorDataNormalization.PieceNames

set_option autoImplicit false

/-! Pair keys, upload keys and merge outputs of pieces at arbitrary labels. -/
namespace SensorDataNormalization.PieceKeys
open PythonText SensorRegistry ProjectConfig WallClock PcapFilename PcapSplit StoreProgram
  WorkerPaths Messages WorkerProgram PieceNames

/-- A piece that `split_once` makes at a label, for a file of a vehicle. -/
structure PieceAt (c : Config) (vehicleId : Str) (l : Label) (piece : SplitedPcap) : Prop where
  registered : Registered piece.moduleName
  date : piece.date = l.date
  hours : piece.hours = l.hours
  minutes : piece.minutes = l.minutes
  second : piece.second = l.second
  savePath : ∃ fileName parts template, parse fileName = some parts ∧
    parts.moduleName = piece.moduleName ∧
    buildSplitOutTemplate c vehicleId fileName = some template ∧
    format template l.text = some piece.savePath

theorem cutFrom_pieceAt {env : Environment} {f : Capture} {vehicleId : Str} {second : ℕ}
    {piece : SplitedPcap} (h : CutFrom env f vehicleId second piece) :
    PieceAt env.config vehicleId (label env.clock second) piece := by
  obtain ⟨parts, template, hparse, htemplate, hsplit⟩ := h.split
  obtain ⟨file, hfile, hpiece⟩ := Option.map_eq_some_iff.mp hsplit
  obtain ⟨savePath, hformat, hfields⟩ := Option.map_eq_some_iff.mp hfile
  subst hfields
  subst hpiece
  exact
    { registered := (buildSplitOutTemplate_some hparse htemplate).1
      date := rfl
      hours := rfl
      minutes := rfl
      second := rfl
      savePath := ⟨f.file.fileName, parts, template, hparse, rfl, htemplate, hformat⟩ }

/-- A template that formats puts the label in the name of the file. -/
theorem format_template {c : Config} {vehicleId fileName template savePath : Str}
    {parts : PcapFilenameParts} {l : Label} (hparse : parse fileName = some parts)
    (htemplate : buildSplitOutTemplate c vehicleId fileName = some template)
    (hformat : format template l.text = some savePath) :
    ∃ folder, savePath = folder ++ '/' :: splitName parts.moduleName l := by
  obtain ⟨hregistered, path, rfl⟩ := buildSplitOutTemplate_some hparse htemplate
  rcases format_last_field (splitMarker_no_brace hregistered) extension_no_brace path with
    hnone | ⟨folder, hfolder⟩
  · rw [hnone] at hformat
    cases hformat
  · rw [hfolder] at hformat
    exact ⟨folder, (Option.some.inj hformat).symm⟩

theorem PieceAt.named {c : Config} {vehicleId : Str} {l : Label} {piece : SplitedPcap}
    (h : PieceAt c vehicleId l piece) : ∃ folder, NamedAt folder piece.moduleName l piece := by
  obtain ⟨fileName, parts, template, hparse, hmodule, htemplate, hformat⟩ := h.savePath
  obtain ⟨folder, hpath⟩ := format_template hparse htemplate hformat
  rw [hmodule] at hpath
  exact ⟨folder, h.registered, rfl, h.date, h.hours, h.minutes, h.second, hpath⟩

theorem unprocessedPcap_some {folder moduleName : Str} {l : Label} {piece : SplitedPcap}
    (h : NamedAt folder moduleName l piece) (c : Config) (vehicleId : Str) :
    ∃ item, unprocessedPcap c vehicleId piece = some item ∧
      item.prefixPath = uploadFolder c vehicleId moduleName l ++ '/' :: endName moduleName l ∧
      buildUnpairedOutPath c vehicleId piece = some item.outFilePath := by
  have hdst := h.prefixPath_eq c vehicleId
  obtain ⟨outFilePath, hout, -⟩ := h.buildUnpairedOutPath_some c vehicleId
  obtain ⟨item, hitem, hpath⟩ := Option.map_eq_some_iff.mp hdst
  refine ⟨item, hitem, hpath, ?_⟩
  rw [unprocessedPcap, hout, Option.bind_some] at hitem
  obtain ⟨dstDir, -, rfl⟩ := Option.map_eq_some_iff.mp hitem
  exact hout

/-- The vehicle, the module and the label of two pieces are equal exactly when their pair keys
are, when their `prefix_path`s are, and when their MID keys are; then their merge outputs are
equal as well. A MID key is no `prefix_path`. -/
theorem keys_identify {c : Config} {v v' : Str} {l l' : Label} {p q : SplitedPcap}
    (hp : PieceAt c v l p) (hq : PieceAt c v' l' q) :
    ∃ item item' key key', unprocessedPcap c v p = some item ∧
      unprocessedPcap c v' q = some item' ∧ midKey c v p = some key ∧ midKey c v' q = some key' ∧
      (buildPairKey v p = buildPairKey v' q ↔ v = v' ∧ p.moduleName = q.moduleName ∧ l = l') ∧
      (buildPairKey v p = buildPairKey v' q ↔ item.prefixPath = item'.prefixPath) ∧
      (item.prefixPath = item'.prefixPath → item.outFilePath = item'.outFilePath) ∧
      (key = key' ↔ v = v' ∧ p.moduleName = q.moduleName ∧ l = l') ∧
      key ≠ item'.prefixPath ∧ key' ≠ item.prefixPath := by
  obtain ⟨folder, hpn⟩ := hp.named
  obtain ⟨folder', hqn⟩ := hq.named
  obtain ⟨item, hitem, hdst, hout⟩ := unprocessedPcap_some hpn c v
  obtain ⟨item', hitem', hdst', hout'⟩ := unprocessedPcap_some hqn c v'
  have hobject := fun mid mid' => @objectKey_iff c v v' p.moduleName q.moduleName mid mid' l l'
    hp.registered hq.registered
  have hdsts : item.prefixPath = item'.prefixPath ↔
      (v = v' ∧ p.moduleName = q.moduleName) ∧ l = l' := by
    have h := hobject false false
    rw [and_iff_right rfl] at h
    rw [hdst, hdst']
    exact h
  have hkeys := hobject true true
  rw [and_iff_right rfl] at hkeys
  refine ⟨item, item', _, _, hitem, hitem', hpn.midKey_eq c v, hqn.midKey_eq c v', ?_, ?_, ?_, ?_,
    ?_, ?_⟩
  · rw [pairKey_iff hpn hqn, and_assoc]
  · rw [pairKey_iff hpn hqn, hdsts]
  · intro h
    obtain ⟨⟨rfl, hmodule⟩, rfl⟩ := hdsts.mp h
    have hsame : buildUnpairedOutPath c v p = buildUnpairedOutPath c v q := by
      rw [buildUnpairedOutPath, buildUnpairedOutPath, hmodule, hp.date, hq.date, hp.hours,
        hq.hours, hp.minutes, hq.minutes, hp.second, hq.second]
    exact Option.some.inj (hout.symm.trans (hsame.trans hout'))
  · rw [← and_assoc]
    exact hkeys
  · rw [hdst']
    exact fun h => Bool.noConfusion ((hobject true false).mp h).1
  · rw [hdst]
    exact fun h => Bool.noConfusion ((hobject false true).mp h.symm).1

def gnssPiece (l : Label) : SplitedPcap where
  savePath := ((buildSplitOutTemplate applicationConf "V".toList
    "gnss_202401301045.pcap".toList).bind (fun template => format template l.text)).getD []
  moduleName := "gnss".toList
  date := l.date
  hours := l.hours
  minutes := l.minutes
  second := l.second
  position := .HEAD

theorem gnss_registered : Registered "gnss".toList := by decide

theorem gnssPiece_pieceAt (l : Label)
    (h : ((buildSplitOutTemplate applicationConf "V".toList "gnss_202401301045.pcap".toList).bind
      (fun template => format template l.text)).isSome) :
    PieceAt applicationConf "V".toList l (gnssPiece l) where
  registered := gnss_registered
  date := rfl
  hours := rfl
  minutes := rfl
  second := rfl
  savePath := by
    obtain ⟨savePath, hpath⟩ := Option.isSome_iff_exists.mp h
    obtain ⟨template, htemplate, hformat⟩ := Option.bind_eq_some_iff.mp hpath
    have hparse : ∃ parts, parse "gnss_202401301045.pcap".toList = some parts ∧
        parts.moduleName = "gnss".toList := ⟨_, rfl, by decide⟩
    obtain ⟨parts, hparts, hmodule⟩ := hparse
    refine ⟨_, parts, template, hparts, hmodule, htemplate, ?_⟩
    rw [gnssPiece, hpath, hformat]
    rfl

theorem keys_identify_two_seconds :
    buildPairKey "V".toList (gnssPiece (label utcClock 1704067200)) ≠
        buildPairKey "V".toList (gnssPiece (label utcClock 1704067201)) ∧
      midKey applicationConf "V".toList (gnssPiece (label utcClock 1704067200)) ≠
        midKey applicationConf "V".toList (gnssPiece (label utcClock 1704067201)) := by
  have hp := gnssPiece_pieceAt (label utcClock 1704067200) (by decide +kernel)
  have hq := gnssPiece_pieceAt (label utcClock 1704067201) (by decide +kernel)
  have hlabel : label utcClock 1704067200 ≠ label utcClock 1704067201 :=
    fun h => absurd (congrArg Label.second h) (by decide +kernel)
  obtain ⟨item, item', key, key', -, -, hkey, hkey', hpair, -, -, hmid, -⟩ := keys_identify hp hq
  constructor
  · exact fun h => hlabel (hpair.mp h).2.2
  · intro h
    rw [hkey, hkey', Option.some.injEq] at h
    exact hlabel (hmid.mp h).2.2

end SensorDataNormalization.PieceKeys
