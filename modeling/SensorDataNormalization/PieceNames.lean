import SensorDataNormalization.PcapMerge
import SensorDataNormalization.WorkerProgram

set_option autoImplicit false

/-! The names that a piece gets: the file of the split, the pair key, and the key of its
object, for raw files in any vehicle folder. -/
namespace SensorDataNormalization.PieceNames
open SeparatedLists PythonText SensorRegistry ProjectConfig WallClock PcapFilename PcapRecords
  PcapSplit PcapMerge StoreProgram WorkerPaths Messages WorkerProgram

/-! ## Names -/

def prefixPath (c : Config) (vehicleId : Str) (piece : SplitedPcap) : Option Str :=
  (unprocessedPcap c vehicleId piece).map UnprocessedPcap.prefixPath

/-- The key under which the packets of a piece are stored, merged or not. -/
def uploadKey (c : Config) (vehicleId : Str) (piece : SplitedPcap) : Option Str :=
  if piece.position = .MID then midKey c vehicleId piece else prefixPath c vehicleId piece

/-- The pair key that is sent for a piece; none is sent for a MID piece. -/
def sentPairKey (vehicleId : Str) (piece : SplitedPcap) : Option Str :=
  if piece.position = .MID then none else some (buildPairKey vehicleId piece)

def objectName (moduleName : Str) (mid : Bool) (l : Label) : Str :=
  if mid then splitName moduleName l else endName moduleName l

theorem objectName_no_slash {moduleName : Str} (hm : Registered moduleName) (mid : Bool)
    (l : Label) : '/' ∉ objectName moduleName mid l := by
  cases mid
  · exact endName_no_slash hm l
  · exact splitName_no_slash hm l

theorem objectName_injective {m m' : Str} {mid mid' : Bool} {l l' : Label} (hm : Registered m)
    (hm' : Registered m') (h : objectName m mid l = objectName m' mid' l') :
    m = m' ∧ mid = mid' ∧ l = l' := by
  cases mid <;> cases mid'
  · obtain ⟨hname, hlabel⟩ := endName_injective h
    exact ⟨hname, rfl, hlabel⟩
  · exact absurd ((endName_eq_stamped m l).symm.trans h).symm (splitName_ne_stamped hm l.digits)
  · exact absurd (h.trans (endName_eq_stamped m' l')) (splitName_ne_stamped hm' l'.digits)
  · obtain ⟨hname, hlabel⟩ := splitName_injective h
    exact ⟨hname, rfl, hlabel⟩

/-! ## The pieces of a capture -/

structure Capture where
  file : StorageFile
  contents : Bytes
  name_no_slash : '/' ∉ file.fileName

/-- `split_once`, called by a worker on the capture, gives this piece to a packet second. -/
structure CutFrom (env : Environment) (f : Capture) (vehicleId : Str) (second : ℕ)
    (piece : SplitedPcap) : Prop where
  vehicle : vehicleIdOf f.file.filePath = some vehicleId
  second_mem : second ∈ sortedSeconds f.contents
  split : ∃ parts template, parse f.file.fileName = some parts ∧
    buildSplitOutTemplate env.config vehicleId f.file.fileName = some template ∧
    (splitSecond env.clock parts.moduleName template f.contents
      ((sortedSeconds f.contents).head?.getD 0) ((sortedSeconds f.contents).getLast?.getD 0)
      second).map PieceFile.piece = some piece

/-- The capture has packets before and after the second. -/
def Interior (contents : Bytes) (second : ℕ) : Prop :=
  (∃ r ∈ (readPcapRecords contents).2, r.second < second) ∧
    ∃ r ∈ (readPcapRecords contents).2, second < r.second

theorem mem_of_mapM {α β : Type} {f : α → Option β} {xs : List α} {ys : List β}
    (h : xs.mapM f = some ys) (y : β) : y ∈ ys ↔ ∃ x ∈ xs, f x = some y := by
  induction xs generalizing ys with
  | nil =>
    cases h
    simp
  | cons x xs ih =>
    rw [List.mapM_cons] at h
    obtain ⟨z, hz, h⟩ := Option.bind_eq_some_iff.mp h
    obtain ⟨zs, hzs, h⟩ := Option.bind_eq_some_iff.mp h
    cases h
    simp only [List.mem_cons, exists_eq_or_imp, ← ih hzs, hz, Option.some.injEq]
    exact or_congr_left eq_comm

theorem mem_outcome {E G : Type} {clock : HostClock} {disk : Store Str Bytes}
    {srcFile outTemplate : Str} {writes : List (Op Str Bytes E G)} {outcome : SplitOutcome}
    (h : splitOnce clock disk srcFile outTemplate = some (writes, outcome)) :
    ∃ parts file, parse (basename srcFile) = some parts ∧ disk (abspath srcFile) = some file ∧
      ∀ piece, piece ∈ outcome.processed ++ outcome.unprocessed ↔
        ∃ second ∈ sortedSeconds file,
          (splitSecond clock parts.moduleName outTemplate file
            ((sortedSeconds file).head?.getD 0) ((sortedSeconds file).getLast?.getD 0)
            second).map PieceFile.piece = some piece := by
  obtain ⟨parts, file, pieces, hparse, hfile, hpieces, -, rfl⟩ := splitOnce_some h
  refine ⟨parts, file, hparse, hfile, fun piece => ?_⟩
  have hmem : piece ∈ (outcomeOf pieces).processed ++ (outcomeOf pieces).unprocessed ↔
      ∃ p ∈ pieces, p.piece = piece := by
    simp only [outcomeOf, List.mem_append, List.mem_filter, List.mem_map, decide_eq_true_eq]
    by_cases hmid : piece.position = .MID <;> simp [hmid]
  rw [hmem]
  unfold splitPieces at hpieces
  cases hs : sortedSeconds file with
  | nil =>
    rw [hs] at hpieces
    cases hpieces
    simp
  | cons s rest =>
    rw [hs] at hpieces
    have hlast : (s :: rest).getLast? = some ((s :: rest).getLast (by simp)) :=
      List.getLast?_eq_getLast_of_ne_nil (by simp)
    rw [hlast] at hpieces ⊢
    simp only [mem_of_mapM hpieces, List.head?_cons, Option.getD_some, Option.map_eq_some_iff]
    constructor
    · rintro ⟨p, ⟨second, hsecond, hp⟩, rfl⟩
      exact ⟨second, hsecond, p, hp, rfl⟩
    · rintro ⟨second, hsecond, p, hp, rfl⟩
      exact ⟨p, ⟨second, hsecond, hp⟩, rfl⟩

theorem buildSplitOutTemplate_some {c : Config} {vehicleId fileName template : Str}
    {parts : PcapFilenameParts} (hparse : parse fileName = some parts)
    (h : buildSplitOutTemplate c vehicleId fileName = some template) :
    Registered parts.moduleName ∧ ∃ folder, template =
      folder ++ '/' :: ((parts.moduleName ++ "_split_".toList) ++ '{' :: '}' :: ".pcap".toList) := by
  rw [buildSplitOutTemplate, hparse] at h
  obtain ⟨_, hparts, h⟩ := Option.bind_eq_some_iff.mp h
  cases hparts
  obtain ⟨moduleType, htype, h⟩ := Option.bind_eq_some_iff.mp h
  refine ⟨Option.isSome_iff_exists.mpr ⟨moduleType, htype⟩, slashes [getCacheStorageFullPath
    c.toSettings, vehicleId, lowerAscii moduleType, parts.moduleName, parts.date, parts.hours,
    parts.minutes], ?_⟩
  have hname : (parts.moduleName ++ "_split_".toList) ++ '{' :: '}' :: ".pcap".toList =
      parts.moduleName ++ "_split_{}.pcap".toList := by simp
  rw [hname]
  exact (Option.some.inj h).symm.trans (slashes_concat _ _ [_, _, _, _, _, _])

theorem splitMarker_no_brace {moduleName : Str} (hm : Registered moduleName) :
    ∀ c ∈ moduleName ++ "_split_".toList, c ≠ '{' ∧ c ≠ '}' := by
  have hplain : ∀ c ∈ "_split_".toList, c ≠ '{' ∧ c ≠ '}' := forall_chars (by decide)
  intro c hc
  rcases List.mem_append.mp hc with hc | hc
  · exact registered_no_brace hm c hc
  · exact hplain c hc

theorem extension_no_brace : ∀ c ∈ ".pcap".toList, c ≠ '{' ∧ c ≠ '}' := forall_chars (by decide)

/-- Between the smallest and the largest second, and only there, a piece is MID. -/
theorem classifyPosition_mid {contents : Bytes} {second : ℕ}
    (h : second ∈ sortedSeconds contents) :
    classifyPosition second ((sortedSeconds contents).head?.getD 0)
        ((sortedSeconds contents).getLast?.getD 0) = .MID ↔ Interior contents second := by
  have hpair := sortedSeconds_pairwise contents
  have hrecord : ∀ p : ℕ → Prop, (∃ r ∈ (readPcapRecords contents).2, p r.second) ↔
      ∃ s ∈ sortedSeconds contents, p s := fun p => by
    simp only [mem_sortedSeconds]
    exact ⟨fun ⟨r, hr, hp⟩ => ⟨r.second, ⟨r, hr, rfl⟩, hp⟩,
      fun ⟨_, ⟨r, hr, he⟩, hp⟩ => ⟨r, hr, he ▸ hp⟩⟩
  have hlow : (∃ r ∈ (readPcapRecords contents).2, r.second < second) ↔
      second ≠ (sortedSeconds contents).head?.getD 0 := by
    rw [hrecord (· < second)]
    cases hs : sortedSeconds contents with
    | nil =>
      rw [hs] at h
      cases h
    | cons first rest =>
      rw [hs] at h hpair
      have hfirst := (List.pairwise_cons.mp hpair).1
      constructor
      · rintro ⟨s, hmem, hlt⟩ rfl
        rcases List.mem_cons.mp hmem with rfl | hmem
        · exact lt_irrefl _ hlt
        · exact lt_asymm hlt (hfirst s hmem)
      · intro hne
        exact ⟨first, List.mem_cons_self,
          hfirst second ((List.mem_cons.mp h).resolve_left hne)⟩
  have hhigh : (∃ r ∈ (readPcapRecords contents).2, second < r.second) ↔
      second ≠ (sortedSeconds contents).getLast?.getD 0 := by
    rw [hrecord (second < ·)]
    rcases List.eq_nil_or_concat (sortedSeconds contents) with hs | ⟨before, last, hs⟩
    · rw [hs] at h
      cases h
    · rw [List.concat_eq_append] at hs
      rw [hs] at h hpair ⊢
      rw [List.getLast?_concat]
      have hlast : ∀ s ∈ before, s < last :=
        fun s hmem => (List.pairwise_append.mp hpair).2.2 s hmem last (by simp)
      constructor
      · rintro ⟨s, hmem, hlt⟩ rfl
        rcases List.mem_append.mp hmem with hmem | hmem
        · exact lt_asymm hlt (hlast s hmem)
        · rw [List.mem_singleton.mp hmem] at hlt
          exact lt_irrefl _ hlt
      · intro hne
        refine ⟨last, by simp, hlast second ?_⟩
        rcases List.mem_append.mp h with hmem | hmem
        · exact hmem
        · exact absurd (List.mem_singleton.mp hmem) hne
  rw [Interior, hlow, hhigh, classifyPosition]
  split_ifs with hhead htail
  · simp [hhead]
  · simp [htail]
  · simp [hhead, htail]

/-- What the names of a piece are made of. -/
structure CutSpec (env : Environment) (f : Capture) (folder moduleName : Str) (k : ℕ)
    (piece : SplitedPcap) : Prop where
  registered : Registered moduleName
  module_eq : piece.moduleName = moduleName
  date_eq : piece.date = (label env.clock k).date
  hours_eq : piece.hours = (label env.clock k).hours
  minutes_eq : piece.minutes = (label env.clock k).minutes
  second_eq : piece.second = (label env.clock k).second
  savePath_eq : piece.savePath = folder ++ '/' :: splitName moduleName (label env.clock k)
  position_iff : piece.position = .MID ↔ Interior f.contents k

/-- The pieces of one capture are in one folder. -/
theorem cutFrom_spec (env : Environment) (f : Capture) (vehicleId : Str) :
    ∃ folder, ∀ second piece, CutFrom env f vehicleId second piece →
      ∃ parts, parse f.file.fileName = some parts ∧
        CutSpec env f folder parts.moduleName second piece := by
  by_cases hany : ∃ second piece, CutFrom env f vehicleId second piece
  · obtain ⟨second₀, piece₀, h₀⟩ := hany
    obtain ⟨parts, template, hparse, htemplate, hsplit₀⟩ := h₀.split
    obtain ⟨hregistered, path, rfl⟩ := buildSplitOutTemplate_some hparse htemplate
    rcases format_last_field (splitMarker_no_brace hregistered) extension_no_brace path with
      hnone | ⟨folder, hfolder⟩
    · simp only [splitSecond, hnone] at hsplit₀
      cases hsplit₀
    · refine ⟨folder, fun second piece h => ⟨parts, hparse, ?_⟩⟩
      obtain ⟨parts', template', hparse', htemplate', hsplit⟩ := h.split
      rw [hparse] at hparse'
      cases hparse'
      rw [htemplate] at htemplate'
      cases htemplate'
      simp only [splitSecond, hfolder, Option.map_some, Option.some.injEq] at hsplit
      subst hsplit
      exact
        { registered := hregistered
          module_eq := rfl
          date_eq := rfl
          hours_eq := rfl
          minutes_eq := rfl
          second_eq := rfl
          savePath_eq := rfl
          position_iff := classifyPosition_mid h.second_mem }
  · exact ⟨[], fun second piece h => absurd ⟨second, piece, h⟩ hany⟩

/-! ## The names of a piece -/

def uploadFolder (c : Config) (vehicleId moduleName : Str) (l : Label) : Str :=
  slashes [getStorageFullPath c.toSettings, vehicleId,
    lowerAscii ((getModuleType moduleName).getD []), moduleName, l.date, l.hours, l.minutes]

theorem uploadFolder_injective {c : Config} {vehicleId vehicleId' moduleName : Str} {l : Label}
    (h : uploadFolder c vehicleId moduleName l = uploadFolder c vehicleId' moduleName l) :
    vehicleId = vehicleId' := by
  rw [uploadFolder, uploadFolder, slashes_cons, slashes_cons, pathOf, joined_cons, pathOf,
    joined_cons] at h
  exact (List.cons.inj (List.append_cancel_right (List.append_cancel_left h))).2

/-- The fields of a piece and the path of its file, for a module and a label. -/
structure NamedAt (folder moduleName : Str) (l : Label) (piece : SplitedPcap) : Prop where
  registered : Registered moduleName
  module_eq : piece.moduleName = moduleName
  date_eq : piece.date = l.date
  hours_eq : piece.hours = l.hours
  minutes_eq : piece.minutes = l.minutes
  second_eq : piece.second = l.second
  savePath_eq : piece.savePath = folder ++ '/' :: splitName moduleName l

theorem CutSpec.named {env : Environment} {f : Capture} {folder moduleName : Str} {k : ℕ}
    {piece : SplitedPcap} (h : CutSpec env f folder moduleName k piece) :
    NamedAt folder moduleName (label env.clock k) piece where
  registered := h.registered
  module_eq := h.module_eq
  date_eq := h.date_eq
  hours_eq := h.hours_eq
  minutes_eq := h.minutes_eq
  second_eq := h.second_eq
  savePath_eq := h.savePath_eq

namespace NamedAt
variable {folder moduleName : Str} {l : Label} {piece : SplitedPcap}
  (h : NamedAt folder moduleName l piece)
include h

theorem basename_savePath : basename piece.savePath = splitName moduleName l := by
  rw [h.savePath_eq, basename_slash _ (splitName_no_slash h.registered _)]

theorem buildUploadDstPath_eq (c : Config) (vehicleId : Str) :
    buildUploadDstPath c vehicleId piece = some (uploadFolder c vehicleId moduleName l) := by
  obtain ⟨moduleType, htype⟩ := Option.isSome_iff_exists.mp h.registered
  rw [buildUploadDstPath, h.module_eq, h.date_eq, h.hours_eq, h.minutes_eq, uploadFolder, htype]
  rfl

theorem buildUnpairedOutPath_some (c : Config) (vehicleId : Str) :
    ∃ outFilePath, buildUnpairedOutPath c vehicleId piece = some outFilePath ∧
      basename outFilePath = endName moduleName l := by
  obtain ⟨moduleType, htype⟩ := Option.isSome_iff_exists.mp h.registered
  rw [buildUnpairedOutPath, h.module_eq, h.date_eq, h.hours_eq, h.minutes_eq, h.second_eq, htype]
  refine ⟨_, rfl, ?_⟩
  have hname : moduleName ++ '_' :: (l.date ++ l.hours ++ l.minutes ++ l.second ++
      ".pcap".toList) = endName moduleName l := by
    simp [endName, Label.text]
  have hcut : ∀ dirPath name, slashes [dirPath, name] = slashes [dirPath] ++ '/' :: name :=
    fun dirPath name => slashes_concat dirPath name []
  rw [hname, hcut]
  exact basename_abspath _ (endName_ordinary h.registered _)

theorem midKey_eq (c : Config) (vehicleId : Str) : midKey c vehicleId piece =
    some (uploadFolder c vehicleId moduleName l ++ '/' :: splitName moduleName l) := by
  rw [midKey, h.buildUploadDstPath_eq, h.basename_savePath]
  rfl

theorem prefixPath_eq (c : Config) (vehicleId : Str) : prefixPath c vehicleId piece =
    some (uploadFolder c vehicleId moduleName l ++ '/' :: endName moduleName l) := by
  obtain ⟨outFilePath, hout, hbase⟩ := h.buildUnpairedOutPath_some c vehicleId
  rw [prefixPath, unprocessedPcap, hout, h.buildUploadDstPath_eq, Option.bind_some, ← hbase]
  rfl

theorem uploadKey_eq (c : Config) (vehicleId : Str) : uploadKey c vehicleId piece =
    some (uploadFolder c vehicleId moduleName l ++
      '/' :: objectName moduleName (decide (piece.position = .MID)) l) := by
  unfold uploadKey objectName
  by_cases hmid : piece.position = .MID
  · rw [if_pos hmid, h.midKey_eq, if_pos (decide_eq_true hmid)]
  · rw [if_neg hmid, h.prefixPath_eq, decide_eq_false hmid]
    rfl

theorem buildPairKey_eq (vehicleId : Str) : buildPairKey vehicleId piece =
    vehicleId ++ '/' :: (moduleName ++ '_' :: l.text) := by
  rw [buildPairKey, h.module_eq, h.date_eq, h.hours_eq, h.minutes_eq, h.second_eq]
  simp [slashes_cons, pathOf, joined, Label.text]

end NamedAt

/-- The keys of two objects are equal only for one kind, vehicle, module and label. -/
theorem objectKey_iff {c : Config} {v v' m m' : Str} {mid mid' : Bool} {l l' : Label}
    (hm : Registered m) (hm' : Registered m') :
    uploadFolder c v m l ++ '/' :: objectName m mid l =
        uploadFolder c v' m' l' ++ '/' :: objectName m' mid' l' ↔
      mid = mid' ∧ (v = v' ∧ m = m') ∧ l = l' := by
  constructor
  · intro h
    obtain ⟨hfolder, hname⟩ := append_sep_right_eq (objectName_no_slash hm mid l)
      (objectName_no_slash hm' mid' l') h
    obtain ⟨rfl, hmid, rfl⟩ := objectName_injective hm hm' hname
    exact ⟨hmid, ⟨uploadFolder_injective hfolder, rfl⟩, rfl⟩
  · rintro ⟨rfl, ⟨rfl, rfl⟩, rfl⟩
    rfl

theorem pairKey_iff {folder folder' v v' m m' : Str} {l l' : Label} {p q : SplitedPcap}
    (hp : NamedAt folder m l p) (hq : NamedAt folder' m' l' q) :
    buildPairKey v p = buildPairKey v' q ↔ (v = v' ∧ m = m') ∧ l = l' := by
  have hstamp : ∀ {name : Str} (_ : Registered name) (label : Label),
      '/' ∉ name ++ '_' :: label.text := by
    intro name hname label hmem
    rcases List.mem_append.mp hmem with h | h
    · exact registered_no_slash hname h
    · rcases List.mem_cons.mp h with h | h
      · exact absurd h (by decide)
      · exact absurd (label.digits _ h) (by decide)
  rw [hp.buildPairKey_eq, hq.buildPairKey_eq]
  constructor
  · intro h
    obtain ⟨hv, hname⟩ := append_sep_right_eq (hstamp hp.registered l) (hstamp hq.registered l') h
    obtain ⟨hm, htext⟩ := append_sep_right_eq (digits_no_underscore l.digits)
      (digits_no_underscore l'.digits) hname
    exact ⟨⟨hv, hm⟩, Label.text_injective htext⟩
  · rintro ⟨⟨rfl, rfl⟩, rfl⟩
    rfl

end SensorDataNormalization.PieceNames
