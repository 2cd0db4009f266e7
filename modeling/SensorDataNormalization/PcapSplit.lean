import SensorDataNormalization.KeyedGrouping
import SensorDataNormalization.PcapFilename
import SensorDataNormalization.PcapRecords
import SensorDataNormalization.StoreProgram

set_option autoImplicit false
namespace SensorDataNormalization.PcapSplit
open SeparatedLists PythonText WallClock PcapFilename PcapRecords KeyedGrouping StoreProgram

/-! ## Local files

A local file is a cell of the store under its normalised path. -/

section Files
variable {E G : Type}

def writeFile (path : Str) (contents : Bytes) : Op Str Bytes E G := .put (abspath path) contents

/-- `if os.path.isfile(path): os.remove(path)`. -/
def removeFile (path : Str) : Op Str Bytes E G := .erase (abspath path)

/-- Read the file header of `first` and write it as the whole of `out`. -/
def copyHeader (first out : Str) : Op Str Bytes E G :=
  .derive (abspath first) (abspath out) (fun contents _ => contents.take pcapFileHeaderSize)

/-- Append what follows the file header of `source`, chunk by chunk. -/
def appendBody (out source : Str) : Op Str Bytes E G :=
  .derive (abspath source) (abspath out)
    (fun contents old => old.getD [] ++ copyChunks (contents.drop pcapFileHeaderSize))

def mergePcapFiles (pcapFiles : List Str) (outFilePath : Str) : List (Op Str Bytes E G) :=
  match pcapFiles with
  | [] => []
  | first :: _ => copyHeader first outFilePath :: pcapFiles.map (appendBody outFilePath)

end Files

/-! ## `split_once` -/

inductive Position
  | HEAD
  | MID
  | TAIL
  deriving DecidableEq

structure SplitedPcap where
  savePath : Str
  moduleName : Str
  date : Str
  hours : Str
  minutes : Str
  second : Str
  position : Position
  deriving DecidableEq

structure SplitOutcome where
  processed : List SplitedPcap
  unprocessed : List SplitedPcap

/-- A piece and the bytes that `_write_pcap` gives its file. -/
structure PieceFile where
  piece : SplitedPcap
  contents : Bytes
  deriving DecidableEq

def classifyPosition (second headSecond tailSecond : ℕ) : Position :=
  if second = headSecond then .HEAD
  else if second = tailSecond then .TAIL
  else .MID

def sortedSeconds (file : Bytes) : List ℕ :=
  sortedKeys (groupsOf Record.second (readPcapRecords file).2)

/-- One turn of the loop over `sorted_seconds`. -/
def splitSecond (clock : HostClock) (moduleName outTemplate : Str) (file : Bytes)
    (headSecond tailSecond second : ℕ) : Option PieceFile :=
  let dt := label clock second
  (format outTemplate dt.text).map (fun savePath =>
    { piece :=
        { savePath := savePath
          moduleName := moduleName
          date := dt.date
          hours := dt.hours
          minutes := dt.minutes
          second := dt.second
          position := classifyPosition second headSecond tailSecond }
      contents := writePcap (readPcapRecords file).1
        (groupAt (groupsOf Record.second (readPcapRecords file).2) second) })

def splitPieces (clock : HostClock) (moduleName outTemplate : Str) (file : Bytes) :
    Option (List PieceFile) :=
  match (sortedSeconds file).head?, (sortedSeconds file).getLast? with
  | some headSecond, some tailSecond =>
    (sortedSeconds file).mapM
      (splitSecond clock moduleName outTemplate file headSecond tailSecond)
  | _, _ => some []

def outcomeOf (pieces : List PieceFile) : SplitOutcome where
  processed := (pieces.map PieceFile.piece).filter (fun p => decide (p.position = .MID))
  unprocessed := (pieces.map PieceFile.piece).filter (fun p => decide (p.position ≠ .MID))

def writePieces {E G : Type} (pieces : List PieceFile) : List (Op Str Bytes E G) :=
  pieces.map (fun p => writeFile p.piece.savePath p.contents)

/-- `split_once`: the writes it performs, and its result. -/
def splitOnce {E G : Type} (clock : HostClock) (disk : Store Str Bytes)
    (srcFile outTemplate : Str) : Option (List (Op Str Bytes E G) × SplitOutcome) :=
  (parse (basename srcFile)).bind (fun parts =>
    (disk (abspath srcFile)).bind (fun file =>
      (splitPieces clock parts.moduleName outTemplate file).map (fun pieces =>
        (writePieces pieces, outcomeOf pieces))))

/-- What `split_once` has read when it returns, and the pieces that it returns. -/
theorem splitOnce_some {E G : Type} {clock : HostClock} {disk : Store Str Bytes}
    {srcFile outTemplate : Str} {writes : List (Op Str Bytes E G)} {outcome : SplitOutcome}
    (h : splitOnce clock disk srcFile outTemplate = some (writes, outcome)) :
    ∃ parts file pieces, parse (basename srcFile) = some parts ∧
      disk (abspath srcFile) = some file ∧
      splitPieces clock parts.moduleName outTemplate file = some pieces ∧
      writes = writePieces pieces ∧ outcome = outcomeOf pieces := by
  obtain ⟨parts, hparse, h⟩ := Option.bind_eq_some_iff.mp h
  obtain ⟨file, hfile, h⟩ := Option.bind_eq_some_iff.mp h
  obtain ⟨pieces, hpieces, h⟩ := Option.map_eq_some_iff.mp h
  cases h
  exact ⟨parts, file, pieces, hparse, hfile, hpieces, rfl, rfl⟩

/-! ## Templates and the pieces they give -/

/-- A template with one field, in a folder without format fields. -/
structure SplitTemplate where
  folder : List Str
  before : Str
  after : Str
  ordinary : ∀ s ∈ folder, Ordinary s
  folder_no_brace : ∀ s ∈ folder, ∀ c ∈ s, c ≠ '{' ∧ c ≠ '}'
  before_plain : ∀ c ∈ before, c ≠ '/' ∧ c ≠ '{' ∧ c ≠ '}'
  after_plain : ∀ c ∈ after, c ≠ '/' ∧ c ≠ '{' ∧ c ≠ '}'

namespace SplitTemplate

def text (t : SplitTemplate) : Str :=
  pathOf t.folder ++ '/' :: (t.before ++ '{' :: '}' :: t.after)

def nameAt (t : SplitTemplate) (l : Label) : Str := t.before ++ l.text ++ t.after
def pathAt (t : SplitTemplate) (l : Label) : Str := pathOf (t.folder ++ [t.nameAt l])

theorem pathOf_no_brace {segments : List Str}
    (h : ∀ s ∈ segments, ∀ c ∈ s, c ≠ '{' ∧ c ≠ '}') :
    ∀ c ∈ pathOf segments, c ≠ '{' ∧ c ≠ '}' := by
  intro c hc
  obtain ⟨s, hs, hm⟩ := List.mem_flatMap.mp hc
  rcases List.mem_cons.mp hm with rfl | hcs
  · decide
  · exact h s hs c hcs

theorem format_text (t : SplitTemplate) (l : Label) :
    format t.text l.text = some (t.pathAt l) := by
  have hcut : t.text = (pathOf t.folder ++ '/' :: t.before) ++ '{' :: '}' :: t.after := by
    simp [text]
  have hbefore : ∀ c ∈ pathOf t.folder ++ '/' :: t.before, c ≠ '{' ∧ c ≠ '}' := by
    intro c hc
    rcases List.mem_append.mp hc with h | h
    · exact pathOf_no_brace t.folder_no_brace c h
    · rcases List.mem_cons.mp h with rfl | h
      · decide
      · exact (t.before_plain c h).2
  rw [hcut, format_field hbefore (fun c hc => (t.after_plain c hc).2), pathAt, pathOf_append]
  simp [nameAt, pathOf, joined]

theorem nameAt_no_slash (t : SplitTemplate) (l : Label) : '/' ∉ t.nameAt l := by
  simp only [nameAt, List.mem_append, not_or]
  refine ⟨⟨fun h => (t.before_plain _ h).1 rfl, fun h => ?_⟩, fun h => (t.after_plain _ h).1 rfl⟩
  exact absurd (l.digits _ h) (by decide)

theorem nameAt_length (t : SplitTemplate) (l : Label) : 14 ≤ (t.nameAt l).length := by
  have h := l.text_length
  simp only [nameAt, List.length_append]
  omega

theorem nameAt_ordinary (t : SplitTemplate) (l : Label) : Ordinary (t.nameAt l) :=
  ordinary_of_length ((by decide : 3 ≤ 14).trans (t.nameAt_length l)) (t.nameAt_no_slash l)

theorem abspath_pathAt (t : SplitTemplate) (l : Label) : abspath (t.pathAt l) = t.pathAt l := by
  refine abspath_pathOf (fun s hs => ?_) (by simp)
  rcases List.mem_append.mp hs with h | h
  · exact t.ordinary s h
  · rw [List.mem_singleton.mp h]
    exact t.nameAt_ordinary l

theorem pathAt_injective (t : SplitTemplate) {l l' : Label} (h : t.pathAt l = t.pathAt l') :
    l = l' := by
  have hsegments : t.folder ++ [t.nameAt l] = t.folder ++ [t.nameAt l'] := by
    refine joined_injective (fun s hs => ?_) (fun s hs => ?_) h
    all_goals rcases List.mem_append.mp hs with hs | hs
    · exact (t.ordinary s hs).no_slash
    · rw [List.mem_singleton.mp hs]
      exact t.nameAt_no_slash l
    · exact (t.ordinary s hs).no_slash
    · rw [List.mem_singleton.mp hs]
      exact t.nameAt_no_slash l'
  have hname : t.nameAt l = t.nameAt l' := by simpa using hsegments
  simp only [nameAt, List.append_assoc, List.append_cancel_left_eq] at hname
  exact Label.text_injective (List.append_cancel_right hname)

end SplitTemplate

def pieceAt (clock : HostClock) (moduleName : Str) (t : SplitTemplate) (file : Bytes)
    (headSecond tailSecond second : ℕ) : PieceFile where
  piece :=
    { savePath := t.pathAt (label clock second)
      moduleName := moduleName
      date := (label clock second).date
      hours := (label clock second).hours
      minutes := (label clock second).minutes
      second := (label clock second).second
      position := classifyPosition second headSecond tailSecond }
  contents := writePcap (readPcapRecords file).1
    ((readPcapRecords file).2.filter (fun r => decide (r.second = second)))

theorem splitSecond_template (clock : HostClock) (moduleName : Str) (t : SplitTemplate)
    (file : Bytes) (headSecond tailSecond second : ℕ) :
    splitSecond clock moduleName t.text file headSecond tailSecond second =
      some (pieceAt clock moduleName t file headSecond tailSecond second) := by
  unfold splitSecond
  dsimp only
  rw [t.format_text, groupAt_groupsOf]
  rfl

/-- The pieces of a file, one for each distinct packet second, in ascending order. -/
def filePieces (clock : HostClock) (moduleName : Str) (t : SplitTemplate) (file : Bytes) :
    List PieceFile :=
  (sortedSeconds file).map (pieceAt clock moduleName t file
    ((sortedSeconds file).head?.getD 0) ((sortedSeconds file).getLast?.getD 0))

theorem mapM_some {α β : Type} (f : α → β) (xs : List α) :
    xs.mapM (fun a => some (f a)) = some (xs.map f) := by
  induction xs with
  | nil => rfl
  | cons a xs ih => rw [List.mapM_cons, ih]; rfl

theorem splitPieces_template (clock : HostClock) (moduleName : Str) (t : SplitTemplate)
    (file : Bytes) :
    splitPieces clock moduleName t.text file = some (filePieces clock moduleName t file) := by
  unfold splitPieces filePieces
  cases hs : sortedSeconds file with
  | nil => rfl
  | cons s rest =>
    have hlast : (s :: rest).getLast? = some ((s :: rest).getLast (by simp)) :=
      List.getLast?_eq_getLast_of_ne_nil (by simp)
    rw [hlast]
    dsimp only [List.head?_cons, Option.getD_some]
    rw [funext (splitSecond_template clock moduleName t file s ((s :: rest).getLast (by simp)))]
    exact mapM_some _ _

end SensorDataNormalization.PcapSplit
