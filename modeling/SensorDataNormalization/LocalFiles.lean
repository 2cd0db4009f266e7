import SensorDataNormalization.NormalizerSystem
import SensorDataNormalization.PieceNames
import SensorDataNormalization.StoreTidiness

set_option autoImplicit false

/-! Which program removes which local file. -/
namespace SensorDataNormalization.LocalFiles
open PythonText PcapRecords PcapSplit StoreProgram StoreTidiness WorkerPaths Messages WorkerProgram
  ManagerProgram PieceNames NormalizerSystem

variable {env : Environment}

/-! ## Who removes a file -/

/-- The manager removes the file of a piece that it is sent. -/
def sends : Release Str PairPut := fun put path => abspath put.item.srcPath = path

def sourcePath (env : Environment) (job : Job) : Option Str :=
  (vehicleIdOf job.file.filePath).bind (fun vehicleId =>
    (buildDownloadDstPath env.config vehicleId job.file.fileName).map (fun downloadDstPath =>
      abspath (downloadDstPath ++ '/' :: job.file.fileName)))

/-- What `_download` leaves for the program after it. -/
def Left (env : Environment) (job : Job) (next : Next) (path : Str) : Prop :=
  next = .split ∧ sourcePath env job = some path

theorem tidy_fail {later : Str → Prop} : Tidy sends later ([.fail] : Program) := by
  refine tidy_of_no_writes (fun op hop => ?_)
  rw [List.mem_singleton.mp hop]
  rfl

theorem tidy_download (env : Environment) (job : Job) :
    Tidy sends (Left env job .split) (download env job) := by
  unfold download
  cases hvehicle : vehicleIdOf job.file.filePath with
  | none => exact tidy_fail
  | some vehicleId =>
    dsimp only
    cases hfolder : buildDownloadDstPath env.config vehicleId job.file.fileName with
    | none => exact tidy_fail
    | some folder =>
      cases env.raw job.file.filePath with
      | none => exact tidy_fail
      | some contents =>
        refine ⟨fun path hpath => Or.inr ⟨rfl, ?_⟩, trivial⟩
        rw [List.mem_singleton.mp hpath, sourcePath, hvehicle, Option.bind_some, hfolder]
        rfl

/-! ### The pieces of a job -/

section Pieces
variable {job : Job} {vehicleId : Str} {piece : SplitedPcap}

theorem frees_uploadProcessed (hmid : piece.position = .MID) :
    Frees sends (uploadProcessed env job vehicleId piece) (abspath piece.savePath) := by
  rw [uploadProcessed_mid hmid]
  cases midKey env.config vehicleId piece with
  | none => exact .fails List.mem_cons_self
  | some key => exact .erases (List.mem_cons_of_mem _ List.mem_cons_self)

theorem frees_sendUnprocessed (hend : piece.position ≠ .MID) :
    Frees sends (sendUnprocessedToManager env job vehicleId piece) (abspath piece.savePath) := by
  rw [sendUnprocessed_end hend]
  cases hitem : unprocessedPcap env.config vehicleId piece with
  | none => exact .fails List.mem_cons_self
  | some item =>
    have hpath : item.srcPath = piece.savePath := by
      obtain ⟨outFilePath, -, h⟩ := Option.bind_eq_some_iff.mp hitem
      obtain ⟨dstDir, -, rfl⟩ := Option.map_eq_some_iff.mp h
      rfl
    exact .gives List.mem_cons_self (congrArg abspath hpath)

theorem uploadProcessed_no_writes :
    ∀ op ∈ uploadProcessed env job vehicleId piece, Op.writes op = [] := by
  intro op hop
  by_cases hmid : piece.position = .MID
  · rw [uploadProcessed_mid hmid] at hop
    cases hkey : midKey env.config vehicleId piece with
    | none =>
      rw [hkey] at hop
      rw [List.mem_singleton.mp hop]
      rfl
    | some key =>
      rw [hkey] at hop
      rcases List.mem_pair.mp hop with rfl | rfl <;> rfl
  · rw [uploadProcessed, if_pos hmid] at hop
    cases hop

theorem sendUnprocessed_no_writes :
    ∀ op ∈ sendUnprocessedToManager env job vehicleId piece, Op.writes op = [] := by
  intro op hop
  by_cases hmid : piece.position = .MID
  · rw [sendUnprocessedToManager, if_pos hmid] at hop
    cases hop
  · rw [sendUnprocessed_end hmid] at hop
    cases hitem : unprocessedPcap env.config vehicleId piece with
    | none =>
      rw [hitem] at hop
      rw [List.mem_singleton.mp hop]
      rfl
    | some item =>
      rw [hitem] at hop
      rw [List.mem_singleton.mp hop]
      rfl

end Pieces

/-- The uploads and the messages for an outcome, and an exception that may follow them. -/
def afterSplit (env : Environment) (job : Job) (vehicleId : Str) (outcome : SplitOutcome) :
    Program :=
  outcome.processed.flatMap (uploadProcessed env job vehicleId) ++
    outcome.unprocessed.flatMap (sendUnprocessedToManager env job vehicleId) ++
      (if (moduleTypeOf job.file.fileName).isNone then [.fail] else [])

theorem splitUploadSend_pieces (env : Environment) (disk : Store Str Bytes) (job : Job) :
    splitUploadSend env disk job = [.fail] ∨
      ∃ vehicleId path pieces, sourcePath env job = some path ∧
        splitUploadSend env disk job = writePieces pieces ++
          .erase path :: afterSplit env job vehicleId (outcomeOf pieces) := by
  rcases splitUploadSend_parts env disk job with hfail |
    ⟨vehicleId, folder, template, writes, outcome, hvehicle, hfolder, -, hsplit, hprogram⟩
  · exact Or.inl hfail
  · right
    obtain ⟨-, -, pieces, -, -, -, rfl, rfl⟩ := splitOnce_some hsplit
    refine ⟨vehicleId, abspath (folder ++ '/' :: job.file.fileName), pieces, ?_, hprogram⟩
    rw [sourcePath, hvehicle, Option.bind_some, hfolder]
    rfl

theorem frees_afterSplit {job : Job} {vehicleId : Str} {pieces : List PieceFile} {p : PieceFile}
    (hp : p ∈ pieces) : Frees sends (afterSplit env job vehicleId (outcomeOf pieces))
      (abspath p.piece.savePath) := by
  have hpiece : p.piece ∈ pieces.map PieceFile.piece := List.mem_map.mpr ⟨p, hp, rfl⟩
  by_cases hmid : p.piece.position = .MID
  · have hprocessed : p.piece ∈ (outcomeOf pieces).processed :=
      List.mem_filter.mpr ⟨hpiece, decide_eq_true hmid⟩
    have hsub : uploadProcessed env job vehicleId p.piece ⊆
        afterSplit env job vehicleId (outcomeOf pieces) := by
      intro op hop
      exact List.mem_append_left _ (List.mem_append_left _
        (List.mem_flatMap.mpr ⟨p.piece, hprocessed, hop⟩))
    exact (frees_uploadProcessed hmid).mono hsub
  · have hunprocessed : p.piece ∈ (outcomeOf pieces).unprocessed :=
      List.mem_filter.mpr ⟨hpiece, decide_eq_true hmid⟩
    have hsub : sendUnprocessedToManager env job vehicleId p.piece ⊆
        afterSplit env job vehicleId (outcomeOf pieces) := by
      intro op hop
      exact List.mem_append_left _ (List.mem_append_right _
        (List.mem_flatMap.mpr ⟨p.piece, hunprocessed, hop⟩))
    exact (frees_sendUnprocessed hmid).mono hsub

theorem afterSplit_no_writes (env : Environment) (job : Job) (vehicleId : Str)
    (outcome : SplitOutcome) :
    ∀ op ∈ afterSplit env job vehicleId outcome, Op.writes op = [] := by
  intro op hop
  rcases List.mem_append.mp hop with hop | hop
  · rcases List.mem_append.mp hop with hop | hop
    · obtain ⟨piece, -, hop⟩ := List.mem_flatMap.mp hop
      exact uploadProcessed_no_writes op hop
    · obtain ⟨piece, -, hop⟩ := List.mem_flatMap.mp hop
      exact sendUnprocessed_no_writes op hop
  · split_ifs at hop
    · rw [List.mem_singleton.mp hop]
      rfl
    · cases hop

/-- The split removes its source; every piece it writes is uploaded and removed, or sent. -/
theorem tidy_splitUploadSend (env : Environment) (disk : Store Str Bytes) (job : Job) :
    Tidy sends (Left env job .report) (splitUploadSend env disk job) := by
  rcases splitUploadSend_pieces env disk job with hfail |
    ⟨vehicleId, path, pieces, -, hprogram⟩
  · rw [hfail]
    exact tidy_fail
  · rw [hprogram]
    refine tidy_append ?_ (tidy_of_no_writes ?_)
    · intro op hop cell hcell
      obtain ⟨p, hp, rfl⟩ := List.mem_map.mp hop
      rw [List.mem_singleton.mp hcell]
      exact (frees_afterSplit hp).mono (List.subset_cons_self _ _)
    · intro op hop
      rcases List.mem_cons.mp hop with rfl | hop
      · rfl
      · exact afterSplit_no_writes env job vehicleId _ op hop

theorem frees_splitUploadSend {disk : Store Str Bytes} {job : Job} {path : Str}
    (h : sourcePath env job = some path) :
    Frees sends (splitUploadSend env disk job) path := by
  rcases splitUploadSend_pieces env disk job with hfail |
    ⟨vehicleId, path', pieces, hpath, hprogram⟩
  · rw [hfail]
    exact .fails List.mem_cons_self
  · rw [h] at hpath
    cases hpath
    rw [hprogram]
    exact .erases (List.mem_append_right _ List.mem_cons_self)

/-! ### Merging and sweeping -/

theorem tidy_mergePair {later : Str → Prop} (paired : List PairPut) :
    Tidy sends later (mergePair paired) := by
  cases paired with
  | nil => exact tidy_fail
  | cons first rest =>
    refine tidy_append ?_ (tidy_of_no_writes ?_)
    · intro op hop cell hcell
      have hout : cell = abspath first.item.outFilePath := by
        rcases List.mem_cons.mp hop with rfl | hop
        · exact List.mem_singleton.mp hcell
        · obtain ⟨source, -, rfl⟩ := List.mem_map.mp hop
          exact List.mem_singleton.mp hcell
      rw [hout]
      exact .erases (List.mem_cons_of_mem _ List.mem_cons_self)
    · intro op hop
      rcases List.mem_cons.mp hop with rfl | hop
      · rfl
      rcases List.mem_cons.mp hop with rfl | hop
      · rfl
      · obtain ⟨source, -, rfl⟩ := List.mem_map.mp hop
        rfl

theorem frees_mergePair {paired : List PairPut} {put : PairPut} (h : put ∈ paired) :
    Frees sends (mergePair paired) (abspath put.item.srcPath) := by
  cases paired with
  | nil => cases h
  | cons first rest =>
    have herase : (.erase (abspath put.item.srcPath) : WorkOp) ∈
        ((first :: rest).map (fun p => p.item.srcPath)).map removeFile :=
      List.mem_map.mpr ⟨put.item.srcPath, List.mem_map.mpr ⟨put, h, rfl⟩, rfl⟩
    exact .erases (List.mem_append_right _
      (List.mem_cons_of_mem _ (List.mem_cons_of_mem _ herase)))

theorem tidy_mergeReady {later : Str → Prop} (paired : Option (List PairPut)) :
    Tidy sends later (mergeReady paired) := by
  cases paired with
  | none => trivial
  | some paired => exact tidy_mergePair paired

theorem frees_mergeReady {paired : Option (List PairPut)} {put : PairPut}
    (h : put ∈ paired.getD []) : Frees sends (mergeReady paired) (abspath put.item.srcPath) := by
  cases paired with
  | none => cases h
  | some paired => exact frees_mergePair h

theorem tidy_uploadUnpaired {later : Str → Prop} (unpaired : List (List PairPut)) :
    Tidy sends later (uploadUnpaired unpaired) := by
  refine tidy_of_no_writes (fun op hop => ?_)
  obtain ⟨bucket, -, hop⟩ := List.mem_flatMap.mp hop
  cases bucket with
  | nil =>
    rw [List.mem_singleton.mp hop]
    rfl
  | cons head rest => rcases List.mem_pair.mp hop with rfl | rfl <;> rfl

/-- A bucket with one item is removed with its item; of a longer one only the first would be. -/
theorem frees_uploadUnpaired {unpaired : List (List PairPut)} {put : PairPut}
    (h : [put] ∈ unpaired) : Frees sends (uploadUnpaired unpaired) (abspath put.item.srcPath) :=
  .erases (List.mem_flatMap.mpr ⟨[put], h, List.mem_cons_of_mem _ List.mem_cons_self⟩)

end SensorDataNormalization.LocalFiles
