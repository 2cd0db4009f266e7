import SensorDataNormalization.PieceNames
import SensorDataNormalization.StoreAttempts

set_option autoImplicit false

/-! One job of a worker, `action` after the job is popped: what it uploads and what it sends to the
manager, wherever an exception is raised. -/
namespace SensorDataNormalization.WorkerJob
open PythonText SensorRegistry ProjectConfig WallClock PcapFilename PcapRecords PcapSplit
  StoreProgram StoreAttempts WorkerPaths RawObjects Messages WorkerProgram PieceNames

abbrev Outputs := List (Output Bytes Destination PairPut)

/-- `_process_file`: what the disk held when it called `_split_pcap`, if it got there, what it
made visible, and whether it returned. -/
inductive ProcessFile (env : Environment) (job : Job) :
    Option (Store Str Bytes) → Outputs → Bool → Prop
  | download {outs : Outputs} : Attempt (download env job) outs false →
      ProcessFile env job none outs false
  | split {disk : Store Str Bytes} {outs outs' : Outputs} {ok : Bool} :
      Attempt (download env job) outs true → Attempt (splitUploadSend env disk job) outs' ok →
      ProcessFile env job (some disk) (outs ++ outs') ok

inductive Sent
  | pairPut (put : PairPut)
  | jobDone (success : Bool)

/-- `action`: the disk at the split, the uploads, and the messages with that of the `finally`
block. -/
def Action (env : Environment) (job : Job) (split : Option (Store Str Bytes))
    (uploads : List Destination) (sent : List Sent) : Prop :=
  ∃ outs success, ProcessFile env job split outs success ∧ uploads = events outs ∧
    sent = (messages outs).map .pairPut ++ [.jobDone success]

def splitPcap (env : Environment) (disk : Store Str Bytes) (fileName vehicleId : Str) :
    Option SplitOutcome := do
  let downloadDstPath ← buildDownloadDstPath env.config vehicleId fileName
  let splitOutTemplate ← buildSplitOutTemplate env.config vehicleId fileName
  let split : Program × SplitOutcome ←
    splitOnce env.clock disk (downloadDstPath ++ '/' :: fileName) splitOutTemplate
  return split.2

/-- The vehicle of the job, and what its call of `_split_pcap` on that disk returns. -/
def SplitOf (env : Environment) (disk : Store Str Bytes) (job : Job) (vehicleId : Str)
    (outcome : SplitOutcome) : Prop :=
  vehicleIdOf job.file.filePath = some vehicleId ∧
    splitPcap env disk job.file.fileName vehicleId = some outcome

/-- Every piece of the outcome is where it belongs: the MID pieces in S3, once each, and the
others in the messages, in order. -/
structure Complete (env : Environment) (vehicleId : Str) (outcome : SplitOutcome)
    (uploads : List Destination) (puts : List PairPut) : Prop where
  mid : ∀ piece ∈ outcome.processed, piece.position = .MID
  ends : ∀ piece ∈ outcome.unprocessed, piece.position ≠ .MID
  keys : uploads.map (fun u => some u.key) = outcome.processed.map (midKey env.config vehicleId)
  items : puts.map (fun put => some put.item) =
    outcome.unprocessed.map (unprocessedPcap env.config vehicleId)
  pairKeys : puts.map PairPut.pairKey = outcome.unprocessed.map (buildPairKey vehicleId)
  paths : puts.map (fun put => put.item.srcPath) = outcome.unprocessed.map SplitedPcap.savePath

/-! ## The parts of the program -/

section Parts
variable {env : Environment} {job : Job} {vehicleId : Str} {outs : Outputs} {ok : Bool}

theorem download_shows_nothing (h : Attempt (download env job) outs ok) :
    messages outs = [] ∧ events outs = [] := by
  have hprogram : download env job = [.fail] ∨ ∃ path contents,
      download env job = [writeFile path contents] := by
    unfold download
    cases vehicleIdOf job.file.filePath with
    | none => exact Or.inl rfl
    | some vehicleId =>
      dsimp only
      cases buildDownloadDstPath env.config vehicleId job.file.fileName with
      | none => exact Or.inl rfl
      | some folder =>
        cases env.raw job.file.filePath with
        | none => exact Or.inl rfl
        | some contents => exact Or.inr ⟨_, _, rfl⟩
  rcases hprogram with hfail | ⟨path, contents, hwrite⟩
  · rw [hfail] at h
    obtain ⟨-, rfl⟩ := h.fail
    exact ⟨rfl, rfl⟩
  · rw [hwrite] at h
    have hsilent : ∀ op ∈ ([writeFile path contents] : Program), op.Silent :=
      fun op hop => List.mem_singleton.mp hop ▸ trivial
    exact ⟨h.no_messages (fun op hop => canRaise_of_silent (hsilent op hop)), h.no_events hsilent⟩

theorem uploadProcessed_raises (piece : SplitedPcap) :
    ∀ op ∈ uploadProcessed env job vehicleId piece, CanRaise op := by
  unfold uploadProcessed
  intro op hop
  split_ifs at hop
  · cases hop
  · dsimp only at hop
    cases hdst : buildUploadDstPath env.config vehicleId piece with
    | none =>
      rw [hdst] at hop
      rw [List.mem_singleton.mp hop]
      exact fun _ _ h => nomatch h
    | some dstDir =>
      rw [hdst] at hop
      rcases List.mem_cons.mp hop with rfl | hop
      · exact fun _ _ h => nomatch h
      · rw [List.mem_singleton.mp hop]
        exact fun _ _ h => nomatch h

theorem uploads_of_attempt {pieces : List SplitedPcap} (hmid : ∀ p ∈ pieces, p.position = .MID)
    (h : Attempt (pieces.flatMap (uploadProcessed env job vehicleId)) outs true) :
    (events outs).map (fun u => some u.key) = pieces.map (midKey env.config vehicleId) := by
  induction pieces generalizing outs with
  | nil =>
    cases h
    rfl
  | cons piece pieces ih =>
    rw [List.flatMap_cons, uploadProcessed_mid (hmid piece List.mem_cons_self)] at h
    cases hkey : midKey env.config vehicleId piece with
    | none =>
      rw [hkey] at h
      exact absurd h.fail.1 Bool.noConfusion
    | some key =>
      rw [hkey] at h
      cases h with
      | step hemit h =>
        cases h with
        | step herase hrest =>
          obtain ⟨value, -, hout⟩ := Option.map_eq_some_iff.mp hemit
          cases hout
          cases herase
          rw [List.map_cons, hkey, ← ih (fun p hp => hmid p (List.mem_cons_of_mem _ hp)) hrest]
          rfl

theorem unprocessedPcap_none (c : Config) {piece : SplitedPcap}
    (h : getModuleType piece.moduleName = none) : unprocessedPcap c vehicleId piece = none := by
  rw [unprocessedPcap, buildUnpairedOutPath, h]
  rfl

theorem unprocessedPcap_some (c : Config) {piece : SplitedPcap} {moduleType : Str}
    (h : getModuleType piece.moduleName = some moduleType) :
    ∃ item, unprocessedPcap c vehicleId piece = some item ∧ item.srcPath = piece.savePath := by
  rw [unprocessedPcap, buildUnpairedOutPath, buildUploadDstPath, h]
  exact ⟨_, rfl, rfl⟩

/-- The loop over HEAD and TAIL pieces of one module raises before it sends anything, or sends
all of them. -/
theorem sends_of_attempt {pieces : List SplitedPcap} {m : Str}
    (hends : ∀ p ∈ pieces, p.position ≠ .MID) (hm : ∀ p ∈ pieces, p.moduleName = m)
    (h : Attempt (pieces.flatMap (sendUnprocessedToManager env job vehicleId)) outs ok) :
    events outs = [] ∧ ((ok = false ∧ messages outs = []) ∨ (ok = true ∧
      (messages outs).map (fun put => some put.item) =
        pieces.map (unprocessedPcap env.config vehicleId) ∧
      (messages outs).map PairPut.pairKey = pieces.map (buildPairKey vehicleId) ∧
      (messages outs).map (fun put => put.item.srcPath) = pieces.map SplitedPcap.savePath)) := by
  cases hregistered : getModuleType m with
  | none =>
    cases pieces with
    | nil =>
      cases h
      exact ⟨rfl, Or.inr ⟨rfl, rfl, rfl, rfl⟩⟩
    | cons piece pieces =>
      have hnone : unprocessedPcap env.config vehicleId piece = none :=
        unprocessedPcap_none env.config ((hm piece List.mem_cons_self).symm ▸ hregistered)
      rw [List.flatMap_cons, sendUnprocessed_end (hends piece List.mem_cons_self), hnone] at h
      obtain ⟨rfl, rfl⟩ := h.fail
      exact ⟨rfl, Or.inl ⟨rfl, rfl⟩⟩
  | some moduleType =>
    have hitems : ∀ piece ∈ pieces, ∃ item,
        unprocessedPcap env.config vehicleId piece = some item ∧ item.srcPath = piece.savePath :=
      fun piece hpiece => unprocessedPcap_some env.config (hm piece hpiece ▸ hregistered)
    let put : SplitedPcap → PairPut := fun piece =>
      { source := ⟨job, piece⟩
        pairKey := buildPairKey vehicleId piece
        item := (unprocessedPcap env.config vehicleId piece).getD ⟨[], [], []⟩ }
    have hprogram : pieces.flatMap (sendUnprocessedToManager env job vehicleId) =
        pieces.map (fun piece => Op.give (abspath piece.savePath) (put piece)) := by
      rw [List.map_eq_flatMap]
      refine List.flatMap_congr (fun piece hpiece => ?_)
      obtain ⟨item, hitem, -⟩ := hitems piece hpiece
      rw [sendUnprocessed_end (hends piece hpiece)]
      simp only [put, hitem, Option.map_some, Option.getD_some]
    rw [hprogram] at h
    obtain ⟨hok, hmessages, hevents⟩ := h.gives
    refine ⟨hevents, Or.inr ⟨hok, ?_, ?_, ?_⟩⟩
    · rw [hmessages, List.map_map]
      refine List.map_congr_left (fun piece hpiece => ?_)
      obtain ⟨item, hitem, -⟩ := hitems piece hpiece
      simp only [Function.comp, put, hitem, Option.getD_some]
    · rw [hmessages, List.map_map]
      rfl
    · rw [hmessages, List.map_map]
      refine List.map_congr_left (fun piece hpiece => ?_)
      obtain ⟨item, hitem, hpath⟩ := hitems piece hpiece
      simp only [Function.comp, put, hitem, Option.getD_some, hpath]

theorem splitOnce_pieces {disk : Store Str Bytes} {srcFile template : Str}
    {writes : List (Op Str Bytes Destination PairPut)} {outcome : SplitOutcome}
    (h : splitOnce env.clock disk srcFile template = some (writes, outcome)) :
    (∀ op ∈ writes, op.Silent) ∧ (∀ p ∈ outcome.processed, p.position = .MID) ∧
      (∀ p ∈ outcome.unprocessed, p.position ≠ .MID) ∧
      ∃ m, ∀ p ∈ outcome.unprocessed, p.moduleName = m := by
  obtain ⟨parts, file, -, -, hpieces⟩ := mem_outcome h
  have hm : ∀ p ∈ outcome.unprocessed, p.moduleName = parts.moduleName := by
    intro p hp
    obtain ⟨second, -, hsplit⟩ := (hpieces p).mp (List.mem_append_right _ hp)
    obtain ⟨piece, hpiece, rfl⟩ := Option.map_eq_some_iff.mp hsplit
    obtain ⟨savePath, -, rfl⟩ := Option.map_eq_some_iff.mp hpiece
    rfl
  obtain ⟨-, -, pieces, -, -, -, rfl, rfl⟩ := splitOnce_some h
  refine ⟨?_, ?_, ?_, parts.moduleName, hm⟩
  · intro op hop
    obtain ⟨piece, -, rfl⟩ := List.mem_map.mp hop
    trivial
  · exact fun p hp => of_decide_eq_true (List.mem_filter.mp hp).2
  · exact fun p hp => of_decide_eq_true (List.mem_filter.mp hp).2

/-- The program after the download raises at once, or is made of the parts for an outcome. The
module type that is looked up at the end was found before. -/
theorem splitUploadSend_cases (env : Environment) (disk : Store Str Bytes) (job : Job) :
    splitUploadSend env disk job = [.fail] ∨
      ∃ vehicleId outcome splitSrcFile writes, SplitOf env disk job vehicleId outcome ∧
        (∀ op ∈ writes, op.Silent) ∧ (∀ p ∈ outcome.processed, p.position = .MID) ∧
        (∀ p ∈ outcome.unprocessed, p.position ≠ .MID) ∧
        (∃ m, ∀ p ∈ outcome.unprocessed, p.moduleName = m) ∧
        splitUploadSend env disk job = (writes ++ [removeFile splitSrcFile]) ++
          (outcome.processed.flatMap (uploadProcessed env job vehicleId) ++
            outcome.unprocessed.flatMap (sendUnprocessedToManager env job vehicleId)) := by
  rcases splitUploadSend_parts env disk job with hfail |
    ⟨vehicleId, folder, template, writes, outcome, hvehicle, hfolder, htemplate, hsplit, hprogram⟩
  · exact Or.inl hfail
  · right
    obtain ⟨hwrites, hmid, hends, hm⟩ := splitOnce_pieces hsplit
    have htype : (moduleTypeOf job.file.fileName).isNone = false := by
      obtain ⟨parts, hparse, htemplate⟩ := Option.bind_eq_some_iff.mp htemplate
      obtain ⟨moduleType, hmodule, -⟩ := Option.bind_eq_some_iff.mp htemplate
      rw [moduleTypeOf, hparse, Option.bind_some, hmodule]
      rfl
    have houtcome : splitPcap env disk job.file.fileName vehicleId = some outcome := by
      simp only [splitPcap, hfolder, htemplate, hsplit, Option.bind_eq_bind, Option.bind_some]
      rfl
    refine ⟨vehicleId, outcome, folder ++ '/' :: job.file.fileName, writes,
      ⟨hvehicle, houtcome⟩, hwrites, hmid, hends, hm, ?_⟩
    rw [hprogram, htype]
    simp

theorem attempt_splitUploadSend {disk : Store Str Bytes}
    (h : Attempt (splitUploadSend env disk job) outs ok) :
    (ok = false ∧ messages outs = []) ∨ (ok = true ∧ ∃ vehicleId outcome,
      SplitOf env disk job vehicleId outcome ∧
        Complete env vehicleId outcome (events outs) (messages outs)) := by
  rcases splitUploadSend_cases env disk job with hfail |
    ⟨vehicleId, outcome, splitSrcFile, writes, hsplit, hwrites, hmid, hends, ⟨m, hm⟩, hprogram⟩
  · rw [hfail] at h
    obtain ⟨hok, rfl⟩ := h.fail
    exact Or.inl ⟨hok, rfl⟩
  rw [hprogram] at h
  have hsilent : ∀ op ∈ writes ++ [removeFile splitSrcFile], op.Silent := by
    intro op hop
    rcases List.mem_append.mp hop with hop | hop
    · exact hwrites op hop
    · rw [List.mem_singleton.mp hop]
      trivial
  have hquiet : ∀ op ∈ outcome.processed.flatMap (uploadProcessed env job vehicleId),
      CanRaise op := by
    intro op hop
    obtain ⟨piece, -, hop⟩ := List.mem_flatMap.mp hop
    exact uploadProcessed_raises piece op hop
  rcases h.append with ⟨first, later, rfl, hfirst, hlater⟩ | ⟨hok, hfirst⟩
  · have hnone := hfirst.no_messages (fun op hop => canRaise_of_silent (hsilent op hop))
    rcases hlater.append with ⟨middle, last, rfl, hmiddle, hlast⟩ | ⟨hok, hmiddle⟩
    · obtain ⟨hevents, hsent⟩ := sends_of_attempt hends hm hlast
      rw [messages_append, messages_append, hnone, hmiddle.no_messages hquiet, List.nil_append,
        List.nil_append]
      rcases hsent with hsent | ⟨hok, hitems, hkeys, hpaths⟩
      · exact Or.inl hsent
      · refine Or.inr ⟨hok, vehicleId, outcome, hsplit, hmid, hends, ?_, hitems, hkeys, hpaths⟩
        rw [events_append, events_append, hfirst.no_events hsilent, hevents, List.nil_append,
          List.append_nil]
        exact uploads_of_attempt hmid hmiddle
    · rw [messages_append, hnone, hmiddle.no_messages hquiet]
      exact Or.inl ⟨hok, rfl⟩
  · exact Or.inl ⟨hok, hfirst.no_messages (fun op hop => canRaise_of_silent (hsilent op hop))⟩

end Parts

theorem captured_stamp : Stamp "202401010000".toList := by decide

def captured : RawObject := .gnss "20240101".toList "202401010000".toList captured_stamp

def capturedHost : Environment :=
  hostOf [(captured, captureOf [(1704067200, 1), (1704067201, 2), (1704067202, 3)])]

def capturedJob : Job := ⟨0, 0, storageFile applicationConf captured⟩

end SensorDataNormalization.WorkerJob
