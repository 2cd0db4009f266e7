import SensorDataNormalization.PacketConservation

set_option autoImplicit false
namespace SensorDataNormalization.WorkFiles
open PythonText WallClock PcapRecords PcapSplit PcapMerge StoreProgram WorkerPaths RawObjects
  Messages WorkerProgram ManagerProgram ProcessState RawFiles NormalizerSystem SystemSteps
  CycleIsolation DrainQuiescence BatchOwnership PieceFlow UploadKeys PieceContents SecondObjects
  PacketConservation

variable {n : ℕ} {env : Environment}

def localPaths (env : Environment) (file : StorageFile) (contents : Bytes) : Option (List Str) := do
  let vehicleId ← vehicleIdOf file.filePath
  let downloadDstPath ← buildDownloadDstPath env.config vehicleId file.fileName
  let splitOutTemplate ← buildSplitOutTemplate env.config vehicleId file.fileName
  let srcFile := downloadDstPath ++ '/' :: file.fileName
  let (writes, _) ← (splitOnce env.clock (fun _ => some contents) srcFile splitOutTemplate :
    Option (Program × SplitOutcome))
  return abspath srcFile :: touches writes

/-- The names announce the same minute of one sensor, and the files have the same name or
packets with the same wall-clock label. -/
def Collide (f g : RawFile env) : Prop :=
  f.object.SameMinute g.object ∧ (f.object.fileName = g.object.fileName ∨
    ∃ a ∈ f.seconds, ∃ b ∈ g.seconds, label env.clock a = label env.clock b)

theorem localPaths_entry (f : RawFile env) :
    localPaths env f.entry f.contents = some f.paths := by
  have htouches : touches (writePieces f.pieces : Program) = f.seconds.map f.pathAt := by
    rw [RawFile.pieces]
    induction f.seconds with
    | nil => rfl
    | cons second rest ih =>
      have hpath : (writeFile (f.pathAt second) (f.cut second).contents : WorkOp).touches =
          [f.pathAt second] := by
        rw [writeFile, f.abspath_pathAt]
        rfl
      change (writeFile (f.pathAt second) (f.cut second).contents : WorkOp).touches ++
        touches (writePieces (rest.map f.cut)) = _
      rw [ih, hpath]
      rfl
  have hsplit : (splitOnce env.clock (fun _ => some f.contents) f.downloadPath f.template.text :
      Option (Program × SplitOutcome)) = some (writePieces f.pieces, outcomeOf f.pieces) :=
    f.splitOnce_entry rfl
  unfold localPaths
  simp only [Option.bind_eq_bind, f.vehicleIdOf_entry, Option.bind_some,
    f.buildDownloadDstPath_entry, f.buildSplitOutTemplate_entry, f.downloadFile_entry, hsplit,
    Option.pure_def, f.abspath_downloadPath, htouches]
  rfl

def SameCycle (_ : System n) (a : Action n) (_ : System n) : Prop :=
  ∀ request answer, a ≠ .request request answer

/-- What waits for the manager, and what has been uploaded, holds the bytes that the worker of
each piece wrote for it. -/
structure OwnBytes (files : List (RawFile env)) (s : System n) : Prop where
  waiting : ∀ put, .pairPut put ∈ s.mailbox ∨ put ∈ s.buckets.items →
    s.disk put.item.srcPath = some (contentsOf files put.source)
  uploaded : ∀ u ∈ s.cycle.uploads,
    u.contents = mergedBytes (u.destination.sources.map (contentsOf files))

/-- The local files of two raw files are disjoint exactly when the files do not collide; and in
every cycle over files of which no two collide, and none has two seconds of one label, the
manager merges and sweeps the bytes of the right worker. -/
theorem work_files_separate (env : Environment) :
    (∀ f g : RawFile env, ∃ fPaths gPaths, localPaths env f.entry f.contents = some fPaths ∧
      localPaths env g.entry g.contents = some gPaths ∧
        (fPaths.Disjoint gPaths ↔ ¬ Collide f g)) ∧
    ∀ files : List (RawFile env), files.Pairwise (fun f g => ¬ Collide f g) →
      (∀ f ∈ files, Labelled f) → ∀ (n : ℕ) (request : Request) (answer : StorageAnswer)
        (s₀ s₁ s : System n), Starts files request answer s₀ s₁ → Runs env SameCycle s₁ s →
          OwnBytes files s := by
  constructor
  · exact fun f g => ⟨f.paths, g.paths, localPaths_entry f, localPaths_entry g,
      f.paths_disjoint_iff g⟩
  · intro files hfiles hlabels n request answer s₀ s₁ s hstart run
    let B : Batch env :=
      { files := files
        separate := hfiles.imp (fun {f g} hfg => (f.paths_disjoint_iff g).mpr hfg) }
    have hbegin : ContentInv B (s₀.cycle.number + 1) s₁ := by
      rw [hstart.eq]
      exact contentInv_begin hstart.quiescent request
    have hi := run.invariant (ContentInv B (s₀.cycle.number + 1)) hbegin
      (fun hi hmove hok => contentInv_step hlabels hi hmove hok)
    exact
      { waiting := fun put hput => hput.elim (hi.mail put) (hi.bucket put)
        uploaded := hi.uploads }

instance (t : System n) (a : Action n) (u : System n) : Decidable (SameCycle t a u) :=
  inferInstanceAs (Decidable (∀ request answer, a ≠ .request request answer))

theorem firstDay_apart : firstDayFiles.Pairwise (fun f g => ¬ Collide f g) := by
  have hminutes : firstDayFiles.Pairwise (fun f g => ¬ f.object.SameMinute g.object) := by
    decide +kernel
  exact hminutes.imp (fun {f g} hfg hboth => hfg hboth.1)

/-- Two files that share a second; the worker fails after it has sent the piece of the second. -/
theorem work_files_separate_two_files : ∃ s : System 1, OwnBytes firstDayFiles s ∧
    s.phase = .returned ∧ s.progress.failure = 1 ∧ s.cycle.uploads.length = 2 := by
  let actions : List (Action 1) := List.replicate 3 .manager ++ List.replicate 15 (.worker 0) ++
    [.workerFault 0, .worker 0] ++ List.replicate 16 .manager
  have hrun : (NormalizerSystem.step (hostOf sharedSecond) (.polling : System 1) firstDay).any
      (fun s₁ => (runWhile (hostOf sharedSecond) SameCycle actions s₁).any (fun s =>
        decide (s.phase = .returned) && decide (s.progress.failure = 1) &&
          decide (s.cycle.uploads.length = 2))) = true := by
    decide +kernel
  obtain ⟨s₁, hstart, hs₁⟩ := (Option.any_eq_true _ _).mp hrun
  obtain ⟨s, hruns, hs⟩ := runs_of_any hs₁
  simp only [Bool.and_eq_true, decide_eq_true_eq] at hs
  have hstarts : Starts firstDayFiles _ _ (.polling : System 1) s₁ :=
    ⟨⟨rfl, rfl, fun _ => rfl⟩, rfl, by decide +kernel, hstart⟩
  have hlabelled : ∀ f ∈ firstDayFiles, Labelled f := by
    intro f hf a ha b hb hab
    exact firstDay_labels f hf f hf rfl a ha b hb hab
  exact ⟨s, (work_files_separate _).2 firstDayFiles firstDay_apart hlabelled 1 _ _ _ s₁ s hstarts
    hruns, hs.1.1, hs.1.2, hs.2⟩

def sameMinute : List (RawObject × Bytes) :=
  [(.gnss "20240101".toList "20240101000010".toList (by decide),
      captureOf [(1704067210, 1), (1704067220, 2)]),
    (.gnss "20240101".toList "20240101000020".toList (by decide),
      captureOf [(1704067220, 3), (1704067230, 4)])]

def sameMinuteFiles : List (RawFile (hostOf sameMinute)) :=
  filesOf sameMinute (by decide +kernel)

/-- The last piece of the first object and the first piece of the second have one path. -/
theorem same_minute_collides : ∃ f ∈ sameMinuteFiles, ∃ g ∈ sameMinuteFiles,
    f.object.dateFolder = g.object.dateFolder ∧ f.object.fileName ≠ g.object.fileName ∧
      ∃ fPaths gPaths, localPaths (hostOf sameMinute) f.entry f.contents = some fPaths ∧
        localPaths (hostOf sameMinute) g.entry g.contents = some gPaths ∧
          ¬ fPaths.Disjoint gPaths := by
  have hpair : ∃ f ∈ sameMinuteFiles, ∃ g ∈ sameMinuteFiles,
      f.object.dateFolder = g.object.dateFolder ∧ f.object.fileName ≠ g.object.fileName ∧
        f.pathAt 1704067220 = g.pathAt 1704067220 ∧ 1704067220 ∈ f.seconds ∧
          1704067220 ∈ g.seconds := by
    decide +kernel
  obtain ⟨f, hf, g, hg, hfolder, hname, hpath, hfsecond, hgsecond⟩ := hpair
  refine ⟨f, hf, g, hg, hfolder, hname, f.paths, g.paths, localPaths_entry f,
    localPaths_entry g, ?_⟩
  intro hdisjoint
  exact hdisjoint (f.pathAt_mem hfsecond) (hpath ▸ g.pathAt_mem hgsecond)

end SensorDataNormalization.WorkFiles
