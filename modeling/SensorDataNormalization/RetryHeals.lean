import SensorDataNormalization.CaptureOrder
import SensorDataNormalization.StoreDiscipline

set_option autoImplicit false

/-! A capture that is processed again. Whatever has become of it before, a cycle in capture order
leaves the objects that it would have left in the first place. -/
namespace SensorDataNormalization.RetryHeals
open PythonText WallClock PcapRecords PcapSplit StoreProgram StoreTyping StoreDiscipline WorkerPaths
  RawObjects RawFiles Messages WorkerProgram ManagerProgram NormalizerSystem SystemSteps
  CycleIsolation DrainQuiescence PieceFlow UploadKeys SecondObjects PacketConservation CaptureOrder

variable {n : ℕ} {env : Environment}

def knownTyping (known : List (RawFile env)) : Typing Str Bytes Destination PairPut where
  cell path v := ∀ f ∈ known, path = f.downloadPath → v = f.contents
  published destination _ := ∃ f ∈ known, ∃ second ∈ f.seconds,
    destination.key = objectKey f second
  given put := ∃ f ∈ known, ∃ second ∈ f.ends, ∃ job, put = f.put job second

/-- The names of the files announce different minutes of a sensor. -/
def DistinctMinutes (known : List (RawFile env)) : Prop :=
  known.Pairwise (fun f g => ¬ f.object.SameMinute g.object)

section Programs
variable {known : List (RawFile env)} {f : RawFile env} {second : ℕ}

theorem DistinctMinutes.same (h : DistinctMinutes known) (hf : f ∈ known) {g : RawFile env}
    (hg : g ∈ known) (hpath : f.downloadPath = g.downloadPath) : f = g := by
  by_contra hne
  have hsymm : Std.Symm (fun f g : RawFile env => ¬ f.object.SameMinute g.object) :=
    ⟨fun _ _ hfg hgf => hfg ⟨hgf.1.symm, hgf.2.symm⟩⟩
  exact h.forall hf hg hne ((f.object.downloadPath_eq_iff env.config g.object).mp hpath).1

theorem cell_pathAt (v : Bytes) : (knownTyping known).cell (f.pathAt second) v :=
  fun g _ hpath => absurd hpath.symm (g.downloadPath_ne_pathAt f second)

theorem cell_outPath (s : SensorStream) (l : Label) (v : Bytes) :
    (knownTyping known).cell (s.outPath env.config l) v :=
  fun g _ hpath => absurd hpath.symm (g.downloadPath_ne_outPath s l)

theorem isMid_ends (h : second ∈ f.ends) : f.isMid second = false := by
  simpa using (List.mem_filter.mp h).2

theorem published_end (hf : f ∈ known) (h : second ∈ f.ends) (job : Job) (sources : List Source)
    (v : Bytes) :
    (knownTyping known).published ⟨(f.put job second).item.prefixPath, sources⟩ v := by
  refine ⟨f, hf, second, f.mem_ends h, ?_⟩
  rw [objectKey, isMid_ends h]
  rfl

theorem typed_work (hf : f ∈ known) (job : Job) :
    ∀ op ∈ f.workProgram job, (knownTyping known).Typed op := by
  intro op hop
  simp only [RawFile.workProgram, List.mem_append, List.mem_cons, writePieces, RawFile.pieces,
    List.mem_map, List.mem_flatMap] at hop
  rcases hop with ⟨p, ⟨s, hs, rfl⟩, rfl⟩ | rfl | ⟨s, hs, hop⟩ | ⟨s, hs, rfl⟩
  · rw [f.cut_savePath, writeFile, f.abspath_pathAt]
    exact cell_pathAt _
  · trivial
  · simp only [RawFile.midOps, List.mem_cons, List.not_mem_nil, or_false] at hop
    rcases hop with rfl | rfl
    · refine fun v _ => ⟨f, hf, s, f.mem_mids hs, ?_⟩
      rw [objectKey, if_pos (List.mem_filter.mp hs).2]
      rfl
    · trivial
  · exact ⟨f, hf, s, hs, job, rfl⟩

theorem typed_merge {a b : PairPut} (ha : (knownTyping known).given a) :
    ∀ op ∈ mergePair [a, b], (knownTyping known).Typed op := by
  obtain ⟨f, hf, second, hs, job, rfl⟩ := ha
  have hout : abspath (f.put job second).item.outFilePath =
      f.stream.outPath env.config (label env.clock second) :=
    SensorStream.abspath_outPath _ _ _
  intro op hop
  simp only [mergePair, mergePcapFiles, List.map_cons, List.map_nil, List.cons_append,
    List.nil_append, List.mem_cons, List.not_mem_nil, or_false] at hop
  rcases hop with rfl | rfl | rfl | rfl | rfl | rfl | rfl
  · rw [copyHeader, hout]
    exact fun v _ _ _ => cell_outPath _ _ _
  · rw [appendBody, hout]
    exact fun v _ _ _ => cell_outPath _ _ _
  · rw [appendBody, hout]
    exact fun v _ _ _ => cell_outPath _ _ _
  · exact fun v _ => published_end hf hs job _ v
  · trivial
  · trivial
  · trivial

end Programs

def knownDiscipline {known : List (RawFile env)} (h : DistinctMinutes known) : Discipline env where
  typing := knownTyping known
  own := fun _ => False
  file := fun file => ∃ f ∈ known, file = f.entry
  download := by
    rintro job ⟨f, hf, hjob⟩ op hop
    rw [f.download_entry hjob] at hop
    rw [List.mem_singleton.mp hop]
    refine ⟨fun g hg hpath => ?_, fun _ _ => id⟩
    rw [h.same hf hg hpath]
  split := by
    rintro job disk ⟨f, hf, hjob⟩ hdisk op hop
    refine ⟨?_, fun _ _ => id⟩
    cases hsource : disk f.downloadPath with
    | none =>
      rw [splitUploadSend_absent hjob hsource] at hop
      rw [List.mem_singleton.mp hop]
      trivial
    | some v =>
      obtain rfl := hdisk _ v hsource f hf rfl
      rw [f.splitUploadSend_entry hjob hsource] at hop
      exact typed_work hf job op hop
  merge := fun _ _ _ ha _ _ => Typing.sound_typed (typed_merge ha)
  sweep := by
    rintro put rest ⟨f, hf, second, hs, job, rfl⟩ op hop
    simp only [uploadBucket, List.mem_cons, List.not_mem_nil, or_false] at hop
    rcases hop with rfl | rfl
    · exact fun v _ => published_end hf hs job _ v
    · trivial

/-! ## Cycles that are done again -/

def SelectsFrom (known : List (RawFile env)) (_ : System n) (a : Action n) (_ : System n) : Prop :=
  ∀ request answer files, a = .request request answer →
    selectFiles env request answer = some files → ∀ file ∈ files, ∃ f ∈ known, file = f.entry

/-- A kill may destroy every local file; a download is there as a whole or not at all. -/
def Tears (known : List (RawFile env)) (disk disk' : Store Str Bytes) : Prop :=
  ∀ f ∈ known, ∀ v, disk' f.downloadPath = some v → disk f.downloadPath = some v

/-- Nothing but objects of packet seconds is ever written. -/
theorem lives_frame {known : List (RawFile env)} (hknown : DistinctMinutes known)
    {disk s3 : Store Str Bytes} {s : System n}
    (hdisk : ∀ f ∈ known, ∀ v, disk f.downloadPath = some v → v = f.contents)
    (life : Lives env (SelectsFrom known) (Tears known) (System.init disk s3) s) {key : Str}
    (hkey : ∀ f ∈ known, ∀ second ∈ f.seconds, key ≠ objectKey f second) : s.s3 key = s3 key := by
  have hstored : (knownDiscipline hknown).typing.Stored disk := by
    rintro _ v hv f hf rfl
    exact hdisk f hf v hv
  have hleaves : ∀ disk disk', Tears known disk disk' →
      (knownDiscipline hknown).typing.Stored disk →
      (knownDiscipline hknown).typing.Stored disk' := by
    rintro disk disk' htears hdisk _ v hv f hf rfl
    exact hdisk _ v (htears f hf v hv) f hf rfl
  have hkept : Kept (knownDiscipline hknown) s3 s := kept_lives hleaves (kept_init hstored) life
  rcases hkept.objects key with hsame | ⟨d, v, rfl, -, f, hf, second, hsecond, hobject⟩
  · exact hsame
  · exact absurd hobject (hkey f hf second hsecond)

/-- Whatever the daemon has done before with the files of a capture and with others, however
often it failed, was stopped or was killed: once a cycle in capture order has come to its end, the
objects are those that such a cycle leaves when it is the first one. -/
theorem retry_heals {known capture files files' : List (RawFile env)}
    (hknown : DistinctMinutes known) (hc : Capture capture) (hlabels : DistinctLabels capture)
    (hfiles : files.Perm capture) (hfiles' : files'.Perm capture) {m : ℕ}
    {disk s3 : Store Str Bytes}
    (hdisk : ∀ f ∈ known, ∀ v, disk f.downloadPath = some v → v = f.contents)
    {request request' : Request} {answer answer' : StorageAnswer} {s₀ s₁ s : System m}
    {t₀ t₁ t : System n}
    (life : Lives env (SelectsFrom known) (Tears known) (System.init disk s3) s₀)
    (hs : Starts files request answer s₀ s₁) (srun : Runs env (Timely files capture) s₁ s)
    (hsreturned : s.phase = .returned) (ht : Starts files' request' answer' t₀ t₁)
    (hstore : t₀.s3 = s3) (trun : Runs env (Timely files' capture) t₁ t)
    (htreturned : t.phase = .returned) :
    ∀ key, (∀ g ∈ known, g ∉ capture → ∀ second ∈ g.seconds, key ≠ objectKey g second) →
      s.s3 key = t.s3 key := by
  obtain ⟨hsobject, hskeep⟩ := timely_store hc hlabels hfiles hs srun hsreturned
  obtain ⟨htobject, htkeep⟩ := timely_store hc hlabels hfiles' ht trun htreturned
  intro key hothers
  by_cases hkey : ∃ f ∈ capture, ∃ second ∈ f.seconds, key = objectKey f second
  · obtain ⟨f, hf, second, hsecond, rfl⟩ := hkey
    rw [hsobject f hf second hsecond, htobject f hf second hsecond]
  · have hother : ∀ f ∈ capture, ∀ second ∈ f.seconds, key ≠ objectKey f second :=
      fun f hf second hsecond he => hkey ⟨f, hf, second, hsecond, he⟩
    have hframe : s₀.s3 key = s3 key := by
      refine lives_frame hknown hdisk life (fun g hg second hsecond => ?_)
      by_cases hmem : g ∈ capture
      · exact hother g hmem second hsecond
      · exact hothers g hg hmem second hsecond
    rw [hskeep key hother, htkeep key hother, hframe, hstore]

/-- A stop leaves half of the shared second behind; the daemon is killed, and the request is
made again. -/
theorem retry_heals_two_files : ∃ s₀ s t : System 1, s.s3 = t.s3 ∧
    ∃ f ∈ firstDayFiles, ∃ second ∈ f.seconds,
      (s₀.s3 (objectKey f second)).isSome ∧
        s₀.s3 (objectKey f second) ≠ s.s3 (objectKey f second) := by
  let broken : List (Action 1) := inTurn 3 9 2 ++ [.stop] ++ List.replicate 6 .manager
  have hrun : (NormalizerSystem.step (hostOf sharedSecond) (.polling : System 1) firstDay).any
      (fun r₁ => (runWhile (hostOf sharedSecond)
        (fun _ a _ => ∀ request answer, a ≠ .request request answer) broken r₁).any (fun r =>
          (NormalizerSystem.step (hostOf sharedSecond)
            { (System.init (fun _ => none) r.s3 : System 1) with phase := .listening }
            firstDay).any (fun s₁ =>
              (runWhile (hostOf sharedSecond) (Timely firstDayFiles firstDayFiles)
                twoFilesInTurn s₁).any (fun s => decide (s.phase = .returned) &&
                  firstDayFiles.any (fun f => f.seconds.any (fun second =>
                    (r.s3 (objectKey f second)).isSome &&
                      decide (r.s3 (objectKey f second) ≠ s.s3 (objectKey f second)))))))) =
        true := by
    decide +kernel
  have hrun' : (NormalizerSystem.step (hostOf sharedSecond) (.polling : System 1) firstDay).any
      (fun t₁ => (runWhile (hostOf sharedSecond) (Timely firstDayFiles firstDayFiles)
        twoFilesInTurn t₁).any (fun t => decide (t.phase = .returned))) = true := by
    decide +kernel
  obtain ⟨r₁, hstart, hr₁⟩ := (Option.any_eq_true _ _).mp hrun
  obtain ⟨r, hbroken, hr⟩ := runs_of_any hr₁
  obtain ⟨s₁, hagain, hs₁⟩ := (Option.any_eq_true _ _).mp hr
  obtain ⟨s, hruns, hs⟩ := runs_of_any hs₁
  simp only [Bool.and_eq_true, decide_eq_true_eq, List.any_eq_true] at hs
  obtain ⟨hsreturned, hobject⟩ := hs
  obtain ⟨t₁, hfirst, ht₁⟩ := (Option.any_eq_true _ _).mp hrun'
  obtain ⟨t, hrunt, ht⟩ := runs_of_any ht₁
  have hquiet : ∀ (a : Action 1), (∀ request answer, a ≠ .request request answer) →
      ∀ u v, SelectsFrom firstDayFiles u a v :=
    fun a hno u v request answer _ he => absurd he (hno request answer)
  have hselects : SelectsFrom firstDayFiles .polling firstDay r₁ := by
    intro request answer files he hfiles
    cases he
    cases hfiles
    decide +kernel
  have hlife : Lives (hostOf sharedSecond) (SelectsFrom firstDayFiles) (Tears firstDayFiles)
      (System.init (fun _ => none) (fun _ => none))
      { (System.init (fun _ => none) r.s3 : System 1) with phase := .listening } := by
    refine .step (.restart (Lives.run (.step (.step (.refl _) (a := .manager) rfl ?_) hstart
      hselects) (hbroken.mono (fun u a v hno => hquiet a hno u v)))
        (fun _ _ _ h => by cases h)) (a := .manager) rfl ?_
    · exact hquiet _ (fun _ _ he => by cases he) _ _
    · exact hquiet _ (fun _ _ he => by cases he) _ _
  have hstarts : Starts firstDayFiles _ _ _ s₁ :=
    ⟨⟨rfl, rfl, fun _ => rfl⟩, rfl, by decide +kernel, hagain⟩
  have hstarts' : Starts firstDayFiles _ _ (.polling : System 1) t₁ :=
    ⟨⟨rfl, rfl, fun _ => rfl⟩, rfl, by decide +kernel, hfirst⟩
  refine ⟨r, s, t, funext (fun key => ?_), hobject⟩
  exact retry_heals firstDay_capture.minutes firstDay_capture firstDay_labels (List.Perm.refl _)
    (List.Perm.refl _) (fun _ _ _ h => by cases h) hlife hstarts hruns hsreturned hstarts' rfl hrunt
    (of_decide_eq_true ht) key (fun g hg hno => absurd hg hno)

end SensorDataNormalization.RetryHeals
