import SensorDataNormalization.SecondObjects

set_option autoImplicit false
namespace SensorDataNormalization.PacketConservation
open PythonText WallClock PcapRecords StoreProgram WorkerPaths RawObjects Messages WorkerProgram
  ManagerProgram RawFiles NormalizerSystem SystemSteps CycleAccounting CycleIsolation
  BatchOwnership PieceFlow UploadKeys SecondObjects

variable {n : ℕ} {env : Environment}

def rawPackets (files : List (RawFile env)) (stream : SensorStream) (second : ℕ) : List Record :=
  (files.filter (fun f => decide (f.stream = stream))).flatMap (fun f => f.packets second)

/-- The two S3 keys that a second of a stream can have. -/
def secondKeys (env : Environment) (stream : SensorStream) (second : ℕ) : List Str :=
  [stream.splitKey env.config (label env.clock second),
    stream.endKey env.config (label env.clock second)]

def storedPackets (env : Environment) (s : System n) (stream : SensorStream) (second : ℕ) :
    List Record :=
  ((secondKeys env stream second).filter (fun key => (uploadKeys s).contains key)).flatMap
    (fun key => (readPcapRecords ((s.s3 key).getD [])).2)

theorem packets_nil {f : RawFile env} {second : ℕ} (h : second ∉ f.seconds) :
    f.packets second = [] := by
  apply List.filter_eq_nil_iff.mpr
  intro r hr hsecond
  exact h (PcapMerge.mem_sortedSeconds.mpr ⟨r, hr, of_decide_eq_true hsecond⟩)

theorem rawPackets_holders (files : List (RawFile env)) (stream : SensorStream) (second : ℕ) :
    rawPackets files stream second =
      (holders files stream second).flatMap (fun f => f.packets second) := by
  rw [rawPackets, holders]
  induction files with
  | nil => rfl
  | cons f rest ih =>
    rw [List.filter_cons, List.filter_cons]
    by_cases hstream : f.stream = stream
    · by_cases hsecond : second ∈ f.seconds
      · simp [hstream, hsecond, ih]
      · simp [hstream, hsecond, ih, packets_nil hsecond]
    · simp [hstream, ih]

section Objects
variable {B : Batch env} {number : ℕ} {start : Store Str Bytes} {s : System n} {f : RawFile env}
  {second : ℕ}

theorem written_secondKeys (hd : Delivering B number start s) (hclosed : ¬ Phase.isOpen s.phase)
    (hprogram : s.phase.program = []) (hc : Consecutive B.files)
    (hlabels : DistinctLabels B.files) (hf : f ∈ B.files) (hsecond : second ∈ f.seconds) :
    (secondKeys env f.stream second).filter (fun key => (uploadKeys s).contains key) =
      [objectKey f second] := by
  have hcontains : (fun key => (uploadKeys s).contains key) =
      fun key => decide (key ∈ uploadKeys s) := by
    funext key
    exact List.contains_eq_mem key (uploadKeys s)
  have hwritten : objectKey f second ∈ uploadKeys s :=
    (written_key hd hclosed hprogram).mpr ⟨f, hf, second, hsecond, rfl⟩
  have honly : ∀ key ∈ secondKeys env f.stream second, key ∈ uploadKeys s →
      key = objectKey f second := by
    intro key hkey hmem
    obtain ⟨g, hg, y, hy, hkeyg⟩ := (written_key hd hclosed hprogram).mp hmem
    have hpair : g.stream = f.stream ∧ label env.clock y = label env.clock second := by
      simp only [secondKeys, List.mem_cons, List.not_mem_nil, or_false] at hkey
      unfold objectKey at hkeyg
      split_ifs at hkeyg
      · rcases hkey with rfl | rfl
        · exact SensorStream.splitKey_injective hkeyg.symm
        · exact absurd hkeyg.symm (SensorStream.splitKey_ne_endKey _ _ _ _ _)
      · rcases hkey with rfl | rfl
        · exact absurd hkeyg (SensorStream.splitKey_ne_endKey _ _ _ _ _)
        · exact SensorStream.endKey_injective hkeyg.symm
    have hys := hlabels g hg f hf hpair.1 y hy second hsecond hpair.2
    subst hys
    rw [hkeyg]
    exact hc.objectKey_same hf hg hpair.1 hsecond hy
  have hfilter : (secondKeys env f.stream second).filter (fun key => decide (key ∈ uploadKeys s)) =
      (secondKeys env f.stream second).filter (fun key => decide (key = objectKey f second)) := by
    apply List.filter_congr
    intro key hkey
    apply decide_eq_decide.mpr
    constructor
    · exact honly key hkey
    · rintro rfl
      exact hwritten
  have hne := SensorStream.splitKey_ne_endKey env.config f.stream f.stream
    (label env.clock second) (label env.clock second)
  rw [hcontains, hfilter, secondKeys, objectKey]
  cases f.isMid second with
  | true => simp [hne.symm]
  | false => simp [hne]

theorem stored_packets (hd : Delivering B number start s) (hclosed : ¬ Phase.isOpen s.phase)
    (hprogram : s.phase.program = []) (hc : Consecutive B.files)
    (hlabels : DistinctLabels B.files) (hf : f ∈ B.files) (hsecond : second ∈ f.seconds) :
    (storedPackets env s f.stream second).Perm (rawPackets B.files f.stream second) := by
  obtain ⟨order, hperm, -, hstored⟩ := stored_object (R := fun _ _ => True) hd hclosed hprogram hc
    hlabels (fun _ _ _ _ _ _ _ => trivial) hf hsecond
  rw [storedPackets, written_secondKeys hd hclosed hprogram hc hlabels hf hsecond,
    List.flatMap_singleton, hstored, Option.getD_some, object_records hperm, rawPackets_holders]
  exact hperm.flatMap_right _

theorem objectKey_mem (f : RawFile env) (second : ℕ) :
    objectKey f second ∈ secondKeys env f.stream second := by
  unfold objectKey secondKeys
  split_ifs <;> simp

end Objects

/-- A cycle without faults over consecutive files stores every packet once, in an object of
its second, when different packet seconds of a sensor have different wall-clock labels. -/
theorem packets_conserved {files : List (RawFile env)} {request : Request}
    {answer : StorageAnswer} {s₀ s₁ s : System n} (hc : Consecutive files)
    (hlabels : DistinctLabels files) (hstart : Starts files request answer s₀ s₁)
    (run : Runs env Faultless s₁ s) (hreturned : s.phase = .returned) :
    (∀ f ∈ files, ∀ second ∈ f.seconds,
      (storedPackets env s f.stream second).Perm (rawPackets files f.stream second)) ∧
    ∀ key ∈ uploadKeys s, ∃ f ∈ files, ∃ second ∈ f.seconds,
      key ∈ secondKeys env f.stream second := by
  have hd := delivering_run (B := .ofMinutes files hc.minutes) hlabels.labelled hstart run
  have hclosed : ¬ Phase.isOpen s.phase := by rw [hreturned]; exact id
  have hprogram : s.phase.program = [] := by rw [hreturned]; rfl
  constructor
  · intro f hf second hsecond
    exact stored_packets hd hclosed hprogram hc hlabels hf hsecond
  · intro key hkey
    obtain ⟨f, hf, second, hsecond, rfl⟩ := (written_key hd hclosed hprogram).mp hkey
    exact ⟨f, hf, second, hsecond, objectKey_mem f second⟩

instance (f g : RawFile env) : Decidable (Before f g) :=
  inferInstanceAs (Decidable (∀ a ∈ f.seconds, ∀ b ∈ g.seconds, a ≤ b))

theorem shared_of_length {files : List (RawFile env)} (h : files.length ≤ 2)
    (stream : SensorStream) (second : ℕ) : (holders files stream second).length ≤ 2 :=
  (List.length_filter_le _ _).trans h

theorem distinctLabels_of_text {files : List (RawFile env)} (h : ∀ f ∈ files, ∀ g ∈ files,
    f.stream = g.stream → ∀ a ∈ f.seconds, ∀ b ∈ g.seconds,
      (label env.clock a).text = (label env.clock b).text → a = b) : DistinctLabels files :=
  fun f hf g hg hs a ha b hb hab => h f hf g hg hs a ha b hb (congrArg Label.text hab)

theorem firstDay_consecutive : Consecutive firstDayFiles where
  minutes := by decide +kernel
  ordered := by decide +kernel
  shared := shared_of_length (by decide +kernel)

theorem firstDay_labels : DistinctLabels firstDayFiles :=
  distinctLabels_of_text (by decide +kernel)

theorem packets_conserved_two_files : ∃ s : System 1, ∃ f ∈ firstDayFiles,
    1704067201 ∈ f.seconds ∧ (rawPackets firstDayFiles f.stream 1704067201).length = 2 ∧
      (storedPackets (hostOf sharedSecond) s f.stream 1704067201).Perm
        (rawPackets firstDayFiles f.stream 1704067201) := by
  have hrun : (NormalizerSystem.step (hostOf sharedSecond) (.polling : System 1) firstDay).any
      (fun s₁ => (runWhile (hostOf sharedSecond) Faultless twoFilesInTurn s₁).any (fun s =>
        decide (s.phase = .returned))) = true := by
    decide +kernel
  obtain ⟨s₁, hstart, hs₁⟩ := (Option.any_eq_true _ _).mp hrun
  obtain ⟨s, hruns, hs⟩ := runs_of_any hs₁
  have hstarts : Starts firstDayFiles _ _ (.polling : System 1) s₁ :=
    ⟨⟨rfl, rfl, fun _ => rfl⟩, rfl, by decide +kernel, hstart⟩
  have hfile : ∃ f ∈ firstDayFiles, 1704067201 ∈ f.seconds ∧
      (rawPackets firstDayFiles f.stream 1704067201).length = 2 := by
    decide +kernel
  obtain ⟨f, hf, hsecond, hlength⟩ := hfile
  exact ⟨s, f, hf, hsecond, hlength, (packets_conserved firstDay_consecutive firstDay_labels hstarts
    hruns (of_decide_eq_true hs)).1 f hf _ hsecond⟩

/-- A host one hour ahead of UTC until `change`, and in UTC from then on. -/
def setBackClock (change : ℕ) : HostClock :=
  fun s => utcClock (if s < change then s + 3600 else s)

/-- One object with packets half an hour before and half an hour after the change. -/
def repeatedHour : List (RawObject × Bytes) :=
  [(.gnss "20241027".toList "202410270130".toList (by decide),
    captureOf [(1729989000, 1), (1729992600, 2)])]

def repeatedHourHost : Environment :=
  { hostOf repeatedHour with clock := setBackClock 1729990800 }

def repeatedHourFiles : List (RawFile repeatedHourHost) :=
  filesOf repeatedHour (by decide +kernel)

/-- The clock of the host is set back: two seconds an hour apart have one label, the packet of
the first is lost and that of the second is stored twice. -/
theorem repeated_hour_loses_packet : ∃ (request : Request) (answer : StorageAnswer)
    (s₁ s : System 1), Consecutive repeatedHourFiles ∧
    Starts repeatedHourFiles request answer .polling s₁ ∧
    Runs repeatedHourHost Faultless s₁ s ∧ s.phase = .returned ∧
    ∃ f ∈ repeatedHourFiles, ∃ second ∈ f.seconds,
      ¬ (storedPackets repeatedHourHost s f.stream second).Perm
        (rawPackets repeatedHourFiles f.stream second) := by
  let request : Request := ⟨[], "20241027".toList, [], none⟩
  let answer := StorageAnswer.listing (listingOf repeatedHour)
  let actions : List (Action 1) := inTurn 2 10 12
  have hrun : (NormalizerSystem.step repeatedHourHost (.polling : System 1)
      (.request request answer)).any (fun s₁ =>
        (runWhile repeatedHourHost Faultless actions s₁).any (fun s =>
          decide (s.phase = .returned) && repeatedHourFiles.any (fun f =>
            f.seconds.any (fun second => decide (¬ (storedPackets repeatedHourHost s f.stream
              second).Perm (rawPackets repeatedHourFiles f.stream second)))))) = true := by
    decide +kernel
  obtain ⟨s₁, hstart, hs₁⟩ := (Option.any_eq_true _ _).mp hrun
  obtain ⟨s, hruns, hs⟩ := runs_of_any hs₁
  simp only [Bool.and_eq_true, decide_eq_true_eq] at hs
  obtain ⟨f, hf, hsecond⟩ := List.any_eq_true.mp hs.2
  obtain ⟨second, hsecond, hlost⟩ := List.any_eq_true.mp hsecond
  have hconsecutive : Consecutive repeatedHourFiles :=
    { minutes := by decide +kernel
      ordered := by decide +kernel
      shared := shared_of_length (by decide +kernel) }
  exact ⟨request, answer, s₁, s, hconsecutive,
    ⟨⟨rfl, rfl, fun _ => rfl⟩, rfl, by decide +kernel, hstart⟩, hruns, hs.1, f, hf, second, hsecond,
    of_decide_eq_true hlost⟩

end SensorDataNormalization.PacketConservation
