import SensorDataNormalization.PacketConservation
import SensorDataNormalization.PieceNames

set_option autoImplicit false

/-! When the pieces of two packet seconds of one sensor share a name. -/
namespace SensorDataNormalization.NameCollisions
open PythonText SensorRegistry WallClock PcapFilename PcapRecords PcapSplit StoreProgram WorkerPaths
  RawObjects Messages WorkerProgram RawFiles UploadKeys CycleIsolation PacketConservation PieceNames

variable {env : Environment}

/-- The pieces share a file within one split, the pair key that is sent, or the key under
which they are stored. -/
def Confused (env : Environment) (f g : Capture) (vehicleId vehicleId' : Str)
    (p q : SplitedPcap) : Prop :=
  (f = g ∧ p.savePath = q.savePath) ∨
    (∃ key, sentPairKey vehicleId p = some key ∧ sentPairKey vehicleId' q = some key) ∨
      ∃ key, uploadKey env.config vehicleId p = some key ∧
        uploadKey env.config vehicleId' q = some key

def SameSensor (f g : Capture) : Prop :=
  vehicleIdOf f.file.filePath = vehicleIdOf g.file.filePath ∧
    (parse f.file.fileName).map (·.moduleName) = (parse g.file.fileName).map (·.moduleName)

section Pieces
variable {f g : Capture} {folder folder' m m' v v' : Str} {a b : ℕ} {p q : SplitedPcap}
  (hp : CutSpec env f folder m a p) (hq : CutSpec env g folder' m' b q)
include hp hq

theorem sentPairKey_shared :
    (∃ key, sentPairKey v p = some key ∧ sentPairKey v' q = some key) ↔
      (p.position ≠ .MID ∧ q.position ≠ .MID) ∧ (v = v' ∧ m = m') ∧
        label env.clock a = label env.clock b := by
  unfold sentPairKey
  by_cases hpm : p.position = .MID
  · simp [hpm]
  by_cases hqm : q.position = .MID
  · simp [hqm]
  rw [if_neg hpm, if_neg hqm, ← pairKey_iff hp.named hq.named]
  constructor
  · rintro ⟨key, hkey, hkey'⟩
    exact ⟨⟨hpm, hqm⟩, Option.some.inj (hkey.trans hkey'.symm)⟩
  · rintro ⟨-, hkey⟩
    exact ⟨_, rfl, congrArg some hkey.symm⟩

theorem uploadKey_shared :
    (∃ key, uploadKey env.config v p = some key ∧ uploadKey env.config v' q = some key) ↔
      (p.position = .MID ↔ q.position = .MID) ∧ (v = v' ∧ m = m') ∧
        label env.clock a = label env.clock b := by
  have hmid : (decide (p.position = .MID) = decide (q.position = .MID)) ↔
      (p.position = .MID ↔ q.position = .MID) := decide_eq_decide
  rw [hp.named.uploadKey_eq, hq.named.uploadKey_eq, ← hmid,
    ← objectKey_iff hp.registered hq.registered]
  constructor
  · rintro ⟨key, hkey, hkey'⟩
    exact Option.some.inj (hkey.trans hkey'.symm)
  · intro hkey
    exact ⟨_, rfl, congrArg some hkey.symm⟩

end Pieces

/-- Two packet seconds share no name exactly when the clock of the host shows different dates or
times for them, they are of different sensors, or they are in two files and inside only one. -/
theorem names_apart_iff {f g : Capture} {v v' : Str} {a b : ℕ} {p q : SplitedPcap}
    (hp : CutFrom env f v a p) (hq : CutFrom env g v' b q) :
    ¬ Confused env f g v v' p q ↔
      env.clock a ≠ env.clock b ∨ ¬ SameSensor f g ∨
        (f ≠ g ∧ ¬ (Interior f.contents a ↔ Interior g.contents b)) := by
  obtain ⟨folder, hfolder⟩ := cutFrom_spec env f v
  obtain ⟨folder', hfolder'⟩ := cutFrom_spec env g v'
  obtain ⟨parts, hparse, hps⟩ := hfolder a p hp
  obtain ⟨parts', hparse', hqs⟩ := hfolder' b q hq
  have hsensor : SameSensor f g ↔ v = v' ∧ parts.moduleName = parts'.moduleName := by
    simp [SameSensor, hp.vehicle, hq.vehicle, hparse, hparse']
  have hsame : f = g → SameSensor f g := by
    rintro rfl
    exact ⟨rfl, rfl⟩
  have hsave : f = g → (p.savePath = q.savePath ↔ label env.clock a = label env.clock b) := by
    rintro rfl
    obtain ⟨rfl, -⟩ := hsensor.mp ⟨rfl, rfl⟩
    obtain ⟨parts'', hparse'', hqs'⟩ := hfolder b q hq
    rw [hparse] at hparse''
    cases hparse''
    rw [hps.savePath_eq, hqs'.savePath_eq]
    constructor
    · intro h
      simp only [List.append_cancel_left_eq, List.cons.injEq, true_and] at h
      exact (splitName_injective h).2
    · intro h
      rw [h]
  have hconfused : Confused env f g v v' p q ↔ label env.clock a = label env.clock b ∧
      SameSensor f g ∧ (f = g ∨ (p.position = .MID ↔ q.position = .MID)) := by
    rw [Confused, sentPairKey_shared hps hqs, uploadKey_shared hps hqs, ← hsensor]
    constructor
    · rintro (⟨hfg, h⟩ | ⟨⟨hpm, hqm⟩, hs, hl⟩ | ⟨h, hs, hl⟩)
      · exact ⟨(hsave hfg).mp h, hsame hfg, Or.inl hfg⟩
      · exact ⟨hl, hs, Or.inr (iff_of_false hpm hqm)⟩
      · exact ⟨hl, hs, Or.inr h⟩
    · rintro ⟨hl, hs, hfg | h⟩
      · exact Or.inl ⟨hfg, (hsave hfg).mpr hl⟩
      · exact Or.inr (Or.inr ⟨h, hs, hl⟩)
  rw [hconfused, label_eq_iff, hps.position_iff, hqs.position_iff, not_and_or, not_and_or, not_or]

/-! ## Raw files -/

def captureAt (f : RawFile env) : Capture := ⟨f.entry, f.contents, f.object.fileName_no_slash⟩

theorem cutFrom_cut (f : RawFile env) {second : ℕ} (h : second ∈ f.seconds) :
    CutFrom env (captureAt f) f.stream.vehicle second (f.cut second).piece where
  vehicle := f.vehicleIdOf_entry
  second_mem := h
  split := ⟨f.object.parts, f.template.text, f.object.parse_fileName, f.buildSplitOutTemplate_entry,
    congrArg (Option.map PieceFile.piece) (splitSecond_template env.clock f.stream.moduleName
      f.template f.contents _ _ second)⟩

theorem names_apart_first_day : ∃ f ∈ firstDayFiles, ∃ p q,
    CutFrom (hostOf sharedSecond) (captureAt f) f.stream.vehicle 1704067200 p ∧
    CutFrom (hostOf sharedSecond) (captureAt f) f.stream.vehicle 1704067201 q ∧
    ¬ Confused (hostOf sharedSecond) (captureAt f) (captureAt f) f.stream.vehicle
      f.stream.vehicle p q := by
  have hfile : ∃ f ∈ firstDayFiles, 1704067200 ∈ f.seconds ∧ 1704067201 ∈ f.seconds := by
    decide +kernel
  obtain ⟨f, hf, ha, hb⟩ := hfile
  have hclock : utcClock 1704067200 ≠ utcClock 1704067201 :=
    fun h => absurd (congrArg DateTime.second h) (by decide)
  exact ⟨f, hf, _, _, cutFrom_cut f ha, cutFrom_cut f hb,
    (names_apart_iff (cutFrom_cut f ha) (cutFrom_cut f hb)).mpr (Or.inl hclock)⟩

/-- In the hour that the clock of the host shows twice, two seconds share every name. -/
theorem repeated_hour_shares_names : ∃ f ∈ repeatedHourFiles, ∃ p q,
    CutFrom repeatedHourHost (captureAt f) f.stream.vehicle 1729989000 p ∧
    CutFrom repeatedHourHost (captureAt f) f.stream.vehicle 1729992600 q ∧
    p.savePath = q.savePath ∧
    sentPairKey f.stream.vehicle p = sentPairKey f.stream.vehicle q ∧
    Confused repeatedHourHost (captureAt f) (captureAt f) f.stream.vehicle f.stream.vehicle p q := by
  have hfile : ∃ f ∈ repeatedHourFiles, (1729989000 ∈ f.seconds ∧ 1729992600 ∈ f.seconds) ∧
      (f.cut 1729989000).piece.position ≠ .MID ∧ (f.cut 1729992600).piece.position ≠ .MID := by
    decide +kernel
  obtain ⟨f, hf, ⟨ha, hb⟩, hends⟩ := hfile
  have hlabel : label repeatedHourHost.clock 1729989000 =
      label repeatedHourHost.clock 1729992600 := Label.text_injective (by decide +kernel)
  have hsave : (f.cut 1729989000).piece.savePath = (f.cut 1729992600).piece.savePath :=
    congrArg f.template.pathAt hlabel
  obtain ⟨folder, hspec⟩ := cutFrom_spec repeatedHourHost (captureAt f) f.stream.vehicle
  obtain ⟨parts, hparse, hp⟩ := hspec _ _ (cutFrom_cut f ha)
  obtain ⟨parts', hparse', hq⟩ := hspec _ _ (cutFrom_cut f hb)
  rw [hparse] at hparse'
  cases hparse'
  obtain ⟨key, hkey, hkey'⟩ := (sentPairKey_shared hp hq).mpr ⟨hends, ⟨rfl, rfl⟩, hlabel⟩
  exact ⟨f, hf, _, _, cutFrom_cut f ha, cutFrom_cut f hb, hsave, hkey.trans hkey'.symm,
    Or.inl ⟨rfl, hsave⟩⟩

end SensorDataNormalization.NameCollisions
