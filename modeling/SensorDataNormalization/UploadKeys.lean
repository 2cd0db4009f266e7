import SensorDataNormalization.CycleIsolation
import SensorDataNormalization.PieceFlow

set_option autoImplicit false

/-! How often a cycle uploads each S3 key. -/
namespace SensorDataNormalization.UploadKeys
open PythonText WallClock PcapRecords StoreProgram WorkerPaths RawObjects Messages WorkerProgram
  ManagerProgram ProcessState PairSequence RawFiles NormalizerSystem SystemSteps CycleAccounting
  PairLedger DrainQuiescence BatchOwnership PieceFlow CycleIsolation

variable {n : ℕ} {env : Environment}

def endKeys (f : RawFile env) : List Str :=
  f.ends.map (fun second => f.stream.endKey env.config (label env.clock second))

def midKeys (f : RawFile env) : List Str :=
  f.mids.map (fun second => f.stream.splitKey env.config (label env.clock second))

def boundaryKeys (files : List (RawFile env)) : List Str := files.flatMap endKeys

def middleKeys (files : List (RawFile env)) : List Str := files.flatMap midKeys

def uploadKeys (s : System n) : List Str := s.cycle.uploads.map (fun u => u.destination.key)

def managerKeys (s : System n) : List Str := (managerUploads s).map Destination.key

variable {B : Batch env} {number : ℕ} {s : System n}

theorem endPuts_keys (B : Batch env) (number : ℕ) :
    (endPuts B number).map (fun put => put.item.prefixPath) = boundaryKeys B.files := by
  rw [endPuts, boundaryKeys, ← B.tasks_files number, List.map_flatMap, List.flatMap_map]
  refine List.flatMap_congr (fun t _ => ?_)
  rw [List.map_map]
  rfl

theorem midDestinations_keys (B : Batch env) (number : ℕ) :
    (midDestinations B number).map Destination.key = middleKeys B.files := by
  rw [midDestinations, middleKeys, ← B.tasks_files number, List.map_flatMap, List.flatMap_map]
  refine List.flatMap_congr (fun t _ => ?_)
  rw [List.map_map]
  rfl

/-- Two pieces meet in the buckets exactly when they go to the same S3 key. -/
theorem pairKey_eq_iff {a b : PairPut} (ha : B.PutOf number a) (hb : B.PutOf number b) :
    a.pairKey = b.pairKey ↔ a.item.prefixPath = b.item.prefixPath := by
  obtain ⟨_, f, second, -, -, rfl⟩ := ha
  obtain ⟨_, g, second', -, -, rfl⟩ := hb
  constructor
  · intro h
    obtain ⟨hs, hl⟩ := SensorStream.pairKey_injective h
    change f.stream.endKey _ _ = g.stream.endKey _ _
    rw [hs, hl]
  · intro h
    obtain ⟨hs, hl⟩ := SensorStream.endKey_injective h
    change f.stream.pairKey _ = g.stream.pairKey _
    rw [hs, hl]

theorem groups_nonempty {xs : List PairPut} {g : List PairPut}
    (hg : g ∈ (pairing PairPut.pairKey xs).groups) : ∃ a rest, g = a :: rest ∧ a ∈ xs := by
  obtain ⟨a, rest, rfl, -⟩ := groups_uniform hg
  refine ⟨a, rest, rfl, (groups_perm PairPut.pairKey xs).mem_iff.mp ?_⟩
  exact List.mem_flatten.mpr ⟨_, hg, List.mem_cons_self⟩

/-- A key of `m` pieces is uploaded `m / 2` times, rounded up. -/
theorem group_keys_count {xs : List PairPut} (hxs : ∀ put ∈ xs, B.PutOf number put) (key : Str) :
    (((pairing PairPut.pairKey xs).groups.map groupDestination).map Destination.key).count key =
      ((xs.map (fun put => put.item.prefixPath)).count key + 1) / 2 := by
  rw [List.map_map, List.count_eq_countP, List.countP_map, List.count_eq_countP, List.countP_map]
  by_cases hkey : ∃ p ∈ xs, p.item.prefixPath = key
  · obtain ⟨p, hp, rfl⟩ := hkey
    have hgroups : (pairing PairPut.pairKey xs).groups.countP
        ((fun k => k == p.item.prefixPath) ∘ (Destination.key ∘ groupDestination)) =
          (pairing PairPut.pairKey xs).groups.countP (leads PairPut.pairKey p.pairKey) := by
      apply List.countP_congr
      intro g hg
      obtain ⟨a, rest, rfl, ha⟩ := groups_nonempty hg
      have hiff := pairKey_eq_iff (hxs a ha) (hxs p hp)
      simp [groupDestination, leads, hiff]
    have hitems : xs.countP ((fun k => k == p.item.prefixPath) ∘ (fun put => put.item.prefixPath)) =
        xs.countP (fun a => decide (a.pairKey = p.pairKey)) := by
      apply List.countP_congr
      intro a ha
      have hiff := pairKey_eq_iff (hxs a ha) (hxs p hp)
      simp [hiff]
    rw [hgroups, hitems]
    exact groups_count PairPut.pairKey xs p.pairKey
  · have hgroups : (pairing PairPut.pairKey xs).groups.countP
        ((fun k => k == key) ∘ (Destination.key ∘ groupDestination)) = 0 := by
      apply List.countP_eq_zero.mpr
      intro g hg hk
      obtain ⟨a, rest, rfl, ha⟩ := groups_nonempty hg
      exact hkey ⟨a, ha, by simpa [groupDestination] using hk⟩
    have hitems : xs.countP ((fun k => k == key) ∘ (fun put => put.item.prefixPath)) = 0 := by
      apply List.countP_eq_zero.mpr
      intro a ha hk
      exact hkey ⟨a, ha, by simpa using hk⟩
    rw [hgroups, hitems]

theorem uploads_perm (uploads : List Upload) :
    (uploads.filter (fun u => decide (u.uploader = .manager)) ++
      uploads.filter (fun u => decide (u.uploader = .worker))).Perm uploads := by
  have hother : uploads.filter (fun u => decide (u.uploader = .worker)) =
      uploads.filter (fun u => !decide (u.uploader = .manager)) := by
    apply List.filter_congr
    intro u _
    cases u.uploader <;> rfl
  rw [hother]
  exact List.filter_append_perm _ _

/-- How often the manager and the workers of a cycle in which nothing failed upload a key. -/
theorem CleanInv.managerKeys_count (h : CleanInv B number s) (hclosed : ¬ Phase.isOpen s.phase)
    (hprogram : s.phase.program = []) (key : Str) :
    (managerKeys s).count key = ((boundaryKeys B.files).count key + 1) / 2 := by
  have hputs := (h.delivered hclosed).2
  rw [managerKeys, h.managed hclosed hprogram, putSequence, group_keys_count h.batch.dispatched,
    ← endPuts_keys B number]
  rw [(hputs.map (fun put => put.item.prefixPath)).count_eq]

theorem CleanInv.uploadKeys_count (h : CleanInv B number s) (hclosed : ¬ Phase.isOpen s.phase)
    (hprogram : s.phase.program = []) (key : Str) :
    (uploadKeys s).count key =
      ((boundaryKeys B.files).count key + 1) / 2 + (middleKeys B.files).count key := by
  have hworkers : ((workerUploads s).map Destination.key).count key =
      (middleKeys B.files).count key := by
    rw [((h.delivered hclosed).1.map Destination.key).count_eq, midDestinations_keys]
  have hmanager := CleanInv.managerKeys_count h hclosed hprogram key
  rw [uploadKeys, ← ((uploads_perm s.cycle.uploads).map (fun u => u.destination.key)).count_eq,
    List.map_append, List.count_append, ← hworkers, ← hmanager, managerKeys, managerUploads,
    workerUploads, List.map_map, List.map_map]
  rfl

theorem boundary_not_middle {files : List (RawFile env)} {key : Str}
    (h : key ∈ boundaryKeys files) : key ∉ middleKeys files := by
  intro hm
  obtain ⟨f, -, hf⟩ := List.mem_flatMap.mp h
  obtain ⟨g, -, hg⟩ := List.mem_flatMap.mp hm
  obtain ⟨a, -, ha⟩ := List.mem_map.mp hf
  obtain ⟨b, -, hb⟩ := List.mem_map.mp hg
  exact SensorStream.splitKey_ne_endKey _ _ _ _ _ (hb.trans ha.symm)

/-- Raw files with different cache folders: in a cycle in which nothing fails, the manager
uploads no key twice exactly when no key has more than two HEAD and TAIL pieces, and nobody
uploads a key twice exactly when moreover no two MID pieces have the same key. -/
theorem keys_uploaded_once_iff {files : List (RawFile env)} {request : Request}
    {answer : StorageAnswer} {s₀ s₁ s : System n}
    (hminutes : files.Pairwise (fun f g => ¬ f.object.SameMinute g.object))
    (hstart : Starts files request answer s₀ s₁) (run : Runs env Unfailing s₁ s)
    (hreturned : s.phase = .returned) :
    ((managerKeys s).Nodup ↔ ∀ key, (boundaryKeys files).count key ≤ 2) ∧
    ((uploadKeys s).Nodup ↔
      (∀ key, (boundaryKeys files).count key ≤ 2) ∧ (middleKeys files).Nodup) := by
  have hi := cleanInv_run (B := .ofMinutes files hminutes) hstart run
  have hclosed : ¬ Phase.isOpen s.phase := by rw [hreturned]; exact id
  have hprogram : s.phase.program = [] := by rw [hreturned]; rfl
  have hmanager := CleanInv.managerKeys_count hi hclosed hprogram
  have hall := CleanInv.uploadKeys_count hi hclosed hprogram
  change ∀ key, _ = ((boundaryKeys files).count key + 1) / 2 at hmanager
  change ∀ key, _ = ((boundaryKeys files).count key + 1) / 2 +
    (middleKeys files).count key at hall
  simp only [List.nodup_iff_count_le_one]
  constructor
  · constructor
    · intro h key
      have hone := h key
      rw [hmanager] at hone
      omega
    · intro h key
      have htwo := h key
      rw [hmanager]
      omega
  · constructor
    · intro h
      constructor
      · intro key
        have hone := h key
        rw [hall] at hone
        omega
      · intro key
        have hone := h key
        rw [hall] at hone
        omega
    · rintro ⟨hends, hmids⟩ key
      have htwo := hends key
      have hone := hmids key
      rw [hall]
      by_cases hkey : key ∈ boundaryKeys files
      · rw [List.count_eq_zero.mpr (boundary_not_middle hkey)]
        omega
      · rw [List.count_eq_zero.mpr hkey]
        omega

theorem count_le_of_mem {keys : List Str} {k : ℕ} (h : ∀ key ∈ keys, keys.count key ≤ k) :
    ∀ key, keys.count key ≤ k := by
  intro key
  by_cases hkey : key ∈ keys
  · exact h key hkey
  · rw [List.count_eq_zero.mpr hkey]
    exact Nat.zero_le k

theorem firstDay_stored : ∀ o ∈ sharedSecond.take 2, (hostOf sharedSecond).raw
    (o.1.filePath (hostOf sharedSecond).config) = some o.2 := by
  decide +kernel

def firstDayFiles : List (RawFile (hostOf sharedSecond)) :=
  filesOf (sharedSecond.take 2) firstDay_stored

theorem keys_uploaded_once_two_files : ∃ s : System 1,
    (managerKeys s).Nodup ∧ (uploadKeys s).Nodup ∧ (uploadKeys s).length = 2 := by
  have hrun : (NormalizerSystem.step (hostOf sharedSecond) (.polling : System 1) firstDay).any
      (fun s₁ => (runWhile (hostOf sharedSecond) Unfailing twoFilesInTurn s₁).any (fun s =>
        decide (s.phase = .returned) && decide ((uploadKeys s).length = 2))) = true := by
    decide +kernel
  obtain ⟨s₁, hstart, hs₁⟩ := (Option.any_eq_true _ _).mp hrun
  obtain ⟨s, hruns, hs⟩ := runs_of_any hs₁
  simp only [Bool.and_eq_true, decide_eq_true_eq] at hs
  have hstarts : Starts firstDayFiles _ _ (.polling : System 1) s₁ :=
    ⟨⟨rfl, rfl, fun _ => rfl⟩, rfl, by decide +kernel, hstart⟩
  have hkeys := keys_uploaded_once_iff (by decide +kernel) hstarts hruns hs.1
  have hboundary : ∀ key, (boundaryKeys firstDayFiles).count key ≤ 2 :=
    count_le_of_mem (by decide +kernel)
  exact ⟨s, hkeys.1.mpr hboundary, hkeys.2.mpr ⟨hboundary, by decide +kernel⟩, hs.2⟩

/-- Three objects with packets of one second, the second object wholly inside it. -/
def crowdedSecond : List (RawObject × Bytes) :=
  [(.gnss "20240101".toList "202401010000".toList stamp_first,
      captureOf [(1704067200, 1), (1704067201, 2)]),
    (.gnss "20240101".toList "202401010001".toList stamp_second, captureOf [(1704067201, 3)]),
    (.gnss "20240101".toList "202401010002".toList (by decide),
      captureOf [(1704067201, 4), (1704067202, 5)])]

def crowdedFiles : List (RawFile (hostOf crowdedSecond)) :=
  filesOf crowdedSecond (by decide +kernel)

/-- The swept third piece replaces the merged pair: of three packets of the second, S3 holds
one. -/
theorem third_piece_replaces_pair : ∃ (request : Request) (answer : StorageAnswer)
    (s₁ s : System 1) (key : Str),
    crowdedFiles.Pairwise (fun f g => ¬ f.object.SameMinute g.object) ∧
    Starts crowdedFiles request answer .polling s₁ ∧
    Runs (hostOf crowdedSecond) Unfailing s₁ s ∧ s.phase = .returned ∧
    (managerKeys s).count key = 2 ∧
    (crowdedFiles.flatMap (fun f => f.packets 1704067201)).length = 3 ∧
    (s.s3 key).map (fun bytes => (readPcapRecords bytes).2.length) = some 1 := by
  let request : Request := ⟨[], "20240101".toList, [], none⟩
  let answer := StorageAnswer.listing (listingOf crowdedSecond)
  let actions : List (Action 1) := inTurn 4 25 23
  have hrun : (NormalizerSystem.step (hostOf crowdedSecond) (.polling : System 1)
      (.request request answer)).any (fun s₁ =>
        (runWhile (hostOf crowdedSecond) Unfailing actions s₁).any (fun s =>
          decide (s.phase = .returned) && (managerKeys s).any (fun key =>
            decide ((managerKeys s).count key = 2) && decide ((s.s3 key).map (fun bytes =>
              (readPcapRecords bytes).2.length) = some 1)))) = true := by
    decide +kernel
  obtain ⟨s₁, hstart, hs₁⟩ := (Option.any_eq_true _ _).mp hrun
  obtain ⟨s, hruns, hs⟩ := runs_of_any hs₁
  simp only [Bool.and_eq_true, decide_eq_true_eq] at hs
  obtain ⟨key, -, hkey⟩ := List.any_eq_true.mp hs.2
  simp only [Bool.and_eq_true, decide_eq_true_eq] at hkey
  exact ⟨request, answer, s₁, s, key, by decide +kernel,
    ⟨⟨rfl, rfl, fun _ => rfl⟩, rfl, by decide +kernel, hstart⟩, hruns, hs.1, hkey.1,
    by decide +kernel, hkey.2⟩

end SensorDataNormalization.UploadKeys
