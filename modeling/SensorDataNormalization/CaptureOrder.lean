import SensorDataNormalization.PacketConservation

set_option autoImplicit false

/-! The order of the packets in merged seconds, and how it depends on the interleaving. -/
namespace SensorDataNormalization.CaptureOrder
open PythonText WallClock PcapRecords PcapMerge StoreProgram WorkerPaths RawObjects Messages
  WorkerProgram ManagerProgram ProcessState PairBuckets PairSequence RawFiles NormalizerSystem
  SystemSteps CycleAccounting CycleIsolation PairLedger DrainQuiescence BatchOwnership PieceFlow
  UploadKeys PieceContents SecondObjects PacketConservation

variable {n : ℕ} {env : Environment}

/-- The files of each stream, in the order of a capture. -/
structure Capture (files : List (RawFile env)) : Prop where
  minutes : files.Pairwise (fun f g => ¬ f.object.SameMinute g.object)
  ordered : files.Pairwise (fun f g => f.stream = g.stream → Before f g)
  shared : ∀ stream second, (holders files stream second).length ≤ 2

/-- No piece that waits is from a later file than the piece that joins it. -/
def MeetsInOrder (files capture : List (RawFile env)) (buckets : PairBuckets Str PairPut) :
    Body → Prop
  | .pairPut put => ∀ waiting ∈ get put.pairKey buckets,
      ∀ f ∈ fileOf files waiting, ∀ g ∈ fileOf files put, [f, g].Sublist capture
  | _ => True

/-- A step without faults; when the manager takes a message, its piece is not from an earlier
file than the piece that waits for it. -/
structure Timely (files capture : List (RawFile env)) (t : System n) (a : Action n)
    (_ : System n) : Prop where
  faultless : faultless a
  in_order : ∀ b ∈ t.mailbox.head?, MeetsInOrder files capture t.buckets b

instance (files capture : List (RawFile env)) (buckets : PairBuckets Str PairPut) (b : Body) :
    Decidable (MeetsInOrder files capture buckets b) := by
  cases b <;> unfold MeetsInOrder <;> infer_instance

instance (files capture : List (RawFile env)) (t : System n) (a : Action n) (u : System n) :
    Decidable (Timely files capture t a u) :=
  decidable_of_iff (faultless a ∧ ∀ b ∈ t.mailbox.head?, MeetsInOrder files capture t.buckets b)
    ⟨fun h => ⟨h.1, h.2⟩, fun h => ⟨h.1, h.2⟩⟩

def captured (capture : List (RawFile env)) (stream : SensorStream) : List Record :=
  (capture.filter (fun f => decide (f.stream = stream))).flatMap
    (fun f => (readPcapRecords f.contents).2)

/-! ## The order of the files of a second -/

theorem eq_of_sublists {α : Type} {a b : α} {zs : List α} (hzs : zs.Nodup)
    (hab : [a, b].Sublist zs) (hba : [b, a].Sublist zs) : a = b := by
  induction zs with
  | nil => cases hab
  | cons z zs ih =>
    obtain ⟨hz, hzs⟩ := List.nodup_cons.mp hzs
    cases List.sublist_cons_iff.mp hab with
    | inl htail =>
      cases List.sublist_cons_iff.mp hba with
      | inl htail' => exact ih hzs htail htail'
      | inr hhead =>
        obtain ⟨rest, hrest, -⟩ := hhead
        cases hrest
        exact absurd (htail.subset (List.mem_cons_of_mem _ List.mem_cons_self)) hz
    | inr hhead =>
      obtain ⟨rest, hrest, -⟩ := hhead
      cases hrest
      cases List.sublist_cons_iff.mp hba with
      | inl htail => exact absurd (htail.subset (List.mem_cons_of_mem _ List.mem_cons_self)) hz
      | inr hhead =>
        obtain ⟨rest, hrest, -⟩ := hhead
        cases hrest
        rfl

/-- A list in the order of `zs` that has the elements of a sublist of `zs` is that sublist. -/
theorem eq_of_order {α : Type} {xs ys zs : List α} (hzs : zs.Nodup) (hys : ys.Sublist zs)
    (hxs : xs.Pairwise (fun a b => [a, b].Sublist zs)) (hperm : xs.Perm ys) : xs = ys := by
  have hordered : ys.Pairwise (fun a b => [a, b].Sublist zs) :=
    List.pairwise_iff_forall_sublist.mpr (fun h => h.trans hys)
  exact List.Perm.eq_of_pairwise (fun a b _ _ hab hba => eq_of_sublists hzs hab hba) hxs hordered
    hperm

theorem Capture.consecutive {files capture : List (RawFile env)} (h : Capture capture)
    (hperm : files.Perm capture) : Consecutive files :=
  Consecutive.perm
    { minutes := h.minutes
      ordered := h.ordered.imp (fun hfg hs => Or.inl (hfg hs))
      shared := h.shared } hperm

theorem holders_captured (capture : List (RawFile env)) (stream : SensorStream) (second : ℕ) :
    ((holders capture stream second).flatMap (fun f => f.packets second)).Sublist
      (captured capture stream) := by
  induction capture with
  | nil => exact List.Sublist.refl _
  | cons f rest ih =>
    have hfile : (f.packets second).Sublist (readPcapRecords f.contents).2 := List.filter_sublist
    unfold holders captured at ih ⊢
    rw [List.filter_cons, List.filter_cons]
    by_cases hstream : f.stream = stream
    · by_cases hsecond : second ∈ f.seconds
      · simpa [hstream, hsecond] using hfile.append ih
      · simpa [hstream, hsecond] using ih.trans (List.sublist_append_right _ _)
    · simpa [hstream] using ih

/-! ## Runs in capture order -/

def PairsInOrder (files capture : List (RawFile env)) (s : System n) : Prop :=
  ∀ a b, [a, b] ∈ (putSequence s.cycle).pairs → ∀ f g, fileOf files a = some f →
    fileOf files b = some g → [f, g].Sublist capture

section Runs
variable {B : Batch env} {capture : List (RawFile env)} {number : ℕ} {start : Store Str Bytes}
  {s s' : System n}

theorem sequence_publish (who : Uploader) (out : Output Bytes Destination PairPut)
    (t : System n) : putSequence (t.publish who out).cycle = putSequence t.cycle := by
  rw [putSequence, putSequence, publish_dispatched]

theorem pairsInOrder_step {files : List (RawFile env)} {a : Action n} (hl : Ledger s)
    (hi : PairsInOrder files capture s) (h : Move env s a s') (hok : Timely files capture s a s') :
    PairsInOrder files capture s' := by
  cases h with
  | reject => exact hok.faultless.elim
  | begin => exact hok.faultless.elim
  | manage =>
    unfold PairsInOrder
    rw [sequence_publish]
    exact hi
  | work =>
    unfold PairsInOrder
    rw [sequence_publish]
    exact hi
  | @dispatch b mailbox hphase hmail =>
    have hopen : Phase.isOpen s.phase := by rw [hphase]; trivial
    have hnext : ∀ t : System n, t.cycle.dispatched = s.cycle.dispatched ++ [b] →
        (putSequence t.cycle).pairs = (putSequence s.cycle).pairs ++ ((bodyPut b).bind (fun put =>
          (PairBuckets.put put.pairKey put s.buckets).2)).toList := by
      intro t ht
      rw [putSequence, ht, puts_concat]
      cases hb : bodyPut b with
      | none => simp [putSequence]
      | some put =>
        rw [Option.toList_some, pairing_concat, hl.applied hopen]
        rfl
    have hdispatched : ∀ t : System n, (System.dispatchMessage b t).cycle.dispatched =
        t.cycle.dispatched := by
      intro t
      cases b <;> rfl
    intro x y hpair f g hf hg
    rw [hnext _ (hdispatched _), List.mem_append] at hpair
    cases hpair with
    | inl hold => exact hi x y hold f g hf hg
    | inr hnew =>
      obtain ⟨put, hput, hpaired⟩ := Option.bind_eq_some_iff.mp (Option.mem_toList.mp hnew)
      have hunmatched : Unmatched s.buckets := by
        rw [hl.applied hopen]
        exact (pairing_spec PairPut.pairKey _).unmatched
      have horder := hok.in_order b (by rw [hmail]; rfl)
      obtain ⟨-, hnone⟩ | ⟨before, after, waiting, hbuckets, hsome⟩ :=
        put_cases hunmatched put.pairKey put
      · rw [hnone] at hpaired
        cases hpaired
      · rw [hsome] at hpaired
        cases hpaired
        have hkeys := hunmatched.keys_nodup
        rw [hbuckets, List.map_append, List.map_cons] at hkeys
        have hbefore : y.pairKey ∉ before.map Prod.fst := fun hm =>
          (List.nodup_append.mp hkeys).2.2 _ hm _ List.mem_cons_self rfl
        have hget : get y.pairKey s.buckets = [x] := by
          rw [hbuckets]
          exact get_append hbefore
        cases b with
        | pairPut p =>
          cases hput
          exact horder x (by rw [hget]; exact List.mem_singleton_self x) f hf g hg
        | _ => cases hput
  | _ => exact hi

theorem pairsInOrder_begin {files : List (RawFile env)} {request : Request}
    {answer : StorageAnswer} {s₀ : System n} (h : Starts files request answer s₀ s) :
    PairsInOrder files capture s := by
  rw [h.eq]
  intro a b hpair
  cases hpair

theorem timely_run (hlabels : ∀ f ∈ B.files, Labelled f) {request : Request}
    {answer : StorageAnswer} {s₀ s₁ : System n} (h : Starts B.files request answer s₀ s₁)
    (run : Runs env (Timely B.files capture) s₁ s) :
    Delivering B (s₀.cycle.number + 1) s₀.s3 s ∧ PairsInOrder B.files capture s :=
  run.invariant (fun t => Delivering B (s₀.cycle.number + 1) s₀.s3 t ∧
      PairsInOrder B.files capture t) ⟨delivering_begin h, pairsInOrder_begin h⟩
    (fun hi hmove hok => ⟨delivering_step hlabels hi.1 hmove hok.faultless,
      pairsInOrder_step hi.1.clean.quiet.ledger hi.2 hmove hok⟩)

theorem timely_store {files : List (RawFile env)} {request : Request} {answer : StorageAnswer}
    {s₀ s₁ : System n} (hc : Capture capture) (hlabels : DistinctLabels capture)
    (hfiles : files.Perm capture) (h : Starts files request answer s₀ s₁)
    (run : Runs env (Timely files capture) s₁ s) (hreturned : s.phase = .returned) :
    (∀ f ∈ capture, ∀ second ∈ f.seconds, s.s3 (objectKey f second) = some (mergedBytes
      ((holders capture f.stream second).map (fun g => (g.cut second).contents)))) ∧
    ∀ key, (∀ f ∈ capture, ∀ second ∈ f.seconds, key ≠ objectKey f second) →
      s.s3 key = s₀.s3 key := by
  have hconsecutive := hc.consecutive hfiles
  have hdistinct := hlabels.perm hfiles
  have hclosed : ¬ Phase.isOpen s.phase := by rw [hreturned]; exact id
  have hprogram : s.phase.program = [] := by rw [hreturned]; rfl
  obtain ⟨hd, horder⟩ := timely_run (B := .ofMinutes files hconsecutive.minutes)
    hdistinct.labelled h run
  constructor
  · intro f hf second hsecond
    obtain ⟨order, hperm, hpairs, hstored⟩ := stored_object (R := fun f g => [f, g].Sublist capture)
      hd hclosed hprogram hconsecutive hdistinct horder (hfiles.mem_iff.mpr hf) hsecond
    have hholders : order.Perm (holders capture f.stream second) :=
      hperm.trans (hfiles.filter _)
    have hsame := eq_of_order (hc.consecutive (List.Perm.refl _)).nodup List.filter_sublist hpairs
      hholders
    rw [hstored, hsame, holders]
  · intro key hkey
    exact kept_key hd hclosed hprogram (fun f hf => hkey f (hfiles.mem_iff.mp hf))

end Runs

/-- Any two runs in capture order over the same files leave the same objects, and each object
holds the packets of its second in the order of the capture. -/
theorem result_independent_of_timing {capture files files' : List (RawFile env)}
    (hc : Capture capture) (hlabels : DistinctLabels capture) (hfiles : files.Perm capture)
    (hfiles' : files'.Perm capture) {m : ℕ} {request request' : Request}
    {answer answer' : StorageAnswer} {s₀ s₁ s : System m} {t₀ t₁ t : System n}
    (hs : Starts files request answer s₀ s₁) (ht : Starts files' request' answer' t₀ t₁)
    (hstore : s₀.s3 = t₀.s3) (srun : Runs env (Timely files capture) s₁ s)
    (trun : Runs env (Timely files' capture) t₁ t) (hsreturned : s.phase = .returned)
    (htreturned : t.phase = .returned) :
    s.s3 = t.s3 ∧ ∀ f ∈ capture, ∀ second ∈ f.seconds, ∃ object,
      s.s3 (objectKey f second) = some object ∧
      (readPcapRecords object).2 =
        (holders capture f.stream second).flatMap (fun g => g.packets second) ∧
      ((captured capture f.stream).Pairwise (fun a b => a.header.timeStamp ≤ b.header.timeStamp) →
        (readPcapRecords object).2.Pairwise
          (fun a b => a.header.timeStamp ≤ b.header.timeStamp)) := by
  obtain ⟨hsobject, hskeep⟩ := timely_store hc hlabels hfiles hs srun hsreturned
  obtain ⟨htobject, htkeep⟩ := timely_store hc hlabels hfiles' ht trun htreturned
  constructor
  · funext key
    by_cases hkey : ∃ f ∈ capture, ∃ second ∈ f.seconds, key = objectKey f second
    · obtain ⟨f, hf, second, hsecond, rfl⟩ := hkey
      rw [hsobject f hf second hsecond, htobject f hf second hsecond]
    · have hother : ∀ f ∈ capture, ∀ second ∈ f.seconds, key ≠ objectKey f second :=
        fun f hf second hsecond he => hkey ⟨f, hf, second, hsecond, he⟩
      rw [hskeep key hother, htkeep key hother, hstore]
  · intro f hf second hsecond
    have hrecords : (readPcapRecords (mergedBytes ((holders capture f.stream second).map
        (fun g => (g.cut second).contents)))).2 =
          (holders capture f.stream second).flatMap (fun g => g.packets second) :=
      object_records (List.Perm.refl _)
    refine ⟨_, hsobject f hf second hsecond, hrecords, fun hordered => ?_⟩
    rw [hrecords]
    exact hordered.sublist (holders_captured capture f.stream second)

theorem firstDay_capture : Capture firstDayFiles where
  minutes := firstDay_consecutive.minutes
  ordered := by decide +kernel
  shared := firstDay_consecutive.shared

def firstDayRequest : Action 2 :=
  .request ⟨[], "20240101".toList, [], none⟩ (.listing (listingOf (sharedSecond.take 2)))

/-- Each worker takes one file, and the given worker is the first to process it. -/
def racing (first second : Action 2) : List (Action 2) :=
  List.replicate 3 .manager ++ [.worker 0, .worker 1] ++ List.replicate 8 first ++
    List.replicate 8 second ++ List.replicate 16 .manager

/-- One worker, and two workers of which that of the earlier file is faster. -/
theorem result_independent_of_timing_two_runs : ∃ (s : System 1) (t : System 2), s.s3 = t.s3 ∧
    s.phase = .returned ∧ t.phase = .returned ∧ s.cycle.uploads.length = 2 := by
  have hrun : (NormalizerSystem.step (hostOf sharedSecond) (.polling : System 1) firstDay).any
      (fun s₁ => (runWhile (hostOf sharedSecond) (Timely firstDayFiles firstDayFiles)
        twoFilesInTurn s₁).any (fun s => decide (s.phase = .returned) &&
          decide (s.cycle.uploads.length = 2))) = true := by
    decide +kernel
  have hrun' : (NormalizerSystem.step (hostOf sharedSecond) (.polling : System 2)
      firstDayRequest).any (fun t₁ => (runWhile (hostOf sharedSecond)
        (Timely firstDayFiles firstDayFiles) (racing (.worker 0) (.worker 1)) t₁).any
          (fun t => decide (t.phase = .returned))) = true := by
    decide +kernel
  obtain ⟨s₁, hstart, hs₁⟩ := (Option.any_eq_true _ _).mp hrun
  obtain ⟨s, hruns, hs⟩ := runs_of_any hs₁
  obtain ⟨t₁, hstart', ht₁⟩ := (Option.any_eq_true _ _).mp hrun'
  obtain ⟨t, hrunt, ht⟩ := runs_of_any ht₁
  simp only [Bool.and_eq_true, decide_eq_true_eq] at hs ht
  have hstarts : Starts firstDayFiles _ _ (.polling : System 1) s₁ :=
    ⟨⟨rfl, rfl, fun _ => rfl⟩, rfl, by decide +kernel, hstart⟩
  have hstarts' : Starts firstDayFiles _ _ (.polling : System 2) t₁ :=
    ⟨⟨rfl, rfl, fun _ => rfl⟩, rfl, by decide +kernel, hstart'⟩
  have hsame := result_independent_of_timing firstDay_capture firstDay_labels
    (List.Perm.refl _) (List.Perm.refl _) hstarts hstarts' rfl hruns hrunt hs.1 ht
  exact ⟨s, t, hsame.1, hs.1, ht, hs.2⟩

/-- The second of two workers is faster: its piece is merged first, and the object differs from
that of the run in capture order. -/
theorem faster_worker_reverses_second : ∃ (request : Request) (answer : StorageAnswer)
    (s₁ s t : System 2), Capture firstDayFiles ∧ DistinctLabels firstDayFiles ∧
    Starts firstDayFiles request answer .polling s₁ ∧
    Runs (hostOf sharedSecond) Faultless s₁ s ∧ Runs (hostOf sharedSecond) Faultless s₁ t ∧
    s.phase = .returned ∧ t.phase = .returned ∧
    ∃ f ∈ firstDayFiles, ∃ second ∈ f.seconds,
      s.s3 (objectKey f second) ≠ t.s3 (objectKey f second) ∧
      (t.s3 (objectKey f second)).map (fun object => (readPcapRecords object).2) =
        some ((holders firstDayFiles f.stream second).reverse.flatMap
          (fun g => g.packets second)) := by
  have hrun : (NormalizerSystem.step (hostOf sharedSecond) (.polling : System 2)
      firstDayRequest).any (fun s₁ =>
        (runWhile (hostOf sharedSecond) Faultless (racing (.worker 0) (.worker 1)) s₁).any (fun s =>
          (runWhile (hostOf sharedSecond) Faultless (racing (.worker 1) (.worker 0)) s₁).any
            (fun t => decide (s.phase = .returned) && decide (t.phase = .returned) &&
              firstDayFiles.any (fun f => f.seconds.any (fun second =>
                decide (s.s3 (objectKey f second) ≠ t.s3 (objectKey f second)) &&
                decide ((t.s3 (objectKey f second)).map (fun object =>
                  (readPcapRecords object).2) = some ((holders firstDayFiles f.stream
                    second).reverse.flatMap (fun g => g.packets second)))))))) = true := by
    decide +kernel
  obtain ⟨s₁, hstart, hs₁⟩ := (Option.any_eq_true _ _).mp hrun
  obtain ⟨s, hruns, hs⟩ := runs_of_any hs₁
  obtain ⟨t, hrunt, ht⟩ := runs_of_any hs
  simp only [Bool.and_eq_true, decide_eq_true_eq, List.any_eq_true] at ht
  obtain ⟨⟨hsreturned, htreturned⟩, f, hf, second, hsecond, hne, hreversed⟩ := ht
  exact ⟨_, _, s₁, s, t, firstDay_capture, firstDay_labels,
    ⟨⟨rfl, rfl, fun _ => rfl⟩, rfl, by decide +kernel, hstart⟩, hruns, hrunt, hsreturned,
    htreturned, f, hf, second, hsecond, hne, hreversed⟩

end SensorDataNormalization.CaptureOrder
