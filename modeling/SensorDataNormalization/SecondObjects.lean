import SensorDataNormalization.PieceContents
import SensorDataNormalization.UploadKeys

set_option autoImplicit false

/-! The S3 objects that a cycle without faults leaves for the packet seconds of its files. -/
namespace SensorDataNormalization.SecondObjects
open PythonText WallClock PcapRecords PcapSplit PcapMerge StoreProgram WorkerPaths RawObjects
  Messages WorkerProgram ManagerProgram ProcessState PairSequence RawFiles NormalizerSystem
  SystemSteps CycleAccounting PairLedger DrainQuiescence BatchOwnership PieceFlow UploadKeys
  PieceContents

variable {n : ℕ} {env : Environment}

/-! ## Runs without faults -/

def faultless : Action n → Prop
  | .manager => True
  | .worker _ => True
  | _ => False

instance (a : Action n) : Decidable (faultless a) :=
  match a with
  | .manager => isTrue trivial
  | .worker _ => isTrue trivial
  | .managerFault => isFalse id
  | .request _ _ => isFalse id
  | .workerFault _ => isFalse id
  | .stop => isFalse id
  | .unexpected => isFalse id
  | .undecodable => isFalse id

/-- A step of the manager or of a worker. -/
def Faultless (_ : System n) (a : Action n) (_ : System n) : Prop := faultless a

instance (t : System n) (a : Action n) (u : System n) : Decidable (Faultless t a u) :=
  inferInstanceAs (Decidable (faultless a))

theorem quiet_of_faultless {a : Action n} (h : faultless a) : quiet a := by
  cases a <;> first | exact h.elim | trivial

section Unfailing
variable {B : Batch env} {number : ℕ} {s s' : System n} {a : Action n}

theorem worker_runs (hi : ContentInv B number s) {w : Fin n} {job : Job} {next : Next} {op : WorkOp}
    {program : Program} (hworker : s.workers w = .busy job next (op :: program)) :
    op.exec s.disk ≠ none := by
  cases next with
  | report => exact (hi.workers w job _ hworker).runs
  | split =>
    have hw := hi.batch.workers w
    rw [hworker] at hw
    obtain ⟨f, -, hprogram⟩ := hw
    rcases hprogram with hprogram | ⟨hnil, -⟩
    · cases hprogram
      exact Option.some_ne_none _
    · cases hnil

/-- The manager does not raise, whatever the workers do. -/
theorem kept_phase {jobs : List Job} (hi : ContentInv B number s) (hquiet : QuietInv jobs s)
    (h : Move env s a s') (ha : quiet a) : s'.phase ≠ .raised := by
  have hsame := hquiet.kept
  cases h with
  | reject => exact ha.elim
  | begin => exact ha.elim
  | fault => exact ha.elim
  | loop hold hnew =>
    rename_i phase
    intro he
    change phase = .raised at he
    rw [he] at hnew
    exact hnew
  | manage =>
    rw [publish_phase]
    exact fun he => by cases he
  | fail hphase hexec =>
    have hm := hi.manager
    rw [hphase] at hm
    exact absurd hexec hm.runs
  | work =>
    rw [publish_phase]
    exact hsame
  | @dispatch b mailbox hphase hmail =>
    have hknown := hquiet.known b (by rw [hmail]; exact List.mem_cons_self)
    cases b with
    | jobDone job success => exact hsame
    | pairPut put => exact fun he => by cases he
    | unexpected => exact absurd rfl hknown
    | undecodable => exact absurd rfl hknown
  | push => exact fun he => by cases he
  | pushed => exact fun he => by cases he
  | sweep => exact fun he => by cases he
  | swept => exact fun he => by cases he
  | notify => exact fun he => by cases he
  | notifyFailure => exact fun he => by cases he
  | _ => exact hsame

theorem working_set {t : System n} {w : Fin n} {worker : Worker}
    (hold : ∀ v job, t.workers v ≠ .failed job) (hnew : ∀ job, worker ≠ .failed job) :
    ∀ v job, (t.setWorker w worker).workers v ≠ .failed job :=
  setWorker_forall (P := fun u => ∀ job, u ≠ .failed job) (fun v _ => hold v) hnew

theorem kept_working (hi : ContentInv B number s) (hclean : CleanInv B number s)
    (h : Move env s a s') (ha : faultless a) : ∀ w job, s'.workers w ≠ .failed job := by
  have hsame := hclean.working
  cases h with
  | manage =>
    rw [publish_workers]
    exact hsame
  | take => exact working_set hsame (fun job he => by cases he)
  | work =>
    rw [publish_workers]
    exact working_set hsame (fun job he => by cases he)
  | workerFail hworker hexec => exact absurd hexec (worker_runs hi hworker)
  | workerFault => exact ha.elim
  | split => exact working_set hsame (fun job he => by cases he)
  | report => exact working_set hsame (fun job he => by cases he)
  | @dispatch b => cases b <;> exact hsame
  | _ => exact hsame

theorem unfailing_of_faultless (hi : ContentInv B number s) (hclean : CleanInv B number s)
    (h : Move env s a s') (ha : faultless a) : Unfailing s a s' where
  undisturbed := ⟨quiet_of_faultless ha,
    kept_phase hi hclean.quiet h (quiet_of_faultless ha)⟩
  working := kept_working hi hclean h ha

end Unfailing

/-! ## S3 after a list of uploads -/

def replay (start : Store Str Bytes) (uploads : List Upload) : Store Str Bytes :=
  uploads.foldl (fun m u => Function.update m u.destination.key (some u.contents)) start

theorem replay_concat (start : Store Str Bytes) (uploads : List Upload) (u : Upload) :
    replay start (uploads ++ [u]) =
      Function.update (replay start uploads) u.destination.key (some u.contents) :=
  List.foldl_concat ..

def writeOf (u : Upload) : Str × Bytes := (u.destination.key, u.contents)

theorem replay_eq (start : Store Str Bytes) (uploads : List Upload) :
    replay start uploads = writeAll start (uploads.map writeOf) := by
  rw [writeAll, List.foldl_map]
  rfl

theorem written_keys (uploads : List Upload) :
    (uploads.map writeOf).map Prod.fst = uploads.map (fun u => u.destination.key) :=
  List.map_map

theorem replay_other {start : Store Str Bytes} {uploads : List Upload} {key : Str}
    (h : key ∉ uploads.map (fun u => u.destination.key)) :
    replay start uploads key = start key := by
  rw [replay_eq]
  exact writeAll_other (written_keys uploads ▸ h)

theorem replay_of_nodup {start : Store Str Bytes} {uploads : List Upload}
    (h : (uploads.map (fun u => u.destination.key)).Nodup) {u : Upload} (hu : u ∈ uploads) :
    replay start uploads u.destination.key = some u.contents := by
  obtain ⟨before, after, rfl⟩ := List.append_of_mem hu
  rw [List.map_append, List.map_cons] at h
  have hafter : u.destination.key ∉ after.map (fun v => v.destination.key) :=
    (List.nodup_cons.mp (List.nodup_append.mp h).2.1).1
  rw [replay_eq, List.map_append, List.map_cons]
  exact writeAll_last (written_keys after ▸ hafter)

theorem move_replay {start : Store Str Bytes} {s s' : System n} {a : Action n}
    (hs : s.s3 = replay start s.cycle.uploads) (h : Move env s a s')
    (ha : ∀ request answer, a ≠ .request request answer) :
    s'.s3 = replay start s'.cycle.uploads := by
  have hpublish : ∀ (who : Uploader) (out : Output Bytes Destination PairPut) (t : System n),
      t.s3 = replay start t.cycle.uploads →
      (t.publish who out).s3 = replay start (t.publish who out).cycle.uploads := by
    intro who out t ht
    cases out with
    | silent => exact ht
    | given put => exact ht
    | published destination contents =>
      change Function.update t.s3 destination.key (some contents) =
        replay start (t.cycle.uploads ++ _)
      rw [replay_concat, ht]
  cases h with
  | reject => exact absurd rfl (ha _ _)
  | begin => exact absurd rfl (ha _ _)
  | manage => exact hpublish _ _ _ hs
  | work => exact hpublish _ _ _ hs
  | @dispatch b => cases b <;> exact hs
  | _ => exact hs

structure Delivering (B : Batch env) (number : ℕ) (start : Store Str Bytes) (s : System n) :
    Prop where
  clean : CleanInv B number s
  content : ContentInv B number s
  stored : s.s3 = replay start s.cycle.uploads

section Runs
variable {B : Batch env} {number : ℕ} {start : Store Str Bytes} {request : Request}
  {answer : StorageAnswer} {s₀ s₁ s : System n}

theorem delivering_step (hlabels : ∀ f ∈ B.files, Labelled f) {a : Action n}
    (hi : Delivering B number start s) (h : Move env s a s₁) (ha : faultless a) :
    Delivering B number start s₁ := by
  have hok := unfailing_of_faultless hi.content hi.clean h ha
  have hrequest := quiet_no_request (quiet_of_faultless ha)
  exact ⟨cleanInv_step hi.clean h hok, contentInv_step hlabels hi.content h hrequest,
    move_replay hi.stored h hrequest⟩

theorem delivering_begin (h : Starts B.files request answer s₀ s₁) :
    Delivering B (s₀.cycle.number + 1) s₀.s3 s₁ := by
  rw [h.eq]
  exact ⟨cleanInv_begin h.quiescent h.running request, contentInv_begin h.quiescent request, rfl⟩

theorem delivering_run (hlabels : ∀ f ∈ B.files, Labelled f)
    (h : Starts B.files request answer s₀ s₁) (run : Runs env Faultless s₁ s) :
    Delivering B (s₀.cycle.number + 1) s₀.s3 s :=
  run.invariant _ (delivering_begin h) (fun hi hmove ha => delivering_step hlabels hi hmove ha)

end Runs

/-! ## Files of one capture -/

/-- Every packet second of `f` is at most every packet second of `g`. -/
def Before (f g : RawFile env) : Prop := ∀ a ∈ f.seconds, ∀ b ∈ g.seconds, a ≤ b

/-- The files of a stream that have packets of a second. -/
def holders (files : List (RawFile env)) (stream : SensorStream) (second : ℕ) :
    List (RawFile env) :=
  files.filter (fun f => decide (f.stream = stream ∧ second ∈ f.seconds))

/-- The files of each stream are consecutive pieces of one capture with at most two files
for a second, and their names announce different minutes. -/
structure Consecutive (files : List (RawFile env)) : Prop where
  minutes : files.Pairwise (fun f g => ¬ f.object.SameMinute g.object)
  ordered : files.Pairwise (fun f g => f.stream = g.stream → Before f g ∨ Before g f)
  shared : ∀ stream second, (holders files stream second).length ≤ 2

/-- Different packet seconds of a stream have different wall-clock labels. -/
def DistinctLabels (files : List (RawFile env)) : Prop :=
  ∀ f ∈ files, ∀ g ∈ files, f.stream = g.stream → ∀ a ∈ f.seconds, ∀ b ∈ g.seconds,
    label env.clock a = label env.clock b → a = b

theorem DistinctLabels.labelled {files : List (RawFile env)} (h : DistinctLabels files) :
    ∀ f ∈ files, Labelled f :=
  fun f hf a ha b hb hab => h f hf f hf rfl a ha b hb hab

theorem DistinctLabels.perm {files files' : List (RawFile env)} (h : DistinctLabels files')
    (hperm : files.Perm files') : DistinctLabels files :=
  fun f hf g hg => h f (hperm.mem_iff.mp hf) g (hperm.mem_iff.mp hg)

theorem Consecutive.perm {files files' : List (RawFile env)} (h : Consecutive files')
    (hperm : files.Perm files') : Consecutive files where
  minutes := by
    have hsymm : ∀ {f g : RawFile env}, ¬ f.object.SameMinute g.object →
        ¬ g.object.SameMinute f.object := fun hfg hgf => hfg ⟨hgf.1.symm, hgf.2.symm⟩
    exact (hperm.pairwise_iff hsymm).mpr h.minutes
  ordered := by
    have hsymm : ∀ {f g : RawFile env}, (f.stream = g.stream → Before f g ∨ Before g f) →
        g.stream = f.stream → Before g f ∨ Before f g := fun hfg hgf => (hfg hgf.symm).symm
    exact (hperm.pairwise_iff hsymm).mpr h.ordered
  shared := by
    intro stream second
    have hlength : (holders files stream second).length =
        (holders files' stream second).length := (hperm.filter _).length_eq
    rw [hlength]
    exact h.shared stream second

/-- The S3 key of the packets of a second. -/
def objectKey (f : RawFile env) (second : ℕ) : Str :=
  if f.isMid second then f.stream.splitKey env.config (label env.clock second)
  else f.stream.endKey env.config (label env.clock second)

theorem mem_mids_or_ends {f : RawFile env} {second : ℕ} (h : second ∈ f.seconds) :
    (second ∈ f.mids ∧ f.isMid second = true) ∨ (second ∈ f.ends ∧ f.isMid second = false) := by
  cases hm : f.isMid second with
  | true => exact Or.inl ⟨List.mem_filter.mpr ⟨h, hm⟩, rfl⟩
  | false => exact Or.inr ⟨List.mem_filter.mpr ⟨h, by rw [hm]; rfl⟩, rfl⟩

/-- A MID second lies strictly between two other seconds of its file. -/
theorem mid_between {f : RawFile env} {second : ℕ} (h : second ∈ f.mids) :
    ∃ a ∈ f.seconds, ∃ b ∈ f.seconds, a < second ∧ second < b := by
  obtain ⟨hs, hmid⟩ := List.mem_filter.mp h
  have hposition : classifyPosition second (f.seconds.head?.getD 0) (f.seconds.getLast?.getD 0) =
      .MID := of_decide_eq_true hmid
  have hpair : f.seconds.Pairwise (· < ·) := sortedSeconds_pairwise f.contents
  have hhead : second ≠ f.seconds.head?.getD 0 := by
    intro he
    rw [classifyPosition, if_pos he] at hposition
    cases hposition
  have hlast : second ≠ f.seconds.getLast?.getD 0 := by
    intro he
    rw [classifyPosition, if_neg hhead, if_pos he] at hposition
    cases hposition
  obtain ⟨a, rest, hfirst⟩ := List.exists_cons_of_ne_nil (List.ne_nil_of_mem hs)
  obtain ⟨front, b, hend⟩ : ∃ front b, f.seconds = front ++ [b] := by
    rcases List.eq_nil_or_concat f.seconds with hnil | ⟨front, b, hconcat⟩
    · rw [hnil] at hs
      cases hs
    · exact ⟨front, b, by rw [hconcat, List.concat_eq_append]⟩
  refine ⟨a, by rw [hfirst]; simp, b, by rw [hend]; simp, ?_, ?_⟩
  · rw [hfirst] at hs hpair hhead
    rcases List.mem_cons.mp hs with rfl | hs
    · exact absurd rfl hhead
    · exact (List.pairwise_cons.mp hpair).1 second hs
  · rw [hend] at hs hpair hlast
    rw [List.getLast?_concat] at hlast
    rcases List.mem_append.mp hs with hs | hs
    · exact (List.pairwise_append.mp hpair).2.2 second hs b (by simp)
    · exact absurd (List.mem_singleton.mp hs) hlast

section Capture
variable {files : List (RawFile env)} {f g : RawFile env} {second : ℕ}

theorem Consecutive.of_ne (h : Consecutive files) (hf : f ∈ files) (hg : g ∈ files) (hne : f ≠ g)
    (hs : f.stream = g.stream) : Before f g ∨ Before g f := by
  have hsymm : Std.Symm (fun f g : RawFile env =>
      f.stream = g.stream → Before f g ∨ Before g f) := ⟨fun a b hab hba => (hab hba.symm).symm⟩
  exact h.ordered.forall hf hg hne hs

/-- A MID second has packets in one file only. -/
theorem Consecutive.mid_alone (h : Consecutive files) (hf : f ∈ files) (hg : g ∈ files)
    (hs : g.stream = f.stream) (hmid : second ∈ f.mids) (hsecond : second ∈ g.seconds) : g = f := by
  by_contra hne
  obtain ⟨a, ha, b, hb, hlt, hgt⟩ := mid_between hmid
  rcases h.of_ne hg hf hne hs with hbefore | hbefore
  · have hle := hbefore second hsecond a ha
    omega
  · have hle := hbefore b hb second hsecond
    omega

theorem Consecutive.end_everywhere (h : Consecutive files) (hf : f ∈ files) (hg : g ∈ files)
    (hs : g.stream = f.stream) (hend : f.isMid second = false) (hf' : second ∈ f.seconds)
    (hsecond : second ∈ g.seconds) : second ∈ g.ends ∧ g.isMid second = false := by
  rcases mem_mids_or_ends hsecond with ⟨hmid, hpos⟩ | hends
  · have hfg := h.mid_alone hg hf hs.symm hmid hf'
    rw [hfg, hpos] at hend
    cases hend
  · exact hends

theorem Consecutive.objectKey_same (h : Consecutive files) (hf : f ∈ files) (hg : g ∈ files)
    (hs : g.stream = f.stream) (hfsecond : second ∈ f.seconds) (hgsecond : second ∈ g.seconds) :
    objectKey g second = objectKey f second := by
  have hsame : g.isMid second = f.isMid second := by
    rcases mem_mids_or_ends hfsecond with ⟨hmid, hpos⟩ | ⟨-, hpos⟩
    · rw [h.mid_alone hf hg hs hmid hgsecond]
    · rw [hpos, (h.end_everywhere hf hg hs hpos hfsecond hgsecond).2]
  rw [objectKey, objectKey, hsame, hs]

theorem objectKey_eq (hlabels : DistinctLabels files) (hf : f ∈ files)
    (hg : g ∈ files) {x y : ℕ} (hx : x ∈ f.seconds) (hy : y ∈ g.seconds)
    (hkey : objectKey f x = objectKey g y) : g.stream = f.stream ∧ y = x := by
  have hboth : f.stream = g.stream ∧ label env.clock x = label env.clock y := by
    unfold objectKey at hkey
    split_ifs at hkey
    · exact SensorStream.splitKey_injective hkey
    · exact absurd hkey (SensorStream.splitKey_ne_endKey _ _ _ _ _)
    · exact absurd hkey.symm (SensorStream.splitKey_ne_endKey _ _ _ _ _)
    · exact SensorStream.endKey_injective hkey
  exact ⟨hboth.1.symm, (hlabels f hf g hg hboth.1 x hx y hy hboth.2).symm⟩

theorem sum_le_filter {α : Type} {g : α → ℕ} {p : α → Bool} {xs : List α}
    (h : ∀ a ∈ xs, g a ≤ if p a = true then 1 else 0) : (xs.map g).sum ≤ (xs.filter p).length := by
  induction xs with
  | nil => exact le_refl 0
  | cons a rest ih =>
    have hrest := ih (fun b hb => h b (List.mem_cons_of_mem _ hb))
    have ha := h a List.mem_cons_self
    rw [List.map_cons, List.sum_cons]
    cases hp : p a with
    | true =>
      rw [List.filter_cons_of_pos hp, List.length_cons]
      rw [hp, if_pos rfl] at ha
      omega
    | false =>
      rw [List.filter_cons_of_neg (by rw [hp]; exact Bool.false_ne_true)]
      rw [hp, if_neg Bool.false_ne_true] at ha
      omega

theorem Consecutive.boundary_count (h : Consecutive files) (hlabels : DistinctLabels files)
    (key : Str) : (boundaryKeys files).count key ≤ 2 := by
  by_cases hkey : key ∈ boundaryKeys files
  · obtain ⟨f, hf, hfkey⟩ := List.mem_flatMap.mp hkey
    obtain ⟨x, hx, rfl⟩ := List.mem_map.mp hfkey
    have hsame : ∀ g ∈ files, ∀ y ∈ g.ends, g.stream.endKey env.config (label env.clock y) =
        f.stream.endKey env.config (label env.clock x) → g.stream = f.stream ∧ y = x := by
      intro g hg y hy hgy
      obtain ⟨hstream, hlabel⟩ := SensorStream.endKey_injective hgy
      exact ⟨hstream, hlabels g hg f hf hstream y (g.mem_ends hy) x (f.mem_ends hx) hlabel⟩
    have hcount : ∀ g ∈ files, (endKeys g).count
        (f.stream.endKey env.config (label env.clock x)) ≤
          if decide (g.stream = f.stream ∧ x ∈ g.seconds) = true then 1 else 0 := by
      intro g hg
      by_cases hmem : f.stream.endKey env.config (label env.clock x) ∈ endKeys g
      · obtain ⟨y, hy, hgy⟩ := List.mem_map.mp hmem
        obtain ⟨hstream, rfl⟩ := hsame g hg y hy hgy
        rw [if_pos (decide_eq_true ⟨hstream, g.mem_ends hy⟩)]
        apply List.nodup_iff_count_le_one.mp
        apply List.Nodup.map_on _ (g.seconds_nodup.filter _)
        intro a ha b hb hab
        have hl := (SensorStream.endKey_injective hab).2
        exact hlabels g hg g hg rfl a (g.mem_ends ha) b (g.mem_ends hb) hl
      · rw [List.count_eq_zero.mpr hmem]
        exact Nat.zero_le _
    rw [boundaryKeys, List.count_flatMap]
    exact (sum_le_filter hcount).trans (h.shared f.stream x)
  · rw [List.count_eq_zero.mpr hkey]
    exact Nat.zero_le 2

theorem Consecutive.middle_nodup (h : Consecutive files) (hlabels : DistinctLabels files) :
    (middleKeys files).Nodup := by
  apply List.nodup_flatMap.mpr
  constructor
  · intro g hg
    apply List.Nodup.map_on _ (g.seconds_nodup.filter _)
    intro a ha b hb hab
    have hl := (SensorStream.splitKey_injective hab).2
    exact hlabels g hg g hg rfl a (g.mem_mids ha) b (g.mem_mids hb) hl
  · apply h.minutes.imp_of_mem
    intro f g hf hg hminute key hfkey hgkey
    obtain ⟨a, ha, rfl⟩ := List.mem_map.mp hfkey
    obtain ⟨b, hb, hab⟩ := List.mem_map.mp hgkey
    obtain ⟨hstream, hl⟩ := SensorStream.splitKey_injective hab
    have hba := hlabels g hg f hf hstream b (g.mem_mids hb) a (f.mem_mids ha) hl
    subst hba
    have hfg := h.mid_alone hf hg hstream ha (g.mem_mids hb)
    rw [hfg] at hminute
    exact hminute ⟨rfl, rfl⟩

theorem Consecutive.nodup (h : Consecutive files) : files.Nodup :=
  h.minutes.imp (fun {f g} hfg he => hfg (by rw [he]; exact ⟨rfl, rfl⟩))

theorem mem_holders {stream : SensorStream} :
    g ∈ holders files stream second ↔ g ∈ files ∧ g.stream = stream ∧ second ∈ g.seconds := by
  rw [holders, List.mem_filter, decide_eq_true_iff]

theorem Consecutive.holders_mid (h : Consecutive files) (hf : f ∈ files)
    (hmid : second ∈ f.mids) : [f].Perm (holders files f.stream second) := by
  apply (List.perm_ext_iff_of_nodup (List.nodup_singleton f) (h.nodup.filter _)).mpr
  intro g
  change g ∈ [f] ↔ g ∈ holders files f.stream second
  rw [List.mem_singleton, mem_holders]
  constructor
  · rintro rfl
    exact ⟨hf, rfl, g.mem_mids hmid⟩
  · rintro ⟨hg, hs, hsecond⟩
    exact h.mid_alone hf hg hs hmid hsecond

end Capture

/-! ## The object of a second -/

/-- The file that a message is about. -/
def fileOf (files : List (RawFile env)) (put : PairPut) : Option (RawFile env) :=
  files[put.source.job.index]?

section Objects
variable {B : Batch env} {number : ℕ} {start : Store Str Bytes} {s : System n}
  {f g : RawFile env} {second : ℕ}

theorem filter_ends (hlabels : DistinctLabels B.files) (hc : Consecutive B.files)
    (hf : f ∈ B.files) (hend : f.isMid second = false) (hsecond : second ∈ f.seconds)
    {job : Job} (hj : B.JobOf number job g) :
    (g.ends.map (g.put job)).filter (fun put => decide (put.pairKey =
        f.stream.pairKey (label env.clock second))) =
      if g.stream = f.stream ∧ second ∈ g.seconds then [g.put job second] else [] := by
  have hkey : ∀ y ∈ g.ends, (g.put job y).pairKey = f.stream.pairKey (label env.clock second) →
      g.stream = f.stream ∧ y = second := by
    intro y hy hk
    obtain ⟨hstream, hlabel⟩ := SensorStream.pairKey_injective hk
    exact ⟨hstream, hlabels g hj.mem f hf hstream y (g.mem_ends hy) second hsecond hlabel⟩
  rw [List.filter_map]
  split_ifs with hg
  · have hmem := (hc.end_everywhere hf hj.mem hg.1 hend hsecond hg.2).1
    have hone : g.ends.filter ((fun put => decide (put.pairKey =
        f.stream.pairKey (label env.clock second))) ∘ g.put job) =
          g.ends.filter (fun y => decide (y = second)) := by
      apply List.filter_congr
      intro y hy
      apply decide_eq_decide.mpr
      constructor
      · exact fun hk => (hkey y hy hk).2
      · rintro rfl
        change g.stream.pairKey _ = _
        rw [hg.1]
    have hsingle : g.ends.filter (fun y => decide (y = second)) = [second] := by
      have hnodup : (g.ends.filter (fun y => decide (y = second))).Nodup :=
        (g.seconds_nodup.filter _).filter _
      have hperm : (g.ends.filter (fun y => decide (y = second))).Perm [second] := by
        apply (List.perm_ext_iff_of_nodup hnodup (List.nodup_singleton second)).mpr
        intro y
        rw [List.mem_filter, List.mem_singleton, decide_eq_true_iff]
        constructor
        · exact fun h => h.2
        · rintro rfl
          exact ⟨hmem, rfl⟩
      exact List.perm_singleton.mp hperm
    rw [hone, hsingle, List.map_singleton]
  · have hnone : g.ends.filter ((fun put => decide (put.pairKey =
        f.stream.pairKey (label env.clock second))) ∘ g.put job) = [] := by
      apply List.filter_eq_nil_iff.mpr
      intro y hy hk
      obtain ⟨hstream, rfl⟩ := hkey y hy (of_decide_eq_true hk)
      exact hg ⟨hstream, g.mem_ends hy⟩
    rw [hnone, List.map_nil]

theorem key_files (hlabels : DistinctLabels B.files) (hc : Consecutive B.files)
    (hf : f ∈ B.files) (hend : f.isMid second = false) (hsecond : second ∈ f.seconds) :
    ((endPuts B number).filter (fun put => decide (put.pairKey =
        f.stream.pairKey (label env.clock second)))).filterMap (fileOf B.files) =
      holders B.files f.stream second := by
  have hholders : holders B.files f.stream second = ((B.tasks number).map Prod.snd).filter
      (fun g => decide (g.stream = f.stream ∧ second ∈ g.seconds)) := by
    rw [holders, B.tasks_files number]
  rw [hholders, endPuts, List.filter_flatMap, List.filterMap_flatMap]
  have htask : ∀ t ∈ B.tasks number, (((t.2.ends.map (t.2.put t.1)).filter (fun put =>
      decide (put.pairKey = f.stream.pairKey (label env.clock second)))).filterMap
        (fileOf B.files)) = if t.2.stream = f.stream ∧ second ∈ t.2.seconds then [t.2] else [] := by
    intro t ht
    have hj := Batch.jobOf_of_task ht
    rw [filter_ends hlabels hc hf hend hsecond hj]
    split_ifs
    · have hfile : fileOf B.files (t.2.put t.1 second) = some t.2 := hj.file
      rw [List.filterMap_cons, hfile]
      rfl
    · rfl
  rw [List.flatMap_congr htask]
  induction B.tasks number with
  | nil => rfl
  | cons t rest ih =>
    rw [List.flatMap_cons, ih, List.map_cons, List.filter_cons]
    by_cases ht : t.2.stream = f.stream ∧ second ∈ t.2.seconds
    · simp [ht]
    · simp [ht]

theorem mem_endPuts {put : PairPut} (h : put ∈ endPuts B number) :
    ∃ job g y, B.JobOf number job g ∧ y ∈ g.ends ∧ put = g.put job y := by
  obtain ⟨t, ht, hput⟩ := List.mem_flatMap.mp h
  obtain ⟨y, hy, rfl⟩ := List.mem_map.mp hput
  exact ⟨t.1, t.2, y, Batch.jobOf_of_task ht, hy, rfl⟩

theorem filterMap_contents {puts : List PairPut} {second : ℕ} (h : ∀ put ∈ puts, ∃ g,
    fileOf B.files put = some g ∧ contentsOf B.files put.source = (g.cut second).contents) :
    puts.map (fun put => contentsOf B.files put.source) =
      (puts.filterMap (fileOf B.files)).map (fun g => (g.cut second).contents) := by
  induction puts with
  | nil => rfl
  | cons put rest ih =>
    obtain ⟨g, hfile, hcontents⟩ := h put List.mem_cons_self
    rw [List.map_cons, ih (fun q hq => h q (List.mem_cons_of_mem _ hq)), hcontents,
      List.filterMap_cons, hfile]
    rfl

theorem uploadKeys_nodup (hd : Delivering B number start s) (hclosed : ¬ Phase.isOpen s.phase)
    (hprogram : s.phase.program = []) (hc : Consecutive B.files)
    (hlabels : DistinctLabels B.files) : (uploadKeys s).Nodup := by
  apply List.nodup_iff_count_le_one.mpr
  intro key
  have hends := hc.boundary_count hlabels key
  have hmids := List.nodup_iff_count_le_one.mp (hc.middle_nodup hlabels) key
  rw [CleanInv.uploadKeys_count hd.clean hclosed hprogram]
  by_cases hkey : key ∈ boundaryKeys B.files
  · rw [List.count_eq_zero.mpr (boundary_not_middle hkey)]
    omega
  · rw [List.count_eq_zero.mpr hkey]
    omega

theorem key_item (hlabels : DistinctLabels B.files) (hf : f ∈ B.files)
    (hsecond : second ∈ f.seconds) {put : PairPut} (hput : put ∈ endPuts B number)
    (hkey : put.pairKey = f.stream.pairKey (label env.clock second)) :
    ∃ g, fileOf B.files put = some g ∧ contentsOf B.files put.source = (g.cut second).contents ∧
      put.item.prefixPath = f.stream.endKey env.config (label env.clock second) := by
  obtain ⟨job, g, y, hj, hy, rfl⟩ := mem_endPuts hput
  obtain ⟨hstream, hlabel⟩ := SensorStream.pairKey_injective hkey
  have hys := hlabels g hj.mem f hf hstream y (g.mem_ends hy) second hsecond hlabel
  subst hys
  refine ⟨g, hj.file, contentsOf_source hj (hlabels.labelled g hj.mem) (g.mem_ends hy), ?_⟩
  change g.stream.endKey _ _ = _
  rw [hstream]

/-- What a cycle uploads to a key stays there, when it uploads no key twice. -/
theorem stored_once (hcontent : ContentInv B number s)
    (hstored : s.s3 = replay start s.cycle.uploads) (hnodup : (uploadKeys s).Nodup) {u : Upload}
    (hu : u ∈ s.cycle.uploads) : s.s3 u.destination.key =
      some (mergedBytes (u.destination.sources.map (contentsOf B.files))) := by
  rw [hstored, replay_of_nodup hnodup hu, hcontent.uploads u hu]

theorem stored_upload (hd : Delivering B number start s) (hclosed : ¬ Phase.isOpen s.phase)
    (hprogram : s.phase.program = []) (hc : Consecutive B.files)
    (hlabels : DistinctLabels B.files) {u : Upload} (hu : u ∈ s.cycle.uploads) :
    s.s3 u.destination.key =
      some (mergedBytes (u.destination.sources.map (contentsOf B.files))) :=
  stored_once hd.content hd.stored (uploadKeys_nodup hd hclosed hprogram hc hlabels) hu

theorem uploaded_middle (hobject : ∀ u ∈ s.cycle.uploads, s.s3 u.destination.key =
      some (mergedBytes (u.destination.sources.map (contentsOf B.files)))) {job : Job}
    (hj : B.JobOf number job f) (hlabels : DistinctLabels B.files) (hsecond : second ∈ f.seconds)
    (hpos : f.isMid second = true) (hmem : f.midDestination job second ∈ workerUploads s) :
    s.s3 (objectKey f second) = some (mergedBytes [(f.cut second).contents]) := by
  obtain ⟨u, hu, hdestination⟩ := List.mem_map.mp hmem
  have hstored := hobject u (List.mem_filter.mp hu).1
  have hcontents := contentsOf_source hj (hlabels.labelled f hj.mem) hsecond
  rw [hdestination] at hstored
  rw [objectKey, if_pos hpos, ← hcontents]
  exact hstored

theorem uploaded_group (hobject : ∀ u ∈ s.cycle.uploads, s.s3 u.destination.key =
      some (mergedBytes (u.destination.sources.map (contentsOf B.files)))) {group : List PairPut}
    (hgroup : group ∈ (putSequence s.cycle).groups)
    (hmem : groupDestination group ∈ managerUploads s) (hpos : f.isMid second = false)
    (hitem : ∀ put ∈ group, ∃ g, fileOf B.files put = some g ∧
      contentsOf B.files put.source = (g.cut second).contents ∧
      put.item.prefixPath = f.stream.endKey env.config (label env.clock second)) :
    s.s3 (objectKey f second) = some (mergedBytes
      ((group.filterMap (fileOf B.files)).map (fun g => (g.cut second).contents))) := by
  obtain ⟨a, rest, rfl, -⟩ := groups_uniform hgroup
  obtain ⟨u, hu, hdestination⟩ := List.mem_map.mp hmem
  have hstored := hobject u (List.mem_filter.mp hu).1
  have hkey : u.destination.key = objectKey f second := by
    obtain ⟨-, -, -, hprefix⟩ := hitem a List.mem_cons_self
    rw [hdestination, objectKey, hpos]
    exact hprefix
  have hsources : u.destination.sources.map (contentsOf B.files) =
      (a :: rest).map (fun put => contentsOf B.files put.source) := by
    rw [hdestination]
    exact List.map_map
  rw [← hkey, hstored, hsources, filterMap_contents
    (fun put hput => (hitem put hput).imp (fun g hg => ⟨hg.1, hg.2.1⟩))]

theorem stored_middle (hd : Delivering B number start s) (hclosed : ¬ Phase.isOpen s.phase)
    (hprogram : s.phase.program = []) (hc : Consecutive B.files)
    (hlabels : DistinctLabels B.files) (hf : f ∈ B.files) (hsecond : second ∈ f.seconds)
    (hmid : second ∈ f.mids) (hpos : f.isMid second = true) :
    s.s3 (objectKey f second) = some (mergedBytes [(f.cut second).contents]) := by
  obtain ⟨job, htask⟩ := Batch.task_of_mem number hf
  have hmem : f.midDestination job second ∈ workerUploads s := by
    apply (hd.clean.delivered hclosed).1.mem_iff.mpr
    exact List.mem_flatMap.mpr ⟨_, htask, List.mem_map.mpr ⟨second, hmid, rfl⟩⟩
  exact uploaded_middle (fun u hu => stored_upload hd hclosed hprogram hc hlabels hu)
    (Batch.jobOf_of_task htask) hlabels hsecond hpos hmem

theorem key_files_length (hc : Consecutive B.files) (hlabels : DistinctLabels B.files)
    (hf : f ∈ B.files) (hsecond : second ∈ f.seconds) (hpos : f.isMid second = false) :
    ((endPuts B number).filter (fun put => decide (put.pairKey =
      f.stream.pairKey (label env.clock second)))).length =
        (holders B.files f.stream second).length := by
  have hcontents : ∀ put ∈ (endPuts B number).filter (fun put => decide (put.pairKey =
      f.stream.pairKey (label env.clock second))), ∃ g, fileOf B.files put = some g ∧
        contentsOf B.files put.source = (g.cut second).contents := by
    intro put hput
    obtain ⟨hput, hk⟩ := List.mem_filter.mp hput
    obtain ⟨g, hg, hcontents, -⟩ := key_item hlabels hf hsecond hput (of_decide_eq_true hk)
    exact ⟨g, hg, hcontents⟩
  have hsame := congrArg List.length (filterMap_contents hcontents)
  rw [List.length_map, List.length_map, key_files hlabels hc hf hpos hsecond] at hsame
  exact hsame

/-- The pieces of a boundary second that have come to the manager leave as one group. -/
theorem piece_group (hc : Consecutive B.files) (hlabels : DistinctLabels B.files) (hf : f ∈ B.files)
    (hsecond : second ∈ f.seconds) (hpos : f.isMid second = false) {sent : List PairPut}
    (hsent : sent.Subperm (endPuts B number)) (hpositive : 1 ≤ sent.countP (fun put =>
      decide (put.pairKey = f.stream.pairKey (label env.clock second)))) :
    ∃ group ∈ (pairing PairPut.pairKey sent).groups, group.Perm (sent.filter
      (fun put => decide (put.pairKey = f.stream.pairKey (label env.clock second)))) := by
  have htwo := hc.shared f.stream second
  have hlength := @key_files_length _ B number _ _ hc hlabels hf hsecond hpos
  have hle := (hsent.filter (fun put =>
    decide (put.pairKey = f.stream.pairKey (label env.clock second)))).length_le
  refine group_of_key hpositive ?_
  rw [List.countP_eq_length_filter]
  omega

/-- The pieces of a second that one or two files share leave as one group. -/
theorem boundary_group (hd : Delivering B number start s) (hclosed : ¬ Phase.isOpen s.phase)
    (hc : Consecutive B.files) (hlabels : DistinctLabels B.files) (hf : f ∈ B.files)
    (hsecond : second ∈ f.seconds) (hpos : f.isMid second = false) :
    ∃ group ∈ (putSequence s.cycle).groups, group.Perm ((endPuts B number).filter
      (fun put => decide (put.pairKey = f.stream.pairKey (label env.clock second)))) := by
  have hputs := (hd.clean.delivered hclosed).2
  have hpositive : 1 ≤ (holders B.files f.stream second).length :=
    List.length_pos_of_mem (mem_holders.mpr ⟨hf, rfl, hsecond⟩)
  have hlength := @key_files_length _ B number _ _ hc hlabels hf hsecond hpos
  obtain ⟨group, hgroup, hperm⟩ := piece_group hc hlabels hf hsecond hpos hputs.subperm (by
    rw [hputs.countP_eq, List.countP_eq_length_filter]
    omega)
  exact ⟨group, hgroup, hperm.trans (hputs.filter _)⟩

/-- The object of a second holds the pieces of all files with packets of that second, in the
order in which the manager paired them. -/
theorem stored_object (hd : Delivering B number start s) (hclosed : ¬ Phase.isOpen s.phase)
    (hprogram : s.phase.program = []) (hc : Consecutive B.files)
    (hlabels : DistinctLabels B.files) {R : RawFile env → RawFile env → Prop}
    (hR : ∀ a b, [a, b] ∈ (putSequence s.cycle).pairs → ∀ f g, fileOf B.files a = some f →
      fileOf B.files b = some g → R f g)
    (hf : f ∈ B.files) (hsecond : second ∈ f.seconds) :
    ∃ order : List (RawFile env), order.Perm (holders B.files f.stream second) ∧
      order.Pairwise R ∧ s.s3 (objectKey f second) =
        some (mergedBytes (order.map (fun g => (g.cut second).contents))) := by
  rcases mem_mids_or_ends hsecond with ⟨hmid, hpos⟩ | ⟨-, hpos⟩
  · exact ⟨[f], hc.holders_mid hf hmid, List.pairwise_singleton R f,
      stored_middle hd hclosed hprogram hc hlabels hf hsecond hmid hpos⟩
  · obtain ⟨group, hgroup, hperm⟩ := boundary_group hd hclosed hc hlabels hf hsecond hpos
    have hitem : ∀ put ∈ group, ∃ g, fileOf B.files put = some g ∧
        contentsOf B.files put.source = (g.cut second).contents ∧
        put.item.prefixPath = f.stream.endKey env.config (label env.clock second) := by
      intro put hput
      obtain ⟨hput, hk⟩ := List.mem_filter.mp (hperm.mem_iff.mp hput)
      exact key_item hlabels hf hsecond hput (of_decide_eq_true hk)
    refine ⟨group.filterMap (fileOf B.files), ?_, ?_, ?_⟩
    · rw [← key_files hlabels hc hf hpos hsecond]
      exact hperm.filterMap _
    · rcases List.mem_append.mp hgroup with hpair | hwaiting
      · obtain ⟨a, b, rfl, -⟩ := (pairing_spec PairPut.pairKey _).pair group hpair
        obtain ⟨fa, hfa, -⟩ := hitem a (by simp)
        obtain ⟨fb, hfb, -⟩ := hitem b (by simp)
        have horder := hR a b hpair fa fb hfa hfb
        simp [hfa, hfb, horder]
      · obtain ⟨row, hrow, rfl⟩ := List.mem_map.mp hwaiting
        obtain ⟨a, ha⟩ := (pairing_spec PairPut.pairKey _).unmatched.single row hrow
        obtain ⟨fa, hfa, -⟩ := hitem a (by rw [ha]; simp)
        simp [ha, hfa]
    · refine uploaded_group (fun u hu => stored_upload hd hclosed hprogram hc hlabels hu) hgroup ?_
        hpos hitem
      rw [hd.clean.managed hclosed hprogram]
      exact List.mem_map.mpr ⟨_, hgroup, rfl⟩

/-- The keys of the pieces are those of the packet seconds. -/
theorem pieceKey_iff {files : List (RawFile env)} {key : Str} :
    key ∈ boundaryKeys files ∨ key ∈ middleKeys files ↔
      ∃ f ∈ files, ∃ second ∈ f.seconds, key = objectKey f second := by
  constructor
  · rintro (hends | hmids)
    · obtain ⟨f, hf, hkey⟩ := List.mem_flatMap.mp hends
      obtain ⟨x, hx, rfl⟩ := List.mem_map.mp hkey
      have hpos : f.isMid x = false := by simpa using (List.mem_filter.mp hx).2
      exact ⟨f, hf, x, f.mem_ends hx, by rw [objectKey, hpos]; rfl⟩
    · obtain ⟨f, hf, hkey⟩ := List.mem_flatMap.mp hmids
      obtain ⟨x, hx, rfl⟩ := List.mem_map.mp hkey
      exact ⟨f, hf, x, f.mem_mids hx, by rw [objectKey, if_pos (List.mem_filter.mp hx).2]⟩
  · rintro ⟨f, hf, x, hx, rfl⟩
    rcases mem_mids_or_ends hx with ⟨hmid, hpos⟩ | ⟨hend, hpos⟩
    · right
      rw [objectKey, if_pos hpos]
      exact List.mem_flatMap.mpr ⟨f, hf, List.mem_map.mpr ⟨x, hmid, rfl⟩⟩
    · left
      rw [objectKey, hpos]
      exact List.mem_flatMap.mpr ⟨f, hf, List.mem_map.mpr ⟨x, hend, rfl⟩⟩

theorem written_key (hd : Delivering B number start s) (hclosed : ¬ Phase.isOpen s.phase)
    (hprogram : s.phase.program = []) {key : Str} : key ∈ uploadKeys s ↔
      ∃ f ∈ B.files, ∃ second ∈ f.seconds, key = objectKey f second := by
  have hcount := CleanInv.uploadKeys_count hd.clean hclosed hprogram key
  rw [← List.count_pos_iff, hcount, ← pieceKey_iff, ← List.count_pos_iff, ← List.count_pos_iff]
  omega

theorem kept_key (hd : Delivering B number start s) (hclosed : ¬ Phase.isOpen s.phase)
    (hprogram : s.phase.program = []) {key : Str}
    (hkey : ∀ f ∈ B.files, ∀ second ∈ f.seconds, key ≠ objectKey f second) :
    s.s3 key = start key := by
  rw [hd.stored]
  apply replay_other
  intro hmem
  obtain ⟨f, hf, second, hsecond, he⟩ := (written_key hd hclosed hprogram).mp hmem
  exact hkey f hf second hsecond he

theorem records_of_order {order : List (RawFile env)} (h : ∀ g ∈ order, second ∈ g.seconds) :
    (readPcapRecords (mergedBytes (order.map (fun g => (g.cut second).contents)))).2 =
      order.flatMap (fun g => g.packets second) := by
  have hheader : ∀ g ∈ order, (readPcapRecords g.contents).1.length = pcapFileHeaderSize := by
    intro g hg
    obtain ⟨r, hr, -⟩ := mem_sortedSeconds.mp (h g hg)
    exact header_length_of_records (List.ne_nil_of_mem hr)
  exact records_mergedBytes hheader

theorem object_records {files order : List (RawFile env)} {stream : SensorStream}
    (h : order.Perm (holders files stream second)) :
    (readPcapRecords (mergedBytes (order.map (fun g => (g.cut second).contents)))).2 =
      order.flatMap (fun g => g.packets second) :=
  records_of_order (fun _ hg => (mem_holders.mp (h.mem_iff.mp hg)).2.2)

end Objects
end SensorDataNormalization.SecondObjects
