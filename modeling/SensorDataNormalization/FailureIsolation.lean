import Mathlib.Data.Bool.Count
import SensorDataNormalization.PacketConservation

set_option autoImplicit false

/-! A job that fails spoils its own file only: what a cycle leaves when some of its jobs fail. -/
namespace SensorDataNormalization.FailureIsolation
open PythonText WallClock PcapRecords PcapMerge StoreProgram WorkerPaths Messages WorkerProgram
  ManagerProgram ProcessState PairSequence RawFiles NormalizerSystem SystemSteps SystemFlow
  CycleAccounting CycleIsolation PairLedger DrainQuiescence BatchOwnership PieceFlow UploadKeys
  PieceContents SecondObjects PacketConservation

variable {n : ℕ} {env : Environment}

/-- A step of the manager or of a worker, or an exception of a worker. -/
def Degraded (_ : System n) (a : Action n) (_ : System n) : Prop := quiet a

instance (t : System n) (a : Action n) (u : System n) : Decidable (Degraded t a u) :=
  inferInstanceAs (Decidable (quiet a))

def Reported (files : List (RawFile env)) (s : System n) (f : RawFile env) (success : Bool) :
    Prop :=
  ∃ job, .jobDone job success ∈ s.cycle.dispatched ∧ files[job.index]? = some f

/-- The job has failed, whether the manager knows it or not. -/
def Lost (j : Job) (s : System n) : Prop :=
  (∃ w, s.workers w = .failed j) ∨ .jobDone j false ∈ s.mailbox ∨
    .jobDone j false ∈ s.cycle.dispatched

section Lost
variable {s s' t : System n} {a : Action n} {j : Job}

theorem mailbox_publish (who : Uploader) (out : Output Bytes Destination PairPut)
    (h : t.mailbox = s.mailbox) : s.mailbox ⊆ (t.publish who out).mailbox := by
  rw [← h]
  cases out with
  | given put => exact List.subset_append_left _ _
  | _ => exact List.Subset.refl _

theorem Lost.same (hl : Lost j s) (hworkers : t.workers = s.workers)
    (hmail : s.mailbox ⊆ t.mailbox) (hdispatched : s.cycle.dispatched ⊆ t.cycle.dispatched) :
    Lost j t := by
  rcases hl with ⟨w, hw⟩ | hl | hl
  · exact Or.inl ⟨w, hworkers ▸ hw⟩
  · exact Or.inr (Or.inl (hmail hl))
  · exact Or.inr (Or.inr (hdispatched hl))

theorem Lost.other (hl : Lost j s) {w : Fin n} {worker : Worker}
    (hw : ∀ job, s.workers w ≠ .failed job) (hworkers : t.workers = (s.setWorker w worker).workers)
    (hmail : s.mailbox ⊆ t.mailbox) (hdispatched : s.cycle.dispatched ⊆ t.cycle.dispatched) :
    Lost j t := by
  rcases hl with ⟨v, hv⟩ | hl | hl
  · have hvw : v ≠ w := by
      rintro rfl
      exact hw j hv
    exact Or.inl ⟨v, by rw [hworkers, setWorker_of_ne hvw, hv]⟩
  · exact Or.inr (Or.inl (hmail hl))
  · exact Or.inr (Or.inr (hdispatched hl))

/-- A failure stays, until its report has been dispatched and from then on. -/
theorem lost_move (h : Move env s a s') (ha : ∀ request answer, a ≠ .request request answer)
    (hl : Lost j s) : Lost j s' := by
  have hbusy : ∀ {w job next program}, s.workers w = .busy job next program →
      ∀ k, s.workers w ≠ .failed k := by
    intro w job next program hw k hk
    rw [hw] at hk
    cases hk
  cases h with
  | reject => exact absurd rfl (ha _ _)
  | begin => exact absurd rfl (ha _ _)
  | manage =>
    refine hl.same (by rw [publish_workers]) (mailbox_publish _ _ rfl) ?_
    rw [publish_dispatched]
    exact List.Subset.refl _
  | @dispatch b mailbox hphase hmail =>
    have hnext : ∀ u : System n, u.workers = s.workers → u.mailbox = mailbox →
        u.cycle.dispatched = s.cycle.dispatched ++ [b] → Lost j u := by
      intro u hworkers hmailbox hdispatched
      rcases hl with ⟨w, hw⟩ | hl | hl
      · exact Or.inl ⟨w, hworkers ▸ hw⟩
      · rw [hmail] at hl
        rcases List.mem_cons.mp hl with rfl | hl
        · right; right
          rw [hdispatched]
          exact List.mem_append_right _ (List.mem_singleton_self _)
        · exact Or.inr (Or.inl (hmailbox ▸ hl))
      · right; right
        rw [hdispatched]
        exact List.mem_append_left _ hl
    cases b <;> exact hnext _ rfl rfl rfl
  | take hworker =>
    refine hl.other (fun k hk => ?_) rfl (List.Subset.refl _) (List.Subset.refl _)
    rw [hworker] at hk
    cases hk
  | work hworker =>
    refine hl.other (hbusy hworker) (by rw [publish_workers]; rfl) (mailbox_publish _ _ rfl) ?_
    rw [publish_dispatched]
    exact List.Subset.refl _
  | workerFail hworker =>
    exact hl.other (hbusy hworker) rfl (List.Subset.refl _) (List.Subset.refl _)
  | workerFault hworker =>
    exact hl.other (hbusy hworker) rfl (List.Subset.refl _) (List.Subset.refl _)
  | split hworker =>
    exact hl.other (hbusy hworker) rfl (List.Subset.refl _) (List.Subset.refl _)
  | @report w job success hworker =>
    cases success with
    | true => exact hl.other (hbusy hworker) rfl (List.subset_append_left _ _) (List.Subset.refl _)
    | false =>
      rcases hl with ⟨v, hv⟩ | hl | hl
      · by_cases hvw : v = w
        · rw [hvw, hworker] at hv
          cases hv
          exact Or.inr (Or.inl (List.mem_append_right _ (List.mem_singleton_self _)))
        · exact Or.inl ⟨v, (setWorker_of_ne hvw _ _).trans hv⟩
      · exact Or.inr (Or.inl (List.mem_append_left _ hl))
      · exact Or.inr (Or.inr hl)
  | unexpected => exact hl.same rfl (List.subset_append_left _ _) (List.Subset.refl _)
  | undecodable => exact hl.same rfl (List.subset_append_left _ _) (List.Subset.refl _)
  | _ => exact hl.same rfl (List.Subset.refl _) (List.Subset.refl _)

end Lost

/-! ## The invariant of a cycle in which jobs may fail -/

theorem jobsOf_nodup (number : ℕ) (files : List StorageFile) : (jobsOf number files).Nodup := by
  rw [List.Nodup, List.pairwise_iff_getElem]
  intro i j hi hj hlt he
  simp only [jobsOf, List.getElem_mapIdx, Job.mk.injEq] at he
  omega

theorem count_map_le {α β : Type} [BEq β] {xs ys : List α} (h : xs.Subperm ys)
    (f : α → β) (b : β) : (xs.map f).count b ≤ (ys.map f).count b := by
  obtain ⟨zs, hperm, hsub⟩ := h
  rw [← (hperm.map f).count_eq]
  exact (hsub.map f).count_le b

structure DegradedInv (B : Batch env) (number : ℕ) (start : Store Str Bytes) (s : System n) :
    Prop where
  quiet : QuietInv (jobsOf number B.entries) s
  content : ContentInv B number s
  stored : s.s3 = replay start s.cycle.uploads
  bounded : (pieceFlow B).total s ≤ weigh (jobPieces B) (jobsOf number B.entries)
  complete : ∀ j ∈ jobsOf number B.entries,
    Lost j s ∨ ofJob j ((pieceFlow B).total s) = jobPieces B j

section Invariant
variable {B : Batch env} {number : ℕ} {start : Store Str Bytes} {s s' : System n} {a : Action n}

theorem ofJob_weigh {jobs : List Job} (hjobs : ∀ k ∈ jobs, ∃ f, B.JobOf number k f)
    (hnodup : jobs.Nodup) (j : Job) : ofJob j (weigh (jobPieces B) jobs) =
      if j ∈ jobs then jobPieces B j else 0 := by
  induction jobs with
  | nil => exact map_zero _
  | cons k rest ih =>
    obtain ⟨hk, hnodup⟩ := List.nodup_cons.mp hnodup
    obtain ⟨f, hf⟩ := hjobs k List.mem_cons_self
    rw [weigh_cons, map_add, ofJob_jobPieces hf,
      ih (fun i hi => hjobs i (List.mem_cons_of_mem _ hi)) hnodup]
    by_cases hkj : k = j
    · subst hkj
      rw [if_pos rfl, if_neg hk, if_pos List.mem_cons_self, add_zero]
    · have hmem : j ∈ k :: rest ↔ j ∈ rest :=
        List.mem_cons.trans (or_iff_right (fun h => hkj h.symm))
      rw [if_neg hkj, zero_add]
      exact if_congr hmem.symm rfl rfl

theorem degradedInv_begin {request : Request} {answer : StorageAnswer} {s₀ : System n}
    (h : Starts B.files request answer s₀ s) :
    DegradedInv B (s₀.cycle.number + 1) s₀.s3 s := by
  rw [h.eq]
  have hclean := cleanInv_begin (B := B) h.quiescent h.running request
  refine
    { quiet := hclean.quiet
      content := contentInv_begin h.quiescent request
      stored := rfl
      bounded := hclean.pieces.le
      complete := fun j hj => Or.inr ?_ }
  exact (congrArg (ofJob j) hclean.pieces).trans ((ofJob_weigh (fun k hk => Batch.jobOf_of_mem hk)
    (jobsOf_nodup _ _) j).trans (if_pos hj))

theorem degradedInv_step (hlabels : ∀ f ∈ B.files, Labelled f) (hi : DegradedInv B number start s)
    (h : Move env s a s') (ha : quiet a) : DegradedInv B number start s' := by
  have hrequest := quiet_no_request ha
  have hraised := kept_phase hi.content hi.quiet h ha
  obtain ⟨rest, before, after, hs, hs', hexchange⟩ := (pieceFlow B).total_move h hrequest
  have hlost := pieces_lost hi.content.batch hraised hexchange
  refine
    { quiet := quietInv_step hi.quiet h ⟨ha, hraised⟩
      content := contentInv_step hlabels hi.content h hrequest
      stored := move_replay hi.stored h hrequest
      bounded := ?_
      complete := fun j hj => ?_ }
  · have hle : after ≤ before := by
      rcases hlost with rfl | ⟨w, job, -, rfl, -⟩
      · exact le_rfl
      · exact ⟨Multiset.zero_le _, Multiset.zero_le _⟩
    calc (pieceFlow B).total s' = rest + after := hs'
      _ ≤ rest + before := ⟨add_le_add le_rfl hle.1, add_le_add le_rfl hle.2⟩
      _ = (pieceFlow B).total s := hs.symm
      _ ≤ _ := hi.bounded
  · rcases hi.complete j hj with hl | htotal
    · exact Or.inl (lost_move h hrequest hl)
    · rcases hlost with rfl | ⟨w, job, hfailed, rfl, hother⟩
      · right
        rw [hs', ← hs]
        exact htotal
      · by_cases hjob : j = job
        · exact Or.inl (Or.inl ⟨w, by rw [hjob]; exact hfailed⟩)
        · right
          rw [hs, map_add, hother j hjob, add_zero] at htotal
          rw [hs', add_zero]
          exact htotal

theorem degradedInv_run (hlabels : ∀ f ∈ B.files, Labelled f) {request : Request}
    {answer : StorageAnswer} {s₀ s₁ : System n} (h : Starts B.files request answer s₀ s₁)
    (run : Runs env Degraded s₁ s) : DegradedInv B (s₀.cycle.number + 1) s₀.s3 s :=
  run.invariant _ (degradedInv_begin h) (fun hi hmove ha => degradedInv_step hlabels hi hmove ha)

/-! ## The pieces at the end -/

namespace DegradedInv
variable (h : DegradedInv B number start s) (hclosed : ¬ Phase.isOpen s.phase)
include h hclosed

theorem at_most : (workerUploads s).Subperm (midDestinations B number) ∧
    (puts s.cycle.dispatched).Subperm (endPuts B number) := by
  have hle := h.bounded
  rw [weigh_jobs, total_closed h.quiet hclosed] at hle
  exact ⟨Multiset.coe_le.mp hle.1, Multiset.coe_le.mp hle.2⟩

/-- A job that has not failed has delivered all its pieces. -/
theorem delivered {job : Job} {f : RawFile env} (ht : (job, f) ∈ B.tasks number)
    (hok : .jobDone job false ∉ s.cycle.dispatched) :
    (f.mids.map (f.midDestination job)).Subperm (workerUploads s) ∧
      (f.ends.map (f.put job)).Subperm (puts s.cycle.dispatched) := by
  have hj : B.JobOf number job f := Batch.jobOf_of_task ht
  have hmem : job ∈ jobsOf number B.entries := by
    have hjobs := B.map_jobs number (fun j _ => j)
    rw [List.map_id'] at hjobs
    rw [hjobs]
    exact List.mem_map.mpr ⟨_, ht, rfl⟩
  have hs := h.quiet.quiescent hclosed
  have htotal : ofJob job ((pieceFlow B).total s) = jobPieces B job := by
    refine (h.complete job hmem).resolve_left ?_
    rintro (⟨w, hw⟩ | hl | hl)
    · rw [hs.idle w] at hw
      cases hw
    · rw [hs.mail] at hl
      cases hl
    · exact hok hl
  have hle := ofJob_le job ((pieceFlow B).total s)
  rw [htotal, total_closed h.quiet hclosed, jobPieces_file hj, weigh_workProgram] at hle
  exact ⟨Multiset.coe_le.mp hle.1, Multiset.coe_le.mp hle.2⟩

theorem keys_once (hprogram : s.phase.program = []) (hc : Consecutive B.files)
    (hlabels : DistinctLabels B.files) :
    (uploadKeys s).Nodup ∧ ∀ key ∈ uploadKeys s, ∃ f ∈ B.files, ∃ second ∈ f.seconds,
      key = objectKey f second := by
  obtain ⟨hmids, hends⟩ := h.at_most hclosed
  have hworkers : ∀ key, ((workerUploads s).map Destination.key).count key ≤
      (middleKeys B.files).count key := by
    intro key
    rw [← midDestinations_keys B number]
    exact count_map_le hmids Destination.key key
  have hputs : ∀ key, ((puts s.cycle.dispatched).map (fun put => put.item.prefixPath)).count key ≤
      (boundaryKeys B.files).count key := by
    intro key
    rw [← endPuts_keys B number]
    exact count_map_le hends _ key
  have hcount : ∀ key, (uploadKeys s).count key ≤
      ((boundaryKeys B.files).count key + 1) / 2 + (middleKeys B.files).count key := by
    intro key
    have hmanager : (managerKeys s).count key =
        (((puts s.cycle.dispatched).map (fun put => put.item.prefixPath)).count key + 1) / 2 := by
      rw [managerKeys, uploads_managed h.quiet hclosed hprogram, putSequence,
        group_keys_count h.content.batch.dispatched]
    have hsplit : (uploadKeys s).count key = (managerKeys s).count key +
        ((workerUploads s).map Destination.key).count key := by
      rw [uploadKeys, ← ((uploads_perm s.cycle.uploads).map (fun u => u.destination.key)).count_eq,
        List.map_append, List.count_append, managerKeys, managerUploads, workerUploads,
        List.map_map, List.map_map]
      rfl
    have hw := hworkers key
    have hp := hputs key
    omega
  constructor
  · apply List.nodup_iff_count_le_one.mpr
    intro key
    have hone := hcount key
    have htwo := hc.boundary_count hlabels key
    have hmid := List.nodup_iff_count_le_one.mp (hc.middle_nodup hlabels) key
    by_cases hkey : key ∈ boundaryKeys B.files
    · rw [List.count_eq_zero.mpr (boundary_not_middle hkey)] at hone
      omega
    · rw [List.count_eq_zero.mpr hkey] at hone
      omega
  · intro key hkey
    refine pieceKey_iff.mp ?_
    have hpos := List.count_pos_iff.mpr hkey
    have hone := hcount key
    rw [← List.count_pos_iff, ← List.count_pos_iff]
    omega

/-- The piece of a file whose job has not failed is in the object of its second, with those of the
other files that have come to the manager. -/
theorem object_of_second (hprogram : s.phase.program = []) (hc : Consecutive B.files)
    (hlabels : DistinctLabels B.files) {f : RawFile env} {second : ℕ} {job : Job}
    (ht : (job, f) ∈ B.tasks number) (hok : .jobDone job false ∉ s.cycle.dispatched)
    (hsecond : second ∈ f.seconds) : ∃ order : List (RawFile env),
      order.Subperm (holders B.files f.stream second) ∧
      (∀ g ∈ holders B.files f.stream second, ∀ job', (job', g) ∈ B.tasks number →
        .jobDone job' false ∉ s.cycle.dispatched → g ∈ order) ∧
      s.s3 (objectKey f second) =
        some (mergedBytes (order.map (fun g => (g.cut second).contents))) := by
  have hj : B.JobOf number job f := Batch.jobOf_of_task ht
  have hf := hj.mem
  have hobject : ∀ u ∈ s.cycle.uploads, s.s3 u.destination.key =
      some (mergedBytes (u.destination.sources.map (contentsOf B.files))) :=
    fun _ hu => stored_once h.content h.stored (h.keys_once hclosed hprogram hc hlabels).1 hu
  obtain ⟨hmids, -⟩ := h.delivered hclosed ht hok
  rcases mem_mids_or_ends hsecond with ⟨hmid, hpos⟩ | ⟨-, hpos⟩
  · have halone := hc.holders_mid hf hmid
    refine ⟨[f], halone.subperm, fun g hg _ _ _ => halone.mem_iff.mpr hg, ?_⟩
    exact uploaded_middle hobject hj hlabels hsecond hpos
      (hmids.subset (List.mem_map.mpr ⟨second, hmid, rfl⟩))
  · obtain ⟨-, hends⟩ := h.at_most hclosed
    -- the pieces of the files whose jobs have not failed have come to the manager
    have hsent : ∀ g ∈ holders B.files f.stream second, ∀ job', (job', g) ∈ B.tasks number →
        .jobDone job' false ∉ s.cycle.dispatched → g.put job' second ∈
          (puts s.cycle.dispatched).filter (fun put => decide (put.pairKey =
            f.stream.pairKey (label env.clock second))) := by
      intro g hg job' ht' hok'
      obtain ⟨hgf, hstream, hgs⟩ := mem_holders.mp hg
      have hend := (hc.end_everywhere hf hgf hstream hpos hsecond hgs).1
      refine List.mem_filter.mpr ⟨(h.delivered hclosed ht' hok').2.subset
        (List.mem_map.mpr ⟨second, hend, rfl⟩), decide_eq_true ?_⟩
      change g.stream.pairKey _ = _
      rw [hstream]
    have hown := hsent f (mem_holders.mpr ⟨hf, rfl, hsecond⟩) job ht hok
    obtain ⟨group, hgroup, hperm⟩ := piece_group hc hlabels hf hsecond hpos hends
      (by rw [List.countP_eq_length_filter]; exact List.length_pos_of_mem hown)
    have hitem : ∀ put ∈ group, ∃ g, fileOf B.files put = some g ∧
        contentsOf B.files put.source = (g.cut second).contents ∧
        put.item.prefixPath = f.stream.endKey env.config (label env.clock second) := by
      intro put hput
      obtain ⟨hput, hk⟩ := List.mem_filter.mp (hperm.mem_iff.mp hput)
      exact key_item hlabels hf hsecond (hends.subset hput) (of_decide_eq_true hk)
    refine ⟨group.filterMap (fileOf B.files), ?_, fun g hg job' ht' hok' => ?_, ?_⟩
    · rw [← @key_files _ B number _ _ hlabels hc hf hpos hsecond]
      obtain ⟨sent, hsame, hsub⟩ := hends.filter (fun put : PairPut => decide (put.pairKey =
        f.stream.pairKey (label env.clock second)))
      exact ⟨sent.filterMap (fileOf B.files), (hsame.trans hperm.symm).filterMap _,
        hsub.filterMap _⟩
    · have hmem := hperm.mem_iff.mpr (hsent g hg job' ht' hok')
      exact List.mem_filterMap.mpr ⟨_, hmem, (Batch.jobOf_of_task ht').file⟩
    · refine uploaded_group hobject hgroup ?_ hpos hitem
      rw [uploads_managed h.quiet hclosed hprogram]
      exact List.mem_map.mpr ⟨_, hgroup, rfl⟩

theorem failures_reported (hcount : Phase.counting s.phase) {failed : List (RawFile env)}
    (hnodup : failed.Nodup) (hfailed : ∀ f, f ∈ failed ↔ f ∈ B.files ∧ Reported B.files s f false) :
    (((results s.cycle.dispatched).filter (fun r => r.2 == false)).map
      (fun r => B.files[r.1.index]?)).Perm (failed.map some) := by
  have hreported : ((results s.cycle.dispatched).map Prod.fst).Perm (jobsOf number B.entries) :=
    h.quiet.pushed ▸ (drained_of_inv h.quiet hcount hclosed).counted
  have hjobs : ((results s.cycle.dispatched).map Prod.fst).Nodup :=
    hreported.nodup_iff.mpr (jobsOf_nodup _ _)
  have hbad : ∀ r ∈ (results s.cycle.dispatched).filter (fun r => r.2 == false),
      .jobDone r.1 false ∈ s.cycle.dispatched ∧ r.2 = false ∧ ∃ f, B.JobOf number r.1 f := by
    intro r hr
    obtain ⟨hr, hfalse⟩ := List.mem_filter.mp hr
    have hfalse : r.2 = false := beq_iff_eq.mp hfalse
    exact ⟨hfalse ▸ mem_results.mp hr, hfalse,
      Batch.jobOf_of_mem (hreported.mem_iff.mp (List.mem_map.mpr ⟨r, hr, rfl⟩))⟩
  refine (List.perm_ext_iff_of_nodup ?_ (hnodup.map (Option.some_injective _))).mpr (fun x => ?_)
  · refine List.Nodup.map_on (fun r hr r' hr' he => ?_) (hjobs.of_map.filter _)
    obtain ⟨-, hfalse, f, hf⟩ := hbad r hr
    obtain ⟨-, hfalse', g, hg⟩ := hbad r' hr'
    have hfg : f = g := Option.some.inj (hf.file.symm.trans (he.trans hg.file))
    have hsame := (hf.unique hg f.downloadPath_mem (hfg ▸ f.downloadPath_mem)).1
    exact Prod.ext hsame (hfalse.trans hfalse'.symm)
  · constructor
    · intro hx
      obtain ⟨r, hr, rfl⟩ := List.mem_map.mp hx
      obtain ⟨hdone, -, f, hf⟩ := hbad r hr
      rw [hf.file]
      exact List.mem_map.mpr ⟨f, (hfailed f).mpr ⟨hf.mem, r.1, hdone, hf.file⟩, rfl⟩
    · intro hx
      obtain ⟨f, hf, rfl⟩ := List.mem_map.mp hx
      obtain ⟨-, job, hdone, hfile⟩ := (hfailed f).mp hf
      exact List.mem_map.mpr ⟨(job, false),
        List.mem_filter.mpr ⟨mem_results.mpr hdone, rfl⟩, hfile⟩

theorem failures_counted (hcount : Phase.counting s.phase) {failed : List (RawFile env)}
    (hnodup : failed.Nodup) (hfailed : ∀ f, f ∈ failed ↔ f ∈ B.files ∧ Reported B.files s f false) :
    s.progress.failure = failed.length ∧
      s.progress.success + s.progress.failure = B.files.length := by
  have hd := drained_of_inv h.quiet hcount hclosed
  have hlength := (h.failures_reported hclosed hcount hnodup hfailed).length_eq
  rw [List.length_map, List.length_map] at hlength
  have hcounted : ((results s.cycle.dispatched).map Prod.snd).count false = failed.length := by
    rw [← hlength, List.count_eq_countP, List.countP_map, List.countP_eq_length_filter]
    rfl
  have hall : (results s.cycle.dispatched).length = B.files.length := by
    have hsame := (h.quiet.pushed ▸ hd.counted).length_eq
    rw [List.length_map] at hsame
    rw [hsame, jobsOf, List.length_mapIdx, Batch.entries, List.length_map]
  have hboth := List.count_false_add_count_true ((results s.cycle.dispatched).map Prod.snd)
  rw [List.length_map] at hboth
  rw [hd.success, hd.failure]
  omega

end DegradedInv
end Invariant

/-! ## The cycle -/

end SensorDataNormalization.FailureIsolation
