import Mathlib.Algebra.BigOperators.Group.Finset.Piecewise
import Mathlib.Algebra.Order.BigOperators.Group.Finset
import SensorDataNormalization.SystemFlow

set_option autoImplicit false
namespace SensorDataNormalization.CycleAccounting
open PythonText PcapRecords PcapSplit StoreProgram Messages WorkerPaths WorkerProgram
  ManagerProgram ProcessState NormalizerSystem SystemSteps SystemFlow

variable {n : ℕ} {env : Environment}

/-! ## Jobs in flight and their messages -/

def workerJob : Worker → Option Job
  | .idle => none
  | .busy job _ _ => some job
  | .failed job => some job

def bodyJob : Body → Option Job
  | .jobDone job _ => some job
  | .pairPut put => some put.source.job
  | .unexpected => none
  | .undecodable => none

def bodyResult : Body → Option (Job × Bool)
  | .jobDone job success => some (job, success)
  | _ => none

def bodyPut : Body → Option PairPut
  | .pairPut put => some put
  | _ => none

def results (bodies : List Body) : List (Job × Bool) := bodies.filterMap bodyResult

def puts (bodies : List Body) : List PairPut := bodies.filterMap bodyPut

theorem mem_results {bodies : List Body} {r : Job × Bool} :
    r ∈ results bodies ↔ .jobDone r.1 r.2 ∈ bodies := by
  rw [results, List.mem_filterMap]
  constructor
  · rintro ⟨b, hb, hr⟩
    cases b with
    | jobDone job success =>
      cases hr
      exact hb
    | pairPut put => cases hr
    | unexpected => cases hr
    | undecodable => cases hr
  · exact fun h => ⟨_, h, rfl⟩

theorem mem_puts {bodies : List Body} {put : PairPut} :
    put ∈ puts bodies ↔ .pairPut put ∈ bodies := by
  rw [puts, List.mem_filterMap]
  constructor
  · rintro ⟨b, hb, hput⟩
    cases b with
    | jobDone job success => cases hput
    | pairPut put =>
      cases hput
      exact hb
    | unexpected => cases hput
    | undecodable => cases hput
  · exact fun h => ⟨_, h, rfl⟩

def Busy (s : System n) (job : Job) : Prop := ∃ w, workerJob (s.workers w) = some job

/-- No job is queued or in work, and no message of a worker waits. -/
structure Settled (s : System n) : Prop where
  queue : s.jobQueue = []
  idle : ∀ w, s.workers w = .idle
  mail : ∀ b ∈ s.mailbox, bodyJob b = none

theorem Settled.inject {s : System n} (hs : Settled s) {b : Body} (hb : bodyJob b = none) :
    Settled (s.post b) := by
  refine ⟨hs.queue, hs.idle, fun c hc => ?_⟩
  rcases List.mem_append.mp hc with hc | hc
  · exact hs.mail c hc
  · rw [List.mem_singleton.mp hc]
    exact hb

/-- A PairPut in the mailbox comes from a job that is still in work, or whose JobDone
stands behind it. -/
def Followed (busy : Job → Prop) : List Body → Prop
  | [] => True
  | b :: rest => (∀ put, b = .pairPut put →
      busy put.source.job ∨ ∃ success, .jobDone put.source.job success ∈ rest) ∧ Followed busy rest

theorem Followed.mono {busy busy' : Job → Prop} (h : ∀ j, busy j → busy' j) {bodies : List Body}
    (hf : Followed busy bodies) : Followed busy' bodies := by
  induction bodies with
  | nil => trivial
  | cons b rest ih =>
    refine ⟨fun put hb => ?_, ih hf.2⟩
    rcases hf.1 put hb with hbusy | hdone
    · exact Or.inl (h _ hbusy)
    · exact Or.inr hdone

theorem Followed.concat {busy busy' : Job → Prop} {b : Body} {bodies : List Body}
    (hf : Followed busy bodies)
    (hkeep : ∀ j, busy j → busy' j ∨ ∃ success, b = .jobDone j success)
    (hput : ∀ put, b = .pairPut put → busy' put.source.job) : Followed busy' (bodies ++ [b]) := by
  induction bodies with
  | nil => exact ⟨fun put hb => Or.inl (hput put hb), trivial⟩
  | cons c rest ih =>
    refine ⟨fun put hc => ?_, ih hf.2⟩
    rcases hf.1 put hc with hbusy | ⟨success, hdone⟩
    · rcases hkeep _ hbusy with hbusy' | ⟨success, hb⟩
      · exact Or.inl hbusy'
      · exact Or.inr ⟨success, by rw [← hb]; simp⟩
    · exact Or.inr ⟨success, List.mem_append_left _ hdone⟩

theorem Followed.mem {busy : Job → Prop} {bodies : List Body} (hf : Followed busy bodies)
    {put : PairPut} (hput : .pairPut put ∈ bodies) :
    busy put.source.job ∨ ∃ success, .jobDone put.source.job success ∈ bodies := by
  induction bodies with
  | nil => cases hput
  | cons b rest ih =>
    rcases List.mem_cons.mp hput with hb | hrest
    · rcases hf.1 put hb.symm with hbusy | ⟨success, hdone⟩
      · exact Or.inl hbusy
      · exact Or.inr ⟨success, List.mem_cons_of_mem _ hdone⟩
    · rcases ih hf.2 hrest with hbusy | ⟨success, hdone⟩
      · exact Or.inl hbusy
      · exact Or.inr ⟨success, List.mem_cons_of_mem _ hdone⟩

theorem followed_of_none {busy : Job → Prop} {bodies : List Body}
    (h : ∀ b ∈ bodies, bodyJob b = none) : Followed busy bodies := by
  induction bodies with
  | nil => trivial
  | cons b rest ih =>
    refine ⟨fun put hb => ?_, ih (fun c hc => h c (List.mem_cons_of_mem _ hc))⟩
    have hnone := h b List.mem_cons_self
    rw [hb] at hnone
    cases hnone

theorem results_of_none {bodies : List Body} (h : ∀ b ∈ bodies, bodyJob b = none) :
    results bodies = [] := by
  refine List.filterMap_eq_nil_iff.mpr (fun b hb => ?_)
  have hnone := h b hb
  cases b with
  | jobDone j success => cases hnone
  | pairPut put => rfl
  | unexpected => rfl
  | undecodable => rfl

/-! ## Programs send pieces of their own job only -/

def OwnPuts (job : Job) (program : Program) : Prop :=
  ∀ cell put, .give cell put ∈ program → put.source.job = job

theorem ownPuts_download (job : Job) : OwnPuts job (download env job) := by
  intro cell put h
  unfold download at h
  split at h
  · simp at h
  · split at h
    · simp [writeFile] at h
    · simp at h

theorem mem_sendUnprocessed {job : Job} {vehicleId : Str} {piece : SplitedPcap} {cell : Str}
    {put : PairPut} (h : .give cell put ∈ sendUnprocessedToManager env job vehicleId piece) :
    put.source = ⟨job, piece⟩ := by
  unfold sendUnprocessedToManager at h
  split_ifs at h
  · cases h
  · split at h
    · simp only [List.mem_singleton, Op.give.injEq] at h
      rw [h.2]
    · simp at h

theorem not_mem_uploadProcessed {job : Job} {vehicleId : Str} {piece : SplitedPcap} {cell : Str}
    {put : PairPut} : .give cell put ∉ uploadProcessed env job vehicleId piece := by
  unfold uploadProcessed
  dsimp only
  split_ifs
  · simp
  · split <;> simp

theorem ownPuts_splitUploadSend (disk : Store Str Bytes) (job : Job) :
    OwnPuts job (splitUploadSend env disk job) := by
  intro cell put h
  rcases splitUploadSend_parts env disk job with hfail |
    ⟨vehicleId, folder, template, writes, outcome, -, -, -, hsplit, hprogram⟩
  · rw [hfail] at h
    simp at h
  · obtain ⟨-, -, pieces, -, -, -, rfl, rfl⟩ := splitOnce_some hsplit
    rw [hprogram] at h
    simp only [List.mem_append, List.mem_cons, writePieces, List.mem_map, writeFile, removeFile,
      List.mem_flatMap] at h
    rcases h with ⟨_, -, h⟩ | h | (⟨_, -, h⟩ | ⟨piece, -, h⟩) | h
    · cases h
    · cases h
    · exact absurd h not_mem_uploadProcessed
    · rw [mem_sendUnprocessed h]
    · split_ifs at h <;> simp at h

theorem not_mem_mergePair (paired : List PairPut) (cell : Str) (put : PairPut) :
    .give cell put ∉ mergePair paired := by
  unfold mergePair
  split
  · simp
  · rename_i first rest
    dsimp only
    simp [mergePcapFiles, copyHeader, appendBody, removeFile]

theorem not_mem_uploadUnpaired (unpaired : List (List PairPut)) (cell : Str) (put : PairPut) :
    .give cell put ∉ uploadUnpaired unpaired := by
  intro h
  obtain ⟨bucket, -, hb⟩ := List.mem_flatMap.mp h
  unfold uploadBucket at hb
  split at hb <;> simp at hb

/-! ## The invariant of a cycle -/

def Phase.isOpen : Phase → Prop
  | .pushing _ => True
  | .working .drain _ => True
  | _ => False

theorem jobs_of_closed {p : Phase} (h : ¬ Phase.isOpen p) : p.jobs = [] := by
  cases p with
  | pushing jobs => exact absurd trivial h
  | _ => rfl

/-- From `begin_cycle` to the return of `_run_cycle`. -/
def Phase.counting : Phase → Prop
  | .pushing _ => True
  | .working _ _ => True
  | .returned => True
  | _ => False

/-- A job counts once, wherever it is: not pushed yet, queued, in work, or reported. -/
def jobFlow (f : Job → ℕ) : Flow ℕ where
  job := f
  worker := fun worker => ((workerJob worker).map f).getD 0
  mail := fun b => ((bodyResult b).map (fun r => f r.1)).getD 0
  dispatched := fun b => ((bodyResult b).map (fun r => f r.1)).getD 0
  bucket := fun _ => 0
  manager := fun _ => 0
  upload := fun _ => 0

/-- The tracker as the results counted so far leave it. -/
def tally (cycle : Cycle) : JobProgressTracker :=
  ((results cycle.dispatched).map Prod.snd).foldl JobProgressTracker.markOneDone
    (.beginCycle cycle.pushed.length)

structure CycleInv (s : System n) : Prop where
  pushed_cycle : ∀ j ∈ s.cycle.pushed, j.cycle = s.cycle.number
  jobs : ∀ f : Job → ℕ, (jobFlow f).total s = weigh f s.cycle.pushed
  progress : Phase.counting s.phase → s.progress = tally s.cycle
  own : ∀ w job next program, s.workers w = .busy job next program → OwnPuts job program
  silent : ∀ cell put, .give cell put ∉ s.phase.program
  followed : Followed (Busy s) s.mailbox
  dispatched : ∀ b ∈ s.cycle.dispatched, ∀ j, bodyJob b = some j → j ∈ s.cycle.pushed
  settled : ¬ Phase.isOpen s.phase → Settled s

/-- No exception between `begin_cycle` and the end of the drain, and no drain that a stop
request ends with jobs outstanding. -/
structure Orderly (t : System n) (a : Action n) (u : System n) : Prop where
  no_raise : Phase.isOpen t.phase → u.phase ≠ .raised
  no_stop : t.phase = .working .drain [] → a = .manager → t.stop = true →
    t.progress.remaining ≤ 0

theorem weigh_zero {α : Type} (xs : List α) : weigh (fun _ => (0 : ℕ)) xs = 0 := by
  simp [weigh]

theorem jobFlow_output (f : Job → ℕ) (who : Uploader) (out : Output Bytes Destination PairPut) :
    (jobFlow f).output who out = 0 := by
  cases out <;> rfl

theorem jobFlow_exchange (f : Job → ℕ) {s s' : System n}
    (hraise : s'.phase = .raised → s.phase.jobs = []) {before after : ℕ}
    (h : Flow.Exchange (jobFlow f) env s s' before after) : before = after := by
  cases h with
  | none => rfl
  | manage => rw [jobFlow_output]; rfl
  | raised hphase hraised => rw [hraise hraised]; rfl
  | sweep => exact weigh_zero _
  | jobDone => rfl
  | pairPut hmail hphase =>
    change 0 + weigh (fun _ => 0) _ + 0 = 0 + weigh (fun _ => 0) _ + 0
    rw [weigh_zero, weigh_zero]
  | foreign hforeign => rfl
  | take => exact add_zero _
  | work => rw [jobFlow_output]; rfl
  | failed => rfl
  | split => rfl
  | report => exact (zero_add _).symm
  | reportFailure => exact (zero_add _).symm
  | inject hforeign => rcases hforeign with rfl | rfl <;> rfl

/-! ### What a step keeps -/

section Step
variable {s s' : System n} {a : Action n}

theorem move_pushed (h : Move env s a s') (ha : ∀ request answer, a ≠ .request request answer) :
    s'.cycle.pushed = s.cycle.pushed ∧ s'.cycle.number = s.cycle.number := by
  cases h with
  | reject => exact absurd rfl (ha _ _)
  | begin => exact absurd rfl (ha _ _)
  | manage => simp
  | work => simp [System.setWorker]
  | @dispatch b => cases b <;> exact ⟨rfl, rfl⟩
  | _ => exact ⟨rfl, rfl⟩

theorem move_jobs (h : Move env s a s') (ha : ∀ request answer, a ≠ .request request answer)
    (hraise : s'.phase = .raised → s.phase.jobs = [])
    (hjobs : ∀ f : Job → ℕ, (jobFlow f).total s = weigh f s.cycle.pushed) (f : Job → ℕ) :
    (jobFlow f).total s' = weigh f s'.cycle.pushed := by
  rw [(move_pushed h ha).1, ← hjobs f]
  exact (jobFlow f).total_eq h ha (fun _ _ he => jobFlow_exchange f hraise he)

theorem setWorker_busy {Q : Job → Next → Program → Prop} {w : Fin n} {worker : Worker}
    {t : System n}
    (hold : ∀ v job next program, t.workers v = .busy job next program → Q job next program)
    (hnew : ∀ job next program, worker = .busy job next program → Q job next program) :
    ∀ v job next program, (t.setWorker w worker).workers v = .busy job next program →
      Q job next program :=
  setWorker_forall (P := fun u => ∀ job next program, u = .busy job next program →
    Q job next program) (fun v _ => hold v) hnew

theorem move_own (h : Move env s a s')
    (hown : ∀ w job next program, s.workers w = .busy job next program → OwnPuts job program) :
    ∀ w job next program, s'.workers w = .busy job next program → OwnPuts job program := by
  cases h with
  | manage => simpa using hown
  | take =>
    refine setWorker_busy hown (fun job next program he => ?_)
    cases he
    exact ownPuts_download _
  | work hworker =>
    rw [publish_workers]
    refine setWorker_busy hown (fun job next program he => ?_)
    cases he
    intro cell put hm
    exact hown _ _ _ _ hworker cell put (List.mem_cons_of_mem _ hm)
  | workerFail => exact setWorker_busy hown (fun _ _ _ he => by cases he)
  | workerFault => exact setWorker_busy hown (fun _ _ _ he => by cases he)
  | split =>
    refine setWorker_busy hown (fun job next program he => ?_)
    cases he
    exact ownPuts_splitUploadSend _ _
  | report => exact setWorker_busy hown (fun _ _ _ he => by cases he)
  | @dispatch b => cases b <;> exact hown
  | _ => exact hown

theorem move_silent (h : Move env s a s') (hsilent : ∀ cell put, .give cell put ∉ s.phase.program) :
    ∀ cell put, .give cell put ∉ s'.phase.program := by
  cases h with
  | loop hold hnew =>
    rename_i phase
    cases phase <;> first | exact hnew.elim | simp [Phase.program]
  | manage hphase =>
    intro cell put hm
    rw [publish_phase] at hm
    rw [hphase] at hsilent
    exact hsilent cell put (List.mem_cons_of_mem _ hm)
  | sweep => exact fun cell put => not_mem_uploadUnpaired _ cell put
  | work => simpa [System.setWorker] using hsilent
  | @dispatch b mailbox hphase =>
    rw [hphase] at hsilent
    cases b with
    | jobDone job success => simpa [System.dispatchMessage, hphase] using hsilent
    | pairPut put =>
      intro cell put' hm
      change _ ∈ mergeReady (PairBuckets.put put.pairKey put s.buckets).2 at hm
      cases hpaired : (PairBuckets.put put.pairKey put s.buckets).2 with
      | none =>
        rw [hpaired] at hm
        cases hm
      | some paired =>
        rw [hpaired] at hm
        exact not_mem_mergePair _ cell put' hm
    | unexpected => exact fun _ _ hm => by cases hm
    | undecodable => exact fun _ _ hm => by cases hm
  | push => exact fun _ _ hm => by cases hm
  | pushed => exact fun _ _ hm => by cases hm
  | fail => exact fun _ _ hm => by cases hm
  | fault => exact fun _ _ hm => by cases hm
  | reject => exact fun _ _ hm => by cases hm
  | begin => exact fun _ _ hm => by cases hm
  | swept => exact fun _ _ hm => by cases hm
  | notify => exact fun _ _ hm => by cases hm
  | notifyFailure => exact fun _ _ hm => by cases hm
  | _ => exact hsilent

theorem busy_setWorker {w : Fin n} {worker : Worker} {t : System n} {j : Job}
    (hkeep : ∀ k, workerJob (t.workers w) = some k → workerJob worker = some k)
    (h : Busy t j) : Busy (t.setWorker w worker) j := by
  obtain ⟨v, hv⟩ := h
  refine ⟨v, ?_⟩
  by_cases hvw : v = w
  · subst hvw
    rw [setWorker_self]
    exact hkeep j hv
  · rw [setWorker_of_ne hvw]
    exact hv

/-- A worker that goes on with its job still holds back the report of its pieces. -/
theorem followed_setWorker {w : Fin n} {worker worker' : Worker} (hworker : s.workers w = worker)
    (hjob : workerJob worker' = workerJob worker) (hf : Followed (Busy s) s.mailbox) :
    Followed (Busy (s.setWorker w worker')) s.mailbox := by
  refine hf.mono (fun j => busy_setWorker (fun k hk => ?_))
  rw [hjob, ← hworker]
  exact hk

theorem followed_work {w : Fin n} {job : Job} {next : Next} {op : WorkOp} {program : Program}
    {disk : Store Str Bytes} {out : Output Bytes Destination PairPut}
    (hworker : s.workers w = .busy job next (op :: program))
    (hexec : op.exec s.disk = some (disk, out)) (hown : OwnPuts job (op :: program))
    (hf : Followed (Busy s) s.mailbox) :
    let s' := ({ s with disk := disk }.setWorker w (.busy job next program)).publish .worker out
    Followed (Busy s') s'.mailbox := by
  have hkept : Followed (Busy ({ s with disk := disk }.setWorker w (.busy job next program)))
      s.mailbox :=
    followed_setWorker (s := { s with disk := disk }) hworker rfl hf
  cases out with
  | silent => exact hkept
  | published destination contents => exact hkept
  | given put =>
    obtain ⟨cell, rfl⟩ := Op.exec_given hexec
    refine hkept.concat (fun j hj => Or.inl hj) (fun put' hput => ?_)
    cases hput
    refine ⟨w, ?_⟩
    change workerJob (({ s with disk := disk }.setWorker w (.busy job next program)).workers w) = _
    rw [setWorker_self, hown cell put List.mem_cons_self]
    rfl

theorem followed_report {w : Fin n} {job : Job} {success : Bool}
    (hworker : s.workers w = if success then .busy job .report [] else .failed job)
    (hf : Followed (Busy s) s.mailbox) :
    let s' := (s.setWorker w .idle).post (.jobDone job success)
    Followed (Busy s') s'.mailbox := by
  refine hf.concat (fun j hj => ?_) (fun put hput => by cases hput)
  obtain ⟨v, hv⟩ := hj
  by_cases hvw : v = w
  · subst hvw
    have hj : workerJob (s.workers v) = some job := by
      rw [hworker]
      cases success <;> rfl
    cases Option.some.inj (hj.symm.trans hv)
    exact Or.inr ⟨success, rfl⟩
  · refine Or.inl ⟨v, ?_⟩
    change workerJob ((s.setWorker w .idle).workers v) = some j
    rw [setWorker_of_ne hvw]
    exact hv

theorem move_followed (h : Move env s a s')
    (hown : ∀ w job next program, s.workers w = .busy job next program → OwnPuts job program)
    (hsilent : ∀ cell put, .give cell put ∉ s.phase.program)
    (hf : Followed (Busy s) s.mailbox) : Followed (Busy s') s'.mailbox := by
  cases h with
  | @manage stage op program disk out hphase hexec =>
    cases out with
    | silent => exact hf
    | published destination contents => exact hf
    | given put => exact (silent_not_given hsilent hphase hexec).elim
  | @dispatch b mailbox hphase hmail =>
    rw [hmail] at hf
    cases b <;> exact hf.2
  | @take w job jobs hworker =>
    refine hf.mono (fun j => busy_setWorker (t := { s with jobQueue := jobs }) (fun k hk => ?_))
    change workerJob (s.workers w) = some k at hk
    rw [hworker] at hk
    cases hk
  | work hworker hexec => exact followed_work hworker hexec (hown _ _ _ _ hworker) hf
  | workerFail hworker => exact followed_setWorker hworker rfl hf
  | workerFault hworker => exact followed_setWorker hworker rfl hf
  | split hworker => exact followed_setWorker hworker rfl hf
  | report hworker => exact followed_report hworker hf
  | unexpected => exact hf.concat (fun j hj => Or.inl hj) (fun put hput => by cases hput)
  | undecodable => exact hf.concat (fun j hj => Or.inl hj) (fun put hput => by cases hput)
  | _ => exact hf

theorem results_concat (bodies : List Body) (b : Body) :
    results (bodies ++ [b]) = results bodies ++ (bodyResult b).toList := by
  rw [results, List.filterMap_append]
  cases hb : bodyResult b <;> simp [hb, results]

theorem move_progress (h : Move env s a s') (ha : ∀ request answer, a ≠ .request request answer)
    (hp : Phase.counting s.phase → s.progress = tally s.cycle)
    (hcount : Phase.counting s'.phase) : s'.progress = tally s'.cycle := by
  cases h with
  | reject => exact absurd rfl (ha _ _)
  | begin => exact absurd rfl (ha _ _)
  | loop hold hnew =>
    rename_i phase
    cases phase <;> first | exact hnew.elim | exact hcount.elim
  | push hphase => exact hp (by rw [hphase]; trivial)
  | pushed hphase => exact hp (by rw [hphase]; trivial)
  | manage hphase =>
    have hsame := hp (by rw [hphase]; trivial)
    simpa [tally] using hsame
  | fail => exact hcount.elim
  | fault => exact hcount.elim
  | sweep hphase => exact hp (by rw [hphase]; trivial)
  | @dispatch b mailbox hphase hmail =>
    have hsame := hp (by rw [hphase]; trivial)
    cases b with
    | jobDone job success =>
      change s.progress.markOneDone success =
        tally { s.cycle with dispatched := s.cycle.dispatched ++ [.jobDone job success] }
      rw [tally, results_concat, List.map_append, List.foldl_append, hsame]
      rfl
    | pairPut put =>
      change s.progress =
        tally { s.cycle with dispatched := s.cycle.dispatched ++ [.pairPut put] }
      rw [tally, results_concat, hsame, tally]
      simp [bodyResult]
    | unexpected => exact hcount.elim
    | undecodable => exact hcount.elim
  | swept hphase => exact hp (by rw [hphase]; trivial)
  | notify => exact hcount.elim
  | notifyFailure => exact hcount.elim
  | work => simpa [tally, System.setWorker] using hp (by simpa [System.setWorker] using hcount)
  | _ => exact hp hcount

end Step

/-! ### Counting -/

theorem le_weigh {α : Type} (f : α → ℕ) {x : α} {xs : List α} (h : x ∈ xs) : f x ≤ weigh f xs :=
  List.le_sum_of_mem (List.mem_map_of_mem h)

theorem le_load (f : Worker → ℕ) (workers : Fin n → Worker) (w : Fin n) :
    f (workers w) ≤ load f workers :=
  Finset.single_le_sum_of_canonicallyOrdered (f := fun v => f (workers v)) (Finset.mem_univ w)

def only (job : Job) : Job → ℕ := fun j => if j = job then 1 else 0

theorem weigh_only (job : Job) (jobs : List Job) : weigh (only job) jobs = jobs.count job := by
  induction jobs with
  | nil => rfl
  | cons j jobs ih =>
    rw [weigh_cons, ih, List.count_cons, only]
    by_cases hj : j = job
    · rw [if_pos hj, if_pos (by simpa using hj)]
      omega
    · rw [if_neg hj, if_neg (by simpa using hj)]
      omega

theorem weigh_one {α : Type} (xs : List α) : weigh (fun _ => (1 : ℕ)) xs = xs.length := by
  induction xs with
  | nil => rfl
  | cons x xs ih =>
    rw [weigh_cons, ih, List.length_cons]
    omega

theorem jobFlow_total (f : Job → ℕ) (s : System n) : (jobFlow f).total s =
    weigh f s.phase.jobs + weigh f s.jobQueue + load (jobFlow f).worker s.workers +
      weigh f ((results s.mailbox).map Prod.fst) +
      weigh f ((results s.cycle.dispatched).map Prod.fst) := by
  have hresults : ∀ bodies : List Body, weigh (jobFlow f).mail bodies =
      weigh f ((results bodies).map Prod.fst) := by
    intro bodies
    induction bodies with
    | nil => rfl
    | cons b rest ih =>
      rw [weigh_cons, ih]
      cases b with
      | jobDone job success => exact (weigh_cons f job _).symm
      | pairPut put => exact zero_add _
      | unexpected => exact zero_add _
      | undecodable => exact zero_add _
  have hbuckets : weigh (jobFlow f).bucket s.buckets.items = 0 := weigh_zero _
  have huploads : weigh (jobFlow f).upload s.cycle.uploads = 0 := weigh_zero _
  have hmanager : (jobFlow f).manager s.phase.program = 0 := rfl
  have hdispatched : weigh (jobFlow f).dispatched s.cycle.dispatched =
      weigh f ((results s.cycle.dispatched).map Prod.fst) := hresults _
  rw [Flow.total, hresults, hbuckets, huploads, hmanager, hdispatched]
  rfl

def busyWorkers (s : System n) : ℕ :=
  (Finset.univ.filter (fun w => (workerJob (s.workers w)).isSome = true)).card

theorem load_one (s : System n) : load (jobFlow (fun _ => 1)).worker s.workers = busyWorkers s := by
  rw [busyWorkers, Finset.card_filter]
  refine Finset.sum_congr rfl (fun w _ => ?_)
  cases h : workerJob (s.workers w) <;> simp [jobFlow, h]

section Counts
variable {s : System n} (h : CycleInv s)
include h

theorem CycleInv.count_pushed (job : Job) : s.cycle.pushed.count job =
    s.phase.jobs.count job + s.jobQueue.count job + load (jobFlow (only job)).worker s.workers +
      ((results s.mailbox).map Prod.fst).count job +
      ((results s.cycle.dispatched).map Prod.fst).count job := by
  have hjobs := h.jobs (only job)
  rw [jobFlow_total] at hjobs
  simp only [weigh_only] at hjobs
  exact hjobs.symm

theorem CycleInv.length_pushed : s.cycle.pushed.length =
    s.phase.jobs.length + s.jobQueue.length + busyWorkers s + (results s.mailbox).length +
      (results s.cycle.dispatched).length := by
  have hjobs := h.jobs (fun _ => 1)
  rw [jobFlow_total, load_one] at hjobs
  simp only [weigh_one, List.length_map] at hjobs
  exact hjobs.symm

theorem CycleInv.busy_pushed {job : Job} (hb : Busy s job) : job ∈ s.cycle.pushed := by
  obtain ⟨w, hw⟩ := hb
  have hload := le_load (jobFlow (only job)).worker s.workers w
  have hone : (jobFlow (only job)).worker (s.workers w) = 1 := by
    simp [jobFlow, hw, only]
  have hcount := h.count_pushed job
  exact List.count_pos_iff.mp (by omega)

theorem CycleInv.reported_pushed {job : Job} {success : Bool}
    (hb : .jobDone job success ∈ s.mailbox) : job ∈ s.cycle.pushed := by
  have hmem : job ∈ (results s.mailbox).map Prod.fst :=
    List.mem_map.mpr ⟨(job, success), mem_results.mpr hb, rfl⟩
  have hpos := List.count_pos_iff.mpr hmem
  have hcount := h.count_pushed job
  exact List.count_pos_iff.mp (by omega)

theorem CycleInv.mail_pushed {b : Body} (hb : b ∈ s.mailbox) {job : Job}
    (hj : bodyJob b = some job) : job ∈ s.cycle.pushed := by
  cases b with
  | jobDone j success =>
    cases hj
    exact h.reported_pushed hb
  | pairPut put =>
    cases hj
    rcases h.followed.mem hb with hbusy | ⟨success, hdone⟩
    · exact h.busy_pushed hbusy
    · exact h.reported_pushed hdone
  | unexpected => cases hj
  | undecodable => cases hj

theorem CycleInv.progress_counts (hc : Phase.counting s.phase) :
    s.progress.remaining = s.phase.jobs.length + s.jobQueue.length + busyWorkers s +
        (results s.mailbox).length ∧
      (s.progress.success : ℤ) + s.progress.failure + s.progress.remaining =
        s.cycle.pushed.length := by
  have hlen := h.length_pushed
  have hp := h.progress hc
  rw [tally, JobProgressTracker.foldl_markOneDone] at hp
  have hsplit : ((results s.cycle.dispatched).map Prod.snd).count true +
      ((results s.cycle.dispatched).map Prod.snd).count false =
        ((results s.cycle.dispatched).map Prod.snd).length := by
    induction (results s.cycle.dispatched).map Prod.snd with
    | nil => rfl
    | cons b bs ih => cases b <;> simp <;> omega
  rw [List.length_map] at hsplit
  rw [hp]
  simp only [JobProgressTracker.beginCycle, List.length_map]
  omega

/-- When the counter is at zero no job is anywhere but counted. -/
theorem CycleInv.settled_of_remaining (hc : Phase.counting s.phase)
    (hr : s.progress.remaining ≤ 0) : s.phase.jobs = [] ∧ Settled s := by
  obtain ⟨hremaining, -⟩ := h.progress_counts hc
  have hjobs : s.phase.jobs.length = 0 := by omega
  have hqueue : s.jobQueue.length = 0 := by omega
  have hbusy : busyWorkers s = 0 := by omega
  have hmail : (results s.mailbox).length = 0 := by omega
  have hidle : ∀ w, workerJob (s.workers w) = none := by
    intro w
    by_contra hw
    have hmem : w ∈ Finset.univ.filter (fun w => (workerJob (s.workers w)).isSome = true) :=
      Finset.mem_filter.mpr ⟨Finset.mem_univ w, Option.isSome_iff_ne_none.mpr hw⟩
    rw [Finset.card_eq_zero.mp hbusy] at hmem
    exact absurd hmem (Finset.notMem_empty w)
  have hnone : ∀ j success, .jobDone j success ∉ s.mailbox := by
    intro j success hm
    have hmem : (j, success) ∈ results s.mailbox := mem_results.mpr hm
    rw [List.length_eq_zero_iff.mp hmail] at hmem
    cases hmem
  refine ⟨List.length_eq_zero_iff.mp hjobs, List.length_eq_zero_iff.mp hqueue, fun w => ?_,
    fun b hb => ?_⟩
  · have hw := hidle w
    cases hworker : s.workers w with
    | idle => rfl
    | busy job next program =>
      rw [hworker] at hw
      cases hw
    | failed job =>
      rw [hworker] at hw
      cases hw
  · cases b with
    | jobDone j success => exact absurd hb (hnone j success)
    | pairPut put =>
      rcases h.followed.mem hb with ⟨w, hw⟩ | ⟨success, hdone⟩
      · rw [hidle w] at hw
        cases hw
      · exact absurd hdone (hnone _ success)
    | unexpected => rfl
    | undecodable => rfl

theorem CycleInv.reported_perm (hjobs : s.phase.jobs = []) (hs : Settled s) :
    ((results s.cycle.dispatched).map Prod.fst).Perm s.cycle.pushed := by
  refine List.perm_iff_count.mpr (fun job => ?_)
  have hcount := h.count_pushed job
  have hload : load (jobFlow (only job)).worker s.workers = 0 := load_idle rfl hs.idle
  have hmail := results_of_none hs.mail
  rw [hjobs, hs.queue, hload, hmail] at hcount
  simp only [List.count_nil, List.map_nil] at hcount
  omega

end Counts

/-! ### The invariant is kept -/

/-- A settled daemon stays settled until the next request. -/
theorem Settled.move {s s' : System n} {a : Action n} (hs : Settled s) (h : Move env s a s')
    (ha : ∀ request answer, a ≠ .request request answer)
    (hsilent : ∀ cell put, .give cell put ∉ s.phase.program) (hjobs : s.phase.jobs = []) :
    Settled s' := by
  have hidle : ∀ {w : Fin n} {worker : Worker}, s.workers w = worker → worker ≠ .idle → False :=
    fun hw hne => hne (hw.symm.trans (hs.idle _))
  cases h with
  | reject => exact absurd rfl (ha _ _)
  | begin => exact absurd rfl (ha _ _)
  | push hphase =>
    rw [hphase] at hjobs
    cases hjobs
  | @manage stage op program disk out hphase hexec =>
    cases out with
    | silent => exact ⟨hs.queue, hs.idle, hs.mail⟩
    | published destination contents => exact ⟨hs.queue, hs.idle, hs.mail⟩
    | given put => exact (silent_not_given hsilent hphase hexec).elim
  | wait => exact hs
  | @dispatch b mailbox hphase hmail =>
    have hrest : ∀ c ∈ mailbox, bodyJob c = none :=
      fun c hc => hs.mail c (hmail ▸ List.mem_cons_of_mem b hc)
    cases b <;> exact ⟨hs.queue, hs.idle, hrest⟩
  | poll => exact hs
  | take hworker hqueue =>
    rw [hs.queue] at hqueue
    cases hqueue
  | work hworker => exact (hidle hworker (by simp)).elim
  | workerFail hworker => exact (hidle hworker (by simp)).elim
  | workerFault hworker => exact (hidle hworker (by simp)).elim
  | split hworker => exact (hidle hworker (by simp)).elim
  | @report w job success hworker => exact (hidle hworker (by cases success <;> simp)).elim
  | unexpected => exact hs.inject rfl
  | undecodable => exact hs.inject rfl
  | _ => exact ⟨hs.queue, hs.idle, hs.mail⟩

/-- The drain loop is left when everything has been reported, and in no other way. -/
theorem settled_of_closing {s s' : System n} {a : Action n} (h : Move env s a s')
    (hok : Orderly s a s') (hi : CycleInv s) (ha : ∀ request answer, a ≠ .request request answer)
    (ho : Phase.isOpen s.phase) (hclosed : ¬ Phase.isOpen s'.phase) : Settled s' := by
  have hraise : s'.phase ≠ .raised := hok.no_raise ho
  cases h with
  | reject => exact absurd rfl (ha _ _)
  | begin => exact absurd rfl (ha _ _)
  | loop hold =>
    cases hp : s.phase <;> rw [hp] at hold ho <;> first | exact hold.elim | exact ho.elim
  | push => exact absurd trivial hclosed
  | pushed => exact absurd trivial hclosed
  | @manage stage op program disk out hphase =>
    rw [publish_phase] at hclosed
    rw [hphase] at ho
    cases stage with
    | drain => exact absurd trivial hclosed
    | sweep => exact ho.elim
  | fail => exact absurd rfl hraise
  | fault => exact absurd rfl hraise
  | sweep hphase hexit =>
    have hr : s.progress.remaining ≤ 0 := by
      rcases hexit with hr | hstop
      · exact hr
      · exact hok.no_stop hphase rfl hstop
    obtain ⟨-, hs⟩ := hi.settled_of_remaining (by rw [hphase]; trivial) hr
    exact ⟨hs.queue, hs.idle, hs.mail⟩
  | @dispatch b =>
    cases b with
    | jobDone job success => exact absurd ho hclosed
    | pairPut put => exact absurd trivial hclosed
    | unexpected => exact absurd rfl hraise
    | undecodable => exact absurd rfl hraise
  | swept hphase => exact absurd ho (by rw [hphase]; exact id)
  | notify hphase => exact absurd ho (by rw [hphase]; exact id)
  | notifyFailure hphase => exact absurd ho (by rw [hphase]; exact id)
  | work =>
    rw [publish_phase] at hclosed
    exact absurd ho hclosed
  | _ => exact absurd ho hclosed

theorem move_settled {s s' : System n} {a : Action n} (h : Move env s a s') (hok : Orderly s a s')
    (hi : CycleInv s) (ha : ∀ request answer, a ≠ .request request answer)
    (hopen : ¬ Phase.isOpen s'.phase) : Settled s' := by
  by_cases ho : Phase.isOpen s.phase
  · exact settled_of_closing h hok hi ha ho hopen
  · exact (hi.settled ho).move h ha hi.silent (jobs_of_closed ho)

theorem move_dispatched {s s' : System n} {a : Action n} (h : Move env s a s') (hi : CycleInv s)
    (ha : ∀ request answer, a ≠ .request request answer) :
    ∀ b ∈ s'.cycle.dispatched, ∀ j, bodyJob b = some j → j ∈ s'.cycle.pushed := by
  intro b hb j hj
  rw [(move_pushed h ha).1]
  cases dispatched_of_move h hb with
  | inl hb => exact hi.dispatched b hb j hj
  | inr hb => exact hi.mail_pushed hb hj

theorem jobsOf_cycle {number : ℕ} {files : List StorageFile} : ∀ j ∈ jobsOf number files,
    j.cycle = number := by
  intro j hj
  rw [jobsOf, List.mem_mapIdx] at hj
  obtain ⟨_, _, rfl⟩ := hj
  rfl

theorem cycleInv_begin {s : System n} (hs : Settled s) (request : Request)
    (files : List StorageFile) : CycleInv ((s.openCycle env request).beginCycle files) where
  pushed_cycle := jobsOf_cycle
  jobs := by
    intro f
    have hload : load (jobFlow f).worker s.workers = 0 := load_idle rfl hs.idle
    have hmail := results_of_none hs.mail
    rw [jobFlow_total]
    change weigh f (jobsOf (s.cycle.number + 1) files) + weigh f s.jobQueue +
      load (jobFlow f).worker s.workers + weigh f ((results s.mailbox).map Prod.fst) +
      weigh f [] = weigh f (jobsOf (s.cycle.number + 1) files)
    rw [hs.queue, hload, hmail]
    simp
  progress := fun _ => rfl
  own := fun w job next program hw => by
    change s.workers w = _ at hw
    rw [hs.idle w] at hw
    cases hw
  silent := fun cell put h => by cases h
  followed := by
    exact followed_of_none hs.mail
  dispatched := fun b hb => by cases hb
  settled := fun h => absurd trivial h

theorem cycleInv_reject {s : System n} (hi : CycleInv s) (hs : Settled s) (request : Request) :
    CycleInv { s.openCycle env request with phase := .raised } where
  pushed_cycle := fun j hj => by cases hj
  jobs := by
    intro f
    have hload : load (jobFlow f).worker s.workers = 0 := load_idle rfl hs.idle
    rw [jobFlow_total]
    change weigh f [] + weigh f s.jobQueue + load (jobFlow f).worker s.workers +
      weigh f ((results s.mailbox).map Prod.fst) + weigh f [] = weigh f []
    rw [hs.queue, hload, results_of_none hs.mail]
    rfl
  progress := fun h => h.elim
  own := hi.own
  silent := fun cell put h => by cases h
  followed := hi.followed
  dispatched := fun b hb => by cases hb
  settled := fun _ => ⟨hs.queue, hs.idle, hs.mail⟩

theorem cycleInv_step {s s' : System n} {a : Action n} (hi : CycleInv s) (h : Move env s a s')
    (hok : Orderly s a s') : CycleInv s' := by
  by_cases ha : ∃ request answer, a = .request request answer
  · obtain ⟨request, answer, rfl⟩ := ha
    cases h with
    | reject hphase =>
      exact cycleInv_reject hi (hi.settled (by rw [hphase]; exact id)) request
    | begin hphase hfiles =>
      exact cycleInv_begin (hi.settled (by rw [hphase]; exact id)) request _
  · have ha' : ∀ request answer, a ≠ .request request answer :=
      fun request answer he => ha ⟨request, answer, he⟩
    obtain ⟨hpushed, hnumber⟩ := move_pushed h ha'
    have hraise : s'.phase = .raised → s.phase.jobs = [] := by
      intro hr
      exact jobs_of_closed (fun ho => hok.no_raise ho hr)
    exact
      { pushed_cycle := by rw [hpushed, hnumber]; exact hi.pushed_cycle
        jobs := move_jobs h ha' hraise hi.jobs
        progress := move_progress h ha' hi.progress
        own := move_own h hi.own
        silent := move_silent h hi.silent
        followed := move_followed h hi.own hi.silent hi.followed
        dispatched := move_dispatched h hi ha'
        settled := move_settled h hok hi ha' }

theorem cycleInv_init (disk s3 : Store Str Bytes) : CycleInv (System.init disk s3 : System n) where
  pushed_cycle := fun j hj => by cases hj
  jobs := by
    intro f
    rw [jobFlow_total]
    have hload : load (jobFlow f).worker (System.init disk s3 : System n).workers = 0 :=
      load_idle rfl (fun _ => rfl)
    rw [hload]
    rfl
  progress := fun h => h.elim
  own := fun w job next program hw => by cases hw
  silent := fun cell put h => by cases h
  followed := trivial
  dispatched := fun b hb => by cases hb
  settled := fun _ => ⟨rfl, fun _ => rfl, fun b hb => by cases hb⟩

theorem cycleInv_run {s s' : System n} (hi : CycleInv s) (run : Runs env Orderly s s') :
    CycleInv s' :=
  run.invariant CycleInv hi (fun hi h hok => cycleInv_step hi h hok)

end SensorDataNormalization.CycleAccounting
