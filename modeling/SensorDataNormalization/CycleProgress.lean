import Mathlib.Data.Prod.Lex
import SensorDataNormalization.FairRuns
import SensorDataNormalization.NotificationSoundness

set_option autoImplicit false

/-! Every cycle ends: the processes of the daemon under a fair scheduler, whatever fails and
whatever comes into the mailbox. -/
namespace SensorDataNormalization.CycleProgress
open PythonText PcapRecords PcapSplit StoreProgram Messages WorkerPaths WorkerProgram
  ManagerProgram ProcessState PairBuckets NormalizerSystem SystemSteps SystemFlow CycleAccounting
  NotificationSoundness CycleIsolation FairRuns

variable {n : ℕ} {env : Environment}

/-! ## The scheduler -/

inductive Process (n : ℕ)
  | manager
  | worker (w : Fin n)

def Process.action : Process n → Action n
  | .manager => .manager
  | .worker w => .worker w

def Process.Takes (p : Process n) (a : Action n) : Prop := a = p.action

/-- The manager runs until it exits; a worker may leave its loop after a stop request. -/
def Enabled (s : System n) : Process n → Prop
  | .manager => s.phase ≠ .exited
  | .worker _ => s.stop = false

/-- A process that does not only wait. -/
def Active (s : System n) : Process n → Prop
  | .manager => s.phase = .working .drain [] → s.mailbox = [] →
      s.progress.remaining ≤ 0 ∨ s.stop = true
  | .worker w => s.workers w = .idle → s.jobQueue ≠ []

abbrev DaemonRun (n : ℕ) (env : Environment) :=
  InfiniteRun (fun (s : System n) a t => NormalizerSystem.step env s a = some t)

/-! ## What holds in every run -/

structure Live (s : System n) : Prop where
  unmatched : Unmatched s.buckets
  silent : ∀ cell put, .give cell put ∉ s.phase.program
  progress : Phase.counting s.phase → s.progress = tally s.cycle
  due : Phase.isOpen s.phase → s.cycle.pushed.length ≤ (jobFlow (fun _ => 1)).total s

theorem live_init (disk s3 : Store Str Bytes) : Live (System.init disk s3 : System n) where
  unmatched := unmatched_nil
  silent := fun _ _ h => by cases h
  progress := fun h => h.elim
  due := fun h => h.elim

theorem move_open {s s' : System n} {a : Action n} (h : Move env s a s')
    (ha : ∀ request answer, a ≠ .request request answer) (hopen : Phase.isOpen s'.phase) :
    Phase.isOpen s.phase := by
  cases h with
  | reject => exact absurd rfl (ha _ _)
  | begin => exact absurd rfl (ha _ _)
  | loop hold hnew =>
    rename_i phase
    cases phase <;> first | exact hnew.elim | exact hopen.elim
  | push hphase => rw [hphase]; trivial
  | pushed hphase => rw [hphase]; trivial
  | @manage stage op program disk out hphase =>
    rw [publish_phase] at hopen
    rw [hphase]
    cases stage <;> exact hopen
  | @dispatch b mailbox hphase => rw [hphase]; trivial
  | work => simpa [System.setWorker] using hopen
  | fail => exact hopen.elim
  | fault => exact hopen.elim
  | sweep => exact hopen.elim
  | swept => exact hopen.elim
  | notify => exact hopen.elim
  | notifyFailure => exact hopen.elim
  | _ => exact hopen

theorem live_begin {s : System n} (request : Request) (files : List StorageFile) :
    Live ((s.openCycle env request).beginCycle files) where
  unmatched := unmatched_nil
  silent := fun _ _ h => by cases h
  progress := fun _ => rfl
  due := by
    intro _
    rw [jobFlow_total, weigh_one]
    change (jobsOf (s.cycle.number + 1) files).length ≤
      (jobsOf (s.cycle.number + 1) files).length + _ + _ + _ + _
    omega

theorem live_move {s s' : System n} {a : Action n} (hi : Live s) (h : Move env s a s') :
    Live s' := by
  by_cases ha : ∃ request answer, a = .request request answer
  · obtain ⟨request, answer, rfl⟩ := ha
    cases h with
    | reject =>
      exact ⟨hi.unmatched, fun _ _ h => (by cases h), fun h => h.elim, fun h => h.elim⟩
    | begin => exact live_begin request _
  · have ha' : ∀ request answer, a ≠ .request request answer :=
      fun request answer he => ha ⟨request, answer, he⟩
    refine ⟨unmatched_of_move h hi.unmatched, move_silent h hi.silent,
      move_progress h ha' hi.progress, fun hopen => ?_⟩
    have hraise : s'.phase = .raised → s.phase.jobs = [] := by
      intro hr
      rw [hr] at hopen
      exact hopen.elim
    have hkeep := (jobFlow (fun _ => 1)).total_eq h ha'
      (fun _ _ he => jobFlow_exchange _ hraise he)
    rw [hkeep, (move_pushed h ha').1]
    exact hi.due (move_open h ha' hopen)

/-- A manager that waits has a worker to wait for. -/
theorem Live.worker_active {s : System n} (hi : Live s) (hn : 0 < n)
    (hphase : s.phase = .working .drain []) (hmail : s.mailbox = [])
    (hopen : 0 < s.progress.remaining) : ∃ w : Fin n, Active s (.worker w) := by
  have hdue := hi.due (by rw [hphase]; trivial)
  have hprogress := hi.progress (by rw [hphase]; trivial)
  rw [tally, JobProgressTracker.foldl_markOneDone] at hprogress
  rw [hprogress] at hopen
  simp only [JobProgressTracker.beginCycle, List.length_map] at hopen
  rw [jobFlow_total, load_one, hphase, hmail] at hdue
  simp only [Phase.jobs, weigh_nil, weigh_one, results, List.filterMap_nil, List.map_nil,
    List.length_map, zero_add, add_zero] at hdue
  by_cases hqueue : s.jobQueue = []
  · have hbusy : 0 < busyWorkers s := by
      rw [hqueue, List.length_nil] at hdue
      unfold results at hopen
      omega
    obtain ⟨w, hw⟩ := Finset.card_pos.mp hbusy
    refine ⟨w, fun hidle => ?_⟩
    rw [Finset.mem_filter, hidle] at hw
    exact absurd hw.2 (by decide)
  · exact ⟨⟨0, hn⟩, fun _ => hqueue⟩

/-! ## The rank -/

def unsplit : Flow ℕ where
  job := fun _ => 1
  worker
    | .busy _ .split _ => 1
    | _ => 0
  mail := fun _ => 0
  dispatched := fun _ => 0
  bucket := fun _ => 0
  manager := fun _ => 0
  upload := fun _ => 0

/-- The steps that are left when every job in work is split. -/
def effort : Flow ℕ where
  job := fun _ => 10
  worker
    | .idle => 0
    | .busy _ _ program => 3 + 6 * program.length
    | .failed _ => 2
  mail
    | .jobDone _ _ => 1
    | .pairPut _ => 5
    | _ => 0
  dispatched := fun _ => 0
  bucket := fun _ => 3
  manager := List.length
  upload := fun _ => 0

def phaseSteps : Phase → ℕ
  | .pushing jobs => 5 + jobs.length
  | .working .drain _ => 4
  | .working .sweep _ => 3
  | .returned => 2
  | .raised => 2
  | .ready => 1
  | .listening => 0
  | .exited => 0

def stopSteps : Bool → ℕ
  | true => 0
  | false => 1

def burden (s : System n) : ℕ := effort.total s + phaseSteps s.phase + stopSteps s.stop

def rank (s : System n) : ℕ ×ₗ ℕ := toLex (unsplit.total s, burden s)

theorem unsplit_output (who : Uploader) (out : Output Bytes Destination PairPut) :
    unsplit.output who out = 0 := by
  cases out <;> rfl

theorem effort_output (who : Uploader) (out : Output Bytes Destination PairPut) :
    effort.output who out ≤ 5 := by
  cases out <;> simp [Flow.output, effort]

theorem download_length (job : Job) : (download env job).length ≤ 1 := by
  unfold download
  split
  · simp
  · split <;> simp

theorem uploadUnpaired_length {buckets : PairBuckets Str PairPut} (h : Unmatched buckets) :
    (uploadUnpaired buckets.popAllRemaining).length ≤ 2 * buckets.items.length := by
  have hsingle := h.single
  clear h
  induction buckets with
  | nil => exact Nat.zero_le _
  | cons row rest ih =>
    obtain ⟨put, hput⟩ := hsingle row List.mem_cons_self
    have hrest := ih (fun r hr => hsingle r (List.mem_cons_of_mem _ hr))
    simp only [uploadUnpaired, popAllRemaining, items] at hrest ⊢
    simp only [List.map_cons, List.flatMap_cons, List.length_append, hput, uploadBucket,
      List.length_cons, List.length_nil]
    omega

/-- A put leaves a piece to wait, or takes the piece that waits into a merge. -/
theorem put_effort {buckets : PairBuckets Str PairPut} (h : Unmatched buckets) (put : PairPut) :
    3 * (PairBuckets.put put.pairKey put buckets).1.items.length +
        (mergeReady (PairBuckets.put put.pairKey put buckets).2).length <
      3 * buckets.items.length + 5 := by
  obtain ⟨-, hput⟩ | ⟨before, after, a, rfl, hput⟩ := put_cases h put.pairKey put
  · rw [hput]
    simp only [items, mergeReady, List.flatMap_append, List.flatMap_cons, List.flatMap_nil,
      List.append_nil, List.length_append, List.length_cons, List.length_nil]
    omega
  · rw [hput]
    simp only [items, mergeReady, mergePair, mergePcapFiles, List.flatMap_append,
      List.flatMap_cons, List.length_append, List.length_cons, List.length_nil, List.map_cons,
      List.map_nil]
    omega

theorem unsplit_exchange {s s' : System n} {before after : ℕ}
    (h : Flow.Exchange unsplit env s s' before after) : after ≤ before := by
  cases h with
  | none => exact le_refl _
  | manage => rw [unsplit_output]; exact le_refl _
  | raised => exact Nat.zero_le _
  | sweep => exact Nat.zero_le _
  | jobDone => exact le_refl _
  | pairPut hmail hphase =>
    change 0 + weigh (fun _ => 0) _ + 0 ≤ _
    rw [weigh_zero]
    exact Nat.zero_le _
  | foreign => exact le_refl _
  | take => exact le_refl _
  | @work w job next => rw [unsplit_output]; cases next <;> exact le_refl _
  | failed => exact Nat.zero_le _
  | split => exact Nat.zero_le _
  | report => exact le_refl _
  | reportFailure => exact le_refl _
  | inject hforeign => rcases hforeign with rfl | rfl <;> exact le_refl _

theorem unsplit_move {s s' : System n} {a : Action n} (h : Move env s a s')
    (ha : ∀ request answer, a ≠ .request request answer) : unsplit.total s' ≤ unsplit.total s := by
  obtain ⟨rest, before, after, hs, hs', hexchange⟩ := unsplit.total_move h ha
  have hle := unsplit_exchange hexchange
  omega

theorem total_job {s : System n} {job : Job} {jobs : List Job} (W : Flow ℕ)
    (hqueue : s.jobQueue = job :: jobs) :
    W.total s = W.total { s with jobQueue := jobs } + W.job job := by
  simp only [Flow.total, hqueue, weigh_cons]
  omega

section Weights
variable (job : Job) (success : Bool) (next : Next) (program : Program) (put : PairPut)

theorem effort_job : effort.job job = 10 := rfl
theorem effort_idle : effort.worker .idle = 0 := rfl
theorem effort_busy : effort.worker (.busy job next program) = 3 + 6 * program.length := rfl
theorem effort_failed : effort.worker (.failed job) = 2 := rfl
theorem effort_jobDone : effort.mail (.jobDone job success) = 1 := rfl
theorem effort_pairPut : effort.mail (.pairPut put) = 5 := rfl
theorem effort_dispatched (b : Body) : effort.dispatched b = 0 := rfl
theorem effort_manager : effort.manager program = program.length := rfl

theorem effort_bucket (xs : List PairPut) : weigh effort.bucket xs = 3 * xs.length := by
  simp [weigh, effort, mul_comm]

end Weights

/-- The steps that do no work. -/
inductive Rests (s : System n) : Action n → System n → Prop
  | wait (hphase : s.phase = .working .drain []) (hmail : s.mailbox = []) : Rests s .manager s
  | poll {w : Fin n} (hworker : s.workers w = .idle) (hqueue : s.jobQueue = []) :
      Rests s (.worker w) s
  | stop : Rests s .stop s
  | unexpected : Rests s .unexpected (s.post .unexpected)
  | undecodable : Rests s .undecodable (s.post .undecodable)

section Burden
variable {s : System n}

theorem burden_manage (hi : Live s) {stage : Stage} {op : WorkOp} {program : Program}
    {disk : Store Str Bytes} {out : Output Bytes Destination PairPut}
    (hphase : s.phase = .working stage (op :: program))
    (hexec : op.exec s.disk = some (disk, out)) :
    burden ({ s with disk := disk, phase := .working stage program }.publish .manager out) <
      burden s := by
  have hout : effort.output .manager out = 0 := by
    cases out with
    | silent => rfl
    | published => rfl
    | given => exact (silent_not_given hi.silent hphase hexec).elim
  obtain ⟨rest, hold, hnew⟩ := effort.total_phase { s with disk := disk }
  change effort.total s = rest + (weigh _ s.phase.jobs + _) at hold
  simp only [burden, Flow.total_publish, hnew, hold, hout, publish_phase, publish_stop, hphase,
    Phase.jobs, Phase.program, effort_manager, List.length_cons]
  cases stage <;> simp only [phaseSteps] <;> omega

theorem burden_raised (hphase : s.phase.inCycle) :
    burden { s with phase := .raised } < burden s := by
  cases hp : s.phase with
  | pushing jobs =>
    simp only [burden, Flow.total, hp, Phase.jobs, Phase.program, phaseSteps, weigh_nil]
    omega
  | working stage program =>
    simp only [burden, Flow.total, hp, Phase.jobs, Phase.program, effort_manager, List.length_nil]
    cases stage <;> simp only [phaseSteps] <;> omega
  | _ => rw [hp] at hphase; exact hphase.elim

theorem burden_sweep (hi : Live s) (hphase : s.phase = .working .drain []) :
    burden s.sweep < burden s := by
  have hlen := uploadUnpaired_length hi.unmatched
  have hempty : (items ([] : PairBuckets Str PairPut)).length = 0 := rfl
  simp only [System.sweep, burden, Flow.total, hphase, Phase.jobs, Phase.program, phaseSteps,
    effort_bucket, effort_manager, List.length_nil]
  omega

theorem burden_dispatch (hi : Live s) {b : Body} {mailbox : List Body}
    (hphase : s.phase = .working .drain []) (hmail : s.mailbox = b :: mailbox) :
    burden (System.dispatchMessage b
      { s with mailbox := mailbox, cycle.dispatched := s.cycle.dispatched ++ [b] }) <
        burden s := by
  cases b with
  | jobDone job success =>
    simp only [System.dispatchMessage, burden, Flow.total, hmail, weigh_append, weigh_cons,
      weigh_nil, effort_jobDone, effort_dispatched]
    omega
  | pairPut put =>
    have hput := put_effort hi.unmatched put
    simp only [System.dispatchMessage, burden, Flow.total, hphase, hmail, weigh_append,
      weigh_cons, weigh_nil, effort_bucket, effort_pairPut, effort_dispatched, effort_manager,
      Phase.jobs, Phase.program, phaseSteps, List.length_nil]
    omega
  | unexpected =>
    simp only [System.dispatchMessage, burden, Flow.total, hphase, hmail, weigh_append,
      weigh_cons, weigh_nil, effort_dispatched, Phase.jobs, Phase.program, phaseSteps]
    omega
  | undecodable =>
    simp only [System.dispatchMessage, burden, Flow.total, hphase, hmail, weigh_append,
      weigh_cons, weigh_nil, effort_dispatched, Phase.jobs, Phase.program, phaseSteps]
    omega

theorem burden_take {w : Fin n} {job : Job} {jobs : List Job} (hworker : s.workers w = .idle)
    (hqueue : s.jobQueue = job :: jobs) :
    burden ({ s with jobQueue := jobs }.setWorker w (.busy job .split (download env job))) <
      burden s := by
  have hload : (download env job).length ≤ 1 := download_length job
  obtain ⟨rest, hold, hnew⟩ := effort.total_setWorker w { s with jobQueue := jobs }
  change _ = rest + effort.worker (s.workers w) at hold
  rw [hworker] at hold
  change effort.total _ + phaseSteps s.phase + stopSteps s.stop < burden s
  rw [burden, hnew, total_job effort hqueue, hold, effort_idle, effort_busy, effort_job]
  omega

theorem burden_work {w : Fin n} {job : Job} {next : Next} {op : WorkOp} {program : Program}
    (hworker : s.workers w = .busy job next (op :: program)) (disk : Store Str Bytes)
    (out : Output Bytes Destination PairPut) :
    burden (({ s with disk := disk }.setWorker w (.busy job next program)).publish .worker out) <
      burden s := by
  have hout := effort_output .worker out
  obtain ⟨rest, hold, hnew⟩ := effort.total_setWorker w { s with disk := disk }
  change effort.total s = rest + effort.worker (s.workers w) at hold
  rw [hworker] at hold
  rw [burden, Flow.total_publish, hnew, publish_phase, publish_stop, effort_busy]
  change _ + _ + phaseSteps s.phase + stopSteps s.stop < burden s
  rw [burden, hold, effort_busy, List.length_cons]
  omega

theorem burden_failed {w : Fin n} {job : Job} {next : Next} {program : Program}
    (hworker : s.workers w = .busy job next program) :
    burden (s.setWorker w (.failed job)) < burden s := by
  obtain ⟨rest, hold, hnew⟩ := effort.total_setWorker w s
  rw [hworker] at hold
  change effort.total _ + phaseSteps s.phase + stopSteps s.stop < burden s
  rw [burden, hnew, hold, effort_busy, effort_failed]
  omega

theorem unsplit_split {w : Fin n} {job : Job} {program : Program}
    (hworker : s.workers w = .busy job .split []) :
    unsplit.total (s.setWorker w (.busy job .report program)) < unsplit.total s := by
  obtain ⟨rest, hold, hnew⟩ := unsplit.total_setWorker w s
  rw [hworker] at hold
  rw [hnew, hold]
  exact Nat.lt_succ_self rest

theorem burden_report {w : Fin n} {job : Job} {success : Bool}
    (hworker : s.workers w = if success then .busy job .report [] else .failed job) :
    burden ((s.setWorker w .idle).post (.jobDone job success)) < burden s := by
  obtain ⟨rest, hold, hnew⟩ := effort.total_setWorker w s
  rw [hworker] at hold
  change effort.total ((s.setWorker w .idle).post _) + phaseSteps s.phase +
    stopSteps s.stop < burden s
  rw [burden, Flow.total_post, hnew, hold, effort_idle, effort_jobDone]
  have hworker : 2 ≤ effort.worker (if success then .busy job .report [] else .failed job) := by
    cases success with
    | true => exact Nat.le_of_ble_eq_true rfl
    | false => exact le_refl 2
  omega

theorem burden_stop (hstop : s.stop = false) : burden { s with stop := true } < burden s := by
  change effort.total s + phaseSteps s.phase + 0 < burden s
  rw [burden, hstop]
  exact Nat.lt_succ_self _

end Burden

/-- Every other step inside a cycle lowers what is left to do. -/
theorem move_burden {s s' : System n} {a : Action n} (h : Move env s a s')
    (ha : ∀ request answer, a ≠ .request request answer) (hi : Live s)
    (hin : a = .manager → ¬ s.phase.between) :
    (unsplit.total s' < unsplit.total s ∨ burden s' < burden s) ∨ Rests s a s' := by
  cases h with
  | reject => exact absurd rfl (ha _ _)
  | begin => exact absurd rfl (ha _ _)
  | loop hold => exact absurd hold (hin rfl)
  | push hphase =>
    left; right
    simp only [burden, Flow.total, hphase, Phase.jobs, Phase.program, weigh_append, weigh_cons,
      weigh_nil, phaseSteps, List.length_cons]
    omega
  | pushed hphase =>
    left; right
    simp only [burden, Flow.total, hphase, Phase.jobs, Phase.program, phaseSteps]
    omega
  | manage hphase hexec => exact Or.inl (Or.inr (burden_manage hi hphase hexec))
  | fail hphase => exact Or.inl (Or.inr (burden_raised (by rw [hphase]; trivial)))
  | fault hphase => exact Or.inl (Or.inr (burden_raised hphase))
  | sweep hphase => exact Or.inl (Or.inr (burden_sweep hi hphase))
  | wait hphase hmail => exact Or.inr (.wait hphase hmail)
  | dispatch hphase hmail => exact Or.inl (Or.inr (burden_dispatch hi hphase hmail))
  | swept hphase =>
    left; right
    simp only [burden, Flow.total, hphase, Phase.jobs, Phase.program, phaseSteps]
    omega
  | notify hphase =>
    left; right
    simp only [System.notify, burden, Flow.total, hphase, Phase.jobs, Phase.program, phaseSteps]
    omega
  | notifyFailure hphase =>
    left; right
    simp only [System.notify, burden, Flow.total, hphase, Phase.jobs, Phase.program, phaseSteps]
    omega
  | poll hworker hqueue => exact Or.inr (.poll hworker hqueue)
  | take hworker hqueue => exact Or.inl (Or.inr (burden_take hworker hqueue))
  | work hworker => exact Or.inl (Or.inr (burden_work hworker _ _))
  | workerFail hworker => exact Or.inl (Or.inr (burden_failed hworker))
  | workerFault hworker => exact Or.inl (Or.inr (burden_failed hworker))
  | split hworker => exact Or.inl (Or.inl (unsplit_split hworker))
  | report hworker => exact Or.inl (Or.inr (burden_report hworker))
  | stop =>
    cases hstop : s.stop with
    | true =>
      have hsame : { s with stop := true } = s := by rw [← hstop]
      rw [hsame]
      exact Or.inr .stop
    | false => exact Or.inl (Or.inr (burden_stop hstop))
  | unexpected => exact Or.inr .unexpected
  | undecodable => exact Or.inr .undecodable

/-! ## Every step lowers the rank or leaves the others to theirs -/

theorem rank_lt {s s' : System n} (hle : unsplit.total s' ≤ unsplit.total s)
    (h : unsplit.total s' < unsplit.total s ∨ burden s' < burden s) : rank s' < rank s := by
  rw [rank, rank, Prod.Lex.toLex_lt_toLex]
  rcases Nat.lt_or_eq_of_le hle with hlt | heq
  · exact Or.inl hlt
  · exact Or.inr ⟨heq, h.resolve_left (by omega)⟩

theorem rank_post {s : System n} {b : Body} (hunsplit : unsplit.mail b = 0)
    (heffort : effort.mail b = 0) : rank (s.post b) = rank s := by
  rw [rank, burden, Flow.total_post, Flow.total_post, hunsplit, heffort]
  rfl

theorem active_post {s : System n} {b : Body} {p : Process n} (h : Active s p) :
    Active (s.post b) p := by
  cases p with
  | manager => exact fun _ hmail => absurd hmail (List.append_ne_nil_of_right_ne_nil _ (by simp))
  | worker w => exact h

theorem enabled_post {s : System n} {b : Body} {p : Process n} (h : Enabled s p) :
    Enabled (s.post b) p := by
  cases p <;> exact h

theorem Rests.not_active {s s' : System n} {a : Action n} (h : Rests s a s')
    (hstep : NormalizerSystem.step env s a = some s') {p : Process n} (hp : Active s p) :
    ¬ p.Takes a := by
  rintro rfl
  cases p with
  | manager =>
    obtain ⟨hphase, hmail, rfl⟩ : s.phase = .working .drain [] ∧ s.mailbox = [] ∧ s = s' := by
      cases h with
      | wait hphase hmail => exact ⟨hphase, hmail, rfl⟩
    have hexit : (s.progress.isDone || s.stop) = true := by
      rcases hp hphase hmail with hr | hs
      · rw [s.progress.isDone_iff.mpr hr, Bool.true_or]
      · rw [hs, Bool.or_true]
    change managerStep s = some s at hstep
    simp only [managerStep, hphase, hexit, ite_true] at hstep
    have hsweep := congrArg System.phase (Option.some.inj hstep)
    rw [hphase] at hsweep
    cases hsweep
  | worker w =>
    cases h with
    | poll hworker hqueue => exact absurd hqueue (hp hworker)

theorem no_request {s s' : System n} {a : Action n} (hphase : ¬ s.phase.between)
    (h : Move env s a s') : ∀ request answer, a ≠ .request request answer := by
  rintro request answer rfl
  cases h with
  | reject hlisten => exact hphase (by rw [hlisten]; trivial)
  | begin hlisten => exact hphase (by rw [hlisten]; trivial)

/-- A step inside a cycle, or of another process, lowers the rank or leaves every process what
it has to do. -/
theorem rank_falls {s s' : System n} {a : Action n} (hi : Live s)
    (ha : ∀ request answer, a ≠ .request request answer)
    (hphase : a = .manager → ¬ s.phase.between)
    (h : NormalizerSystem.step env s a = some s') : rank s' < rank s ∨ (rank s' = rank s ∧
      ∀ p, Active s p → Enabled s p → ¬ p.Takes a ∧ Active s' p ∧ Enabled s' p) := by
  have hmove := step_move h
  rcases move_burden hmove ha hi hphase with hless | hrests
  · exact Or.inl (rank_lt (unsplit_move hmove ha) hless)
  · have hother : ∀ p, Active s p → ¬ p.Takes a := fun p hp => hrests.not_active h hp
    right
    cases hrests with
    | wait => exact ⟨rfl, fun p hp he => ⟨hother p hp, hp, he⟩⟩
    | poll => exact ⟨rfl, fun p hp he => ⟨hother p hp, hp, he⟩⟩
    | stop => exact ⟨rfl, fun p hp he => ⟨hother p hp, hp, he⟩⟩
    | unexpected =>
      exact ⟨rank_post rfl rfl, fun p hp he => ⟨hother p hp, active_post hp, enabled_post he⟩⟩
    | undecodable =>
      exact ⟨rank_post rfl rfl, fun p hp he => ⟨hother p hp, active_post hp, enabled_post he⟩⟩

/-- Inside a cycle some process has something to do. -/
theorem exists_active {s : System n} (hi : Live s) (hn : 0 < n) (hphase : ¬ s.phase.between) :
    ∃ p, Active s p ∧ Enabled s p := by
  have hexited : s.phase ≠ .exited := by
    intro he
    exact hphase (by rw [he]; trivial)
  by_cases hwait : Active s .manager
  · exact ⟨.manager, hwait, hexited⟩
  · simp only [Active, not_forall, not_or] at hwait
    obtain ⟨hdrain, hmail, hopen, hstop⟩ := hwait
    obtain ⟨w, hw⟩ := hi.worker_active hn hdrain hmail (by omega)
    exact ⟨.worker w, hw, Bool.eq_false_iff.mpr hstop⟩

/-! ## Every cycle ends -/

/-- In the cycle of a number, before its notice. -/
structure InCycle (number : ℕ) (s : System n) : Prop where
  live : Live s
  running : Phase.counting s.phase ∨ s.phase = .raised
  number : s.cycle.number = number
  silent : s.cycle.notices = []

structure Answered (number : ℕ) (s : System n) : Prop where
  phase : s.phase = .ready
  number : s.cycle.number = number
  notices : s.cycle.notices.length = 1

theorem between_ready {s s' : System n} {a : Action n} (h : Move env s a s')
    (hphase : ¬ s.phase.between) (hb : s'.phase.between) : s'.phase = .ready := by
  cases h with
  | loop hold => exact absurd hold hphase
  | notify => rfl
  | notifyFailure => rfl
  | manage =>
    rw [publish_phase] at hb
    exact hb.elim
  | @dispatch b mailbox hdrain =>
    cases b with
    | jobDone job success => exact absurd hb hphase
    | pairPut put => exact hb.elim
    | unexpected => exact hb.elim
    | undecodable => exact hb.elim
  | work =>
    rw [publish_phase] at hb
    exact absurd hb hphase
  | reject => exact hb.elim
  | begin => exact hb.elim
  | push => exact hb.elim
  | pushed => exact hb.elim
  | fail => exact hb.elim
  | fault => exact hb.elim
  | sweep => exact hb.elim
  | swept => exact hb.elim
  | _ => exact absurd hb hphase

theorem between_stays {s s' : System n} {a : Action n} (h : Move env s a s')
    (ha : ∀ request answer, a ≠ .request request answer) (hb : s.phase.between) :
    s'.phase.between := by
  cases h with
  | reject => exact absurd rfl (ha _ _)
  | begin => exact absurd rfl (ha _ _)
  | loop hold hnew => exact hnew
  | push hphase => rw [hphase] at hb; exact hb.elim
  | pushed hphase => rw [hphase] at hb; exact hb.elim
  | manage hphase => rw [hphase] at hb; exact hb.elim
  | fail hphase => rw [hphase] at hb; exact hb.elim
  | fault hphase =>
    cases hp : s.phase <;> rw [hp] at hphase hb <;> first | exact hb.elim | exact hphase.elim
  | sweep hphase => rw [hphase] at hb; exact hb.elim
  | dispatch hphase => rw [hphase] at hb; exact hb.elim
  | swept hphase => rw [hphase] at hb; exact hb.elim
  | notify => trivial
  | notifyFailure => trivial
  | work => rw [publish_phase]; exact hb
  | _ => exact hb

theorem inCycle_step {number : ℕ} {s s' : System n} {a : Action n} (hi : InCycle number s)
    (h : NormalizerSystem.step env s a = some s') : InCycle number s' ∨ Answered number s' := by
  have hphase := not_between hi.running
  have hmove := step_move h
  have ha := no_request hphase hmove
  have hlive := live_move hi.live hmove
  have hnumber := (move_pushed hmove ha).2.trans hi.number
  obtain ⟨hsilent, hnotified⟩ := move_notices hmove ha (fun _ => hi.silent)
    (fun hb => absurd hb hphase)
  rcases phase_cases s'.phase with hc | hr | hb
  · exact Or.inl ⟨hlive, Or.inl hc, hnumber, hsilent (Or.inl hc)⟩
  · exact Or.inl ⟨hlive, Or.inr hr, hnumber, hsilent (Or.inr hr)⟩
  · exact Or.inr ⟨between_ready hmove hphase hb, hnumber, hnotified hb⟩

theorem cycle_progress (hn : 0 < n) (number : ℕ) :
    Progress (fun (s : System n) a t => NormalizerSystem.step env s a = some t) Process.Takes
      Enabled (fun s => InCycle number s ∨ Answered number s) (Answered number) rank Active where
  keeps := fun hi hgoal h => inCycle_step (hi.resolve_right hgoal) h
  helper := fun hi hgoal =>
    have hin := hi.resolve_right hgoal
    exists_active hin.live hn (not_between hin.running)
  falls := fun hi hgoal h =>
    have hphase := not_between (hi.resolve_right hgoal).running
    rank_falls (hi.resolve_right hgoal).live (no_request hphase (step_move h)) (fun _ => hphase) h

/-- What holds of the daemon wherever it is. -/
structure Sound (s : System n) : Prop where
  live : Live s
  silent : Phase.counting s.phase ∨ s.phase = .raised → s.cycle.notices = []
  notified : s.phase.between → 0 < s.cycle.number → s.cycle.notices.length = 1

theorem sound_init (disk s3 : Store Str Bytes) : Sound (System.init disk s3 : System n) :=
  ⟨live_init disk s3, fun _ => rfl, fun _ h => absurd h (Nat.lt_irrefl 0)⟩

theorem sound_step {s s' : System n} {a : Action n} (hi : Sound s)
    (h : NormalizerSystem.step env s a = some s') : Sound s' := by
  have hmove := step_move h
  have hlive := live_move hi.live hmove
  by_cases ha : ∃ request answer, a = .request request answer
  · obtain ⟨request, answer, rfl⟩ := ha
    cases hmove with
    | reject => exact ⟨hlive, fun _ => rfl, fun hb => hb.elim⟩
    | begin => exact ⟨hlive, fun _ => rfl, fun hb => hb.elim⟩
  · have ha' : ∀ request answer, a ≠ .request request answer :=
      fun request answer he => ha ⟨request, answer, he⟩
    by_cases hb : s.phase.between
    · have hb' := between_stays hmove ha' hb
      refine ⟨hlive, fun hrunning => absurd hb' (not_between hrunning), fun _ hpos => ?_⟩
      rw [(move_pushed hmove ha').2] at hpos
      exact (move_notices hmove ha' hi.silent (fun hb => hi.notified hb hpos)).2 hb'
    · obtain ⟨hsilent, hnotified⟩ := move_notices hmove ha' hi.silent (fun h => absurd h hb)
      exact ⟨hlive, hsilent, fun hb' _ => hnotified hb'⟩

theorem sound_run {σ : DaemonRun n env} {disk s3 : Store Str Bytes}
    (hinit : σ.state 0 = System.init disk s3) (i : ℕ) : Sound (σ.state i) := by
  refine σ.keeps Sound (fun hs h => sound_step hs h) ?_ (Nat.zero_le i)
  rw [hinit]
  exact sound_init disk s3

/-- In every fair run every cycle comes to its end and has sent exactly one notice, whatever
fails, whatever else is in the mailbox and whenever the daemon is asked to stop. -/
theorem cycle_ends {σ : DaemonRun n env} {disk s3 : Store Str Bytes} (hn : 0 < n)
    (hinit : σ.state 0 = System.init disk s3) (hfair : σ.Fair Process.Takes Enabled) {i : ℕ}
    (hi : Phase.counting (σ.state i).phase ∨ (σ.state i).phase = .raised) : ∃ j, i ≤ j ∧
      (σ.state j).phase = .ready ∧ (σ.state j).cycle.number = (σ.state i).cycle.number ∧
        (σ.state j).cycle.notices.length = 1 := by
  have hsound := sound_run hinit i
  have hstart : InCycle (σ.state i).cycle.number (σ.state i) :=
    ⟨hsound.live, hi, rfl, hsound.silent hi⟩
  obtain ⟨j, hij, hj⟩ := (cycle_progress hn _).reaches hfair (Or.inl hstart)
  exact ⟨j, hij, hj.phase, hj.number, hj.notices⟩

/-! ### A fair run -/

theorem managerStep_running {s : System n} (hstop : s.stop = false) (hphase : s.phase ≠ .exited) :
    ∃ t, managerStep s = some t ∧ t.stop = false ∧ t.phase ≠ .exited := by
  unfold managerStep
  split
  · refine ⟨_, rfl, hstop, ?_⟩
    simp [hstop]
  · exact ⟨_, rfl, hstop, by simp⟩
  · exact ⟨_, rfl, hstop, by simp⟩
  · exact ⟨_, rfl, hstop, by simp⟩
  · split
    · exact ⟨_, rfl, hstop, by simp⟩
    · exact ⟨_, rfl, by rw [publish_stop]; exact hstop, by rw [publish_phase]; simp⟩
  · split_ifs
    · exact ⟨_, rfl, hstop, by simp [System.sweep]⟩
    · split
      · exact ⟨_, rfl, hstop, hphase⟩
      · rename_i b mailbox hmail
        refine ⟨_, rfl, ?_, ?_⟩
        · cases b <;> exact hstop
        · cases b <;> simp [System.dispatchMessage, hphase]
  · exact ⟨_, rfl, hstop, by simp⟩
  · exact ⟨_, rfl, hstop, by simp [System.notify]⟩
  · exact ⟨_, rfl, hstop, by simp [System.notify]⟩
  · rename_i he
    exact absurd he hphase

theorem workerStep_running {s : System n} (w : Fin n) (hstop : s.stop = false)
    (hphase : s.phase ≠ .exited) :
    ∃ t, workerStep env w s = some t ∧ t.stop = false ∧ t.phase ≠ .exited := by
  unfold workerStep
  split
  · split
    · exact ⟨_, rfl, hstop, hphase⟩
    · exact ⟨_, rfl, hstop, hphase⟩
  · split
    · exact ⟨_, rfl, hstop, hphase⟩
    · exact ⟨_, rfl, by rw [publish_stop]; exact hstop, by rw [publish_phase]; exact hphase⟩
  · exact ⟨_, rfl, hstop, hphase⟩
  · exact ⟨_, rfl, hstop, hphase⟩
  · exact ⟨_, rfl, hstop, hphase⟩

/-- One request, then the manager and its one worker turn and turn about. -/
def turns (request : Action 1) : ℕ → Action 1
  | 0 => .manager
  | 1 => request
  | k + 2 => if k % 2 = 0 then .manager else .worker 0

theorem turns_fair (request : Action 1) (p : Process 1) (i : ℕ) :
    ∃ j, i ≤ j ∧ turns request j = p.action := by
  cases p with
  | manager =>
    refine ⟨2 * i + 2, by omega, ?_⟩
    rw [turns, if_pos (by omega)]
    rfl
  | worker w =>
    refine ⟨2 * i + 1 + 2, by omega, ?_⟩
    rw [turns, if_neg (by omega), Subsingleton.elim w 0]
    rfl

theorem cycle_ends_two_files : ∃ s : System 1, s.phase = .ready ∧ s.cycle.number = 1 ∧
    s.cycle.notices.length = 1 := by
  let start : System 1 := .init (fun _ => none) (fun _ => none)
  let I : ℕ → System 1 → Prop := fun k s => match k with
    | 0 => s = start
    | 1 => s = { start with phase := .listening }
    | k + 2 => s.stop = false ∧ s.phase ≠ .exited ∧
        (k = 0 → Phase.counting s.phase ∧ s.cycle.number = 1)
  have hnext : ∀ k s, I k s →
      ∃ t, NormalizerSystem.step (hostOf sharedSecond) s (turns firstDay k) = some t ∧
        I (k + 1) t := by
    intro k s hs
    match k with
    | 0 =>
      obtain rfl := hs
      exact ⟨_, rfl, rfl⟩
    | 1 =>
      obtain rfl := hs
      refine ⟨_, rfl, rfl, fun he => ?_, fun _ => ⟨trivial, rfl⟩⟩
      exact Phase.noConfusion he
    | k + 2 =>
      obtain ⟨hstop, hphase, -⟩ := hs
      by_cases hturn : k % 2 = 0
      · obtain ⟨t, ht, hstop', hphase'⟩ := managerStep_running hstop hphase
        refine ⟨t, ?_, hstop', hphase', fun h => absurd h (Nat.succ_ne_zero k)⟩
        rw [turns, if_pos hturn]
        exact ht
      · obtain ⟨t, ht, hstop', hphase'⟩ := workerStep_running 0 hstop hphase
        refine ⟨t, ?_, hstop', hphase', fun h => absurd h (Nat.succ_ne_zero k)⟩
        rw [turns, if_neg hturn]
        exact ht
  obtain ⟨σ, hstart, hlabel, hI⟩ : ∃ σ : DaemonRun 1 (hostOf sharedSecond),
      σ.state 0 = start ∧ σ.label = turns firstDay ∧ ∀ k, I k (σ.state k) :=
    InfiniteRun.exists_run I hnext rfl
  have hfair : σ.Fair Process.Takes Enabled := by
    intro p i
    obtain ⟨j, hij, hj⟩ := turns_fair firstDay p i
    exact ⟨j, hij, Or.inl ((congrFun hlabel j).trans hj)⟩
  obtain ⟨hcount, hone⟩ := (hI 2).2.2 rfl
  obtain ⟨j, -, hphase, hnumber, hnotices⟩ := cycle_ends Nat.one_pos hstart hfair (Or.inl hcount)
  exact ⟨σ.state j, hphase, hnumber.trans hone, hnotices⟩

end SensorDataNormalization.CycleProgress
