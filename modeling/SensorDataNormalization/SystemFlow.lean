import Mathlib.Algebra.BigOperators.Group.Finset.Basic
import Mathlib.Tactic.Abel
import SensorDataNormalization.SystemSteps

set_option autoImplicit false

/-! What moves through the daemon. A flow gives a weight to a job, to a worker, to a
message and so on; a step exchanges one part of the total weight for another, and
everything else keeps its weight. -/
namespace SensorDataNormalization.SystemFlow
open PythonText PcapRecords StoreProgram Messages WorkerProgram ManagerProgram ProcessState
  NormalizerSystem SystemSteps

variable {n : ℕ} {env : Environment} {M : Type} [AddCommMonoid M]

structure Flow (M : Type) where
  job : Job → M
  worker : Worker → M
  mail : Body → M
  dispatched : Body → M
  bucket : PairPut → M
  manager : Program → M
  upload : Upload → M

def weigh {α : Type} (f : α → M) (xs : List α) : M := (xs.map f).sum

@[simp] theorem weigh_nil {α : Type} (f : α → M) : weigh f [] = 0 := rfl

@[simp] theorem weigh_cons {α : Type} (f : α → M) (x : α) (xs : List α) :
    weigh f (x :: xs) = f x + weigh f xs := by
  simp [weigh]

@[simp] theorem weigh_append {α : Type} (f : α → M) (xs ys : List α) :
    weigh f (xs ++ ys) = weigh f xs + weigh f ys := by
  simp [weigh]

theorem weigh_perm {α : Type} (f : α → M) {xs ys : List α} (h : xs.Perm ys) :
    weigh f xs = weigh f ys :=
  (h.map f).sum_eq

def load (f : Worker → M) (workers : Fin n → Worker) : M := ∑ w, f (workers w)

theorem load_idle {f : Worker → M} {workers : Fin n → Worker} (hf : f .idle = 0)
    (h : ∀ w, workers w = .idle) : load f workers = 0 :=
  Finset.sum_eq_zero (fun w _ => by rw [h w, hf])

theorem load_update (f : Worker → M) (workers : Fin n → Worker) (w : Fin n) : ∃ rest,
    load f workers = rest + f (workers w) ∧
      ∀ u, load f (Function.update workers w u) = rest + f u := by
  refine ⟨∑ v ∈ Finset.univ.erase w, f (workers v), ?_, fun u => ?_⟩
  · exact (Finset.sum_erase_add _ _ (Finset.mem_univ w)).symm
  · have hsum := Finset.sum_erase_add Finset.univ (fun v => f (Function.update workers w u v))
      (Finset.mem_univ w)
    rw [load, ← hsum, Function.update_self]
    refine congrArg (· + f u) (Finset.sum_congr rfl (fun v hv => ?_))
    rw [Function.update_of_ne (Finset.ne_of_mem_erase hv)]

namespace Flow

def output (W : Flow M) (who : Uploader) : Output Bytes Destination PairPut → M
  | .silent => 0
  | .published destination contents => W.upload ⟨who, destination, contents⟩
  | .given put => W.mail (.pairPut put)

def total (W : Flow M) (s : System n) : M :=
  weigh W.job s.phase.jobs + weigh W.job s.jobQueue + load W.worker s.workers +
    weigh W.mail s.mailbox + weigh W.dispatched s.cycle.dispatched +
    weigh W.bucket s.buckets.items + W.manager s.phase.program + weigh W.upload s.cycle.uploads

theorem total_publish (W : Flow M) (who : Uploader) (out : Output Bytes Destination PairPut)
    (s : System n) : W.total (s.publish who out) = W.total s + W.output who out := by
  cases out with
  | silent => exact (add_zero _).symm
  | published destination contents =>
    simp only [System.publish, System.upload, total, output, weigh_append, weigh_cons, weigh_nil]
    abel
  | given put =>
    simp only [System.publish, System.post, total, output, weigh_append, weigh_cons, weigh_nil]
    abel

theorem total_post (W : Flow M) (b : Body) (s : System n) :
    W.total (s.post b) = W.total s + W.mail b := by
  simp only [System.post, total, weigh_append, weigh_cons, weigh_nil]
  abel

theorem total_setWorker (W : Flow M) (w : Fin n) (s : System n) : ∃ rest,
    W.total s = rest + W.worker (s.workers w) ∧
      ∀ u, W.total (s.setWorker w u) = rest + W.worker u := by
  obtain ⟨rest, hold, hnew⟩ := load_update W.worker s.workers w
  refine ⟨weigh W.job s.phase.jobs + weigh W.job s.jobQueue + rest + weigh W.mail s.mailbox +
    weigh W.dispatched s.cycle.dispatched + weigh W.bucket s.buckets.items +
    W.manager s.phase.program + weigh W.upload s.cycle.uploads, ?_, fun u => ?_⟩
  · rw [total, hold]
    abel
  · simp only [System.setWorker, total, hnew u]
    abel

theorem total_phase (W : Flow M) (s : System n) : ∃ rest,
    W.total s = rest + (weigh W.job s.phase.jobs + W.manager s.phase.program) ∧
      ∀ phase : Phase, W.total { s with phase := phase } =
        rest + (weigh W.job phase.jobs + W.manager phase.program) := by
  refine ⟨weigh W.job s.jobQueue + load W.worker s.workers + weigh W.mail s.mailbox +
    weigh W.dispatched s.cycle.dispatched + weigh W.bucket s.buckets.items +
    weigh W.upload s.cycle.uploads, ?_, fun phase => ?_⟩
  · rw [total]
    abel
  · simp only [total]
    abel

/-- A message that is dispatched, with what else changes when its handler starts no merge. -/
theorem total_dispatched (W : Flow M) {s : System n} {b : Body} {mailbox : List Body}
    (hphase : s.phase = .working .drain []) (hmail : s.mailbox = b :: mailbox) : ∃ rest,
    W.total s = rest + W.mail b ∧
      ∀ (progress : JobProgressTracker) (phase : Phase), phase.jobs = [] → phase.program = [] →
        W.total { s with
          mailbox := mailbox
          cycle.dispatched := s.cycle.dispatched ++ [b]
          progress := progress
          phase := phase } = rest + W.dispatched b := by
  refine ⟨weigh W.job s.jobQueue + load W.worker s.workers + weigh W.mail mailbox +
    weigh W.dispatched s.cycle.dispatched + weigh W.bucket s.buckets.items + W.manager [] +
    weigh W.upload s.cycle.uploads, ?_, fun progress phase hjobs hprogram => ?_⟩
  · simp only [total, hphase, hmail, Phase.jobs, Phase.program, weigh_nil, weigh_cons]
    abel
  · simp only [total, hjobs, hprogram, weigh_nil, weigh_cons, weigh_append]
    abel

/-- What a step exchanges: the first weight for the second. -/
inductive Exchange (W : Flow M) (env : Environment) (s s' : System n) : M → M → Prop
  | none : Exchange W env s s' 0 0
  | manage {stage : Stage} {op : WorkOp} {program : Program} {disk : Store Str Bytes}
      {out : Output Bytes Destination PairPut} (hphase : s.phase = .working stage (op :: program))
      (hexec : op.exec s.disk = some (disk, out)) :
      Exchange W env s s' (W.manager (op :: program))
        (W.manager program + W.output .manager out)
  | raised (hphase : s.phase.inCycle) (hraised : s'.phase = .raised) :
      Exchange W env s s' (weigh W.job s.phase.jobs + W.manager s.phase.program) (W.manager [])
  | sweep (hphase : s.phase = .working .drain []) :
      Exchange W env s s' (weigh W.bucket s.buckets.items + W.manager [])
        (W.manager (uploadUnpaired s.buckets.popAllRemaining))
  | jobDone {job : Job} {success : Bool} (hmail : .jobDone job success ∈ s.mailbox) :
      Exchange W env s s' (W.mail (.jobDone job success)) (W.dispatched (.jobDone job success))
  | pairPut {put : PairPut} (hmail : .pairPut put ∈ s.mailbox)
      (hphase : s'.phase = .working .drain
        (mergeReady (PairBuckets.put put.pairKey put s.buckets).2)) :
      Exchange W env s s'
        (W.mail (.pairPut put) + weigh W.bucket s.buckets.items + W.manager [])
        (W.dispatched (.pairPut put) +
          weigh W.bucket (PairBuckets.put put.pairKey put s.buckets).1.items +
          W.manager s'.phase.program)
  | foreign {b : Body} (hforeign : b = .unexpected ∨ b = .undecodable)
      (hraised : s'.phase = .raised) : Exchange W env s s' (W.mail b) (W.dispatched b)
  | take {job : Job} {w : Fin n} (hworker : s.workers w = .idle) :
      Exchange W env s s' (W.job job + W.worker .idle)
        (W.worker (.busy job .split (download env job)))
  | work {w : Fin n} {job : Job} {next : Next} {op : WorkOp} {program : Program}
      {disk : Store Str Bytes} {out : Output Bytes Destination PairPut}
      (hworker : s.workers w = .busy job next (op :: program))
      (hexec : op.exec s.disk = some (disk, out)) :
      Exchange W env s s' (W.worker (.busy job next (op :: program)))
        (W.worker (.busy job next program) + W.output .worker out)
  | failed {w : Fin n} {job : Job} {next : Next} {program : Program}
      (hworker : s.workers w = .busy job next program) (hfailed : s'.workers w = .failed job) :
      Exchange W env s s' (W.worker (.busy job next program)) (W.worker (.failed job))
  | split {w : Fin n} {job : Job} (hworker : s.workers w = .busy job .split []) :
      Exchange W env s s' (W.worker (.busy job .split []))
        (W.worker (.busy job .report (splitUploadSend env s.disk job)))
  | report {w : Fin n} {job : Job} (hworker : s.workers w = .busy job .report []) :
      Exchange W env s s' (W.worker (.busy job .report []))
        (W.worker .idle + W.mail (.jobDone job true))
  | reportFailure {w : Fin n} {job : Job} (hworker : s.workers w = .failed job) :
      Exchange W env s s' (W.worker (.failed job)) (W.worker .idle + W.mail (.jobDone job false))
  | inject {b : Body} (hforeign : b = .unexpected ∨ b = .undecodable) :
      Exchange W env s s' 0 (W.mail b)

/-- The total weight changes by one exchange. -/
def Trades (W : Flow M) (env : Environment) (s s' : System n) : Prop :=
  ∃ rest before after, W.total s = rest + before ∧ W.total s' = rest + after ∧
    Exchange W env s s' before after

section Trades
variable {W : Flow M} {s s' : System n}

theorem trades_same (h : W.total s' = W.total s) : W.Trades env s s' :=
  ⟨W.total s, 0, 0, (add_zero _).symm, by rw [h, add_zero], .none⟩

theorem trades_loop {phase : Phase} (hold : s.phase.between) (hnew : phase.between) :
    W.Trades env s { s with phase := phase } := by
  have hempty : ∀ p : Phase, p.between → p.jobs = [] ∧ p.program = [] := by
    intro p hp
    cases p <;> first | exact ⟨rfl, rfl⟩ | exact hp.elim
  apply trades_same
  simp only [total, hempty _ hold, hempty _ hnew]

theorem trades_manage {stage : Stage} {op : WorkOp} {program : Program} {disk : Store Str Bytes}
    {out : Output Bytes Destination PairPut} (hphase : s.phase = .working stage (op :: program))
    (hexec : op.exec s.disk = some (disk, out)) : W.Trades env s
      ({ s with disk := disk, phase := .working stage program }.publish .manager out) := by
  obtain ⟨rest, hold, hnew⟩ := W.total_phase { s with disk := disk }
  refine ⟨rest, _, _, ?_, ?_, .manage hphase hexec⟩
  · refine hold.trans ?_
    simp only [hphase, Phase.jobs, Phase.program, weigh_nil, zero_add]
  · rw [total_publish, hnew]
    simp only [Phase.jobs, Phase.program, weigh_nil, zero_add, add_assoc]

theorem trades_raised (hphase : s.phase.inCycle) :
    W.Trades env s { s with phase := .raised } := by
  obtain ⟨rest, hold, hnew⟩ := W.total_phase s
  refine ⟨rest, _, _, hold, (hnew .raised).trans ?_, .raised hphase rfl⟩
  exact congrArg (rest + ·) (zero_add _)

theorem trades_sweep (hphase : s.phase = .working .drain []) : W.Trades env s s.sweep := by
  refine ⟨weigh W.job s.jobQueue + load W.worker s.workers + weigh W.mail s.mailbox +
    weigh W.dispatched s.cycle.dispatched + weigh W.upload s.cycle.uploads, _, _, ?_, ?_,
    .sweep hphase⟩
  · simp only [total, hphase, Phase.jobs, Phase.program, weigh_nil]
    abel
  · simp only [System.sweep, total, Phase.jobs, Phase.program, PairBuckets.items,
      List.flatMap_nil, weigh_nil]
    abel

theorem trades_dispatch {b : Body} {mailbox : List Body} (hphase : s.phase = .working .drain [])
    (hmail : s.mailbox = b :: mailbox) : W.Trades env s (System.dispatchMessage b
      { s with mailbox := mailbox, cycle.dispatched := s.cycle.dispatched ++ [b] }) := by
  have hmem : b ∈ s.mailbox := by
    rw [hmail]
    exact List.mem_cons_self
  obtain ⟨rest, hold, hnew⟩ := W.total_dispatched hphase hmail
  cases b with
  | jobDone job success =>
    refine ⟨rest, _, _, hold, hnew _ s.phase ?_ ?_, .jobDone hmem⟩
    · rw [hphase]
      rfl
    · rw [hphase]
      rfl
  | pairPut put =>
    -- Its handler may start a merge, and so the buckets and the program change too.
    refine ⟨weigh W.job s.jobQueue + load W.worker s.workers + weigh W.mail mailbox +
      weigh W.dispatched s.cycle.dispatched + weigh W.upload s.cycle.uploads, _, _, ?_, ?_,
      .pairPut hmem rfl⟩
    · simp only [total, hphase, hmail, Phase.jobs, Phase.program, weigh_nil, weigh_cons]
      abel
    · simp only [System.dispatchMessage, total, Phase.jobs, Phase.program, weigh_nil,
        weigh_cons, weigh_append]
      abel
  | unexpected =>
    exact ⟨rest, _, _, hold, hnew s.progress .raised rfl rfl, .foreign (.inl rfl) rfl⟩
  | undecodable =>
    exact ⟨rest, _, _, hold, hnew s.progress .raised rfl rfl, .foreign (.inr rfl) rfl⟩

theorem trades_take {w : Fin n} {job : Job} {jobs : List Job} (hworker : s.workers w = .idle)
    (hqueue : s.jobQueue = job :: jobs) : W.Trades env s
      ({ s with jobQueue := jobs }.setWorker w (.busy job .split (download env job))) := by
  obtain ⟨rest, hold, hnew⟩ := W.total_setWorker w { s with jobQueue := jobs }
  refine ⟨rest, _, _, ?_, hnew _, .take hworker⟩
  change _ = rest + W.worker (s.workers w) at hold
  rw [hworker] at hold
  rw [add_comm (W.job job), ← add_assoc, ← hold]
  simp only [total, hqueue, weigh_cons]
  abel

theorem trades_work {w : Fin n} {job : Job} {next : Next} {op : WorkOp} {program : Program}
    {disk : Store Str Bytes} {out : Output Bytes Destination PairPut}
    (hworker : s.workers w = .busy job next (op :: program))
    (hexec : op.exec s.disk = some (disk, out)) : W.Trades env s
      (({ s with disk := disk }.setWorker w (.busy job next program)).publish .worker out) := by
  obtain ⟨rest, hold, hnew⟩ := W.total_setWorker w { s with disk := disk }
  refine ⟨rest, _, _, ?_, ?_, .work hworker hexec⟩
  · rw [← hworker]
    exact hold
  · rw [total_publish, hnew, add_assoc]

theorem trades_setWorker {w : Fin n} {worker worker' : Worker} (hworker : s.workers w = worker)
    (h : Exchange W env s (s.setWorker w worker') (W.worker worker) (W.worker worker')) :
    W.Trades env s (s.setWorker w worker') := by
  obtain ⟨rest, hold, hnew⟩ := W.total_setWorker w s
  rw [hworker] at hold
  exact ⟨rest, _, _, hold, hnew worker', h⟩

theorem trades_failed {w : Fin n} {job : Job} {next : Next} {program : Program}
    (hworker : s.workers w = .busy job next program) :
    W.Trades env s (s.setWorker w (.failed job)) :=
  trades_setWorker hworker (.failed hworker (setWorker_self w _ s))

theorem trades_report {w : Fin n} {worker : Worker} {b : Body} (hworker : s.workers w = worker)
    (h : Exchange W env s ((s.setWorker w .idle).post b) (W.worker worker)
      (W.worker .idle + W.mail b)) : W.Trades env s ((s.setWorker w .idle).post b) := by
  obtain ⟨rest, hold, hnew⟩ := W.total_setWorker w s
  rw [hworker] at hold
  exact ⟨rest, _, _, hold, by rw [total_post, hnew, add_assoc], h⟩

theorem trades_inject {b : Body} (hforeign : b = .unexpected ∨ b = .undecodable) :
    W.Trades env s (s.post b) :=
  ⟨W.total s, 0, _, (add_zero _).symm, W.total_post b s, .inject hforeign⟩

end Trades

/-- A step inside a cycle changes the total weight by one exchange. -/
theorem total_move (W : Flow M) {s s' : System n} {a : Action n} (h : Move env s a s')
    (ha : ∀ request answer, a ≠ .request request answer) : W.Trades env s s' := by
  cases h with
  | loop hold hnew => exact trades_loop hold hnew
  | reject => exact absurd rfl (ha _ _)
  | begin => exact absurd rfl (ha _ _)
  | push hphase =>
    apply trades_same
    simp only [total, hphase, Phase.jobs, Phase.program, weigh_append, weigh_cons, weigh_nil]
    abel
  | pushed hphase =>
    apply trades_same
    simp only [total, hphase, Phase.jobs, Phase.program]
  | manage hphase hexec => exact trades_manage hphase hexec
  | fail hphase => exact trades_raised (by rw [hphase]; trivial)
  | fault hphase => exact trades_raised hphase
  | sweep hphase => exact trades_sweep hphase
  | wait => exact trades_same rfl
  | dispatch hphase hmail => exact trades_dispatch hphase hmail
  | swept hphase =>
    apply trades_same
    simp only [total, hphase, Phase.jobs, Phase.program]
  | notify hphase =>
    apply trades_same
    simp only [System.notify, total, hphase, Phase.jobs, Phase.program]
  | notifyFailure hphase =>
    apply trades_same
    simp only [System.notify, total, hphase, Phase.jobs, Phase.program]
  | poll => exact trades_same rfl
  | take hworker hqueue => exact trades_take hworker hqueue
  | work hworker hexec => exact trades_work hworker hexec
  | workerFail hworker => exact trades_failed hworker
  | workerFault hworker => exact trades_failed hworker
  | split hworker => exact trades_setWorker hworker (.split hworker)
  | @report w job success hworker =>
    cases success with
    | true => exact trades_report hworker (.report hworker)
    | false => exact trades_report hworker (.reportFailure hworker)
  | stop => exact trades_same rfl
  | unexpected => exact trades_inject (.inl rfl)
  | undecodable => exact trades_inject (.inr rfl)

theorem total_eq (W : Flow M) {s s' : System n} {a : Action n} (h : Move env s a s')
    (ha : ∀ request answer, a ≠ .request request answer)
    (hkeep : ∀ before after, Exchange W env s s' before after → before = after) :
    W.total s' = W.total s := by
  obtain ⟨rest, before, after, hs, hs', hexchange⟩ := W.total_move h ha
  rw [hs, hs', hkeep before after hexchange]

end Flow
end SensorDataNormalization.SystemFlow
