import SensorDataNormalization.NormalizerSystem

set_option autoImplicit false
namespace SensorDataNormalization.SystemSteps
open PythonText PcapRecords StoreProgram Messages WorkerProgram ManagerProgram ProcessState
  PairBuckets NormalizerSystem

variable {n : ℕ} {env : Environment}

/-! ## What a step can do -/

inductive Move (env : Environment) (s : System n) : Action n → System n → Prop
  | loop {phase : Phase} (hold : s.phase.between) (hnew : phase.between) :
      Move env s .manager { s with phase := phase }
  | reject {request : Request} {answer : StorageAnswer} (hphase : s.phase = .listening) :
      Move env s (.request request answer) { s.openCycle env request with phase := .raised }
  | begin {request : Request} {answer : StorageAnswer} {files : List StorageFile}
      (hphase : s.phase = .listening) (hfiles : selectFiles env request answer = some files) :
      Move env s (.request request answer) ((s.openCycle env request).beginCycle files)
  | push {job : Job} {jobs : List Job} (hphase : s.phase = .pushing (job :: jobs)) :
      Move env s .manager { s with jobQueue := s.jobQueue ++ [job], phase := .pushing jobs }
  | pushed (hphase : s.phase = .pushing []) :
      Move env s .manager { s with phase := .working .drain [] }
  | manage {stage : Stage} {op : WorkOp} {program : Program} {disk : Store Str Bytes}
      {out : Output Bytes Destination PairPut}
      (hphase : s.phase = .working stage (op :: program))
      (hexec : op.exec s.disk = some (disk, out)) :
      Move env s .manager
        ({ s with disk := disk, phase := .working stage program }.publish .manager out)
  | fail {stage : Stage} {op : WorkOp} {program : Program}
      (hphase : s.phase = .working stage (op :: program)) (hexec : op.exec s.disk = none) :
      Move env s .manager { s with phase := .raised }
  | fault (hphase : s.phase.inCycle) :
      Move env s .managerFault { s with phase := .raised }
  | sweep (hphase : s.phase = .working .drain [])
      (hexit : s.progress.remaining ≤ 0 ∨ s.stop = true) : Move env s .manager s.sweep
  | wait (hphase : s.phase = .working .drain []) (hmail : s.mailbox = []) :
      Move env s .manager s
  | dispatch {b : Body} {mailbox : List Body} (hphase : s.phase = .working .drain [])
      (hmail : s.mailbox = b :: mailbox) (hopen : 0 < s.progress.remaining)
      (hstop : s.stop = false) :
      Move env s .manager (System.dispatchMessage b
        { s with mailbox := mailbox, cycle.dispatched := s.cycle.dispatched ++ [b] })
  | swept (hphase : s.phase = .working .sweep []) :
      Move env s .manager { s with phase := .returned }
  | notify (hphase : s.phase = .returned) : Move env s .manager (s.notify s.notice)
  | notifyFailure (hphase : s.phase = .raised) :
      Move env s .manager (s.notify (.failure s.cycle.requestId s.cycle.summary .exception))
  | poll {w : Fin n} (hworker : s.workers w = .idle) (hqueue : s.jobQueue = []) :
      Move env s (.worker w) s
  | take {w : Fin n} {job : Job} {jobs : List Job} (hworker : s.workers w = .idle)
      (hqueue : s.jobQueue = job :: jobs) :
      Move env s (.worker w)
        ({ s with jobQueue := jobs }.setWorker w (.busy job .split (download env job)))
  | work {w : Fin n} {job : Job} {next : Next} {op : WorkOp} {program : Program}
      {disk : Store Str Bytes} {out : Output Bytes Destination PairPut}
      (hworker : s.workers w = .busy job next (op :: program))
      (hexec : op.exec s.disk = some (disk, out)) :
      Move env s (.worker w)
        (({ s with disk := disk }.setWorker w (.busy job next program)).publish .worker out)
  | workerFail {w : Fin n} {job : Job} {next : Next} {op : WorkOp} {program : Program}
      (hworker : s.workers w = .busy job next (op :: program)) (hexec : op.exec s.disk = none) :
      Move env s (.worker w) (s.setWorker w (.failed job))
  | workerFault {w : Fin n} {job : Job} {next : Next} {program : Program}
      (hworker : s.workers w = .busy job next program) :
      Move env s (.workerFault w) (s.setWorker w (.failed job))
  | split {w : Fin n} {job : Job} (hworker : s.workers w = .busy job .split []) :
      Move env s (.worker w)
        (s.setWorker w (.busy job .report (splitUploadSend env s.disk job)))
  | report {w : Fin n} {job : Job} {success : Bool}
      (hworker : s.workers w = if success then .busy job .report [] else .failed job) :
      Move env s (.worker w) ((s.setWorker w .idle).post (.jobDone job success))
  | stop : Move env s .stop { s with stop := true }
  | unexpected : Move env s .unexpected (s.post .unexpected)
  | undecodable : Move env s .undecodable (s.post .undecodable)

theorem managerStep_move {s s' : System n} (h : managerStep s = some s') :
    Move env s .manager s' := by
  unfold managerStep at h
  split at h
  · rename_i hp
    cases h
    refine Move.loop (by rw [hp]; trivial) ?_
    split_ifs <;> trivial
  · rename_i hp
    cases h
    exact Move.loop (by rw [hp]; trivial) trivial
  · rename_i hp
    cases h
    exact Move.pushed hp
  · rename_i hp
    cases h
    exact Move.push hp
  · rename_i hp
    split at h
    · rename_i hexec
      cases h
      exact Move.fail hp hexec
    · rename_i hexec
      cases h
      exact Move.manage hp hexec
  · rename_i hp
    split_ifs at h with hexit
    · cases h
      refine Move.sweep hp ?_
      rcases (Bool.or_eq_true _ _).mp hexit with hd | hs
      · exact Or.inl (s.progress.isDone_iff.mp hd)
      · exact Or.inr hs
    · have hboth := Bool.or_eq_false_iff.mp (Bool.eq_false_iff.mpr hexit)
      have hopen : 0 < s.progress.remaining := by
        by_contra hle
        rw [s.progress.isDone_iff.mpr (by omega)] at hboth
        exact absurd hboth.1 (by decide)
      split at h
      · rename_i hm
        cases h
        exact Move.wait hp hm
      · rename_i hm
        cases h
        exact Move.dispatch hp hm hopen hboth.2
  · rename_i hp
    cases h
    exact Move.swept hp
  · rename_i hp
    cases h
    exact Move.notify hp
  · rename_i hp
    cases h
    exact Move.notifyFailure hp
  · cases h

theorem workerStep_move {s s' : System n} {w : Fin n} (h : workerStep env w s = some s') :
    Move env s (.worker w) s' := by
  unfold workerStep at h
  split at h
  · rename_i hw
    split at h
    · rename_i hq
      cases h
      exact Move.poll hw hq
    · rename_i hq
      cases h
      exact Move.take hw hq
  · rename_i hw
    split at h
    · rename_i hexec
      cases h
      exact Move.workerFail hw hexec
    · rename_i hexec
      cases h
      exact Move.work hw hexec
  · rename_i hw
    cases h
    exact Move.split hw
  · rename_i hw
    cases h
    exact Move.report (by simpa using hw)
  · rename_i hw
    cases h
    exact Move.report (by simpa using hw)

theorem step_move {s s' : System n} {a : Action n} (h : step env s a = some s') :
    Move env s a s' := by
  cases a with
  | manager => exact managerStep_move h
  | worker w => exact workerStep_move h
  | managerFault =>
    simp only [step] at h
    split at h
    · rename_i hp
      cases h
      exact Move.fault (by rw [hp]; trivial)
    · rename_i hp
      cases h
      exact Move.fault (by rw [hp]; trivial)
    · cases h
  | request request answer =>
    simp only [step] at h
    split at h
    · rename_i hp
      cases h
      unfold System.handleRequest
      split
      · exact Move.reject hp
      · rename_i hfiles
        exact Move.begin hp hfiles
    · cases h
  | workerFault w =>
    simp only [step] at h
    split at h
    · rename_i hw
      cases h
      exact Move.workerFault hw
    · cases h
  | stop =>
    cases h
    exact Move.stop
  | unexpected =>
    cases h
    exact Move.unexpected
  | undecodable =>
    cases h
    exact Move.undecodable

/-! ## Where jobs and messages come from -/

section Origin
variable {s s' : System n} {a : Action n}

theorem silent_not_given {stage : Stage} {op : WorkOp} {program : Program}
    {disk : Store Str Bytes} {put : PairPut}
    (hsilent : ∀ cell put, .give cell put ∉ s.phase.program)
    (hphase : s.phase = .working stage (op :: program))
    (hexec : op.exec s.disk = some (disk, .given put)) : False := by
  obtain ⟨cell, rfl⟩ := Op.exec_given hexec
  rw [hphase] at hsilent
  exact hsilent cell put List.mem_cons_self

/-- Inside a cycle no job comes to the manager or to the queue. -/
theorem queued_of_move (h : Move env s a s') (ha : ∀ request answer, a ≠ .request request answer)
    {job : Job} (hjob : job ∈ s'.phase.jobs ∨ job ∈ s'.jobQueue) :
    job ∈ s.phase.jobs ∨ job ∈ s.jobQueue := by
  cases h with
  | reject => exact absurd rfl (ha _ _)
  | begin => exact absurd rfl (ha _ _)
  | @loop phase hold hnew =>
    have hempty : phase.jobs = [] := by
      cases phase <;> first | rfl | exact hnew.elim
    rw [hempty] at hjob
    exact Or.inr (hjob.resolve_left List.not_mem_nil)
  | push hphase =>
    rw [hphase]
    rcases hjob with hjob | hjob
    · exact Or.inl (List.mem_cons_of_mem _ hjob)
    · rcases List.mem_append.mp hjob with hjob | hjob
      · exact Or.inr hjob
      · exact Or.inl (List.mem_cons.mpr (Or.inl (List.mem_singleton.mp hjob)))
  | manage =>
    rw [publish_phase, publish_jobQueue] at hjob
    exact Or.inr (hjob.resolve_left List.not_mem_nil)
  | @dispatch b =>
    cases b with
    | jobDone job success => exact hjob
    | pairPut put => exact Or.inr (hjob.resolve_left List.not_mem_nil)
    | unexpected => exact Or.inr (hjob.resolve_left List.not_mem_nil)
    | undecodable => exact Or.inr (hjob.resolve_left List.not_mem_nil)
  | take hworker hqueue =>
    rw [hqueue]
    exact hjob.imp id (List.mem_cons_of_mem _)
  | work =>
    rw [publish_phase, publish_jobQueue] at hjob
    exact hjob
  | pushed => exact Or.inr (hjob.resolve_left List.not_mem_nil)
  | fail => exact Or.inr (hjob.resolve_left List.not_mem_nil)
  | fault => exact Or.inr (hjob.resolve_left List.not_mem_nil)
  | sweep => exact Or.inr (hjob.resolve_left List.not_mem_nil)
  | swept => exact Or.inr (hjob.resolve_left List.not_mem_nil)
  | notify => exact Or.inr (hjob.resolve_left List.not_mem_nil)
  | notifyFailure => exact Or.inr (hjob.resolve_left List.not_mem_nil)
  | _ => exact hjob

/-- A piece in the mailbox was there, or a worker has just sent it. -/
theorem mail_of_move (h : Move env s a s')
    (hsilent : ∀ cell put, .give cell put ∉ s.phase.program) {put : PairPut}
    (hput : .pairPut put ∈ s'.mailbox) : .pairPut put ∈ s.mailbox ∨
      ∃ w job next op program, s.workers w = .busy job next (op :: program) ∧
        op.exec s.disk = some (s'.disk, .given put) := by
  have hpost : ∀ b : Body, b ≠ .pairPut put → .pairPut put ∈ s.mailbox ++ [b] →
      .pairPut put ∈ s.mailbox := by
    intro b hb hput
    rcases List.mem_append.mp hput with hput | hput
    · exact hput
    · exact absurd (List.mem_singleton.mp hput).symm hb
  cases h with
  | @manage stage op program disk out hphase hexec =>
    cases out with
    | silent => exact Or.inl hput
    | published destination contents => exact Or.inl hput
    | given put' => exact (silent_not_given hsilent hphase hexec).elim
  | @dispatch b mailbox hphase hmail =>
    rw [hmail]
    cases b <;> exact Or.inl (List.mem_cons_of_mem _ hput)
  | @work w job next op program disk out hworker hexec =>
    cases out with
    | silent => exact Or.inl hput
    | published destination contents => exact Or.inl hput
    | given put' =>
      rcases List.mem_append.mp hput with hput | hput
      · exact Or.inl hput
      · cases List.mem_singleton.mp hput
        exact Or.inr ⟨w, job, next, op, program, hworker, hexec⟩
  | report => exact Or.inl (hpost _ (fun he => by cases he) hput)
  | unexpected => exact Or.inl (hpost _ (fun he => by cases he) hput)
  | undecodable => exact Or.inl (hpost _ (fun he => by cases he) hput)
  | _ => exact Or.inl hput

theorem dispatched_of_move (h : Move env s a s') {b : Body} (hb : b ∈ s'.cycle.dispatched) :
    b ∈ s.cycle.dispatched ∨ b ∈ s.mailbox := by
  cases h with
  | reject => cases hb
  | begin => cases hb
  | manage =>
    rw [publish_dispatched] at hb
    exact Or.inl hb
  | work =>
    rw [publish_dispatched] at hb
    exact Or.inl hb
  | @dispatch c mailbox hphase hmail =>
    have hnew : b ∈ s.cycle.dispatched ++ [c] := by
      cases c <;> exact hb
    rw [hmail]
    rcases List.mem_append.mp hnew with hb | hb
    · exact Or.inl hb
    · exact Or.inr (List.mem_cons.mpr (Or.inl (List.mem_singleton.mp hb)))
  | _ => exact Or.inl hb

theorem bucket_of_move (h : Move env s a s') (hunmatched : Unmatched s.buckets) {put : PairPut}
    (hput : put ∈ s'.buckets.items) : put ∈ s.buckets.items ∨ .pairPut put ∈ s.mailbox := by
  cases h with
  | begin => cases hput
  | sweep => cases hput
  | manage =>
    rw [publish_buckets] at hput
    exact Or.inl hput
  | work =>
    rw [publish_buckets] at hput
    exact Or.inl hput
  | @dispatch b mailbox hphase hmail =>
    cases b with
    | pairPut new =>
      have hitems := (put_items hunmatched new.pairKey new).mem_iff.mp
        (List.mem_append_left _ hput)
      rw [hmail]
      rcases List.mem_append.mp hitems with hput | hput
      · exact Or.inl hput
      · cases List.mem_singleton.mp hput
        exact Or.inr List.mem_cons_self
    | _ => exact Or.inl hput
  | _ => exact Or.inl hput

theorem unmatched_of_move (h : Move env s a s') (hunmatched : Unmatched s.buckets) :
    Unmatched s'.buckets := by
  cases h with
  | begin => exact unmatched_nil
  | sweep => exact unmatched_nil
  | manage =>
    rw [publish_buckets]
    exact hunmatched
  | work =>
    rw [publish_buckets]
    exact hunmatched
  | @dispatch b =>
    cases b with
    | pairPut put => exact put_unmatched hunmatched _ _
    | _ => exact hunmatched
  | _ => exact hunmatched

end Origin

/-! ## Runs -/

/-- A run whose every step meets `ok`. -/
inductive Runs (env : Environment) (ok : System n → Action n → System n → Prop) :
    System n → System n → Prop
  | refl (s : System n) : Runs env ok s s
  | step {s t u : System n} {a : Action n} (run : Runs env ok s t)
      (h : NormalizerSystem.step env t a = some u) (hok : ok t a u) : Runs env ok s u

section Runs
variable {ok : System n → Action n → System n → Prop} {s t u : System n}

theorem Runs.trans (h : Runs env ok s t) (h' : Runs env ok t u) : Runs env ok s u := by
  induction h' with
  | refl => exact h
  | step _ hs hok ih => exact .step ih hs hok

/-- What holds at the start and is preserved by every step holds after every run. -/
theorem Runs.invariant (I : System n → Prop) (h : Runs env ok s t) (hs : I s)
    (hstep : ∀ {t u : System n} {a : Action n}, I t → Move env t a u → ok t a u → I u) : I t := by
  induction h with
  | refl => exact hs
  | step _ h hok ih => exact hstep ih (step_move h) hok

theorem Runs.mono {ok' : System n → Action n → System n → Prop}
    (h : ∀ t a u, ok t a u → ok' t a u) (run : Runs env ok s t) : Runs env ok' s t := by
  induction run with
  | refl => exact .refl _
  | step _ hs hok ih => exact .step ih hs (h _ _ _ hok)

end Runs

/-- Run a list of actions as long as every step meets `ok`. -/
def runWhile (env : Environment) (ok : System n → Action n → System n → Prop)
    [∀ s a t, Decidable (ok s a t)] : List (Action n) → System n → Option (System n)
  | [], s => some s
  | a :: actions, s => (NormalizerSystem.step env s a).bind (fun t =>
      if ok s a t then runWhile env ok actions t else none)

/-- The manager, one worker, and the manager again. -/
def inTurn (pushes works drains : ℕ) : List (Action 1) :=
  List.replicate pushes .manager ++ List.replicate works (.worker ⟨0, Nat.one_pos⟩) ++
    List.replicate drains .manager

/-- Two files are pushed, the worker does their jobs, and the manager ends the cycle. -/
def twoFilesInTurn : List (Action 1) := inTurn 3 22 16

theorem runWhile_runs {ok : System n → Action n → System n → Prop}
    [∀ s a t, Decidable (ok s a t)] {actions : List (Action n)} {s s' : System n}
    (h : runWhile env ok actions s = some s') : Runs env ok s s' := by
  induction actions generalizing s with
  | nil =>
    cases h
    exact .refl _
  | cons a actions ih =>
    obtain ⟨t, ht, hrest⟩ := Option.bind_eq_some_iff.mp h
    split_ifs at hrest with hok
    exact (Runs.step (.refl s) ht hok).trans (ih hrest)

/-- A run of given actions, with what a check finds at its end. -/
theorem runs_of_any {ok : System n → Action n → System n → Prop}
    [∀ s a t, Decidable (ok s a t)] {actions : List (Action n)} {s : System n}
    {check : System n → Bool} (h : (runWhile env ok actions s).any check = true) :
    ∃ s', Runs env ok s s' ∧ check s' = true := by
  obtain ⟨s', hs', hcheck⟩ := (Option.any_eq_true _ _).mp h
  exact ⟨s', runWhile_runs hs', hcheck⟩

instance (a : Action n) : Decidable (∀ request answer, a ≠ .request request answer) := by
  cases a with
  | request request answer => exact isFalse (fun h => h request answer rfl)
  | _ => exact isTrue (fun _ _ h => by cases h)

instance (p : Phase) : Decidable (p = .raised) := by
  cases p <;> first | exact isTrue rfl | exact isFalse (fun h => by cases h)

instance (p : Phase) : Decidable (p = .listening) := by
  cases p <;> first | exact isTrue rfl | exact isFalse (fun h => by cases h)

instance (p : Phase) : Decidable (p = .returned) := by
  cases p <;> first | exact isTrue rfl | exact isFalse (fun h => by cases h)

end SensorDataNormalization.SystemSteps
