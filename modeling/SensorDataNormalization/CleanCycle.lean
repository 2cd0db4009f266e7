import SensorDataNormalization.DrainQuiescence
import SensorDataNormalization.LocalFiles

set_option autoImplicit false

/-! The local files that a cycle leaves behind. -/
namespace SensorDataNormalization.CleanCycle
open PythonText PcapRecords StoreProgram StoreTidiness Messages WorkerProgram ManagerProgram
  ProcessState PairBuckets PairSequence NormalizerSystem SystemSteps CycleAccounting PairLedger
  DrainQuiescence LocalFiles

variable {n : ℕ} {env : Environment}

/-! ## The programs in work -/

structure TidyPrograms (env : Environment) (s : System n) : Prop where
  workers : ∀ w job next program, s.workers w = .busy job next program →
    Tidy sends (Left env job next) program
  manager : Tidy sends (fun _ => False) s.phase.program

section Step
variable {s s' : System n} {a : Action n} {path : Str}

theorem move_workers_tidy (h : Move env s a s')
    (hworkers : ∀ w job next program, s.workers w = .busy job next program →
      Tidy sends (Left env job next) program) :
    ∀ w job next program, s'.workers w = .busy job next program →
      Tidy sends (Left env job next) program := by
  cases h with
  | manage => simpa using hworkers
  | take =>
    refine setWorker_busy hworkers (fun job next program he => ?_)
    cases he
    exact tidy_download env _
  | work hworker =>
    rw [publish_workers]
    refine setWorker_busy hworkers (fun job next program he => ?_)
    cases he
    exact (hworkers _ _ _ _ hworker).2
  | workerFail => exact setWorker_busy hworkers (fun _ _ _ he => by cases he)
  | workerFault => exact setWorker_busy hworkers (fun _ _ _ he => by cases he)
  | split =>
    refine setWorker_busy hworkers (fun job next program he => ?_)
    cases he
    exact tidy_splitUploadSend env _ _
  | report => exact setWorker_busy hworkers (fun _ _ _ he => by cases he)
  | @dispatch b => cases b <;> exact hworkers
  | _ => exact hworkers

theorem move_manager_tidy (h : Move env s a s')
    (hmanager : Tidy sends (fun _ => False) s.phase.program) :
    Tidy sends (fun _ => False) s'.phase.program := by
  cases h with
  | loop hold hnew =>
    rename_i phase
    rw [(between_closed hnew).2]
    trivial
  | manage hphase =>
    rw [publish_phase]
    rw [hphase] at hmanager
    exact hmanager.2
  | sweep => exact tidy_uploadUnpaired _
  | work => simpa [System.setWorker] using hmanager
  | @dispatch b =>
    cases b with
    | jobDone job success => exact hmanager
    | pairPut put => exact tidy_mergeReady _
    | unexpected => trivial
    | undecodable => trivial
  | push => trivial
  | pushed => trivial
  | fail => trivial
  | fault => trivial
  | reject => trivial
  | begin => trivial
  | swept => trivial
  | notify => trivial
  | notifyFailure => trivial
  | _ => exact hmanager

theorem tidyPrograms_step (h : Move env s a s') (hi : TidyPrograms env s) :
    TidyPrograms env s' where
  workers := move_workers_tidy h hi.workers
  manager := move_manager_tidy h hi.manager

end Step

/-! ## Every file on the disk is accounted for -/

/-- The worker is going to remove the file. Of a job that fails nothing is promised. -/
def Keeps (env : Environment) (path : Str) : Worker → Prop
  | .idle => False
  | .busy job next program => Frees sends program path ∨ Left env job next path
  | .failed _ => True

/-- The file is absent, somebody is going to remove it, or a job has failed. -/
inductive Accounted (env : Environment) (s : System n) (path : Str) : Prop
  | absent (h : s.disk path = none)
  | worker {w : Fin n} (h : Keeps env path (s.workers w))
  | sent {put : PairPut} (hmail : .pairPut put ∈ s.mailbox) (hput : sends put path)
  | waiting {put : PairPut} (hbucket : put ∈ s.buckets.items) (hput : sends put path)
  | manager (h : Frees sends s.phase.program path)
  | failed {job : Job} (h : .jobDone job false ∈ s.cycle.posted)

section Accounted
variable {s s' : System n} {path : Str}

theorem Accounted.same_disk (h : Accounted env s path) (hdisk : s'.disk = s.disk)
    (hworkers : s'.workers = s.workers) (hposted : s'.cycle.posted = s.cycle.posted)
    (hprogram : Frees sends s.phase.program path → Accounted env s' path)
    (hmail : ∀ put, .pairPut put ∈ s.mailbox → sends put path → Accounted env s' path)
    (hbuckets : ∀ put ∈ s.buckets.items, sends put path → Accounted env s' path) :
    Accounted env s' path := by
  cases h with
  | absent h => exact .absent (by rw [hdisk, h])
  | worker h => exact .worker (by rw [hworkers]; exact h)
  | sent hm hput => exact hmail _ hm hput
  | waiting hbucket hput => exact hbuckets _ hbucket hput
  | manager h => exact hprogram h
  | failed h => exact .failed (by rw [hposted]; exact h)

theorem Accounted.absent_or (h : Accounted env s path) (disk : Store Str Bytes) :
    s.disk path = none ∨ Accounted env { s with disk := disk } path := by
  cases h with
  | absent h => exact Or.inl h
  | worker h => exact Or.inr (.worker h)
  | sent hmail hput => exact Or.inr (.sent hmail hput)
  | waiting hbucket hput => exact Or.inr (.waiting hbucket hput)
  | manager h => exact Or.inr (.manager h)
  | failed h => exact Or.inr (.failed h)

theorem Accounted.post (h : Accounted env s path) (b : Body) : Accounted env (s.post b) path := by
  cases h with
  | absent h => exact .absent h
  | worker h => exact .worker h
  | sent hmail hput => exact .sent (List.mem_append_left _ hmail) hput
  | waiting hbucket hput => exact .waiting hbucket hput
  | manager h => exact .manager h
  | failed h => exact .failed (List.mem_append_left _ h)

theorem Accounted.publish (h : Accounted env s path) (who : Uploader)
    (out : Output Bytes Destination PairPut) : Accounted env (s.publish who out) path := by
  cases out with
  | silent => exact h
  | given put => exact h.post _
  | published destination contents =>
    cases h with
    | absent h => exact .absent h
    | worker h => exact .worker h
    | sent hmail hput => exact .sent hmail hput
    | waiting hbucket hput => exact .waiting hbucket hput
    | manager h => exact .manager h
    | failed h => exact .failed h

theorem accounted_given {put : PairPut} (who : Uploader) (hput : sends put path) :
    Accounted env (s.publish who (.given put)) path :=
  .sent (List.mem_append_right _ List.mem_cons_self) hput

theorem accounted_setWorker {w : Fin n} {worker : Worker} (h : Keeps env path worker) :
    Accounted env (s.setWorker w worker) path := by
  refine .worker (w := w) ?_
  rw [setWorker_self]
  exact h

theorem Accounted.setWorker (h : Accounted env s path) {w : Fin n} {worker : Worker}
    (hkeep : Keeps env path (s.workers w) → Accounted env (s.setWorker w worker) path) :
    Accounted env (s.setWorker w worker) path := by
  cases h with
  | absent h => exact .absent h
  | @worker v h =>
    by_cases hvw : v = w
    · subst hvw
      exact hkeep h
    · refine .worker (w := v) ?_
      rw [setWorker_of_ne hvw]
      exact h
  | sent hmail hput => exact .sent hmail hput
  | waiting hbucket hput => exact .waiting hbucket hput
  | manager h => exact .manager h
  | failed h => exact .failed h

/-! ### One operation -/

section Operation
variable {op : WorkOp} {program : Program} {disk : Store Str Bytes}
  {out : Output Bytes Destination PairPut}

/-- The manager sends nothing, so what it frees it removes itself. -/
theorem accounted_manage {stage : Stage} (hphase : s.phase = .working stage (op :: program))
    (hexec : op.exec s.disk = some (disk, out)) (ht : TidyPrograms env s)
    (hsilent : ∀ cell put, .give cell put ∉ s.phase.program) (h : Accounted env s path) :
    Accounted env { s with disk := disk, phase := .working stage program } path := by
  have htidy := ht.manager
  rw [hphase] at htidy
  cases h.absent_or disk with
  | inl habsent =>
    rcases Tidy.exec htidy hexec habsent with hnone | hfrees | hlater
    · exact .absent hnone
    · exact .manager hfrees
    · exact hlater.elim
  | inr h =>
    refine h.same_disk rfl rfl rfl (fun hfrees => ?_)
      (fun _ hmail hput => .sent hmail hput) (fun _ hbucket hput => .waiting hbucket hput)
    change Frees sends s.phase.program path at hfrees
    rw [hphase] at hfrees
    rcases Frees.exec hfrees hexec with hfrees | hnone | ⟨put, rfl, -⟩
    · exact .manager hfrees
    · exact .absent hnone
    · exact (silent_not_given hsilent hphase hexec).elim

/-- A worker goes on looking after a file, unless its operation sends the piece. -/
theorem keeps_exec {job : Job} {next : Next} (h : Keeps env path (.busy job next (op :: program)))
    (hexec : op.exec s.disk = some (disk, out)) :
    Keeps env path (.busy job next program) ∨ disk path = none ∨
      ∃ put, out = .given put ∧ sends put path := by
  cases h with
  | inl hfrees =>
    rcases Frees.exec hfrees hexec with hfrees | hnone | hgiven
    · exact Or.inl (Or.inl hfrees)
    · exact Or.inr (Or.inl hnone)
    · exact Or.inr (Or.inr hgiven)
  | inr hleft => exact Or.inl (Or.inr hleft)

theorem accounted_work {w : Fin n} {job : Job} {next : Next}
    (hworker : s.workers w = .busy job next (op :: program))
    (hexec : op.exec s.disk = some (disk, out)) (ht : TidyPrograms env s)
    (h : Accounted env s path) :
    Accounted env
      (({ s with disk := disk }.setWorker w (.busy job next program)).publish .worker out)
      path := by
  cases h.absent_or disk with
  | inl habsent =>
    refine Accounted.publish ?_ .worker out
    rcases Tidy.exec (ht.workers w job next _ hworker) hexec habsent with hnone | hkeep
    · exact .absent hnone
    · exact accounted_setWorker hkeep
  | inr h =>
    by_cases hsent : ∃ put, out = .given put ∧ sends put path
    · obtain ⟨put, rfl, hput⟩ := hsent
      exact accounted_given .worker hput
    · refine Accounted.publish (h.setWorker (fun hkeep => ?_)) .worker out
      change Keeps env path (s.workers w) at hkeep
      rw [hworker] at hkeep
      rcases keeps_exec hkeep hexec with hkeep | hnone | hgiven
      · exact accounted_setWorker hkeep
      · exact .absent hnone
      · exact absurd hgiven hsent

end Operation

/-! ### Messages and the sweep -/

theorem accounted_dispatch {b : Body} {mailbox : List Body} (hunmatched : Unmatched s.buckets)
    (hphase : s.phase = .working .drain []) (hmail : s.mailbox = b :: mailbox)
    (hknown : bodyJob b ≠ none) (h : Accounted env s path) :
    Accounted env (System.dispatchMessage b
      { s with mailbox := mailbox, cycle.dispatched := s.cycle.dispatched ++ [b] }) path := by
  have hprogram : ¬ Frees sends s.phase.program path := by
    rw [hphase]
    exact not_frees_nil
  cases b with
  | jobDone job success =>
    refine h.same_disk rfl rfl rfl (fun hfrees => absurd hfrees hprogram) ?_
      (fun _ hbucket hput => .waiting hbucket hput)
    intro put hm hput
    rw [hmail] at hm
    cases hm with
    | tail _ hm => exact .sent hm hput
  | pairPut new =>
    -- whatever waited, and the new piece, waits now or is merged
    have hkept : ∀ put ∈ s.buckets.items ++ [new], sends put path → Accounted env
        (System.dispatchMessage (.pairPut new) { s with
          mailbox := mailbox, cycle.dispatched := s.cycle.dispatched ++ [.pairPut new] }) path := by
      intro put hm hput
      have hitems := (put_items hunmatched new.pairKey new).mem_iff.mpr hm
      cases List.mem_append.mp hitems with
      | inl hwaits => exact .waiting hwaits hput
      | inr hmerged =>
        rw [← hput]
        exact .manager (frees_mergeReady hmerged)
    refine h.same_disk rfl rfl rfl (fun hfrees => absurd hfrees hprogram) ?_
      (fun put hbucket hput => hkept put (List.mem_append_left _ hbucket) hput)
    intro put hm hput
    rw [hmail] at hm
    cases hm with
    | head => exact hkept _ (List.mem_append_right _ List.mem_cons_self) hput
    | tail _ hm => exact .sent hm hput
  | unexpected => exact absurd rfl hknown
  | undecodable => exact absurd rfl hknown

theorem accounted_sweep (hunmatched : Unmatched s.buckets)
    (hphase : s.phase = .working .drain []) (h : Accounted env s path) :
    Accounted env s.sweep path := by
  refine h.same_disk rfl rfl rfl (fun hfrees => ?_) (fun _ hmail hput => .sent hmail hput) ?_
  · rw [hphase] at hfrees
    exact absurd hfrees not_frees_nil
  · intro put hbucket hput
    obtain ⟨row, hrow, hmem⟩ := List.mem_flatMap.mp hbucket
    obtain ⟨item, hitem⟩ := hunmatched.single row hrow
    have hput' : put = item := by
      rw [hitem] at hmem
      exact List.mem_singleton.mp hmem
    have hsingle : [put] ∈ s.buckets.popAllRemaining :=
      List.mem_map.mpr ⟨row, hrow, by rw [hitem, hput']⟩
    rw [← hput]
    exact .manager (frees_uploadUnpaired hsingle)

/-! ### A whole step -/

theorem accounted_step {jobs : List Job} {a : Action n} (hi : QuietInv jobs s)
    (ht : TidyPrograms env s) (hmove : Move env s a s') (hok : Undisturbed s a s')
    (h : Accounted env s path) : Accounted env s' path := by
  have hidle : s.phase.program = [] → s'.disk = s.disk → s'.workers = s.workers →
      s'.mailbox = s.mailbox → s'.buckets = s.buckets → s'.cycle.posted = s.cycle.posted →
      Accounted env s' path := by
    intro hprogram hdisk hworkers hmail hbuckets hposted
    refine h.same_disk hdisk hworkers hposted (fun hfrees => ?_)
      (fun _ hm hput => .sent (by rw [hmail]; exact hm) hput)
      (fun _ hb hput => .waiting (by rw [hbuckets]; exact hb) hput)
    rw [hprogram] at hfrees
    exact absurd hfrees not_frees_nil
  cases hmove with
  | reject => exact hok.1.elim
  | begin => exact hok.1.elim
  | fault => exact hok.1.elim
  | stop => exact hok.1.elim
  | unexpected => exact hok.1.elim
  | undecodable => exact hok.1.elim
  | fail => exact absurd rfl hok.2
  | wait => exact h
  | poll => exact h
  | loop hold => exact hidle (between_closed hold).2 rfl rfl rfl rfl rfl
  | push hphase => exact hidle (by rw [hphase]; rfl) rfl rfl rfl rfl rfl
  | pushed hphase => exact hidle (by rw [hphase]; rfl) rfl rfl rfl rfl rfl
  | swept hphase => exact hidle (by rw [hphase]; rfl) rfl rfl rfl rfl rfl
  | notify hphase => exact hidle (by rw [hphase]; rfl) rfl rfl rfl rfl rfl
  | notifyFailure hphase => exact absurd hphase hi.kept
  | manage hphase hexec =>
    exact (accounted_manage hphase hexec ht hi.cycle.silent h).publish .manager _
  | sweep hphase =>
    exact accounted_sweep (hi.ledger.unmatched (by rw [hphase]; trivial)) hphase h
  | dispatch hphase hmail =>
    have hknown := hi.known _ (by rw [hmail]; exact List.mem_cons_self)
    exact accounted_dispatch (hi.ledger.unmatched (by rw [hphase]; trivial)) hphase hmail hknown h
  | @take w job jobs hworker =>
    have hqueue : Accounted env { s with jobQueue := jobs } path :=
      h.same_disk rfl rfl rfl (fun hfrees => .manager hfrees)
        (fun _ hmail hput => .sent hmail hput) (fun _ hbucket hput => .waiting hbucket hput)
    refine hqueue.setWorker (fun hkeep => ?_)
    change Keeps env path (s.workers w) at hkeep
    rw [hworker] at hkeep
    exact hkeep.elim
  | work hworker hexec => exact accounted_work hworker hexec ht h
  | workerFail hworker => exact h.setWorker (fun _ => accounted_setWorker trivial)
  | workerFault hworker => exact h.setWorker (fun _ => accounted_setWorker trivial)
  | split hworker =>
    refine h.setWorker (fun hkeep => accounted_setWorker ?_)
    rw [hworker] at hkeep
    cases hkeep with
    | inl hfrees => exact absurd hfrees not_frees_nil
    | inr hleft => exact Or.inl (frees_splitUploadSend hleft.2)
  | @report w job success hworker =>
    cases success with
    | false => exact .failed (List.mem_append_right _ List.mem_cons_self)
    | true =>
      refine Accounted.post (h.setWorker (fun hkeep => ?_)) _
      rw [hworker] at hkeep
      cases hkeep with
      | inl hfrees => exact absurd hfrees not_frees_nil
      | inr hleft => cases hleft.1

/-! ### What a step writes -/

inductive Writes (s : System n) (path : Str) : Action n → Prop
  | manager {stage : Stage} {op : WorkOp} {program : Program}
      (hphase : s.phase = .working stage (op :: program)) (hwrite : path ∈ Op.writes op) :
      Writes s path .manager
  | worker {w : Fin n} {job : Job} {next : Next} {op : WorkOp} {program : Program}
      (hworker : s.workers w = .busy job next (op :: program)) (hwrite : path ∈ Op.writes op) :
      Writes s path (.worker w)

theorem accounted_written {a : Action n} (hwrites : Writes s path a) (ht : TidyPrograms env s)
    (h : NormalizerSystem.step env s a = some s') (hkept : s'.phase ≠ .raised) :
    Accounted env s' path := by
  cases hwrites with
  | @manager stage op program hphase hwrite =>
    have htidy := ht.manager
    rw [hphase] at htidy
    simp only [NormalizerSystem.step, managerStep, hphase] at h
    cases hexec : op.exec s.disk with
    | none =>
      rw [hexec] at h
      cases h
      exact absurd rfl hkept
    | some result =>
      rw [hexec] at h
      cases h
      refine Accounted.publish ?_ .manager result.2
      cases htidy.1 path hwrite with
      | inl hfrees => exact .manager hfrees
      | inr hlater => exact hlater.elim
  | @worker w job next op program hworker hwrite =>
    have htidy := ht.workers w job next _ hworker
    simp only [NormalizerSystem.step, workerStep, hworker] at h
    cases hexec : op.exec s.disk with
    | none =>
      rw [hexec] at h
      cases h
      exact accounted_setWorker trivial
    | some result =>
      rw [hexec] at h
      cases h
      have hkeep : Keeps env path (.busy job next program) := htidy.1 path hwrite
      exact Accounted.publish (accounted_setWorker hkeep) .worker result.2

theorem disk_unwritten {a : Action n} (hmove : Move env s a s') (hwrites : ¬ Writes s path a) :
    s'.disk path = s.disk path ∨ s'.disk path = none := by
  cases hmove with
  | manage hphase hexec =>
    rw [publish_disk]
    exact exec_unwritten hexec (fun hwrite => hwrites (.manager hphase hwrite))
  | work hworker hexec =>
    rw [publish_disk]
    exact exec_unwritten hexec (fun hwrite => hwrites (.worker hworker hwrite))
  | @dispatch b => cases b <;> exact Or.inl rfl
  | _ => exact Or.inl rfl

end Accounted

/-! ## A cycle -/

/-- The file gets a content in a run of a cycle from one state to the other. -/
inductive Created (env : Environment) (s₁ s : System n) (path : Str) : Prop
  | intro {t u : System n} {a : Action n} (before : Runs env Undisturbed s₁ t)
      (h : NormalizerSystem.step env t a = some u) (hok : Undisturbed t a u)
      (hwrites : Writes t path a) (after : Runs env Undisturbed u s)

structure LocalInv (env : Environment) (jobs : List Job) (s : System n) : Prop where
  quiet : QuietInv jobs s
  tidy : TidyPrograms env s

section Cycle
variable {s₀ s₁ s s' : System n} {jobs : List Job} {path : Str}

theorem localInv_begin {request : Request} {answer : StorageAnswer} (h₀ : Quiescent s₀)
    (hstop : s₀.stop = false)
    (hstart : NormalizerSystem.step env s₀ (.request request answer) = some s₁)
    (hselected : s₁.phase ≠ .raised) :
    LocalInv env s₁.cycle.pushed s₁ ∧ s₁.disk = s₀.disk := by
  have hquiet := quietInv_begin h₀ hstop hstart hselected
  have hmove := step_move hstart
  cases hmove with
  | reject => exact absurd rfl hselected
  | begin hphase hfiles =>
    refine ⟨⟨hquiet, fun w job next program hw => ?_, trivial⟩, rfl⟩
    change s₀.workers w = _ at hw
    rw [h₀.idle w] at hw
    cases hw

theorem localInv_step {a : Action n} (hi : LocalInv env jobs s) (h : Move env s a s')
    (hok : Undisturbed s a s') : LocalInv env jobs s' where
  quiet := quietInv_step hi.quiet h hok
  tidy := tidyPrograms_step h hi.tidy

theorem localInv_run (hi : LocalInv env jobs s) (run : Runs env Undisturbed s s') :
    LocalInv env jobs s' :=
  run.invariant (LocalInv env jobs) hi (fun hi h hok => localInv_step hi h hok)

theorem accounted_run (hi : LocalInv env jobs s) (h : Accounted env s path)
    (run : Runs env Undisturbed s s') : Accounted env s' path := by
  induction run with
  | refl => exact h
  | step run hstep hok ih =>
    have hlocal := localInv_run hi run
    exact accounted_step hlocal.quiet hlocal.tidy (step_move hstep) hok ih

theorem accounted_created (hi : LocalInv env jobs s) (h : Created env s s' path) :
    Accounted env s' path := by
  cases h with
  | intro before hstep hok hwrites after =>
    have hlocal := localInv_run hi before
    have hwritten := accounted_written hwrites hlocal.tidy hstep hok.2
    exact accounted_run (localInv_step hlocal (step_move hstep) hok) hwritten after

theorem disk_run (hi : LocalInv env jobs s) (run : Runs env Undisturbed s s') :
    s'.disk path = s.disk path ∨ Accounted env s' path := by
  induction run with
  | refl => exact Or.inl rfl
  | @step t u a run hstep hok ih =>
    have hlocal := localInv_run hi run
    have hmove := step_move hstep
    by_cases hwrites : Writes t path a
    · exact Or.inr (accounted_written hwrites hlocal.tidy hstep hok.2)
    · cases ih with
      | inr h => exact Or.inr (accounted_step hlocal.quiet hlocal.tidy hmove hok h)
      | inl hsame =>
        cases disk_unwritten hmove hwrites with
        | inl h => exact Or.inl (h.trans hsame)
        | inr h => exact Or.inr (.absent h)

/-- At the return of `_run_cycle` nobody has a file to remove any more. -/
theorem absent_of_accounted (hi : LocalInv env jobs s) (hphase : s.phase = .returned)
    (hsuccess : ∀ job success, .jobDone job success ∈ s.cycle.dispatched → success = true)
    (h : Accounted env s path) : s.disk path = none := by
  have hclosed : ¬ Phase.isOpen s.phase := by
    rw [hphase]
    exact id
  have hquiescent := hi.quiet.quiescent hclosed
  cases h with
  | absent h => exact h
  | @worker w h =>
    rw [hquiescent.idle w] at h
    exact h.elim
  | sent hmail =>
    rw [hquiescent.mail] at hmail
    cases hmail
  | waiting hbucket =>
    rw [hi.quiet.ledger.swept hclosed] at hbucket
    cases hbucket
  | manager h =>
    rw [hphase] at h
    exact absurd h not_frees_nil
  | failed h =>
    rw [hi.quiet.ledger.fifo, hquiescent.mail, List.append_nil] at h
    cases hsuccess _ _ h

/-- A clean cycle leaves no local files behind: no file that it writes exists at the end, and
any other file is as it was, or removed. -/
theorem clean_cycle_leaves_no_files {request : Request} {answer : StorageAnswer}
    (h₀ : Quiescent s₀) (hstop : s₀.stop = false)
    (hstart : NormalizerSystem.step env s₀ (.request request answer) = some s₁)
    (hselected : s₁.phase ≠ .raised) (run : Runs env Undisturbed s₁ s)
    (hphase : s.phase = .returned)
    (hsuccess : ∀ job success, .jobDone job success ∈ s.cycle.dispatched → success = true)
    (path : Str) : (Created env s₁ s path → s.disk path = none) ∧
      (s.disk path = s₀.disk path ∨ s.disk path = none) := by
  obtain ⟨hbegin, hdisk⟩ := localInv_begin h₀ hstop hstart hselected
  have habsent : Accounted env s path → s.disk path = none :=
    absent_of_accounted (localInv_run hbegin run) hphase hsuccess
  constructor
  · intro hcreated
    exact habsent (accounted_created hbegin hcreated)
  · rw [← hdisk]
    cases disk_run hbegin run with
    | inl hsame => exact Or.inl hsame
    | inr haccounted => exact Or.inr (habsent haccounted)

theorem success_of_results {bodies : List Body} (h : (results bodies).all Prod.snd = true) :
    ∀ job success, .jobDone job success ∈ bodies → success = true := by
  intro job success hdone
  have hresult : (job, success) ∈ results bodies := mem_results.mpr hdone
  exact List.all_eq_true.mp h _ hresult

end Cycle

theorem clean_cycle_leaves_no_files_two_files : ∃ s : System 1,
    (∀ path, s.disk path = none) ∧ s.cycle.pushed.length = 2 ∧ s.cycle.uploads.length = 2 := by
  obtain ⟨s₁, s, hstart, hselected, hruns, hphase, hsuccess, hpushed, huploads⟩ := two_files_run
  refine ⟨s, fun path => ?_, hpushed, huploads⟩
  have hclean := (clean_cycle_leaves_no_files ⟨rfl, rfl, fun _ => rfl⟩ rfl hstart hselected hruns
    hphase (success_of_results hsuccess) path).2
  cases hclean with
  | inl hsame => exact hsame
  | inr hnone => exact hnone

end SensorDataNormalization.CleanCycle
