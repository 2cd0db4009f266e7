import SensorDataNormalization.CycleIsolation
import SensorDataNormalization.PairLedger

set_option autoImplicit false
namespace SensorDataNormalization.DrainQuiescence
open PythonText PcapRecords StoreProgram Messages WorkerProgram ManagerProgram ProcessState
  PairSequence NormalizerSystem SystemSteps SystemFlow CycleAccounting CycleIsolation PairLedger

variable {n : ℕ} {env : Environment}

/-- Nothing is queued, nothing waits in the mailbox, and every worker is idle. -/
structure Quiescent (s : System n) : Prop where
  queue : s.jobQueue = []
  mail : s.mailbox = []
  idle : ∀ w, s.workers w = .idle

theorem Quiescent.settled {s : System n} (h : Quiescent s) : Settled s where
  queue := h.queue
  idle := h.idle
  mail := fun b hb => by rw [h.mail] at hb; cases hb

/-- A step of the manager, or a step or an exception of a worker. -/
def quiet : Action n → Prop
  | .manager => True
  | .worker _ => True
  | .workerFault _ => True
  | _ => False

instance (a : Action n) : Decidable (quiet a) :=
  match a with
  | .manager => isTrue trivial
  | .worker _ => isTrue trivial
  | .workerFault _ => isTrue trivial
  | .managerFault => isFalse id
  | .request _ _ => isFalse id
  | .stop => isFalse id
  | .unexpected => isFalse id
  | .undecodable => isFalse id

/-- A quiet step after which the manager has not raised. -/
def Undisturbed (_ : System n) (a : Action n) (u : System n) : Prop := quiet a ∧ u.phase ≠ .raised

instance (t : System n) (a : Action n) (u : System n) : Decidable (Undisturbed t a u) :=
  inferInstanceAs (Decidable (_ ∧ _))

theorem quiet_no_request {a : Action n} (h : quiet a) :
    ∀ request answer, a ≠ .request request answer := by
  rintro request answer rfl
  exact h

/-- The invariant of an undisturbed cycle with the jobs `jobs`. -/
structure QuietInv (jobs : List Job) (s : System n) : Prop where
  cycle : CycleInv s
  ledger : Ledger s
  kept : s.phase ≠ .raised
  pushed : s.cycle.pushed = jobs
  known : ∀ b ∈ s.mailbox, bodyJob b ≠ none
  stop : s.stop = false

theorem move_known {s s' : System n} {a : Action n} (h : Move env s a s') (ha : quiet a)
    (hk : ∀ b ∈ s.mailbox, bodyJob b ≠ none) (hs : s.stop = false) :
    (∀ b ∈ s'.mailbox, bodyJob b ≠ none) ∧ s'.stop = false := by
  have hpublish : ∀ (who : Uploader) (out : Output Bytes Destination PairPut) (t : System n),
      t.mailbox = s.mailbox → t.stop = s.stop →
      (∀ b ∈ (t.publish who out).mailbox, bodyJob b ≠ none) ∧ (t.publish who out).stop = false := by
    intro who out t hm ht
    refine ⟨fun b hb => ?_, by rw [publish_stop, ht, hs]⟩
    cases out with
    | silent => exact hk b (hm ▸ hb)
    | published destination contents => exact hk b (hm ▸ hb)
    | given put =>
      rcases List.mem_append.mp hb with hb | hb
      · exact hk b (hm ▸ hb)
      · rw [List.mem_singleton.mp hb]
        exact Option.some_ne_none _
  cases h with
  | reject => exact ha.elim
  | begin => exact ha.elim
  | fault => exact ha.elim
  | stop => exact ha.elim
  | unexpected => exact ha.elim
  | undecodable => exact ha.elim
  | manage => exact hpublish _ _ _ rfl rfl
  | work => exact hpublish _ _ _ rfl rfl
  | @dispatch b mailbox hphase hmail =>
    have hrest : ∀ c ∈ mailbox, bodyJob c ≠ none :=
      fun c hc => hk c (by rw [hmail]; exact List.mem_cons_of_mem _ hc)
    cases b <;> exact ⟨hrest, hs⟩
  | report =>
    refine ⟨fun b hb => ?_, hs⟩
    rcases List.mem_append.mp hb with hb | hb
    · exact hk b hb
    · rw [List.mem_singleton.mp hb]
      exact Option.some_ne_none _
  | _ => exact ⟨hk, hs⟩

theorem quietInv_step {jobs : List Job} {s s' : System n} {a : Action n} (hi : QuietInv jobs s)
    (h : Move env s a s') (hok : Undisturbed s a s') : QuietInv jobs s' := by
  have ha := quiet_no_request hok.1
  obtain ⟨hknown, hstop⟩ := move_known h hok.1 hi.known hi.stop
  exact
    { cycle := cycleInv_step hi.cycle h
        ⟨fun _ => hok.2, fun _ _ hs => by rw [hi.stop] at hs; cases hs⟩
      ledger := ledger_step hi.ledger h ha hi.kept hok.2
      kept := hok.2
      pushed := (move_pushed h ha).1.trans hi.pushed
      known := hknown
      stop := hstop }

structure Drained (s : System n) : Prop where
  counted : ((results s.cycle.dispatched).map Prod.fst).Perm s.cycle.pushed
  success : s.progress.success = ((results s.cycle.dispatched).map Prod.snd).count true
  failure : s.progress.failure = ((results s.cycle.dispatched).map Prod.snd).count false
  quiescent : Quiescent s
  dispatched : s.cycle.dispatched = s.cycle.posted
  planned : managerUploads s ++ emits s.phase.program =
    (pairing PairPut.pairKey (puts s.cycle.posted)).groups.map groupDestination

theorem QuietInv.quiescent {jobs : List Job} {s : System n} (hi : QuietInv jobs s)
    (hclosed : ¬ Phase.isOpen s.phase) : Quiescent s := by
  have hs := hi.cycle.settled hclosed
  have hmail : s.mailbox = [] :=
    List.eq_nil_iff_forall_not_mem.mpr (fun b hb => hi.known b hb (hs.mail b hb))
  exact ⟨hs.queue, hmail, hs.idle⟩

theorem drained_of_inv {jobs : List Job} {s : System n} (hi : QuietInv jobs s)
    (hcount : Phase.counting s.phase) (hclosed : ¬ Phase.isOpen s.phase) : Drained s := by
  have hs := hi.cycle.settled hclosed
  have hledger := hi.ledger
  have hquiescent := hi.quiescent hclosed
  have hposted : s.cycle.dispatched = s.cycle.posted := by
    rw [hledger.fifo, hquiescent.mail, List.append_nil]
  have hprogress := hi.cycle.progress hcount
  rw [tally, JobProgressTracker.foldl_markOneDone] at hprogress
  refine ⟨hi.cycle.reported_perm (jobs_of_closed hclosed) hs, ?_, ?_, hquiescent, hposted, ?_⟩
  · rw [hprogress]
    exact Nat.zero_add _
  · rw [hprogress]
    exact Nat.zero_add _
  · rw [← hposted]
    exact hledger.planned hclosed

theorem quietInv_begin {s₀ s₁ : System n} {request : Request} {answer : StorageAnswer}
    (h₀ : Quiescent s₀) (hstop : s₀.stop = false)
    (hstart : NormalizerSystem.step env s₀ (.request request answer) = some s₁)
    (hselected : s₁.phase ≠ .raised) : QuietInv s₁.cycle.pushed s₁ := by
  have hmove := step_move hstart
  cases hmove with
  | reject => exact absurd rfl hselected
  | begin hphase hfiles =>
    exact
      { cycle := cycleInv_begin h₀.settled request _
        ledger := ledger_begin h₀.mail request _
        kept := hselected
        pushed := rfl
        known := fun b hb => by
          change b ∈ s₀.mailbox at hb
          rw [h₀.mail] at hb
          cases hb
        stop := hstop }

/-- The drain loop ends exactly at quiescence: the counter of the tracker is the number of
jobs that are not reported, and the loop is left with everything reported, applied and idle. -/
theorem drain_ends_at_quiescence {s₀ s₁ s : System n} {request : Request}
    {answer : StorageAnswer} (h₀ : Quiescent s₀) (hstop : s₀.stop = false)
    (hstart : NormalizerSystem.step env s₀ (.request request answer) = some s₁)
    (hselected : s₁.phase ≠ .raised) (run : Runs env Undisturbed s₁ s) :
    (Phase.counting s.phase →
      s.progress.remaining = s.phase.jobs.length + s.jobQueue.length + busyWorkers s +
        (results s.mailbox).length ∧
      (s.progress.success : ℤ) + s.progress.failure + s.progress.remaining =
        s₁.cycle.pushed.length) ∧
    ((∃ program, s.phase = .working .sweep program) ∨ s.phase = .returned →
      Drained s ∧ s.cycle.pushed = s₁.cycle.pushed) := by
  have hi := run.invariant (QuietInv s₁.cycle.pushed) (quietInv_begin h₀ hstop hstart hselected)
    (fun hi h hok => quietInv_step hi h hok)
  refine ⟨fun hc => ?_, fun hphase => ?_⟩
  · rw [← hi.pushed]
    exact hi.cycle.progress_counts hc
  · have hboth : Phase.counting s.phase ∧ ¬ Phase.isOpen s.phase := by
      rcases hphase with ⟨program, hp⟩ | hp
      all_goals
        rw [hp]
        exact ⟨trivial, id⟩
    exact ⟨drained_of_inv hi hboth.1 hboth.2, hi.pushed⟩

theorem two_files_run : ∃ s₁ s : System 1,
    NormalizerSystem.step (hostOf sharedSecond) .polling firstDay = some s₁ ∧
      s₁.phase ≠ .raised ∧ Runs (hostOf sharedSecond) Undisturbed s₁ s ∧ s.phase = .returned ∧
      (results s.cycle.dispatched).all Prod.snd = true ∧ s.cycle.pushed.length = 2 ∧
      s.cycle.uploads.length = 2 := by
  have hrun : (NormalizerSystem.step (hostOf sharedSecond) (.polling : System 1) firstDay).any
      (fun s₁ => decide (s₁.phase ≠ .raised) &&
        (runWhile (hostOf sharedSecond) Undisturbed twoFilesInTurn s₁).any (fun s =>
          decide (s.phase = .returned) && (results s.cycle.dispatched).all Prod.snd &&
            decide (s.cycle.pushed.length = 2) && decide (s.cycle.uploads.length = 2))) = true := by
    decide +kernel
  obtain ⟨s₁, hstart, hs₁⟩ := (Option.any_eq_true _ _).mp hrun
  simp only [Bool.and_eq_true, decide_eq_true_eq] at hs₁
  obtain ⟨s, hruns, hs⟩ := runs_of_any hs₁.2
  simp only [Bool.and_eq_true, decide_eq_true_eq] at hs
  exact ⟨s₁, s, hstart, hs₁.1, hruns, hs.1.1.1, hs.1.1.2, hs.1.2, hs.2⟩

theorem drain_ends_at_quiescence_two_files : ∃ s : System 1, Drained s ∧
    s.cycle.pushed.length = 2 ∧ s.cycle.uploads.length = 2 := by
  obtain ⟨s₁, s, hstart, hselected, hruns, hphase, -, hpushed, huploads⟩ := two_files_run
  have hdrained := (drain_ends_at_quiescence ⟨rfl, rfl, fun _ => rfl⟩ rfl hstart hselected
    hruns).2 (Or.inr hphase)
  exact ⟨s, hdrained.1, hpushed, huploads⟩

end SensorDataNormalization.DrainQuiescence
