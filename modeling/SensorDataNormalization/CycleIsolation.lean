import SensorDataNormalization.CycleAccounting

set_option autoImplicit false
namespace SensorDataNormalization.CycleIsolation
open PythonText PcapFilename PcapRecords ProcessState StoreProgram RawObjects Messages
  WorkerProgram ManagerProgram NormalizerSystem SystemSteps CycleAccounting

variable {n : ℕ} {env : Environment}

/-- The manager has dispatched messages of jobs of its own cycle only, and does not leave the
drain loop before all of them have reported. -/
structure SeesOwnJobs (s : System n) : Prop where
  own : ∀ b ∈ s.cycle.dispatched, ∀ j, bodyJob b = some j →
    j ∈ s.cycle.pushed ∧ j.cycle = s.cycle.number
  reported : (∃ program, s.phase = .working .sweep program) ∨ s.phase = .returned →
    ∀ j ∈ s.cycle.pushed, ∃ success, .jobDone j success ∈ s.cycle.dispatched

theorem CycleInv.sees_own_jobs {s : System n} (h : CycleInv s) : SeesOwnJobs s where
  own := fun b hb j hj =>
    have hpushed := h.dispatched b hb j hj
    ⟨hpushed, h.pushed_cycle j hpushed⟩
  reported := by
    intro hphase j hj
    have hclosed : ¬ Phase.isOpen s.phase ∧ s.phase.jobs = [] := by
      rcases hphase with ⟨program, hp⟩ | hp
      all_goals
        rw [hp]
        exact ⟨id, rfl⟩
    have hperm := h.reported_perm hclosed.2 (h.settled hclosed.1)
    obtain ⟨r, hr, rfl⟩ := List.mem_map.mp (hperm.mem_iff.mpr hj)
    exact ⟨r.2, mem_results.mp hr⟩

/-- In every run of the daemon in which no exception and no stop request ends a drain early,
each cycle sees its own jobs only. -/
theorem cycles_see_own_jobs {disk s3 : Store Str Bytes} {s : System n}
    (run : Runs env Orderly (.init disk s3) s) : SeesOwnJobs s :=
  CycleInv.sees_own_jobs (cycleInv_run (cycleInv_init disk s3) run)

instance (p : Phase) : Decidable (Phase.isOpen p) :=
  match p with
  | .pushing _ => isTrue trivial
  | .working .drain _ => isTrue trivial
  | .working .sweep _ => isFalse id
  | .ready => isFalse id
  | .listening => isFalse id
  | .returned => isFalse id
  | .raised => isFalse id
  | .exited => isFalse id

def Phase.atDrain : Phase → Bool
  | .working .drain [] => true
  | _ => false

theorem atDrain_iff {p : Phase} : Phase.atDrain p = true ↔ p = .working .drain [] := by
  cases p with
  | working stage program => cases stage <;> cases program <;> simp [Phase.atDrain]
  | _ => simp [Phase.atDrain]

instance (p : Phase) : Decidable (p = .working .drain []) := decidable_of_iff _ atDrain_iff

def Action.isManager : Action n → Bool
  | .manager => true
  | _ => false

theorem isManager_iff {a : Action n} : Action.isManager a = true ↔ a = .manager := by
  cases a <;> simp [Action.isManager]

instance (a : Action n) : Decidable (a = .manager) := decidable_of_iff _ isManager_iff

instance (t : System n) (a : Action n) (u : System n) : Decidable (Orderly t a u) :=
  decidable_of_iff ((Phase.isOpen t.phase → u.phase ≠ .raised) ∧
    (t.phase = .working .drain [] → a = .manager → t.stop = true → t.progress.remaining ≤ 0))
    ⟨fun h => ⟨h.1, h.2⟩, fun h => ⟨h.1, h.2⟩⟩

theorem stamp_first : Stamp "202401010000".toList := by decide
theorem stamp_second : Stamp "202401010001".toList := by decide
theorem stamp_nextDay : Stamp "202401020000".toList := by decide

def sharedSecond : List (RawObject × Bytes) :=
  [(.gnss "20240101".toList "202401010000".toList stamp_first,
      captureOf [(1704067200, 1), (1704067201, 2)]),
    (.gnss "20240101".toList "202401010001".toList stamp_second, captureOf [(1704067201, 3)]),
    (.gnss "20240102".toList "202401020000".toList stamp_nextDay, captureOf [(1704153600, 4)])]

def firstDay : Action 1 :=
  .request ⟨[], "20240101".toList, [], none⟩ (.listing (listingOf (sharedSecond.take 2)))

def secondDay : Action 1 :=
  .request ⟨[], "20240102".toList, [], none⟩ (.listing (listingOf (sharedSecond.drop 2)))

/-- The requests of two days, one after the other, on one worker. -/
theorem cycles_see_own_jobs_two_days : ∃ s : System 1, SeesOwnJobs s ∧
    s.phase = .returned ∧ s.cycle.number = 2 ∧ s.cycle.dispatched.length = 2 := by
  let actions : List (Action 1) := [.manager, firstDay] ++ inTurn 3 16 18 ++ [secondDay] ++
    inTurn 2 7 6
  have hrun : (runWhile (hostOf sharedSecond) Orderly actions
      (.init (fun _ => none) (fun _ => none))).any (fun s => decide (s.phase = .returned) &&
        decide (s.cycle.number = 2) && decide (s.cycle.dispatched.length = 2)) = true := by
    decide +kernel
  obtain ⟨s, hruns, hs⟩ := runs_of_any hrun
  simp only [Bool.and_eq_true, decide_eq_true_eq] at hs
  exact ⟨s, cycles_see_own_jobs hruns, hs.1.1, hs.1.2, hs.2⟩

/-- The upload of a merged pair fails while the JobDone of its second file is in the mailbox:
the next cycle counts that JobDone and leaves the drain loop with its own job still queued. -/
theorem stale_jobDone_ends_next_drain : ∃ s : System 1,
    Runs (hostOf sharedSecond) (fun _ _ _ => True) (.init (fun _ => none) (fun _ => none)) s ∧
      s.jobQueue = s.cycle.pushed ∧ ¬ SeesOwnJobs s := by
  let actions : List (Action 1) := [.manager, firstDay] ++ inTurn 3 16 7 ++
    [.managerFault, .manager, .manager, secondDay] ++ List.replicate 4 .manager
  have hrun : (runWhile (hostOf sharedSecond) (fun _ _ _ => True) actions
      (.init (fun _ => none) (fun _ => none))).any (fun s =>
        decide (s.jobQueue = s.cycle.pushed) && decide (s.cycle.pushed.length = 1) &&
        s.cycle.dispatched.any (fun b => (bodyJob b).any
          (fun j => decide (j.cycle ≠ s.cycle.number)))) = true := by
    decide +kernel
  obtain ⟨s, hruns, hs⟩ := runs_of_any hrun
  simp only [Bool.and_eq_true, decide_eq_true_eq] at hs
  obtain ⟨b, hb, hj⟩ := List.any_eq_true.mp hs.2
  obtain ⟨j, hbj, hne⟩ := (Option.any_eq_true _ _).mp hj
  exact ⟨s, hruns, hs.1.1, fun h => absurd (h.own b hb j hbj).2 (of_decide_eq_true hne)⟩

end SensorDataNormalization.CycleIsolation
