import SensorDataNormalization.CycleProgress

set_option autoImplicit false

/-! A stop request ends the manager, without any help of the workers. -/
namespace SensorDataNormalization.Shutdown
open PythonText PcapRecords StoreProgram Messages WorkerProgram ManagerProgram ProcessState
  PairBuckets NormalizerSystem SystemSteps CycleAccounting NotificationSoundness CycleIsolation
  FairRuns CycleProgress

variable {n : ℕ} {env : Environment}

/-- The one poll that may still bring a request. -/
def listens : Phase → ℕ
  | .listening => 1
  | _ => 0

/-- The operations between a stop request and the end of the cycle. -/
def closingSteps (s : System n) : ℕ :=
  phaseSteps s.phase + s.phase.program.length + 2 * s.buckets.length

def closingRank (s : System n) : ℕ ×ₗ ℕ := toLex (listens s.phase, closingSteps s)

theorem uploadUnpaired_bound (buckets : PairBuckets Str PairPut) :
    (uploadUnpaired buckets.popAllRemaining).length ≤ 2 * buckets.length := by
  induction buckets with
  | nil => exact Nat.zero_le _
  | cons row rest ih =>
    obtain ⟨key, bucket⟩ := row
    have hrow : (uploadBucket bucket).length ≤ 2 := by
      cases bucket with
      | nil => exact Nat.le_of_ble_eq_true rfl
      | cons head tail => exact le_refl 2
    simp only [uploadUnpaired, popAllRemaining] at ih ⊢
    simp only [List.map_cons, List.flatMap_cons, List.length_append, List.length_cons]
    omega

theorem closing_lt {s s' : System n} (hlistens : listens s'.phase = 0)
    (h : listens s.phase = 0 → closingSteps s' < closingSteps s) :
    closingRank s' < closingRank s := by
  rw [closingRank, closingRank, Prod.Lex.toLex_lt_toLex, hlistens]
  rcases Nat.eq_zero_or_pos (listens s.phase) with hzero | hpos
  · exact Or.inr ⟨hzero.symm, h hzero⟩
  · exact Or.inl hpos

theorem manager_closes {s s' : System n} (hstop : s.stop = true) (h : managerStep s = some s') :
    listens s'.phase = 0 ∧ (listens s.phase = 0 → closingSteps s' < closingSteps s) := by
  unfold managerStep at h
  split at h
  · rename_i hp
    cases h
    rw [hstop]
    refine ⟨rfl, fun _ => ?_⟩
    simp only [closingSteps, hp, ite_true, phaseSteps, Phase.program]
    omega
  · rename_i hp
    cases h
    refine ⟨rfl, fun hzero => ?_⟩
    rw [hp] at hzero
    cases hzero
  · rename_i hp
    cases h
    refine ⟨rfl, fun _ => ?_⟩
    simp only [closingSteps, hp, phaseSteps, Phase.program]
    omega
  · rename_i hp
    cases h
    refine ⟨rfl, fun _ => ?_⟩
    simp only [closingSteps, hp, phaseSteps, Phase.program, List.length_cons]
    omega
  · rename_i stage op program hp
    split at h
    · cases h
      refine ⟨rfl, fun _ => ?_⟩
      simp only [closingSteps, hp, Phase.program, List.length_cons]
      cases stage <;> simp only [phaseSteps, List.length_nil] <;> omega
    · cases h
      rw [closingSteps, publish_phase, publish_buckets]
      refine ⟨rfl, fun _ => ?_⟩
      simp only [closingSteps, hp, Phase.program, List.length_cons]
      cases stage <;> simp only [phaseSteps] <;> omega
  · rename_i hp
    rw [hstop, Bool.or_true, if_pos rfl] at h
    cases h
    refine ⟨rfl, fun _ => ?_⟩
    have hlen := uploadUnpaired_bound s.buckets
    simp only [System.sweep, closingSteps, hp, phaseSteps, Phase.program, List.length_nil]
    omega
  · rename_i hp
    cases h
    refine ⟨rfl, fun _ => ?_⟩
    simp only [closingSteps, hp, phaseSteps, Phase.program]
    omega
  · rename_i hp
    cases h
    refine ⟨rfl, fun _ => ?_⟩
    simp only [System.notify, closingSteps, hp, phaseSteps, Phase.program]
    omega
  · rename_i hp
    cases h
    refine ⟨rfl, fun _ => ?_⟩
    simp only [System.notify, closingSteps, hp, phaseSteps, Phase.program]
    omega
  · cases h

theorem others_keep {s s' : System n} {a : Action n} (h : Move env s a s') (hm : a ≠ .manager)
    (hf : a ≠ .managerFault) (ha : ∀ request answer, a ≠ .request request answer) :
    s'.phase = s.phase ∧ s'.buckets = s.buckets := by
  cases h with
  | reject => exact absurd rfl (ha _ _)
  | begin => exact absurd rfl (ha _ _)
  | fault => exact absurd rfl hf
  | work =>
    rw [publish_phase, publish_buckets]
    exact ⟨rfl, rfl⟩
  | take => exact ⟨rfl, rfl⟩
  | poll => exact ⟨rfl, rfl⟩
  | workerFail => exact ⟨rfl, rfl⟩
  | workerFault => exact ⟨rfl, rfl⟩
  | split => exact ⟨rfl, rfl⟩
  | report => exact ⟨rfl, rfl⟩
  | stop => exact ⟨rfl, rfl⟩
  | unexpected => exact ⟨rfl, rfl⟩
  | undecodable => exact ⟨rfl, rfl⟩
  | _ => exact absurd rfl hm

theorem stop_stays {s s' : System n} {a : Action n} (h : Move env s a s') (hs : s.stop = true) :
    s'.stop = true := by
  cases h with
  | manage => rw [publish_stop]; exact hs
  | work => rw [publish_stop]; exact hs
  | @dispatch b => cases b <;> exact hs
  | stop => rfl
  | _ => exact hs

/-- After a stop request each step closes the manager further, or is not its own. -/
theorem closing_falls {s s' : System n} {a : Action n} (hstop : s.stop = true)
    (h : NormalizerSystem.step env s a = some s') : closingRank s' < closingRank s ∨
      (closingRank s' = closingRank s ∧ a ≠ .manager ∧ s'.phase = s.phase) := by
  have hmove := step_move h
  by_cases hm : a = .manager
  · subst hm
    obtain ⟨hlistens, hsteps⟩ := manager_closes hstop h
    exact Or.inl (closing_lt hlistens hsteps)
  · by_cases hf : a = .managerFault
    · subst hf
      left
      cases hmove with
      | fault hphase =>
        refine closing_lt rfl (fun _ => ?_)
        cases hp : s.phase with
        | pushing jobs =>
          simp only [closingSteps, hp, phaseSteps, Phase.program]
          omega
        | working stage program =>
          simp only [closingSteps, hp, Phase.program]
          cases stage <;> simp only [phaseSteps, List.length_nil] <;> omega
        | _ => rw [hp] at hphase; exact hphase.elim
    · by_cases ha : ∃ request answer, a = .request request answer
      · obtain ⟨request, answer, rfl⟩ := ha
        left
        have hlistens : s.phase = .listening := by
          cases hmove with
          | reject hphase => exact hphase
          | begin hphase => exact hphase
        have hnew : listens s'.phase = 0 := by
          cases hmove <;> rfl
        refine closing_lt hnew (fun hzero => ?_)
        rw [hlistens] at hzero
        cases hzero
      · obtain ⟨hphase, hbuckets⟩ := others_keep hmove hm hf
          (fun request answer he => ha ⟨request, answer, he⟩)
        right
        refine ⟨?_, hm, hphase⟩
        rw [closingRank, closingRank, closingSteps, closingSteps, hphase, hbuckets]

/-- Between a stop request and the exit, with a bound on the requests that are still taken. -/
structure Closing (bound : ℕ) (s : System n) : Prop where
  sound : Sound s
  stop : s.stop = true
  requests : s.cycle.number + listens s.phase ≤ bound

theorem requests_bound {bound : ℕ} {s s' : System n} {a : Action n} (hstop : s.stop = true)
    (hr : s.cycle.number + listens s.phase ≤ bound)
    (h : NormalizerSystem.step env s a = some s') :
    s'.cycle.number + listens s'.phase ≤ bound := by
  have hmove := step_move h
  by_cases ha : ∃ request answer, a = .request request answer
  · obtain ⟨request, answer, rfl⟩ := ha
    cases hmove with
    | reject hphase =>
      rw [hphase] at hr
      exact hr
    | begin hphase =>
      rw [hphase] at hr
      exact hr
  · have hnumber := (move_pushed hmove (fun request answer he => ha ⟨request, answer, he⟩)).2
    have hlistens : listens s'.phase ≤ listens s.phase := by
      rcases closing_falls hstop h with hlt | ⟨-, -, hphase⟩
      · rw [closingRank, closingRank, Prod.Lex.toLex_lt_toLex] at hlt
        omega
      · rw [hphase]
    omega

theorem closing_step {bound : ℕ} {s s' : System n} {a : Action n} (hi : Closing bound s)
    (h : NormalizerSystem.step env s a = some s') : Closing bound s' :=
  ⟨sound_step hi.sound h, stop_stays (step_move h) hi.stop, requests_bound hi.stop hi.requests h⟩

theorem shutdown_progress (bound : ℕ) :
    Progress (fun (s : System n) a t => NormalizerSystem.step env s a = some t)
      (fun (_ : Unit) a => a = .manager) (fun s _ => s.phase ≠ .exited) (Closing bound)
      (fun s => s.phase = .exited) closingRank (fun _ _ => True) where
  keeps := fun hi _ h => closing_step hi h
  helper := fun _ hgoal => ⟨(), trivial, hgoal⟩
  falls := by
    intro s a t hi hgoal h
    rcases closing_falls hi.stop h with hlt | ⟨heq, hm, hphase⟩
    · exact Or.inl hlt
    · exact Or.inr ⟨heq, fun _ _ _ => ⟨hm, trivial, hphase ▸ hgoal⟩⟩

/-- After a stop request the manager exits as long as it is given its turns, whatever the
workers do or fail to do. It takes one more request at most, and only when the stop request
finds it in its poll; the cycle it was in sends its notice. -/
theorem stop_exits {σ : DaemonRun n env} {disk s3 : Store Str Bytes}
    (hinit : σ.state 0 = System.init disk s3)
    (hfair : ∀ i, ∃ j, i ≤ j ∧ (σ.label j = .manager ∨ (σ.state j).phase = .exited)) {i : ℕ}
    (hstop : (σ.state i).stop = true) : ∃ j, i ≤ j ∧ (σ.state j).phase = .exited ∧
      (σ.state j).cycle.number ≤ (σ.state i).cycle.number + listens (σ.state i).phase ∧
        (0 < (σ.state j).cycle.number → (σ.state j).cycle.notices.length = 1) := by
  have hclosing : Closing ((σ.state i).cycle.number + listens (σ.state i).phase) (σ.state i) :=
    ⟨sound_run hinit i, hstop, le_refl _⟩
  have hturns : σ.Fair (fun (_ : Unit) a => a = .manager) (fun s _ => s.phase ≠ .exited) := by
    intro _ k
    obtain ⟨j, hkj, hj⟩ := hfair k
    exact ⟨j, hkj, hj.imp id not_not_intro⟩
  obtain ⟨j, hij, hexit⟩ := (shutdown_progress _).reaches hturns hclosing
  have hj := σ.keeps _ closing_step hclosing hij
  have hnumber := hj.requests
  have hbetween : (σ.state j).phase.between := by
    rw [hexit]
    trivial
  exact ⟨j, hij, hexit, by omega, hj.sound.notified hbetween⟩

/-- A stop request in the poll, one request more, whose listing raises, and no step of the
worker. -/
theorem stop_exits_raising_listing : ∃ s : System 1, s.phase = .exited ∧ s.cycle.number ≤ 1 ∧
    (0 < s.cycle.number → s.cycle.notices.length = 1) := by
  let env := hostOf sharedSecond
  let request : Request := ⟨[], "20240101".toList, [], none⟩
  let start : System 1 := .init (fun _ => none) (fun _ => none)
  let polled : System 1 := { start with phase := .listening }
  let stopped : System 1 := { polled with stop := true }
  let raised : System 1 := { stopped.openCycle env request with phase := .raised }
  let answered : System 1 :=
    raised.notify (.failure raised.cycle.requestId raised.cycle.summary .exception)
  let exited : System 1 := { answered with phase := .exited }
  let σ : DaemonRun 1 env :=
    { state := fun
        | 0 => start
        | 1 => polled
        | 2 => stopped
        | 3 => raised
        | 4 => answered
        | _ => exited
      label := fun
        | 0 => .manager
        | 1 => .stop
        | 2 => .request request .raises
        | 3 => .manager
        | 4 => .manager
        | _ => .stop
      moves := fun
        | 0 => rfl
        | 1 => rfl
        | 2 => rfl
        | 3 => rfl
        | 4 => rfl
        | _ + 5 => rfl }
  have hfair : ∀ i, ∃ j, i ≤ j ∧ (σ.label j = .manager ∨ (σ.state j).phase = .exited) :=
    fun i => ⟨i + 5, by omega, Or.inr rfl⟩
  obtain ⟨j, -, hexit, hnumber, hnotices⟩ := stop_exits (i := 2) rfl hfair rfl
  exact ⟨σ.state j, hexit, hnumber, hnotices⟩

end SensorDataNormalization.Shutdown
