import SensorDataNormalization.CycleIsolation
import SensorDataNormalization.DrainQuiescence

set_option autoImplicit false
namespace SensorDataNormalization.NotificationSoundness
open PythonText PcapRecords StoreProgram Messages WorkerProgram ManagerProgram ProcessState
  PairSequence NormalizerSystem SystemSteps CycleAccounting PairLedger DrainQuiescence
  CycleIsolation

variable {n : ℕ} {env : Environment}

/-- A step inside one cycle in which no stop request ends the drain early. -/
structure Unstopped (t : System n) (a : Action n) (_ : System n) : Prop where
  same_cycle : ∀ request answer, a ≠ .request request answer
  no_stop : t.phase = .working .drain [] → a = .manager → t.stop = true →
    t.progress.remaining ≤ 0

/-- Every pushed job has reported success, and every piece sent has been uploaded. -/
structure AllDone (s : System n) : Prop where
  succeeded : ∀ j ∈ s.cycle.pushed, .jobDone j true ∈ s.cycle.dispatched
  counted : ((results s.cycle.dispatched).map Prod.fst).Perm s.cycle.pushed
  uploaded : ∀ put, .pairPut put ∈ s.cycle.posted → ∃ u ∈ s.cycle.uploads,
    u.uploader = .manager ∧ put.source ∈ u.destination.sources

def SendsSuccess (s s' : System n) : Prop :=
  ∃ requestId summary, s'.cycle.notices = s.cycle.notices ++ [.success requestId summary]

structure NoticeInv (s : System n) : Prop where
  running : Phase.counting s.phase → CycleInv s ∧ Ledger s
  silent : Phase.counting s.phase ∨ s.phase = .raised → s.cycle.notices = []
  notified : s.phase.between → s.cycle.notices.length = 1

theorem phase_cases (p : Phase) : Phase.counting p ∨ p = .raised ∨ p.between := by
  cases p with
  | raised => exact Or.inr (Or.inl rfl)
  | pushing => exact Or.inl trivial
  | working => exact Or.inl trivial
  | returned => exact Or.inl trivial
  | ready => exact Or.inr (Or.inr trivial)
  | listening => exact Or.inr (Or.inr trivial)
  | exited => exact Or.inr (Or.inr trivial)

theorem not_between {p : Phase} (h : Phase.counting p ∨ p = .raised) : ¬ p.between := by
  rcases h with h | rfl
  · cases p <;> first | exact h.elim | exact id
  · exact id

theorem move_notices {s s' : System n} {a : Action n} (h : Move env s a s')
    (ha : ∀ request answer, a ≠ .request request answer)
    (hsilent : Phase.counting s.phase ∨ s.phase = .raised → s.cycle.notices = [])
    (hnotified : s.phase.between → s.cycle.notices.length = 1) :
    (Phase.counting s'.phase ∨ s'.phase = .raised → s'.cycle.notices = []) ∧
      (s'.phase.between → s'.cycle.notices.length = 1) := by
  have hin : Phase.counting s.phase → s'.cycle.notices = s.cycle.notices →
      (¬ s'.phase.between) →
      (Phase.counting s'.phase ∨ s'.phase = .raised → s'.cycle.notices = []) ∧
        (s'.phase.between → s'.cycle.notices.length = 1) :=
    fun hc hsame hout => ⟨fun _ => hsame.trans (hsilent (Or.inl hc)), fun hb => absurd hb hout⟩
  cases h with
  | reject => exact absurd rfl (ha _ _)
  | begin => exact absurd rfl (ha _ _)
  | loop hold hnew =>
    exact ⟨fun hc => absurd hnew (not_between hc), fun _ => hnotified hold⟩
  | push hphase => exact hin (by rw [hphase]; trivial) rfl id
  | pushed hphase => exact hin (by rw [hphase]; trivial) rfl id
  | manage hphase =>
    exact hin (by rw [hphase]; trivial) (publish_notices _ _ _) (by rw [publish_phase]; exact id)
  | fail hphase => exact hin (by rw [hphase]; trivial) rfl id
  | fault hphase =>
    refine hin ?_ rfl id
    cases hp : s.phase <;> rw [hp] at hphase <;> first | exact hphase.elim | trivial
  | sweep hphase => exact hin (by rw [hphase]; trivial) rfl id
  | @dispatch b mailbox hphase =>
    cases b with
    | jobDone job success =>
      refine hin (by rw [hphase]; trivial) rfl ?_
      change ¬ s.phase.between
      rw [hphase]
      exact id
    | pairPut put => exact hin (by rw [hphase]; trivial) rfl id
    | unexpected => exact hin (by rw [hphase]; trivial) rfl id
    | undecodable => exact hin (by rw [hphase]; trivial) rfl id
  | swept hphase => exact hin (by rw [hphase]; trivial) rfl id
  | notify hphase =>
    refine ⟨fun hc => absurd trivial (not_between hc), fun _ => ?_⟩
    change (s.cycle.notices ++ [s.notice]).length = 1
    rw [hsilent (Or.inl (by rw [hphase]; trivial))]
    rfl
  | notifyFailure hphase =>
    refine ⟨fun hc => absurd trivial (not_between hc), fun _ => ?_⟩
    change (s.cycle.notices ++ [_]).length = 1
    rw [hsilent (Or.inr hphase)]
    rfl
  | work =>
    rw [publish_phase, publish_notices]
    exact ⟨hsilent, hnotified⟩
  | _ => exact ⟨hsilent, hnotified⟩

theorem move_counting {s s' : System n} {a : Action n} (h : Move env s a s')
    (ha : ∀ request answer, a ≠ .request request answer) (hc : Phase.counting s'.phase) :
    Phase.counting s.phase := by
  cases h with
  | reject => exact absurd rfl (ha _ _)
  | begin => exact absurd rfl (ha _ _)
  | loop hold hnew =>
    rename_i phase
    cases phase <;> first | exact hnew.elim | exact hc.elim
  | push hphase => rw [hphase]; trivial
  | pushed hphase => rw [hphase]; trivial
  | manage hphase => rw [hphase]; trivial
  | sweep hphase => rw [hphase]; trivial
  | swept hphase => rw [hphase]; trivial
  | @dispatch b mailbox hphase => rw [hphase]; trivial
  | fail => exact hc.elim
  | fault => exact hc.elim
  | notify => exact hc.elim
  | notifyFailure => exact hc.elim
  | work => simpa [System.setWorker] using hc
  | _ => exact hc

theorem noticeInv_step {s s' : System n} {a : Action n} (hi : NoticeInv s) (h : Move env s a s')
    (hok : Unstopped s a s') : NoticeInv s' := by
  obtain ⟨hsilent, hnotified⟩ := move_notices h hok.same_cycle hi.silent hi.notified
  refine ⟨fun hc => ?_, hsilent, hnotified⟩
  obtain ⟨hcycle, hledger⟩ := hi.running (move_counting h hok.same_cycle hc)
  have hraised := counting_ne_raised hc
  exact ⟨cycleInv_step hcycle h ⟨fun _ => hraised, hok.no_stop⟩,
    ledger_step hledger h hok.same_cycle
      (counting_ne_raised (move_counting h hok.same_cycle hc)) hraised⟩

theorem noticeInv_begin {s₀ s₁ : System n} {request : Request} {answer : StorageAnswer}
    (h₀ : Quiescent s₀)
    (hstart : NormalizerSystem.step env s₀ (.request request answer) = some s₁) :
    NoticeInv s₁ := by
  have hmove := step_move hstart
  cases hmove with
  | reject => exact ⟨fun h => h.elim, fun _ => rfl, fun h => h.elim⟩
  | begin =>
    exact ⟨fun _ => ⟨cycleInv_begin h₀.settled request _, ledger_begin h₀.mail request _⟩,
      fun _ => rfl, fun h => h.elim⟩

/-- What the state before `notify_success` has done. -/
theorem allDone_of_success {s : System n} (hi : NoticeInv s) (hphase : s.phase = .returned)
    (hfailure : s.progress.failure = 0) : AllDone s := by
  have hcount : Phase.counting s.phase := by rw [hphase]; trivial
  have hclosed : ¬ Phase.isOpen s.phase := by rw [hphase]; exact id
  obtain ⟨hcycle, hledger⟩ := hi.running hcount
  have hs := hcycle.settled hclosed
  have hperm := hcycle.reported_perm (by rw [hphase]; rfl) hs
  have hprogress := hcycle.progress hcount
  rw [tally, JobProgressTracker.foldl_markOneDone] at hprogress
  have hfalse : ((results s.cycle.dispatched).map Prod.snd).count false = 0 := by
    have hf := congrArg JobProgressTracker.failure hprogress
    rw [hfailure] at hf
    exact (Nat.zero_add _).symm.trans hf.symm
  refine ⟨fun j hj => ?_, hperm, fun put hput => ?_⟩
  · obtain ⟨⟨job, success⟩, hr, rfl⟩ := List.mem_map.mp (hperm.mem_iff.mpr hj)
    cases success with
    | true => exact mem_results.mp hr
    | false =>
      have hmem : false ∈ (results s.cycle.dispatched).map Prod.snd :=
        List.mem_map.mpr ⟨_, hr, rfl⟩
      exact absurd hmem (List.count_eq_zero.mp hfalse)
  · rw [hledger.fifo] at hput
    have hdispatched : put ∈ puts s.cycle.dispatched := by
      rcases List.mem_append.mp hput with h | h
      · exact mem_puts.mpr h
      · exact absurd (hs.mail _ h) (Option.some_ne_none _)
    have hgroups := (groups_perm PairPut.pairKey (puts s.cycle.dispatched)).mem_iff.mpr hdispatched
    obtain ⟨g, hg, hput⟩ := List.mem_flatten.mp hgroups
    have hplanned := hledger.planned hclosed
    rw [hphase] at hplanned
    have hmem : groupDestination g ∈ managerUploads s := by
      have hm : groupDestination g ∈ managerUploads s ++ emits (Phase.returned).program := by
        rw [hplanned]
        exact List.mem_map.mpr ⟨g, hg, rfl⟩
      simpa [Phase.program, emits] using hm
    obtain ⟨u, hu, hud⟩ := List.mem_map.mp hmem
    obtain ⟨hu, hmanager⟩ := List.mem_filter.mp hu
    refine ⟨u, hu, of_decide_eq_true hmanager, ?_⟩
    rw [hud]
    exact List.mem_map.mpr ⟨put, hput, rfl⟩

theorem success_move {s s' : System n} {a : Action n} (h : Move env s a s')
    (ha : ∀ request answer, a ≠ .request request answer) (hsend : SendsSuccess s s') :
    s.phase = .returned ∧ s.progress.failure = 0 := by
  obtain ⟨requestId, summary, hnotices⟩ := hsend
  have hsame : s'.cycle.notices ≠ s.cycle.notices := by
    intro he
    rw [he] at hnotices
    have hlen := congrArg List.length hnotices
    rw [List.length_append] at hlen
    exact absurd hlen (by simp)
  cases h with
  | reject => exact absurd rfl (ha _ _)
  | begin => exact absurd rfl (ha _ _)
  | manage => exact absurd (publish_notices _ _ _) hsame
  | work => exact absurd (publish_notices _ _ _) hsame
  | @dispatch b => cases b <;> exact absurd rfl hsame
  | notify hphase =>
    refine ⟨hphase, ?_⟩
    have hnotice : [s.notice] = [Notice.success requestId summary] :=
      List.append_cancel_left hnotices
    by_contra hf
    have hpos : s.progress.failure > 0 := Nat.pos_of_ne_zero hf
    rw [System.notice, if_pos hpos] at hnotice
    cases hnotice
  | notifyFailure hphase =>
    have hnotice : [Notice.failure s.cycle.requestId s.cycle.summary .exception] =
        [Notice.success requestId summary] := List.append_cancel_left hnotices
    cases hnotice
  | _ => exact absurd rfl hsame

/-- A cycle sends one notice, and success only when everything pushed and sent is done. -/
theorem notification_sound {s₀ s₁ t : System n} {request : Request} {answer : StorageAnswer}
    (h₀ : Quiescent s₀)
    (hstart : NormalizerSystem.step env s₀ (.request request answer) = some s₁)
    (run : Runs env Unstopped s₁ t) :
    t.cycle.notices.length ≤ 1 ∧ (t.phase.between → t.cycle.notices.length = 1) ∧
      ∀ (a : Action n) (u : System n), Unstopped t a u → NormalizerSystem.step env t a = some u →
        SendsSuccess t u → AllDone t := by
  have hi := run.invariant NoticeInv (noticeInv_begin h₀ hstart)
    (fun hi h hok => noticeInv_step hi h hok)
  refine ⟨?_, hi.notified, fun a u hok hstep hsend => ?_⟩
  · rcases phase_cases t.phase with hc | hr | hb
    · rw [hi.silent (Or.inl hc)]
      exact Nat.zero_le _
    · rw [hi.silent (Or.inr hr)]
      exact Nat.zero_le _
    · rw [hi.notified hb]
  · obtain ⟨hphase, hfailure⟩ := success_move (step_move hstep) hok.same_cycle hsend
    exact allDone_of_success hi hphase hfailure

instance (t : System n) (a : Action n) (u : System n) : Decidable (Unstopped t a u) :=
  decidable_of_iff ((∀ request answer, a ≠ .request request answer) ∧
    (t.phase = .working .drain [] → a = .manager → t.stop = true → t.progress.remaining ≤ 0))
    ⟨fun h => ⟨h.1, h.2⟩, fun h => ⟨h.1, h.2⟩⟩

def announces (env : Environment) (t : System n) : Bool :=
  (NormalizerSystem.step env t .manager).any (fun u => decide (u.cycle.notices =
    t.cycle.notices ++ [.success t.cycle.requestId t.cycle.summary]))

theorem sendsSuccess_of_announces {t : System n} (h : announces env t = true) :
    ∃ u, NormalizerSystem.step env t .manager = some u ∧ SendsSuccess t u := by
  obtain ⟨u, hu, hnotices⟩ := (Option.any_eq_true _ _).mp h
  exact ⟨u, hu, _, _, of_decide_eq_true hnotices⟩

theorem notification_sound_two_files : ∃ t u : System 1,
    NormalizerSystem.step (hostOf sharedSecond) t .manager = some u ∧ SendsSuccess t u ∧
      AllDone t ∧ t.cycle.pushed.length = 2 := by
  have hrun : (NormalizerSystem.step (hostOf sharedSecond) (.polling : System 1) firstDay).any
      (fun s₁ => (runWhile (hostOf sharedSecond) Unstopped twoFilesInTurn s₁).any (fun t =>
        announces (hostOf sharedSecond) t && decide (t.phase = .returned) &&
          decide (t.cycle.pushed.length = 2))) = true := by
    decide +kernel
  obtain ⟨s₁, hstart, hs₁⟩ := (Option.any_eq_true _ _).mp hrun
  obtain ⟨t, hruns, ht⟩ := runs_of_any hs₁
  simp only [Bool.and_eq_true, decide_eq_true_eq] at ht
  obtain ⟨u, hu, hsend⟩ := sendsSuccess_of_announces ht.1.1
  have hok : Unstopped t .manager u :=
    { same_cycle := fun _ _ h => by cases h
      no_stop := fun hp => by
        rw [ht.1.2] at hp
        cases hp }
  exact ⟨t, u, hu, hsend,
    (notification_sound ⟨rfl, rfl, fun _ => rfl⟩ hstart hruns).2.2 .manager u hok hu hsend, ht.2⟩

/-- A stop request between the pushes and the first poll of a worker: `notify_success` for
two jobs that nobody has taken. -/
theorem stop_announces_success : ∃ s₁ t u : System 1,
    NormalizerSystem.step (hostOf sharedSecond) .polling firstDay = some s₁ ∧
    Runs (hostOf sharedSecond) (fun _ a _ => ∀ request answer, a ≠ .request request answer) s₁ t ∧
    NormalizerSystem.step (hostOf sharedSecond) t .manager = some u ∧ SendsSuccess t u ∧
      ¬ AllDone t := by
  let actions : List (Action 1) := List.replicate 3 .manager ++ [.stop] ++
    List.replicate 2 .manager
  have hrun : (NormalizerSystem.step (hostOf sharedSecond) (.polling : System 1) firstDay).any
      (fun s₁ => (runWhile (hostOf sharedSecond)
        (fun _ a _ => ∀ request answer, a ≠ .request request answer) actions s₁).any (fun t =>
          announces (hostOf sharedSecond) t && decide (t.cycle.pushed ≠ []) &&
            decide (t.cycle.dispatched = []))) = true := by
    decide +kernel
  obtain ⟨s₁, hstart, hs₁⟩ := (Option.any_eq_true _ _).mp hrun
  obtain ⟨t, hruns, ht⟩ := runs_of_any hs₁
  simp only [Bool.and_eq_true, decide_eq_true_eq] at ht
  obtain ⟨u, hu, hsend⟩ := sendsSuccess_of_announces ht.1.1
  refine ⟨s₁, t, u, hstart, hruns, hu, hsend, fun h => ?_⟩
  obtain ⟨j, rest, hj⟩ := List.exists_cons_of_ne_nil ht.1.2
  have hmem := h.succeeded j (by rw [hj]; exact List.mem_cons_self)
  rw [ht.2] at hmem
  cases hmem

end SensorDataNormalization.NotificationSoundness
