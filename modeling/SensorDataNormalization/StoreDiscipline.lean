import SensorDataNormalization.CycleAccounting
import SensorDataNormalization.StoreTyping
import SensorDataNormalization.VehicleSelection

set_option autoImplicit false

/-! Disciplines of the daemon. A discipline types the local files, the S3 objects and the pieces on
their way, and says of each program alone that it keeps the types; then every run keeps them,
whatever fails, whatever is stopped, and over any number of restarts. -/
namespace SensorDataNormalization.StoreDiscipline
open PythonText PcapRecords StoreProgram StoreTyping Messages WorkerProgram ManagerProgram
  ProcessState PairBuckets NormalizerSystem SystemSteps CycleAccounting

variable {n : ℕ} {env : Environment}

structure Discipline (env : Environment) where
  typing : Typing Str Bytes Destination PairPut
  /-- The local files that only the manager touches. -/
  own : Str → Prop
  /-- The files that a request may select. -/
  file : StorageFile → Prop
  download : ∀ job, file job.file → ∀ op ∈ WorkerProgram.download env job, typing.Foreign own op
  split : ∀ job disk, file job.file → typing.Stored disk →
    ∀ op ∈ splitUploadSend env disk job, typing.Foreign own op
  merge : ∀ a b disk, typing.given a → typing.given b → a.pairKey = b.pairKey →
    typing.Sound own (mergePair [a, b]) disk
  sweep : ∀ put rest, typing.given put → ∀ op ∈ uploadBucket (put :: rest), typing.Typed op

def Discipline.Selects (D : Discipline env) (_ : System n) (a : Action n) (_ : System n) : Prop :=
  ∀ request answer files, a = .request request answer →
    selectFiles env request answer = some files → ∀ file ∈ files, D.file file

/-- A bucket of given pieces, under their own key. -/
def Discipline.Waiting (D : Discipline env) (row : Str × List PairPut) : Prop :=
  ∀ put ∈ row.2, put.pairKey = row.1 ∧ D.typing.given put

structure Kept (D : Discipline env) (s3 : Store Str Bytes) (s : System n) : Prop where
  stored : D.typing.Stored s.disk
  jobs : ∀ job, job ∈ s.phase.jobs ∨ job ∈ s.jobQueue → D.file job.file
  workers : ∀ w job next program, s.workers w = .busy job next program →
    D.file job.file ∧ ∀ op ∈ program, D.typing.Foreign D.own op
  manager : D.typing.Sound D.own s.phase.program s.disk
  mail : ∀ put, .pairPut put ∈ s.mailbox → D.typing.given put
  unmatched : Unmatched s.buckets
  waiting : ∀ row ∈ s.buckets, D.Waiting row
  uploads : ∀ u ∈ s.cycle.uploads, D.typing.published u.destination u.contents
  objects : ∀ key, s.s3 key = s3 key ∨ ∃ (d : Destination) (v : Bytes), d.key = key ∧
    s.s3 key = some v ∧ D.typing.published d v

variable {D : Discipline env} {s3 : Store Str Bytes} {s s' : System n}

/-! ## What a step touches -/

namespace Kept
variable (h : Kept D s3 s)
include h

theorem post {b : Body} (hb : ∀ put, b = .pairPut put → D.typing.given put) :
    Kept D s3 (s.post b) := by
  refine ⟨h.stored, h.jobs, h.workers, h.manager, fun put hput => ?_, h.unmatched, h.waiting,
    h.uploads, h.objects⟩
  rcases List.mem_append.mp hput with hput | hput
  · exact h.mail put hput
  · exact hb put (List.mem_singleton.mp hput).symm

theorem publish (who : Uploader) {out : Output Bytes Destination PairPut}
    (hout : D.typing.Shows out) : Kept D s3 (s.publish who out) := by
  cases out with
  | silent => exact h
  | published destination contents =>
    refine ⟨h.stored, h.jobs, h.workers, h.manager, h.mail, h.unmatched, h.waiting,
      fun u hu => ?_, fun key => ?_⟩
    · rcases List.mem_append.mp hu with hu | hu
      · exact h.uploads u hu
      · rw [List.mem_singleton.mp hu]
        exact hout
    · change Function.update s.s3 destination.key (some contents) key = _ ∨
        ∃ d v, _ ∧ Function.update s.s3 destination.key (some contents) key = _ ∧ _
      by_cases hkey : key = destination.key
      · rw [hkey, Function.update_self]
        exact Or.inr ⟨destination, contents, rfl, rfl, hout⟩
      · rw [Function.update_of_ne hkey]
        exact h.objects key
  | given put =>
    refine h.post (fun put' he => ?_)
    cases he
    exact hout

theorem setWorker (w : Fin n) {worker : Worker}
    (hw : ∀ job next program, worker = .busy job next program →
      D.file job.file ∧ ∀ op ∈ program, D.typing.Foreign D.own op) :
    Kept D s3 (s.setWorker w worker) :=
  ⟨h.stored, h.jobs, setWorker_busy h.workers hw, h.manager, h.mail, h.unmatched, h.waiting,
    h.uploads, h.objects⟩

theorem setPhase {phase : Phase} (hjobs : phase.jobs = [])
    (hprogram : D.typing.Sound D.own phase.program s.disk) :
    Kept D s3 { s with phase := phase } := by
  refine ⟨h.stored, fun job hjob => ?_, h.workers, hprogram, h.mail, h.unmatched, h.waiting,
    h.uploads, h.objects⟩
  refine h.jobs job (Or.inr (hjob.resolve_left ?_))
  rw [hjobs]
  exact List.not_mem_nil

theorem setDisk {op : WorkOp} {disk : Store Str Bytes} {out : Output Bytes Destination PairPut}
    (hexec : op.exec s.disk = some (disk, out)) (hstored : D.typing.Stored disk)
    (hfree : ∀ p ∈ op.touches, ¬ D.own p) : Kept D s3 { s with disk := disk } :=
  ⟨hstored, h.jobs, h.workers, h.manager.other hexec hfree, h.mail, h.unmatched, h.waiting,
    h.uploads, h.objects⟩

/-- The daemon is killed and started again, on what it has left. -/
theorem restart {disk : Store Str Bytes} (hdisk : D.typing.Stored disk) :
    Kept D s3 (System.init disk s.s3 : System n) where
  stored := hdisk
  jobs := fun job hjob => by rcases hjob with hjob | hjob <;> cases hjob
  workers := fun w job next program hw => by cases hw
  manager := trivial
  mail := fun put hput => by cases hput
  unmatched := unmatched_nil
  waiting := fun row hr => by cases hr
  uploads := fun u hu => by cases hu
  objects := h.objects

end Kept

/-- A piece that comes to the buckets waits there, or it is merged with the one that waits. -/
theorem waiting_put {buckets : PairBuckets Str PairPut} (hu : Unmatched buckets)
    (h : ∀ row ∈ buckets, D.Waiting row) {put : PairPut} (hput : D.typing.given put) :
    (∀ row ∈ (PairBuckets.put put.pairKey put buckets).1, D.Waiting row) ∧
      ∀ disk, D.typing.Sound D.own
        (mergeReady (PairBuckets.put put.pairKey put buckets).2) disk := by
  obtain ⟨-, hkept⟩ | ⟨before, after, a, rfl, hpaired⟩ := put_cases hu put.pairKey put
  · rw [hkept]
    refine ⟨fun row hr => ?_, fun disk => trivial⟩
    rcases List.mem_append.mp hr with hr | hr
    · exact h row hr
    · rw [List.mem_singleton.mp hr]
      intro p hp
      rw [List.mem_singleton.mp hp]
      exact ⟨rfl, hput⟩
  · rw [hpaired]
    refine ⟨fun row hr => ?_, fun disk => ?_⟩
    · rcases List.mem_append.mp hr with hr | hr
      · exact h row (List.mem_append_left _ hr)
      · exact h row (List.mem_append_right _ (List.mem_cons_of_mem _ hr))
    · obtain ⟨hkey, hgiven⟩ := h _ (List.mem_append_right _ List.mem_cons_self) a
        List.mem_cons_self
      exact D.merge a put disk hgiven hput hkey

theorem sound_sweep {buckets : PairBuckets Str PairPut} (hu : Unmatched buckets)
    (h : ∀ row ∈ buckets, D.Waiting row) (disk : Store Str Bytes) :
    D.typing.Sound D.own (uploadUnpaired buckets.popAllRemaining) disk := by
  refine Typing.sound_typed (fun op hop => ?_)
  obtain ⟨bucket, hbucket, hop⟩ := List.mem_flatMap.mp hop
  obtain ⟨row, hr, rfl⟩ := List.mem_map.mp hbucket
  obtain ⟨a, ha⟩ := hu.single row hr
  rw [ha] at hop
  exact D.sweep a [] (h row hr a (by rw [ha]; exact List.mem_singleton_self a)).2 op hop

/-! ## What each step keeps -/

namespace Kept
variable (h : Kept D s3 s)
include h

theorem openCycle (request : Request) : Kept D s3 (s.openCycle env request) :=
  ⟨h.stored, h.jobs, h.workers, h.manager, h.mail, h.unmatched, h.waiting,
    fun u hu => (by cases hu), h.objects⟩

theorem beginCycle {files : List StorageFile} (hfiles : ∀ file ∈ files, D.file file) :
    Kept D s3 (s.beginCycle files) := by
  refine ⟨h.stored, fun job hjob => ?_, h.workers, trivial, h.mail, unmatched_nil,
    fun row hr => (by cases hr), h.uploads, h.objects⟩
  rcases hjob with hjob | hjob
  · change job ∈ jobsOf s.cycle.number files at hjob
    rw [jobsOf, List.mem_mapIdx] at hjob
    obtain ⟨i, hlt, rfl⟩ := hjob
    exact hfiles _ (List.getElem_mem hlt)
  · exact h.jobs job (Or.inr hjob)

theorem push {job : Job} {jobs : List Job} (hphase : s.phase = .pushing (job :: jobs)) :
    Kept D s3 { s with jobQueue := s.jobQueue ++ [job], phase := .pushing jobs } := by
  refine ⟨h.stored, fun j hj => h.jobs j ?_, h.workers, trivial, h.mail, h.unmatched, h.waiting,
    h.uploads, h.objects⟩
  rw [hphase]
  rcases hj with hj | hj
  · exact Or.inl (List.mem_cons_of_mem _ hj)
  · rcases List.mem_append.mp hj with hj | hj
    · exact Or.inr hj
    · exact Or.inl (List.mem_cons.mpr (Or.inl (List.mem_singleton.mp hj)))

theorem manage {stage : Stage} {op : WorkOp} {program : Program} {disk : Store Str Bytes}
    {out : Output Bytes Destination PairPut} (hphase : s.phase = .working stage (op :: program))
    (hexec : op.exec s.disk = some (disk, out)) : Kept D s3
      ({ s with disk := disk, phase := .working stage program }.publish .manager out) := by
  have hmanager := h.manager
  rw [hphase] at hmanager
  obtain ⟨hstored, hout, hrest⟩ := hmanager.step h.stored hexec
  refine Kept.publish ?_ .manager hout
  exact ⟨hstored, fun job hjob => h.jobs job (Or.inr (hjob.resolve_left List.not_mem_nil)),
    h.workers, hrest, h.mail, h.unmatched, h.waiting, h.uploads, h.objects⟩

theorem sweep : Kept D s3 s.sweep :=
  ⟨h.stored, fun job hjob => h.jobs job (Or.inr (hjob.resolve_left List.not_mem_nil)),
    h.workers, sound_sweep h.unmatched h.waiting s.disk, h.mail, unmatched_nil,
    fun row hr => (by cases hr), h.uploads, h.objects⟩

theorem notify (notice : Notice) : Kept D s3 (s.notify notice) :=
  ⟨h.stored, fun job hjob => h.jobs job (Or.inr (hjob.resolve_left List.not_mem_nil)),
    h.workers, trivial, h.mail, h.unmatched, h.waiting, h.uploads, h.objects⟩

theorem pop {b : Body} {mailbox : List Body} (hmail : s.mailbox = b :: mailbox)
    (dispatched : List Body) :
    Kept D s3 { s with mailbox := mailbox, cycle.dispatched := dispatched } := by
  refine ⟨h.stored, h.jobs, h.workers, h.manager, fun put hput => h.mail put ?_, h.unmatched,
    h.waiting, h.uploads, h.objects⟩
  rw [hmail]
  exact List.mem_cons_of_mem _ hput

theorem dispatch {b : Body} {mailbox : List Body} (hmail : s.mailbox = b :: mailbox) :
    Kept D s3 (System.dispatchMessage b
      { s with mailbox := mailbox, cycle.dispatched := s.cycle.dispatched ++ [b] }) := by
  have hpop := h.pop hmail (s.cycle.dispatched ++ [b])
  cases b with
  | jobDone job success =>
    exact ⟨hpop.stored, hpop.jobs, hpop.workers, hpop.manager, hpop.mail, hpop.unmatched,
      hpop.waiting, hpop.uploads, hpop.objects⟩
  | pairPut put =>
    have hput : D.typing.given put := h.mail put (by rw [hmail]; exact List.mem_cons_self)
    obtain ⟨hwaiting, hmerge⟩ := waiting_put h.unmatched h.waiting hput
    exact ⟨hpop.stored,
      fun job hjob => hpop.jobs job (Or.inr (hjob.resolve_left List.not_mem_nil)), hpop.workers,
      hmerge s.disk, hpop.mail, put_unmatched h.unmatched _ _, hwaiting, hpop.uploads,
      hpop.objects⟩
  | unexpected => exact hpop.setPhase rfl trivial
  | undecodable => exact hpop.setPhase rfl trivial

theorem take (w : Fin n) {job : Job} {jobs : List Job} (hqueue : s.jobQueue = job :: jobs) :
    Kept D s3 ({ s with jobQueue := jobs }.setWorker w
      (.busy job .split (WorkerProgram.download env job))) := by
  have hjob : D.file job.file := h.jobs job (Or.inr (by rw [hqueue]; exact List.mem_cons_self))
  have hrest : Kept D s3 { s with jobQueue := jobs } := by
    refine ⟨h.stored, fun j hj => h.jobs j (hj.imp_right (fun hj => ?_)), h.workers, h.manager,
      h.mail, h.unmatched, h.waiting, h.uploads, h.objects⟩
    rw [hqueue]
    exact List.mem_cons_of_mem _ hj
  refine hrest.setWorker w (fun job' next program he => ?_)
  cases he
  exact ⟨hjob, D.download job hjob⟩

theorem work {w : Fin n} {job : Job} {next : Next} {op : WorkOp} {program : Program}
    {disk : Store Str Bytes} {out : Output Bytes Destination PairPut}
    (hworker : s.workers w = .busy job next (op :: program))
    (hexec : op.exec s.disk = some (disk, out)) : Kept D s3
      (({ s with disk := disk }.setWorker w (.busy job next program)).publish .worker out) := by
  obtain ⟨hjob, hops⟩ := h.workers w job next _ hworker
  obtain ⟨htyped, hfree⟩ := hops op List.mem_cons_self
  obtain ⟨hstored, hout⟩ := h.stored.exec htyped hexec
  refine Kept.publish (Kept.setWorker (h.setDisk hexec hstored hfree) w ?_) .worker hout
  intro job' next' program' he
  cases he
  exact ⟨hjob, fun op' hop => hops op' (List.mem_cons_of_mem _ hop)⟩

theorem split {w : Fin n} {job : Job} (hworker : s.workers w = .busy job .split []) :
    Kept D s3 (s.setWorker w (.busy job .report (splitUploadSend env s.disk job))) := by
  have hjob := (h.workers w job _ _ hworker).1
  refine h.setWorker w (fun job' next program he => ?_)
  cases he
  exact ⟨hjob, D.split job s.disk hjob h.stored⟩

end Kept

/-! ## Runs -/

theorem kept_step {a : Action n} (hi : Kept D s3 s) (h : Move env s a s')
    (hok : D.Selects s a s') : Kept D s3 s' := by
  cases h with
  | @loop phase hold hnew =>
    cases phase <;> first | exact hnew.elim | exact hi.setPhase rfl trivial
  | reject => exact (hi.openCycle _).setPhase rfl trivial
  | begin hphase hfiles => exact (hi.openCycle _).beginCycle (hok _ _ _ rfl hfiles)
  | push hphase => exact hi.push hphase
  | pushed => exact hi.setPhase rfl trivial
  | manage hphase hexec => exact hi.manage hphase hexec
  | fail => exact hi.setPhase rfl trivial
  | fault => exact hi.setPhase rfl trivial
  | sweep => exact hi.sweep
  | wait => exact hi
  | dispatch hphase hmail => exact hi.dispatch hmail
  | swept => exact hi.setPhase rfl trivial
  | notify => exact hi.notify _
  | notifyFailure => exact hi.notify _
  | poll => exact hi
  | take hworker hqueue => exact hi.take _ hqueue
  | work hworker hexec => exact hi.work hworker hexec
  | workerFail => exact hi.setWorker _ (fun _ _ _ he => by cases he)
  | workerFault => exact hi.setWorker _ (fun _ _ _ he => by cases he)
  | split hworker => exact hi.split hworker
  | report => exact (hi.setWorker _ (fun _ _ _ he => by cases he)).post (fun _ he => by cases he)
  | stop =>
    exact ⟨hi.stored, hi.jobs, hi.workers, hi.manager, hi.mail, hi.unmatched, hi.waiting,
      hi.uploads, hi.objects⟩
  | unexpected => exact hi.post (fun put he => by cases he)
  | undecodable => exact hi.post (fun put he => by cases he)

theorem kept_init {disk : Store Str Bytes} (hdisk : D.typing.Stored disk) :
    Kept D s3 (System.init disk s3 : System n) where
  stored := hdisk
  jobs := fun job hjob => by rcases hjob with hjob | hjob <;> cases hjob
  workers := fun w job next program hw => by cases hw
  manager := trivial
  mail := fun put hput => by cases hput
  unmatched := unmatched_nil
  waiting := fun row hr => by cases hr
  uploads := fun u hu => by cases hu
  objects := fun key => Or.inl rfl

theorem kept_run (hi : Kept D s3 s) (run : Runs env D.Selects s s') : Kept D s3 s' :=
  run.invariant (Kept D s3) hi (fun hi h hok => kept_step hi h hok)

/-- The daemon may be killed at any moment and started again: its queues are then empty, and of
the local files it finds what the kill has left. -/
inductive Lives (env : Environment) (ok : System n → Action n → System n → Prop)
    (leaves : Store Str Bytes → Store Str Bytes → Prop) : System n → System n → Prop
  | refl (s : System n) : Lives env ok leaves s s
  | step {s t u : System n} {a : Action n} (life : Lives env ok leaves s t)
      (h : NormalizerSystem.step env t a = some u) (hok : ok t a u) : Lives env ok leaves s u
  | restart {s t : System n} {disk : Store Str Bytes} (life : Lives env ok leaves s t)
      (h : leaves t.disk disk) : Lives env ok leaves s (System.init disk t.s3)

theorem Lives.run {ok : System n → Action n → System n → Prop}
    {leaves : Store Str Bytes → Store Str Bytes → Prop} {t : System n}
    (life : Lives env ok leaves s t) (run : Runs env ok t s') : Lives env ok leaves s s' := by
  induction run with
  | refl => exact life
  | step _ h hok ih => exact .step ih h hok

/-- What a discipline keeps outlives the daemon, when a kill leaves the files typed. -/
theorem kept_lives {leaves : Store Str Bytes → Store Str Bytes → Prop}
    (hleaves : ∀ disk disk', leaves disk disk' → D.typing.Stored disk → D.typing.Stored disk')
    (hi : Kept D s3 s) (life : Lives env D.Selects leaves s s') : Kept D s3 s' := by
  induction life with
  | refl => exact hi
  | step _ h hok ih => exact kept_step ih (step_move h) hok
  | restart _ h ih => exact ih.restart (hleaves _ _ h ih.stored)

end SensorDataNormalization.StoreDiscipline
