import Mathlib.Data.Multiset.AddSub
import Mathlib.Data.Multiset.Filter
import SensorDataNormalization.BatchOwnership
import SensorDataNormalization.DrainQuiescence

set_option autoImplicit false

/-! Every piece of a batch is uploaded by its worker, or sent to the manager, exactly once. -/
namespace SensorDataNormalization.PieceFlow
open PythonText PcapRecords StoreProgram Messages WorkerProgram ManagerProgram ProcessState
  RawFiles NormalizerSystem SystemSteps SystemFlow CycleAccounting PairLedger DrainQuiescence
  BatchOwnership

variable {n : ℕ} {env : Environment}

/-- Objects that workers upload, and messages that they send. -/
abbrev Pieces := Multiset Destination × Multiset PairPut

def opPieces : WorkOp → Pieces
  | .emit _ destination => ({destination}, 0)
  | .give _ put => (0, {put})
  | _ => 0

def putPieces : Body → Pieces
  | .pairPut put => (0, {put})
  | _ => 0

def jobPieces (B : Batch env) (job : Job) : Pieces :=
  ((B.files[job.index]?).map (fun f => weigh opPieces (f.workProgram job))).getD 0

/-- A piece counts once, wherever it is. -/
def pieceFlow (B : Batch env) : Flow Pieces where
  job := jobPieces B
  worker := fun worker =>
    match worker with
    | .idle => 0
    | .failed _ => 0
    | .busy job .split _ => jobPieces B job
    | .busy _ .report program => weigh opPieces program
  mail := putPieces
  dispatched := putPieces
  bucket := fun _ => 0
  manager := fun _ => 0
  upload := fun u =>
    match u.uploader with
    | .worker => ({u.destination}, 0)
    | .manager => 0

variable {B : Batch env} {number : ℕ} {s s' : System n}

theorem exec_pieces {op : WorkOp} {m m' : Store Str Bytes}
    {out : Output Bytes Destination PairPut} (h : op.exec m = some (m', out)) :
    (pieceFlow B).output .worker out = opPieces op := by
  rcases Op.exec_shows h with ⟨hsilent, rfl⟩ | ⟨_, _, _, rfl, rfl⟩ | ⟨_, _, rfl, rfl⟩
  · cases op <;> first | rfl | exact hsilent.elim
  · rfl
  · rfl

theorem jobPieces_file {job : Job} {f : RawFile env} (h : B.JobOf number job f) :
    jobPieces B job = weigh opPieces (f.workProgram job) := by
  rw [jobPieces, h.file]
  rfl

theorem weigh_bucket (items : List PairPut) : weigh (pieceFlow B).bucket items = 0 := by
  induction items with
  | nil => rfl
  | cons a rest ih =>
    rw [weigh_cons, ih]
    rfl

def ofJob (job : Job) : Pieces →+ Pieces where
  toFun := fun p => (p.1.filter (fun d => ∀ source ∈ d.sources, source.job = job),
    p.2.filter (fun put => put.source.job = job))
  map_zero' := rfl
  map_add' := fun _ _ => Prod.ext (Multiset.filter_add _ _ _) (Multiset.filter_add _ _ _)

theorem ofJob_le (job : Job) (p : Pieces) : ofJob job p ≤ p :=
  ⟨Multiset.filter_le _ _, Multiset.filter_le _ _⟩

theorem ofJob_eq {job : Job} {p : Pieces} (hmids : ∀ d ∈ p.1, ∀ source ∈ d.sources,
    source.job = job) (hends : ∀ put ∈ p.2, put.source.job = job) : ofJob job p = p :=
  Prod.ext (Multiset.filter_eq_self.mpr hmids) (Multiset.filter_eq_self.mpr hends)

theorem ofJob_zero {job : Job} {p : Pieces} (hmids : ∀ d ∈ p.1, ∃ source ∈ d.sources,
    source.job ≠ job) (hends : ∀ put ∈ p.2, put.source.job ≠ job) : ofJob job p = 0 := by
  refine Prod.ext (Multiset.filter_eq_nil.mpr (fun d hd hall => ?_))
    (Multiset.filter_eq_nil.mpr hends)
  obtain ⟨source, hsource, hother⟩ := hmids d hd
  exact hother (hall source hsource)

theorem ofJob_op {f : RawFile env} {job j : Job} {op : WorkOp} (h : op ∈ f.workProgram job) :
    ofJob j (opPieces op) = if job = j then opPieces op else 0 := by
  have hempty : ofJob j 0 = if job = j then 0 else 0 := (map_zero _).trans (ite_self _).symm
  have hpiece : ∀ p : Pieces, (∀ d ∈ p.1, ∃ second, d = f.midDestination job second) →
      (∀ put ∈ p.2, ∃ second, put = f.put job second) →
      ofJob j p = if job = j then p else 0 := by
    intro p hmids hends
    split_ifs with hj
    · refine ofJob_eq (fun d hd => ?_) (fun put hput => ?_)
      · obtain ⟨second, rfl⟩ := hmids d hd
        intro source hsource
        rw [List.mem_singleton.mp hsource]
        exact hj
      · obtain ⟨second, rfl⟩ := hends put hput
        exact hj
    · refine ofJob_zero (fun d hd => ?_) (fun put hput => ?_)
      · obtain ⟨second, rfl⟩ := hmids d hd
        exact ⟨_, List.mem_singleton_self _, hj⟩
      · obtain ⟨second, rfl⟩ := hends put hput
        exact hj
  simp only [RawFile.workProgram, List.mem_append, List.mem_cons, PcapSplit.writePieces,
    List.mem_map, List.mem_flatMap] at h
  rcases h with ⟨p, -, rfl⟩ | rfl | ⟨second, -, hop⟩ | ⟨second, -, rfl⟩
  · exact hempty
  · exact hempty
  · simp only [RawFile.midOps, List.mem_cons, List.not_mem_nil, or_false] at hop
    rcases hop with rfl | rfl
    · exact hpiece _ (fun d hd => ⟨second, Multiset.mem_singleton.mp hd⟩) (fun _ h => by cases h)
    · exact hempty
  · exact hpiece _ (fun _ h => by cases h)
      (fun put hput => ⟨second, Multiset.mem_singleton.mp hput⟩)

theorem ofJob_program {f : RawFile env} {job j : Job} {program : Program}
    (h : program <:+ f.workProgram job) :
    ofJob j (weigh opPieces program) = if job = j then weigh opPieces program else 0 := by
  have hops : ∀ op ∈ program, op ∈ f.workProgram job := fun op hop => h.subset hop
  clear h
  induction program with
  | nil => exact (map_zero _).trans (ite_self _).symm
  | cons op rest ih =>
    have hop := ofJob_op (j := j) (hops op List.mem_cons_self)
    have hrest := ih (fun o ho => hops o (List.mem_cons_of_mem _ ho))
    rw [weigh_cons, map_add, hop, hrest]
    split_ifs
    · rfl
    · exact add_zero _

theorem ofJob_jobPieces {job j : Job} {f : RawFile env} (h : B.JobOf number job f) :
    ofJob j (jobPieces B job) = if job = j then jobPieces B job else 0 := by
  rw [jobPieces_file h]
  exact ofJob_program (List.suffix_refl _)

/-- A step keeps all pieces, or a job fails and loses those that it still had. -/
theorem pieces_lost (hi : BatchInv B number s) (hraised : s'.phase ≠ .raised)
    {before after : Pieces} (h : Flow.Exchange (pieceFlow B) env s s' before after) :
    before = after ∨ ∃ w job, s'.workers w = .failed job ∧ after = 0 ∧
      ∀ j, j ≠ job → ofJob j before = 0 := by
  cases h with
  | none => exact Or.inl rfl
  | @manage stage op program disk out hphase hexec =>
    left
    cases out with
    | silent => rfl
    | published destination contents => rfl
    | given put => exact (silent_not_given hi.silent hphase hexec).elim
  | raised hphase hr => exact absurd hr hraised
  | sweep => exact Or.inl ((congrArg (· + 0) (weigh_bucket _)).trans (zero_add _))
  | jobDone => exact Or.inl rfl
  | pairPut hmail hphase =>
    left
    rw [weigh_bucket, weigh_bucket]
    rfl
  | foreign hforeign hr => exact absurd hr hraised
  | @take job w hworker => exact Or.inl (add_zero _)
  | @work w job next op program disk out hworker hexec =>
    left
    have hw := hi.workers w
    rw [hworker] at hw
    cases next with
    | split =>
      obtain ⟨f, -, hprogram⟩ := hw
      rcases hprogram with hprogram | ⟨hnil, -⟩
      · obtain ⟨rfl, -, -, -⟩ := exec_split_silent hprogram hexec
        exact (add_zero _).symm
      · cases hnil
    | report =>
      rw [exec_pieces hexec]
      change weigh opPieces (op :: program) = weigh opPieces program + opPieces op
      rw [weigh_cons, add_comm]
  | @failed w job next program hworker hfailed =>
    refine Or.inr ⟨w, job, hfailed, rfl, fun j hj => ?_⟩
    have hw := hi.workers w
    rw [hworker] at hw
    cases next with
    | split =>
      obtain ⟨f, hjob, -⟩ := hw
      exact (ofJob_jobPieces hjob).trans (if_neg hj.symm)
    | report =>
      obtain ⟨f, hjob, hsuffix⟩ := hw
      exact (ofJob_program hsuffix).trans (if_neg hj.symm)
  | @split w job hworker =>
    left
    have hw := hi.workers w
    rw [hworker] at hw
    obtain ⟨f, hj, hprogram⟩ := hw
    rcases hprogram with hnil | ⟨-, hdisk⟩
    · cases hnil
    · rw [f.splitUploadSend_entry hj.entry hdisk]
      exact jobPieces_file hj
  | report => exact Or.inl rfl
  | reportFailure => exact Or.inl rfl
  | inject hforeign => rcases hforeign with rfl | rfl <;> exact Or.inl rfl

theorem pieces_exchange (hi : BatchInv B number s) (hraised : s'.phase ≠ .raised)
    (hworking' : ∀ w job, s'.workers w ≠ .failed job) {before after : Pieces}
    (h : Flow.Exchange (pieceFlow B) env s s' before after) : before = after := by
  rcases pieces_lost hi hraised h with hsame | ⟨w, job, hfailed, -⟩
  · exact hsame
  · exact absurd hfailed (hworking' w job)

/-! ## Cycles in which nothing fails -/

/-- An undisturbed step after which no worker has failed. -/
structure Unfailing (t : System n) (a : Action n) (u : System n) : Prop where
  undisturbed : Undisturbed t a u
  working : ∀ w job, u.workers w ≠ .failed job

def Worker.hasFailed : Worker → Bool
  | .failed _ => true
  | _ => false

theorem hasFailed_eq_false {worker : Worker} :
    Worker.hasFailed worker = false ↔ ∀ job, worker ≠ .failed job := by
  cases worker <;> simp [Worker.hasFailed]

instance (u : System n) : Decidable (∀ w job, u.workers w ≠ .failed job) :=
  decidable_of_iff (∀ w, Worker.hasFailed (u.workers w) = false)
    (forall_congr' (fun _ => hasFailed_eq_false))

instance (t : System n) (a : Action n) (u : System n) : Decidable (Unfailing t a u) :=
  decidable_of_iff (Undisturbed t a u ∧ ∀ w job, u.workers w ≠ .failed job)
    ⟨fun h => ⟨h.1, h.2⟩, fun h => ⟨h.1, h.2⟩⟩

/-- `s` is the state after `begin_cycle` for the request of `files`, from a quiescent state. -/
structure Starts (files : List (RawFile env)) (request : Request) (answer : StorageAnswer)
    (s₀ s : System n) : Prop where
  quiescent : Quiescent s₀
  running : s₀.stop = false
  selected : selectFiles env request answer = some (files.map RawFile.entry)
  started : NormalizerSystem.step env s₀ (.request request answer) = some s

theorem Starts.eq {files : List (RawFile env)} {request : Request} {answer : StorageAnswer}
    {s₀ s : System n} (h : Starts files request answer s₀ s) :
    s = (s₀.openCycle env request).beginCycle (files.map RawFile.entry) := by
  have hmove := step_move h.started
  cases hmove with
  | reject hphase =>
    have hstep := h.started
    rw [NormalizerSystem.step, hphase] at hstep
    simp only [System.handleRequest, h.selected] at hstep
    exact (Option.some.inj hstep).symm
  | begin hphase hfiles =>
    rw [Option.some.inj (hfiles.symm.trans h.selected)]

structure CleanInv (B : Batch env) (number : ℕ) (s : System n) : Prop where
  quiet : QuietInv (jobsOf number B.entries) s
  batch : BatchInv B number s
  owned : ∀ f ∈ B.files, (B.owners f.downloadPath).total s ≤ 1
  working : ∀ w job, s.workers w ≠ .failed job
  pieces : (pieceFlow B).total s = weigh (jobPieces B) (jobsOf number B.entries)

theorem cleanInv_step {a : Action n} (hi : CleanInv B number s) (h : Move env s a s')
    (hok : Unfailing s a s') : CleanInv B number s' := by
  have ha := quiet_no_request hok.undisturbed.1
  have hpieces := (pieceFlow B).total_eq h ha (fun _ _ he =>
    pieces_exchange hi.batch hok.undisturbed.2 hok.working he)
  exact
    { quiet := quietInv_step hi.quiet h hok.undisturbed
      batch := batchInv_step hi.batch hi.owned h ha
      owned := owned_download_step hi.batch hi.owned h ha
      working := hok.working
      pieces := hpieces.trans hi.pieces }

theorem cleanInv_begin (h : Quiescent s) (hstop : s.stop = false) (request : Request) :
    CleanInv B (s.cycle.number + 1) ((s.openCycle env request).beginCycle B.entries) where
  quiet :=
    { cycle := cycleInv_begin h.settled request _
      ledger := ledger_begin h.mail request _
      kept := by
        intro he
        cases he
      pushed := rfl
      known := fun b hb => by
        change b ∈ s.mailbox at hb
        rw [h.mail] at hb
        cases hb
      stop := hstop }
  batch := batchInv_begin h.queue h.mail h.idle request
  owned := fun f _ => owners_begin h.queue h.mail h.idle request
  working := fun w job hw => by
    change s.workers w = _ at hw
    rw [h.idle w] at hw
    cases hw
  pieces := by
    have hload : load (pieceFlow B).worker s.workers = 0 := load_idle rfl h.idle
    change weigh (jobPieces B) (jobsOf (s.cycle.number + 1) B.entries) +
      weigh (jobPieces B) s.jobQueue + load (pieceFlow B).worker s.workers +
        weigh putPieces s.mailbox + 0 + 0 + 0 + 0 = _
    rw [h.queue, h.mail, hload]
    simp

theorem cleanInv_run {request : Request} {answer : StorageAnswer} {s₀ s₁ : System n}
    (h : Starts B.files request answer s₀ s₁) (run : Runs env Unfailing s₁ s) :
    CleanInv B (s₀.cycle.number + 1) s := by
  have hbegin : CleanInv B (s₀.cycle.number + 1) s₁ := by
    rw [h.eq]
    exact cleanInv_begin h.quiescent h.running request
  exact run.invariant (CleanInv B (s₀.cycle.number + 1)) hbegin
    (fun hi hmove hok => cleanInv_step hi hmove hok)

/-! ## What has become of the pieces -/

def workerUploads (s : System n) : List Destination :=
  (s.cycle.uploads.filter (fun u => decide (u.uploader = .worker))).map Upload.destination

theorem weigh_uploads (uploads : List Upload) : weigh (pieceFlow B).upload uploads =
    (((uploads.filter (fun u => decide (u.uploader = .worker))).map Upload.destination :
      Multiset Destination), 0) := by
  induction uploads with
  | nil => rfl
  | cons u rest ih =>
    rw [weigh_cons, ih]
    obtain ⟨who, destination, contents⟩ := u
    cases who with
    | worker => exact Prod.ext (Multiset.singleton_add _ _) (add_zero _)
    | manager => exact zero_add _

theorem weigh_putPieces (bodies : List Body) :
    weigh putPieces bodies = (0, (puts bodies : Multiset PairPut)) := by
  induction bodies with
  | nil => rfl
  | cons b rest ih =>
    rw [weigh_cons, ih]
    cases b with
    | pairPut put => exact Prod.ext (add_zero _) (Multiset.singleton_add _ _)
    | jobDone job success => exact zero_add _
    | unexpected => exact zero_add _
    | undecodable => exact zero_add _

theorem weigh_workProgram (f : RawFile env) (job : Job) : weigh opPieces (f.workProgram job) =
    ((f.mids.map (f.midDestination job) : Multiset Destination),
      (f.ends.map (f.put job) : Multiset PairPut)) := by
  have hwrites : weigh opPieces (PcapSplit.writePieces f.pieces : Program) = 0 := by
    rw [weigh, PcapSplit.writePieces, List.map_map]
    apply List.sum_eq_zero
    intro x hx
    obtain ⟨p, -, rfl⟩ := List.mem_map.mp hx
    rfl
  have hmids : weigh opPieces (f.mids.flatMap (f.midOps job)) =
      ((f.mids.map (f.midDestination job) : Multiset Destination), 0) := by
    induction f.mids with
    | nil => rfl
    | cons second rest ih =>
      rw [List.flatMap_cons, weigh_append, ih, List.map_cons, ← Multiset.cons_coe]
      exact Prod.ext (Multiset.singleton_add _ _) (add_zero _)
  have hends : weigh opPieces (f.ends.map (f.endOp job)) =
      (0, (f.ends.map (f.put job) : Multiset PairPut)) := by
    induction f.ends with
    | nil => rfl
    | cons second rest ih =>
      rw [List.map_cons, weigh_cons, ih, List.map_cons, ← Multiset.cons_coe]
      exact Prod.ext (add_zero _) (Multiset.singleton_add _ _)
  rw [RawFile.workProgram, weigh_append, weigh_cons, weigh_append, hwrites, hmids, hends]
  change 0 + (0 + _) = _
  rw [zero_add, zero_add]
  exact Prod.ext (add_zero _) (zero_add _)

def midDestinations (B : Batch env) (number : ℕ) : List Destination :=
  (B.tasks number).flatMap (fun t => t.2.mids.map (t.2.midDestination t.1))

def endPuts (B : Batch env) (number : ℕ) : List PairPut :=
  (B.tasks number).flatMap (fun t => t.2.ends.map (t.2.put t.1))

theorem weigh_jobs (B : Batch env) (number : ℕ) : weigh (jobPieces B) (jobsOf number B.entries) =
    ((midDestinations B number : Multiset Destination),
      (endPuts B number : Multiset PairPut)) := by
  have hjobs := B.map_jobs number
    (fun job file => (file.map (fun f => weigh opPieces (f.workProgram job))).getD 0)
  have hsum : weigh (jobPieces B) (jobsOf number B.entries) =
      weigh (fun t => weigh opPieces (t.2.workProgram t.1)) (B.tasks number) :=
    congrArg List.sum hjobs
  rw [hsum, midDestinations, endPuts]
  induction B.tasks number with
  | nil => rfl
  | cons t rest ih =>
    rw [weigh_cons, ih, weigh_workProgram, List.flatMap_cons, List.flatMap_cons]
    rfl

/-- When the manager is out of the drain loop, a piece has been uploaded by a worker or dispatched
by the manager, or it is lost. -/
theorem total_closed {jobs : List Job} (h : QuietInv jobs s) (hclosed : ¬ Phase.isOpen s.phase) :
    (pieceFlow B).total s = ((workerUploads s : Multiset Destination),
      (puts s.cycle.dispatched : Multiset PairPut)) := by
  have hs := h.quiescent hclosed
  have hload : load (pieceFlow B).worker s.workers = 0 := load_idle rfl hs.idle
  rw [Flow.total, jobs_of_closed hclosed, hs.queue, hs.mail, hload, weigh_bucket, weigh_uploads]
  change 0 + 0 + 0 + 0 + weigh putPieces s.cycle.dispatched + 0 + 0 + _ = _
  rw [weigh_putPieces, zero_add, zero_add, zero_add, zero_add, add_zero, add_zero]
  exact Prod.ext (zero_add _) (add_zero _)

theorem CleanInv.delivered (h : CleanInv B number s) (hclosed : ¬ Phase.isOpen s.phase) :
    (workerUploads s).Perm (midDestinations B number) ∧
      (puts s.cycle.dispatched).Perm (endPuts B number) := by
  have htotal := h.pieces
  rw [weigh_jobs, total_closed h.quiet hclosed] at htotal
  exact ⟨Multiset.coe_eq_coe.mp (congrArg Prod.fst htotal),
    Multiset.coe_eq_coe.mp (congrArg Prod.snd htotal)⟩

theorem uploads_managed {jobs : List Job} (h : QuietInv jobs s) (hclosed : ¬ Phase.isOpen s.phase)
    (hprogram : s.phase.program = []) :
    managerUploads s = (putSequence s.cycle).groups.map groupDestination := by
  have hplan := h.ledger.planned hclosed
  rw [hprogram] at hplan
  simpa [emits] using hplan

theorem CleanInv.managed (h : CleanInv B number s) (hclosed : ¬ Phase.isOpen s.phase)
    (hprogram : s.phase.program = []) :
    managerUploads s = (putSequence s.cycle).groups.map groupDestination :=
  uploads_managed h.quiet hclosed hprogram

end SensorDataNormalization.PieceFlow
