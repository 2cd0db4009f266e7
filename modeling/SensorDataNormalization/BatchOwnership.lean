import SensorDataNormalization.PairLedger
import SensorDataNormalization.RawFiles

set_option autoImplicit false

/-! Who owns which local file. The raw files of a request have disjoint local paths; a
path belongs to a queued job, to the worker that runs it, to a PairPut on its way, or to
the merge or sweep in progress, and never to two of them. -/
namespace SensorDataNormalization.BatchOwnership
open PythonText WallClock PcapRecords PcapSplit StoreProgram WorkerPaths Messages WorkerProgram
  ManagerProgram ProcessState PairBuckets RawFiles NormalizerSystem SystemSteps SystemFlow
  CycleAccounting PairLedger

variable {n : ℕ} {env : Environment}

/-- The raw files of a request, no two of which share a local path. -/
structure Batch (env : Environment) where
  files : List (RawFile env)
  separate : files.Pairwise (fun f g => f.paths.Disjoint g.paths)

namespace Batch
variable (B : Batch env)

/-- The names of the files announce different minutes, so that their cache folders differ. -/
def ofMinutes (files : List (RawFile env))
    (h : files.Pairwise (fun f g => ¬ f.object.SameMinute g.object)) : Batch env where
  files := files
  separate := h.imp (fun hfg => RawFile.paths_disjoint _ hfg)

def entries : List StorageFile := B.files.map RawFile.entry

def tasks (number : ℕ) : List (Job × RawFile env) :=
  B.files.mapIdx (fun index f => (⟨number, index, f.entry⟩, f))

/-- `job` is the job of the file `f` in the cycle `number`. -/
structure JobOf (number : ℕ) (job : Job) (f : RawFile env) : Prop where
  file : B.files[job.index]? = some f
  cycle : job.cycle = number
  entry : job.file = f.entry

variable {B} {number : ℕ} {job job' : Job} {f f' : RawFile env}

theorem JobOf.mem (h : B.JobOf number job f) : f ∈ B.files := List.mem_of_getElem? h.file

theorem jobOf_of_mem {j : Job} (h : j ∈ jobsOf number B.entries) : ∃ f, B.JobOf number j f := by
  rw [jobsOf, List.mem_mapIdx] at h
  obtain ⟨i, hi, rfl⟩ := h
  have hlen : i < B.files.length := by simpa [entries] using hi
  exact ⟨B.files[i], List.getElem?_eq_getElem hlen, rfl, by simp [entries]⟩

theorem jobOf_of_task {t : Job × RawFile env} (h : t ∈ B.tasks number) :
    B.JobOf number t.1 t.2 := by
  rw [tasks, List.mem_mapIdx] at h
  obtain ⟨i, hi, rfl⟩ := h
  exact ⟨List.getElem?_eq_getElem hi, rfl, rfl⟩

theorem tasks_files (B : Batch env) (number : ℕ) : (B.tasks number).map Prod.snd = B.files := by
  refine List.ext_getElem (by simp [tasks]) (fun i h₁ h₂ => ?_)
  simp [tasks]

theorem task_of_mem (number : ℕ) (h : f ∈ B.files) : ∃ j, (j, f) ∈ B.tasks number := by
  rw [← B.tasks_files number] at h
  obtain ⟨⟨j, g⟩, ht, rfl⟩ := List.mem_map.mp h
  exact ⟨j, ht⟩

theorem map_jobs {β : Type} (B : Batch env) (number : ℕ) (g : Job → Option (RawFile env) → β) :
    (jobsOf number B.entries).map (fun j => g j B.files[j.index]?) =
      (B.tasks number).map (fun t => g t.1 (some t.2)) := by
  refine List.ext_getElem (by simp [jobsOf, entries, tasks]) (fun i h₁ h₂ => ?_)
  have hi : i < B.files.length := by simpa [tasks] using h₂
  simp [jobsOf, entries, tasks, List.getElem?_eq_getElem hi]

theorem JobOf.unique (h : B.JobOf number job f) (h' : B.JobOf number job' f') {p : Str}
    (hp : p ∈ f.paths) (hp' : p ∈ f'.paths) : job = job' ∧ f = f' := by
  have hindex : job.index = job'.index := by
    obtain ⟨hi, hfi⟩ := List.getElem?_eq_some_iff.mp h.file
    obtain ⟨hj, hfj⟩ := List.getElem?_eq_some_iff.mp h'.file
    have hpair := List.pairwise_iff_getElem.mp B.separate
    rcases Nat.lt_trichotomy job.index job'.index with hlt | heq | hgt
    · have hdis := hpair _ _ hi hj hlt
      rw [hfi, hfj] at hdis
      exact absurd hp' (hdis hp)
    · exact heq
    · have hdis := hpair _ _ hj hi hgt
      rw [hfi, hfj] at hdis
      exact absurd hp (hdis hp')
  have hfile : f = f' := by
    have hf := h.file
    rw [hindex, h'.file] at hf
    exact (Option.some.inj hf).symm
  subst hfile
  refine ⟨?_, rfl⟩
  obtain ⟨c, i, e⟩ := job
  obtain ⟨c', i', e'⟩ := job'
  have hc : c = c' := h.cycle.trans h'.cycle.symm
  have he : e = e' := h.entry.trans h'.entry.symm
  change i = i' at hindex
  rw [hc, hindex, he]

def PutOf (B : Batch env) (number : ℕ) (put : PairPut) : Prop :=
  ∃ job f second, B.JobOf number job f ∧ second ∈ f.ends ∧ put = f.put job second

theorem PutOf.src_mem {put : PairPut} (h : B.PutOf number put) :
    ∃ f ∈ B.files, put.item.srcPath ∈ f.paths := by
  obtain ⟨job, f, second, hj, hs, rfl⟩ := h
  exact ⟨f, hj.mem, f.pathAt_mem (f.mem_ends hs)⟩

theorem PutOf.abspath_src {put : PairPut} (h : B.PutOf number put) :
    abspath put.item.srcPath = put.item.srcPath := by
  obtain ⟨job, f, second, -, -, rfl⟩ := h
  exact f.abspath_pathAt second

theorem PutOf.abspath_out {put : PairPut} (h : B.PutOf number put) :
    abspath put.item.outFilePath = put.item.outFilePath := by
  obtain ⟨job, f, second, -, -, rfl⟩ := h
  exact SensorStream.abspath_outPath _ _ _

theorem path_ne_out {p : Str} (hp : p ∈ f.paths) {put : PairPut}
    (h : B.PutOf number put) : p ≠ put.item.outFilePath := by
  obtain ⟨job, g, second, -, -, rfl⟩ := h
  rcases List.mem_cons.mp hp with rfl | hp
  · exact f.downloadPath_ne_outPath _ _
  · obtain ⟨s, -, rfl⟩ := List.mem_map.mp hp
    exact f.pathAt_ne_outPath _ _ _

def WorkerOk (B : Batch env) (number : ℕ) (disk : Store Str Bytes) : Worker → Prop
  | .idle => True
  | .failed job => ∃ f, B.JobOf number job f
  | .busy job .split program => ∃ f, B.JobOf number job f ∧
      (program = [.put f.downloadPath f.contents] ∨
        program = [] ∧ disk f.downloadPath = some f.contents)
  | .busy job .report program => ∃ f, B.JobOf number job f ∧ program <:+ f.workProgram job

/-- The number of owners of a local path. -/
def owners (B : Batch env) (p : Str) : Flow ℕ where
  job := fun job => ((B.files[job.index]?).map (fun f => if p ∈ f.paths then 1 else 0)).getD 0
  worker := fun worker =>
    match worker with
    | .idle => 0
    | .failed _ => 0
    | .busy job .split _ =>
      ((B.files[job.index]?).map (fun f => if p ∈ f.paths then 1 else 0)).getD 0
    | .busy _ .report program => if p ∈ touches program then 1 else 0
  mail := fun b =>
    match b with
    | .pairPut put => if p = put.item.srcPath then 1 else 0
    | _ => 0
  dispatched := fun _ => 0
  bucket := fun put => if p = put.item.srcPath then 1 else 0
  manager := fun program => if p ∈ touches program then 1 else 0
  upload := fun _ => 0

end Batch

/-! ## The cells of the manager's programs -/

theorem touches_mergePair {a b : PairPut} {p : Str} (h : p ∈ touches (mergePair [a, b])) :
    p = abspath a.item.srcPath ∨ p = abspath b.item.srcPath ∨ p = abspath a.item.outFilePath := by
  have hcells : touches (mergePair [a, b]) =
      [abspath a.item.srcPath, abspath a.item.outFilePath, abspath a.item.srcPath,
        abspath a.item.outFilePath, abspath b.item.srcPath, abspath a.item.outFilePath,
        abspath a.item.outFilePath, abspath a.item.outFilePath, abspath a.item.srcPath,
        abspath b.item.srcPath] := rfl
  rw [hcells] at h
  simp only [List.mem_cons, List.not_mem_nil, or_false] at h
  tauto

theorem touches_uploadUnpaired {groups : List (List PairPut)} {p : Str}
    (h : p ∈ touches (uploadUnpaired groups)) :
    ∃ g ∈ groups, ∃ a ∈ g, p = abspath a.item.srcPath := by
  obtain ⟨op, hop, hp⟩ := List.mem_flatMap.mp h
  obtain ⟨g, hg, hop⟩ := List.mem_flatMap.mp hop
  refine ⟨g, hg, ?_⟩
  cases g with
  | nil =>
    rw [List.mem_singleton.mp hop] at hp
    cases hp
  | cons a rest =>
    refine ⟨a, List.mem_cons_self, ?_⟩
    simp only [uploadBucket, List.mem_cons, List.not_mem_nil, or_false] at hop
    rcases hop with rfl | rfl <;> exact List.mem_singleton.mp hp

/-! ## The invariant of a batch -/

/-- What the messages and the programs of a batch are about. -/
structure BatchInv (B : Batch env) (number : ℕ) (s : System n) : Prop where
  jobs : ∀ j, j ∈ s.phase.jobs ∨ j ∈ s.jobQueue → ∃ f, B.JobOf number j f
  workers : ∀ w, B.WorkerOk number s.disk (s.workers w)
  mail : ∀ put, .pairPut put ∈ s.mailbox → B.PutOf number put
  dispatched : ∀ put ∈ puts s.cycle.dispatched, B.PutOf number put
  unmatched : Unmatched s.buckets
  bucket : ∀ put ∈ s.buckets.items, B.PutOf number put
  silent : ∀ cell put, .give cell put ∉ s.phase.program
  program : ∀ c ∈ touches s.phase.program, (∃ put, B.PutOf number put ∧ c = put.item.srcPath) ∨
    ∃ put, B.PutOf number put ∧ c = put.item.outFilePath

section Owners
variable {B : Batch env} {number : ℕ} {s s' : System n} {p : Str}

theorem owners_split {job : Job} {f : RawFile env} (h : B.JobOf number job f)
    (program : Program) :
    (B.owners p).worker (.busy job .split program) = if p ∈ f.paths then 1 else 0 := by
  simp [Batch.owners, h.file]

theorem weigh_le_of_mem {α : Type} {g : α → ℕ} {x : α} {xs : List α} {k : ℕ} (hx : x ∈ xs)
    (hk : k ≤ g x) : k ≤ weigh g xs :=
  hk.trans (le_weigh g hx)

/-- Only the hand-over of a piece gives a message, and it gives the piece's own path. -/
theorem give_of_suffix {f : RawFile env} {job : Job} {program : Program}
    (h : program <:+ f.workProgram job) {cell : Str} {put : PairPut}
    (hg : .give cell put ∈ program) : ∃ second ∈ f.ends, cell = f.pathAt second ∧
      put = f.put job second := by
  have hm := h.subset hg
  simp only [RawFile.workProgram, List.mem_append, List.mem_cons, writePieces, List.mem_map,
    List.mem_flatMap] at hm
  rcases hm with ⟨q, -, hq⟩ | hm | ⟨second, -, hm⟩ | ⟨second, hs, hm⟩
  · cases hq
  · cases hm
  · simp only [RawFile.midOps, List.mem_cons, List.not_mem_nil, or_false] at hm
    rcases hm with hm | hm <;> cases hm
  · cases hm
    exact ⟨second, hs, rfl, rfl⟩

theorem exec_split_silent {f : RawFile env} {op : WorkOp} {program : Program}
    (h : op :: program = [.put f.downloadPath f.contents]) {disk disk' : Store Str Bytes}
    {out : Output Bytes Destination PairPut} (hexec : op.exec disk = some (disk', out)) :
    out = .silent ∧ program = [] ∧ disk' = Function.update disk f.downloadPath (some f.contents) ∧
      op.touches = [f.downloadPath] := by
  obtain ⟨rfl, rfl⟩ := List.cons.inj h
  cases hexec
  exact ⟨rfl, rfl, rfl, rfl⟩

theorem owner_cons_le (op : WorkOp) (program : Program) : (if p ∈ touches program then 1 else 0) ≤
    if p ∈ touches (op :: program) then 1 else 0 := by
  rw [touches_cons]
  by_cases hp : p ∈ touches program
  · rw [if_pos hp, if_pos (List.mem_append_right _ hp)]
  · rw [if_neg hp]
    exact Nat.zero_le _

theorem owners_sweep_le (hi : BatchInv B number s) :
    (B.owners p).manager (uploadUnpaired s.buckets.popAllRemaining) ≤
      weigh (B.owners p).bucket s.buckets.items := by
  change (if p ∈ touches (uploadUnpaired s.buckets.popAllRemaining) then 1 else 0) ≤ _
  by_cases hp : p ∈ touches (uploadUnpaired s.buckets.popAllRemaining)
  · rw [if_pos hp]
    obtain ⟨group, hgroup, a, ha, rfl⟩ := touches_uploadUnpaired hp
    have hitem : a ∈ s.buckets.items := by
      rw [← popAllRemaining_flatten]
      exact List.mem_flatten.mpr ⟨group, hgroup, ha⟩
    refine weigh_le_of_mem hitem ?_
    change 1 ≤ if _ then 1 else 0
    rw [if_pos (hi.bucket a hitem).abspath_src]
  · rw [if_neg hp]
    exact Nat.zero_le _

theorem owners_merge_le (hi : BatchInv B number s) {g : RawFile env} (hpg : p ∈ g.paths)
    {put : PairPut} (hput : B.PutOf number put) : (B.owners p).manager (mergeReady
      (PairBuckets.put put.pairKey put s.buckets).2) ≤
      weigh (B.owners p).bucket ((PairBuckets.put put.pairKey put s.buckets).2.getD []) := by
  obtain ⟨-, hnone⟩ | ⟨rows, rest, a, hbuckets, hsome⟩ := put_cases hi.unmatched put.pairKey put
  · rw [hnone]
    exact Nat.zero_le _
  · rw [hsome]
    have ha := hi.bucket a (by rw [hbuckets]; simp [items])
    change (if p ∈ touches (mergePair [a, put]) then 1 else 0) ≤
      weigh (B.owners p).bucket [a, put]
    by_cases hp : p ∈ touches (mergePair [a, put])
    · rw [if_pos hp]
      rcases touches_mergePair hp with hpa | hpb | hpo
      · refine weigh_le_of_mem (x := a) (by simp) ?_
        change 1 ≤ if p = a.item.srcPath then 1 else 0
        rw [if_pos (hpa.trans ha.abspath_src)]
      · refine weigh_le_of_mem (x := put) (by simp) ?_
        change 1 ≤ if p = put.item.srcPath then 1 else 0
        rw [if_pos (hpb.trans hput.abspath_src)]
      · exact absurd (hpo.trans ha.abspath_out) (Batch.path_ne_out hpg ha)
    · rw [if_neg hp]
      exact Nat.zero_le _

theorem owners_report_le {f : RawFile env} {job : Job} {op : WorkOp} {program : Program}
    {disk disk' : Store Str Bytes} {out : Output Bytes Destination PairPut}
    (hsuffix : op :: program <:+ f.workProgram job) (hexec : op.exec disk = some (disk', out))
    (hgive : ∀ cell put, op = .give cell put → p = cell → p ∉ touches program) :
    (if p ∈ touches program then 1 else 0) + (B.owners p).output .worker out ≤
      if p ∈ touches (op :: program) then 1 else 0 := by
  cases out with
  | silent => exact owner_cons_le op program
  | published destination contents => exact owner_cons_le op program
  | given put =>
    obtain ⟨cell, rfl⟩ := Op.exec_given hexec
    obtain ⟨second, -, rfl, rfl⟩ := give_of_suffix hsuffix List.mem_cons_self
    change _ + (if p = f.pathAt second then 1 else 0) ≤ _
    by_cases hp : p = f.pathAt second
    · rw [touches_cons, if_neg (hgive _ _ rfl hp), if_pos hp,
        if_pos (List.mem_append_left _ (by simp [Op.touches, hp]))]
    · rw [if_neg hp]
      exact owner_cons_le _ program

/-- No step gives a path of the batch a second owner, when a piece that is handed over is
not touched again. -/
theorem owners_exchange (hi : BatchInv B number s) {g : RawFile env}
    (hpg : p ∈ g.paths)
    (hgive : ∀ w job cell put program, s.workers w = .busy job .report (.give cell put :: program) →
      p = cell → p ∉ touches program)
    {before after : ℕ} (h : Flow.Exchange (B.owners p) env s s' before after) : after ≤ before := by
  cases h with
  | none => exact le_refl _
  | @manage stage op program disk out hphase hexec =>
    have hout : (B.owners p).output .manager out = 0 := by
      cases out with
      | silent => rfl
      | published destination contents => rfl
      | given put => exact (silent_not_given hi.silent hphase hexec).elim
    rw [hout]
    exact owner_cons_le op program
  | raised => exact Nat.zero_le _
  | sweep hphase => exact (owners_sweep_le hi).trans (Nat.le_add_right _ _)
  | jobDone => exact le_refl _
  | @pairPut put hmail hphase =>
    rw [hphase]
    have hperm := weigh_perm (B.owners p).bucket (put_items hi.unmatched put.pairKey put)
    rw [weigh_append, weigh_append, weigh_cons, weigh_nil] at hperm
    have hprogram := owners_merge_le hi hpg (hi.mail put hmail)
    have hmailPut : (B.owners p).mail (.pairPut put) = (B.owners p).bucket put := rfl
    have hdispatched : (B.owners p).dispatched (.pairPut put) = 0 := rfl
    rw [hmailPut, hdispatched]
    change _ + _ + (B.owners p).manager _ ≤ _
    have hnil : (B.owners p).manager [] = 0 := rfl
    rw [hnil]
    exact (Nat.add_le_add_left hprogram _).trans (by omega)
  | foreign hforeign => rcases hforeign with rfl | rfl <;> exact le_refl _
  | @take job w hworker => exact le_of_eq (add_zero _).symm
  | @work w job next op program disk out hworker hexec =>
    have hw := hi.workers w
    rw [hworker] at hw
    cases next with
    | split =>
      obtain ⟨f, hj, hprogram⟩ := hw
      rcases hprogram with hprogram | ⟨hnil, -⟩
      · obtain ⟨rfl, rfl, -, -⟩ := exec_split_silent hprogram hexec
        rw [owners_split hj, owners_split hj]
        exact le_refl _
      · cases hnil
    | report =>
      obtain ⟨f, hj, hsuffix⟩ := hw
      refine owners_report_le hsuffix hexec (fun cell put hop => ?_)
      rw [hop] at hworker
      exact hgive w job cell put program hworker
  | failed => exact Nat.zero_le _
  | @split w job hworker =>
    have hw := hi.workers w
    rw [hworker] at hw
    obtain ⟨f, hj, hprogram⟩ := hw
    rcases hprogram with hnil | ⟨-, hdisk⟩
    · cases hnil
    · rw [owners_split hj, f.splitUploadSend_entry hj.entry hdisk]
      change (if p ∈ touches (f.workProgram job) then 1 else 0) ≤ _
      by_cases hp : p ∈ touches (f.workProgram job)
      · rw [if_pos hp, if_pos (f.touches_workProgram hp)]
      · rw [if_neg hp]
        exact Nat.zero_le _
  | report => exact Nat.zero_le _
  | reportFailure => exact le_refl _
  | inject hforeign => rcases hforeign with rfl | rfl <;> exact le_refl _

/-! ### One owner means no interference -/

theorem two_le_load (g : Worker → ℕ) (workers : Fin n → Worker) {v w : Fin n} (h : v ≠ w) :
    g (workers v) + g (workers w) ≤ load g workers := by
  have hsum := Finset.sum_erase_add Finset.univ (fun u => g (workers u)) (Finset.mem_univ w)
  have hv := Finset.single_le_sum_of_canonicallyOrdered (f := fun u => g (workers u))
    (Finset.mem_erase.mpr ⟨h, Finset.mem_univ v⟩)
  rw [load]
  omega

theorem owners_total (s : System n) : (B.owners p).total s =
    weigh (B.owners p).job s.phase.jobs + weigh (B.owners p).job s.jobQueue +
      load (B.owners p).worker s.workers + weigh (B.owners p).mail s.mailbox +
      weigh (B.owners p).bucket s.buckets.items + (B.owners p).manager s.phase.program := by
  have hdispatched : weigh (B.owners p).dispatched s.cycle.dispatched = 0 := weigh_zero _
  have huploads : weigh (B.owners p).upload s.cycle.uploads = 0 := weigh_zero _
  rw [Flow.total, hdispatched, huploads]
  omega

theorem owner_worker {w : Fin n} (h : (B.owners p).total s ≤ 1)
    (hw : (B.owners p).worker (s.workers w) = 1) :
    (∀ v, v ≠ w → (B.owners p).worker (s.workers v) = 0) ∧
      (B.owners p).manager s.phase.program = 0 ∧ weigh (B.owners p).mail s.mailbox = 0 ∧
      weigh (B.owners p).bucket s.buckets.items = 0 := by
  rw [owners_total] at h
  have hload := le_load (B.owners p).worker s.workers w
  refine ⟨fun v hv => ?_, by omega, by omega, by omega⟩
  have htwo := two_le_load (B.owners p).worker s.workers hv
  omega

theorem owner_manager (h : (B.owners p).total s ≤ 1)
    (hm : (B.owners p).manager s.phase.program = 1) :
    (∀ v, (B.owners p).worker (s.workers v) = 0) ∧ weigh (B.owners p).mail s.mailbox = 0 ∧
      weigh (B.owners p).bucket s.buckets.items = 0 := by
  rw [owners_total] at h
  refine ⟨fun v => ?_, by omega, by omega⟩
  have hload := le_load (B.owners p).worker s.workers v
  omega

inductive Executor (B : Batch env) (p : Str) (s : System n) : Action n → Prop
  | manager {stage : Stage} {op : WorkOp} {program : Program}
      (hphase : s.phase = .working stage (op :: program))
      (howner : (B.owners p).manager s.phase.program = 1) : Executor B p s .manager
  | worker {w : Fin n} {job : Job} {next : Next} {op : WorkOp} {program : Program}
      (hworker : s.workers w = .busy job next (op :: program))
      (howner : (B.owners p).worker (s.workers w) = 1) : Executor B p s (.worker w)

/-- Only an owner of a path changes the file. -/
theorem move_disk {a : Action n} (hi : BatchInv B number s) (h : Move env s a s')
    (hp : s'.disk p ≠ s.disk p) : Executor B p s a := by
  cases h with
  | @manage stage op program disk out hphase hexec =>
    rw [publish_disk] at hp
    refine .manager hphase ?_
    have htouch : p ∈ op.touches := by
      by_contra hno
      exact hp (Op.exec_frame hexec hno)
    change (if p ∈ touches s.phase.program then 1 else 0) = 1
    rw [hphase]
    exact if_pos (List.mem_append_left _ htouch)
  | @work w job next op program disk out hworker hexec =>
    rw [publish_disk] at hp
    refine .worker hworker ?_
    have htouch : p ∈ op.touches := by
      by_contra hno
      exact hp (Op.exec_frame hexec hno)
    have hw := hi.workers w
    rw [hworker] at hw ⊢
    cases next with
    | split =>
      obtain ⟨f, hj, hprogram⟩ := hw
      rcases hprogram with hprogram | ⟨hnil, -⟩
      · obtain ⟨-, -, -, hcell⟩ := exec_split_silent hprogram hexec
        rw [hcell] at htouch
        rw [owners_split hj, List.mem_singleton.mp htouch, if_pos f.downloadPath_mem]
      · cases hnil
    | report => exact if_pos (List.mem_append_left _ htouch)
  | @dispatch b => cases b <;> exact absurd rfl hp
  | _ => exact absurd rfl hp

/-! ### The invariant is kept -/

theorem WorkerOk.of_disk {disk disk' : Store Str Bytes} {worker : Worker}
    (h : B.WorkerOk number disk worker)
    (hdisk : ∀ job f, worker = .busy job .split [] → B.JobOf number job f →
      disk' f.downloadPath = disk f.downloadPath) : B.WorkerOk number disk' worker := by
  cases worker with
  | idle => trivial
  | failed job => exact h
  | busy job next program =>
    cases next with
    | report => exact h
    | split =>
      obtain ⟨f, hj, hprogram⟩ := h
      refine ⟨f, hj, ?_⟩
      rcases hprogram with hprogram | ⟨rfl, hcontents⟩
      · exact Or.inl hprogram
      · exact Or.inr ⟨rfl, (hdisk job f rfl hj).trans hcontents⟩

theorem workerOk_job {disk : Store Str Bytes} {worker : Worker} {job : Job}
    (h : B.WorkerOk number disk worker) (hj : workerJob worker = some job) :
    ∃ f, B.JobOf number job f := by
  cases worker with
  | idle => cases hj
  | failed j =>
    cases hj
    exact h
  | busy j next program =>
    cases hj
    cases next with
    | split =>
      obtain ⟨f, hjob, -⟩ := h
      exact ⟨f, hjob⟩
    | report =>
      obtain ⟨f, hjob, -⟩ := h
      exact ⟨f, hjob⟩

/-- A downloaded file that waits for its split is not changed by anybody else. -/
theorem download_kept {a : Action n} (hi : BatchInv B number s)
    (howned : ∀ f ∈ B.files, (B.owners f.downloadPath).total s ≤ 1) (h : Move env s a s')
    {v : Fin n} {job : Job} {f : RawFile env} (hv : s.workers v = .busy job .split [])
    (hj : B.JobOf number job f) : s'.disk f.downloadPath = s.disk f.downloadPath := by
  by_contra hne
  have hv1 : (B.owners f.downloadPath).worker (s.workers v) = 1 := by
    rw [hv, owners_split hj, if_pos f.downloadPath_mem]
  obtain ⟨hothers, hmanager, -, -⟩ := owner_worker (howned f hj.mem) hv1
  cases move_disk (p := f.downloadPath) hi h hne with
  | manager hphase howner => omega
  | @worker w job' next op program hworker howner =>
    have hwv : w = v := by
      by_contra hwv
      have := hothers w hwv
      omega
    subst hwv
    rw [hv] at hworker
    cases hworker

theorem workers_set {w : Fin n} {worker : Worker} {t : System n}
    (hold : ∀ v, v ≠ w → B.WorkerOk number t.disk (t.workers v))
    (hnew : B.WorkerOk number t.disk worker) :
    ∀ v, B.WorkerOk number (t.setWorker w worker).disk ((t.setWorker w worker).workers v) :=
  setWorker_forall hold hnew

theorem move_workers {a : Action n} (hi : BatchInv B number s)
    (howned : ∀ f ∈ B.files, (B.owners f.downloadPath).total s ≤ 1) (h : Move env s a s')
    (ha : ∀ request answer, a ≠ .request request answer) :
    ∀ w, B.WorkerOk number s'.disk (s'.workers w) := by
  have hkept : ∀ v, B.WorkerOk number s'.disk (s.workers v) := fun v =>
    WorkerOk.of_disk (hi.workers v) (fun job f hv hj => download_kept hi howned h hv hj)
  cases h with
  | reject => exact absurd rfl (ha _ _)
  | begin => exact absurd rfl (ha _ _)
  | manage =>
    rw [publish_workers]
    exact hkept
  | @take w job jobs hworker hqueue =>
    obtain ⟨f, hj⟩ := hi.jobs job (Or.inr (by rw [hqueue]; exact List.mem_cons_self))
    refine workers_set (t := { s with jobQueue := jobs }) (fun v _ => hkept v) ?_
    exact ⟨f, hj, Or.inl (f.download_entry hj.entry)⟩
  | @work w job next op program disk out hworker hexec =>
    rw [publish_workers]
    rw [publish_disk] at hkept ⊢
    refine workers_set (t := { s with disk := disk }) (fun v _ => hkept v) ?_
    have hw := hi.workers w
    rw [hworker] at hw
    cases next with
    | split =>
      obtain ⟨f, hj, hprogram⟩ := hw
      rcases hprogram with hprogram | ⟨hnil, -⟩
      · obtain ⟨-, rfl, rfl, -⟩ := exec_split_silent hprogram hexec
        exact ⟨f, hj, Or.inr ⟨rfl, Function.update_self _ _ _⟩⟩
      · cases hnil
    | report =>
      obtain ⟨f, hj, hsuffix⟩ := hw
      exact ⟨f, hj, (List.suffix_cons op program).trans hsuffix⟩
  | @workerFail w job next op program hworker hexec =>
    have hjob : ∃ f, B.JobOf number job f := workerOk_job (hi.workers w) (by rw [hworker]; rfl)
    exact workers_set (fun v _ => hi.workers v) hjob
  | @workerFault w job next program hworker =>
    have hjob : ∃ f, B.JobOf number job f := workerOk_job (hi.workers w) (by rw [hworker]; rfl)
    exact workers_set (fun v _ => hi.workers v) hjob
  | @split w job hworker =>
    refine workers_set (fun v _ => hi.workers v) ?_
    have hw := hi.workers w
    rw [hworker] at hw
    obtain ⟨f, hj, hprogram⟩ := hw
    rcases hprogram with hnil | ⟨-, hdisk⟩
    · cases hnil
    · exact ⟨f, hj, by rw [f.splitUploadSend_entry hj.entry hdisk]⟩
  | @report w job success hworker =>
    change ∀ v, B.WorkerOk number s.disk ((s.setWorker w .idle).workers v)
    exact workers_set (fun v _ => hi.workers v) trivial
  | @dispatch b => cases b <;> exact hkept
  | _ => exact hkept

theorem putOf_given {w : Fin n} {job : Job} {next : Next} {op : WorkOp} {program : Program}
    (hi : BatchInv B number s) (hworker : s.workers w = .busy job next (op :: program))
    {disk : Store Str Bytes} {put : PairPut} (hexec : op.exec s.disk = some (disk, .given put)) :
    B.PutOf number put := by
  have hw := hi.workers w
  rw [hworker] at hw
  cases next with
  | split =>
    obtain ⟨f, hj, hprogram⟩ := hw
    rcases hprogram with hprogram | ⟨hnil, -⟩
    · cases (exec_split_silent hprogram hexec).1
    · cases hnil
  | report =>
    obtain ⟨f, hj, hsuffix⟩ := hw
    obtain ⟨cell, rfl⟩ := Op.exec_given hexec
    obtain ⟨second, hs, -, rfl⟩ := give_of_suffix hsuffix List.mem_cons_self
    exact ⟨job, f, second, hj, hs, rfl⟩

theorem move_program {a : Action n} (hi : BatchInv B number s) (h : Move env s a s')
    (ha : ∀ request answer, a ≠ .request request answer) : ∀ c ∈ touches s'.phase.program,
      (∃ put, B.PutOf number put ∧ c = put.item.srcPath) ∨
        ∃ put, B.PutOf number put ∧ c = put.item.outFilePath := by
  have hempty : ∀ c ∈ touches ([] : Program), (∃ put, B.PutOf number put ∧ c = put.item.srcPath) ∨
      ∃ put, B.PutOf number put ∧ c = put.item.outFilePath := fun c hc => by cases hc
  cases h with
  | reject => exact absurd rfl (ha _ _)
  | begin => exact absurd rfl (ha _ _)
  | loop hold hnew =>
    rw [(between_closed hnew).2]
    exact hempty
  | manage hphase =>
    rw [publish_phase]
    intro c hc
    have hprogram := hi.program
    rw [hphase] at hprogram
    exact hprogram c (List.mem_append_right _ hc)
  | sweep =>
    intro c hc
    obtain ⟨group, hgroup, a, ha, rfl⟩ := touches_uploadUnpaired hc
    have hitem : a ∈ s.buckets.items := by
      rw [← popAllRemaining_flatten]
      exact List.mem_flatten.mpr ⟨group, hgroup, ha⟩
    exact Or.inl ⟨a, hi.bucket a hitem, (hi.bucket a hitem).abspath_src⟩
  | @dispatch b mailbox hphase hmail =>
    cases b with
    | jobDone job success => exact hi.program
    | unexpected => exact hempty
    | undecodable => exact hempty
    | pairPut put =>
      intro c hc
      have hput := hi.mail put (by rw [hmail]; exact List.mem_cons_self)
      change c ∈ touches (mergeReady (PairBuckets.put put.pairKey put s.buckets).2) at hc
      obtain ⟨-, hnone⟩ | ⟨rows, rest, a, hbuckets, hsome⟩ :=
        put_cases hi.unmatched put.pairKey put
      · rw [hnone] at hc
        cases hc
      · have ha : B.PutOf number a := hi.bucket a (by rw [hbuckets]; simp [items])
        rw [hsome] at hc
        rcases touches_mergePair hc with hca | hcb | hco
        · exact Or.inl ⟨a, ha, hca.trans ha.abspath_src⟩
        · exact Or.inl ⟨put, hput, hcb.trans hput.abspath_src⟩
        · exact Or.inr ⟨a, ha, hco.trans ha.abspath_out⟩
  | work =>
    rw [publish_phase]
    exact hi.program
  | push => exact hempty
  | pushed => exact hempty
  | fail => exact hempty
  | fault => exact hempty
  | swept => exact hempty
  | notify => exact hempty
  | notifyFailure => exact hempty
  | _ => exact hi.program

theorem batchInv_step {a : Action n} (hi : BatchInv B number s)
    (howned : ∀ f ∈ B.files, (B.owners f.downloadPath).total s ≤ 1) (h : Move env s a s')
    (ha : ∀ request answer, a ≠ .request request answer) : BatchInv B number s' where
  jobs := fun j hj => hi.jobs j (queued_of_move h ha hj)
  workers := move_workers hi howned h ha
  mail := by
    intro put hput
    rcases mail_of_move h hi.silent hput with hput | ⟨w, job, next, op, program, hworker, hexec⟩
    · exact hi.mail put hput
    · exact putOf_given hi hworker hexec
  dispatched := by
    intro put hput
    cases dispatched_of_move h (mem_puts.mp hput) with
    | inl hput => exact hi.dispatched put (mem_puts.mpr hput)
    | inr hput => exact hi.mail put hput
  unmatched := unmatched_of_move h hi.unmatched
  bucket := fun put hput => (bucket_of_move h hi.unmatched hput).elim (hi.bucket put) (hi.mail put)
  silent := move_silent h hi.silent
  program := move_program hi h ha

/-! ### The beginning of a cycle -/

theorem sum_paths_le_one {files : List (RawFile env)} {p : Str}
    (h : files.Pairwise (fun f g => f.paths.Disjoint g.paths)) :
    (files.map (fun f => if p ∈ f.paths then 1 else 0)).sum ≤ 1 := by
  induction files with
  | nil => exact Nat.zero_le _
  | cons f rest ih =>
    obtain ⟨hf, hrest⟩ := List.pairwise_cons.mp h
    have hsum := ih hrest
    rw [List.map_cons, List.sum_cons]
    by_cases hp : p ∈ f.paths
    · have hzero : (rest.map (fun g => if p ∈ g.paths then 1 else 0)).sum = 0 := by
        refine List.sum_eq_zero (fun k hk => ?_)
        obtain ⟨g, hg, rfl⟩ := List.mem_map.mp hk
        exact if_neg (hf g hg hp)
      rw [hzero, if_pos hp]
    · rw [if_neg hp]
      omega

theorem owners_begin (hq : s.jobQueue = []) (hm : s.mailbox = []) (hidle : ∀ w, s.workers w = .idle)
    (request : Request) :
    (B.owners p).total ((s.openCycle env request).beginCycle B.entries) ≤ 1 := by
  have hload : load (B.owners p).worker s.workers = 0 := load_idle rfl hidle
  have hjobs := B.map_jobs (s.cycle.number + 1)
    (fun _ file => (file.map (fun f => if p ∈ f.paths then 1 else 0)).getD 0)
  have hsum := sum_paths_le_one (p := p) B.separate
  have htasks : (B.tasks (s.cycle.number + 1)).map (fun t => if p ∈ t.2.paths then 1 else 0) =
      B.files.map (fun f => if p ∈ f.paths then 1 else 0) := by
    rw [← B.tasks_files (s.cycle.number + 1), List.map_map]
    rfl
  rw [owners_total]
  change weigh (B.owners p).job (jobsOf (s.cycle.number + 1) B.entries) +
    weigh (B.owners p).job s.jobQueue + load (B.owners p).worker s.workers +
      weigh (B.owners p).mail s.mailbox + 0 + 0 ≤ 1
  have hweigh : weigh (B.owners p).job (jobsOf (s.cycle.number + 1) B.entries) =
      (B.files.map (fun f => if p ∈ f.paths then 1 else 0)).sum :=
    congrArg List.sum (hjobs.trans htasks)
  rw [hweigh, hq, hm, hload]
  exact hsum

theorem batchInv_begin (hq : s.jobQueue = []) (hm : s.mailbox = [])
    (hidle : ∀ w, s.workers w = .idle) (request : Request) :
    BatchInv B (s.cycle.number + 1) ((s.openCycle env request).beginCycle B.entries) where
  jobs := fun j hj => by
    rcases hj with hj | hj
    · exact Batch.jobOf_of_mem hj
    · change j ∈ s.jobQueue at hj
      rw [hq] at hj
      cases hj
  workers := fun w => by
    change B.WorkerOk _ s.disk (s.workers w)
    rw [hidle w]
    trivial
  mail := fun put hput => by
    change _ ∈ s.mailbox at hput
    rw [hm] at hput
    cases hput
  dispatched := fun put hput => by cases hput
  unmatched := unmatched_nil
  bucket := fun put hput => by cases hput
  silent := fun cell put hput => by cases hput
  program := fun c hc => by cases hc

theorem owned_download_step {a : Action n} (hi : BatchInv B number s)
    (howned : ∀ f ∈ B.files, (B.owners f.downloadPath).total s ≤ 1) (h : Move env s a s')
    (ha : ∀ request answer, a ≠ .request request answer) :
    ∀ f ∈ B.files, (B.owners f.downloadPath).total s' ≤ 1 := by
  intro f hf
  obtain ⟨rest, before, after, hs, hs', hexchange⟩ := (B.owners f.downloadPath).total_move h ha
  have hle := owners_exchange hi f.downloadPath_mem (fun w job cell put program hw hcell => by
    have hworker := hi.workers w
    rw [hw] at hworker
    obtain ⟨g, -, hsuffix⟩ := hworker
    obtain ⟨second, -, rfl, -⟩ := give_of_suffix hsuffix List.mem_cons_self
    exact absurd hcell (f.downloadPath_ne_pathAt g second)) hexchange
  have hone := howned f hf
  omega

end Owners
end SensorDataNormalization.BatchOwnership
