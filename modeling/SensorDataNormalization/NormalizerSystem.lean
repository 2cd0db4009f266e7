import Mathlib.Data.Fintype.Basic
import SensorDataNormalization.ManagerProgram

set_option autoImplicit false

/-! The daemon: one manager, `n` workers, the shared job queue, the mailbox of the
manager, the local disk and S3. A step of the manager or of a worker is one operation
of its program, so every interleaving of the processes is a run of `step`. -/
namespace SensorDataNormalization.NormalizerSystem
open PythonText PcapRecords StoreProgram Messages WorkerProgram ManagerProgram ProcessState

/-! ## State -/

/-- What a worker does when its program is at its end. -/
inductive Next
  | split
  | report
  deriving DecidableEq

inductive Worker
  | idle
  | busy (job : Job) (next : Next) (program : Program)
  | failed (job : Job)

inductive Stage
  | drain
  | sweep
  deriving DecidableEq

/-- Where the manager is: at the head of its loop, in `poll`, in `_run_cycle`, or after it. -/
inductive Phase
  | ready
  | listening
  | pushing (jobs : List Job)
  | working (stage : Stage) (program : Program)
  | returned
  | raised
  | exited

def Phase.jobs : Phase → List Job
  | .pushing jobs => jobs
  | _ => []

def Phase.program : Phase → Program
  | .working _ program => program
  | _ => []

def Phase.inCycle : Phase → Prop
  | .pushing _ => True
  | .working _ _ => True
  | _ => False

def Phase.between : Phase → Prop
  | .ready => True
  | .listening => True
  | .exited => True
  | _ => False

inductive Uploader
  | worker
  | manager
  deriving DecidableEq

structure Upload where
  uploader : Uploader
  destination : Destination
  contents : Bytes
  deriving DecidableEq

/-- The text of `error` is that of the exception, or counts the failed jobs. -/
inductive Failure
  | exception
  | partialFailure (failed total : ℕ)
  deriving DecidableEq

def Failure.text : Failure → Option Str
  | .exception => none
  | .partialFailure failed total => some ("partial failure: ".toList ++ Nat.toDigits 10 failed ++
      '/' :: Nat.toDigits 10 total ++ " job(s) failed".toList)

inductive Notice
  | success (requestId summary : Str)
  | failure (requestId summary : Str) (error : Failure)
  deriving DecidableEq

/-- The request in work and the history of its cycle. -/
structure Cycle where
  number : ℕ
  requestId : Str
  summary : Str
  pushed : List Job
  posted : List Body
  dispatched : List Body
  uploads : List Upload
  notices : List Notice

structure System (n : ℕ) where
  jobQueue : List Job
  mailbox : List Body
  workers : Fin n → Worker
  phase : Phase
  buckets : PairBuckets Str PairPut
  progress : JobProgressTracker
  disk : Store Str Bytes
  s3 : Store Str Bytes
  stop : Bool
  cycle : Cycle

variable {n : ℕ}

/-- After `on_init` of every process. -/
def System.init (disk s3 : Store Str Bytes) : System n where
  jobQueue := []
  mailbox := []
  workers := fun _ => .idle
  phase := .ready
  buckets := []
  progress := .new
  disk := disk
  s3 := s3
  stop := false
  cycle := ⟨0, [], [], [], [], [], [], []⟩

/-- The daemon in its first `poll`, with an empty disk and an empty bucket. -/
def System.polling : System n :=
  { System.init (fun _ => none) (fun _ => none) with phase := .listening }

def System.post (b : Body) (s : System n) : System n :=
  { s with mailbox := s.mailbox ++ [b], cycle.posted := s.cycle.posted ++ [b] }

def System.upload (u : Upload) (s : System n) : System n :=
  { s with
    s3 := Function.update s.s3 u.destination.key (some u.contents)
    cycle.uploads := s.cycle.uploads ++ [u] }

def System.publish (who : Uploader) (out : Output Bytes Destination PairPut) (s : System n) :
    System n :=
  match out with
  | .silent => s
  | .published destination contents => s.upload ⟨who, destination, contents⟩
  | .given put => s.post (.pairPut put)

def System.setWorker (w : Fin n) (worker : Worker) (s : System n) : System n :=
  { s with workers := Function.update s.workers w worker }

theorem setWorker_self (w : Fin n) (worker : Worker) (s : System n) :
    (s.setWorker w worker).workers w = worker := Function.update_self ..

theorem setWorker_of_ne {v w : Fin n} (h : v ≠ w) (worker : Worker) (s : System n) :
    (s.setWorker w worker).workers v = s.workers v := Function.update_of_ne h ..

theorem setWorker_forall {P : Worker → Prop} {w : Fin n} {worker : Worker} {s : System n}
    (hold : ∀ v, v ≠ w → P (s.workers v)) (hnew : P worker) :
    ∀ v, P ((s.setWorker w worker).workers v) := by
  intro v
  by_cases hvw : v = w
  · rw [hvw, setWorker_self]
    exact hnew
  · rw [setWorker_of_ne hvw]
    exact hold v hvw

section Publish
variable (who : Uploader) (out : Output Bytes Destination PairPut) (s : System n)

@[simp] theorem publish_jobQueue : (s.publish who out).jobQueue = s.jobQueue := by cases out <;> rfl
@[simp] theorem publish_workers : (s.publish who out).workers = s.workers := by cases out <;> rfl
@[simp] theorem publish_phase : (s.publish who out).phase = s.phase := by cases out <;> rfl
@[simp] theorem publish_buckets : (s.publish who out).buckets = s.buckets := by cases out <;> rfl
@[simp] theorem publish_progress : (s.publish who out).progress = s.progress := by cases out <;> rfl
@[simp] theorem publish_disk : (s.publish who out).disk = s.disk := by cases out <;> rfl
@[simp] theorem publish_stop : (s.publish who out).stop = s.stop := by cases out <;> rfl
@[simp] theorem publish_number : (s.publish who out).cycle.number = s.cycle.number := by
  cases out <;> rfl
@[simp] theorem publish_pushed : (s.publish who out).cycle.pushed = s.cycle.pushed := by
  cases out <;> rfl
@[simp] theorem publish_dispatched : (s.publish who out).cycle.dispatched = s.cycle.dispatched := by
  cases out <;> rfl
@[simp] theorem publish_notices : (s.publish who out).cycle.notices = s.cycle.notices := by
  cases out <;> rfl

end Publish

/-! ## The manager -/

def jobsOf (cycle : ℕ) (files : List StorageFile) : List Job :=
  files.mapIdx (fun index file => ⟨cycle, index, file⟩)

/-- `_handle_request` up to `_run_cycle`. -/
def System.openCycle (env : Environment) (request : Request) (s : System n) : System n :=
  { s with cycle := ⟨s.cycle.number + 1, request.requestId, summaryOf env.config request,
      [], [], [], [], []⟩ }

/-- `_run_cycle` up to the first push. -/
def System.beginCycle (files : List StorageFile) (s : System n) : System n :=
  let jobs := jobsOf s.cycle.number files
  { s with
    buckets := []
    progress := .beginCycle jobs.length
    phase := .pushing jobs
    cycle.pushed := jobs }

def System.handleRequest (env : Environment) (request : Request) (answer : StorageAnswer)
    (s : System n) : System n :=
  match selectFiles env request answer with
  | none => { s.openCycle env request with phase := .raised }
  | some files => (s.openCycle env request).beginCycle files

def System.dispatchMessage (b : Body) (s : System n) : System n :=
  match b with
  | .jobDone _ success => { s with progress := s.progress.markOneDone success }
  | .pairPut put =>
    let r := PairBuckets.put put.pairKey put s.buckets
    { s with buckets := r.1, phase := .working .drain (mergeReady r.2) }
  | .unexpected => { s with phase := .raised }
  | .undecodable => { s with phase := .raised }

def System.sweep (s : System n) : System n :=
  { s with
    buckets := []
    phase := .working .sweep (uploadUnpaired s.buckets.popAllRemaining) }

def System.notice (s : System n) : Notice :=
  if s.progress.failure > 0 then
    .failure s.cycle.requestId s.cycle.summary
      (.partialFailure s.progress.failure (s.progress.success + s.progress.failure))
  else .success s.cycle.requestId s.cycle.summary

def System.notify (notice : Notice) (s : System n) : System n :=
  { s with phase := .ready, cycle.notices := s.cycle.notices ++ [notice] }

def managerStep (s : System n) : Option (System n) :=
  match s.phase with
  | .ready => some { s with phase := if s.stop then .exited else .listening }
  | .listening => some { s with phase := .ready }
  | .pushing [] => some { s with phase := .working .drain [] }
  | .pushing (job :: jobs) =>
    some { s with jobQueue := s.jobQueue ++ [job], phase := .pushing jobs }
  | .working stage (op :: program) =>
    match op.exec s.disk with
    | none => some { s with phase := .raised }
    | some (disk, out) =>
      some ({ s with disk := disk, phase := .working stage program }.publish .manager out)
  | .working .drain [] =>
    if s.progress.isDone || s.stop then some s.sweep
    else
      match s.mailbox with
      | [] => some s
      | b :: mailbox =>
        some (System.dispatchMessage b
          { s with mailbox := mailbox, cycle.dispatched := s.cycle.dispatched ++ [b] })
  | .working .sweep [] => some { s with phase := .returned }
  | .returned => some (s.notify s.notice)
  | .raised => some (s.notify (.failure s.cycle.requestId s.cycle.summary .exception))
  | .exited => none

/-! ## The workers -/

def workerStep (env : Environment) (w : Fin n) (s : System n) : Option (System n) :=
  match s.workers w with
  | .idle =>
    match s.jobQueue with
    | [] => some s
    | job :: jobs =>
      some ({ s with jobQueue := jobs }.setWorker w (.busy job .split (download env job)))
  | .busy job next (op :: program) =>
    match op.exec s.disk with
    | none => some (s.setWorker w (.failed job))
    | some (disk, out) =>
      some (({ s with disk := disk }.setWorker w (.busy job next program)).publish .worker out)
  | .busy job .split [] =>
    some (s.setWorker w (.busy job .report (splitUploadSend env s.disk job)))
  | .busy job .report [] => some ((s.setWorker w .idle).post (.jobDone job true))
  | .failed job => some ((s.setWorker w .idle).post (.jobDone job false))

/-! ## Steps -/

/-- A fault is an exception of storage or of the file system at any operation. -/
inductive Action (n : ℕ)
  | manager
  | managerFault
  | request (request : Request) (answer : StorageAnswer)
  | worker (w : Fin n)
  | workerFault (w : Fin n)
  | stop
  | unexpected
  | undecodable

def step (env : Environment) (s : System n) : Action n → Option (System n)
  | .manager => managerStep s
  | .managerFault =>
    match s.phase with
    | .pushing _ => some { s with phase := .raised }
    | .working _ _ => some { s with phase := .raised }
    | _ => none
  | .request request answer =>
    match s.phase with
    | .listening => some (s.handleRequest env request answer)
    | _ => none
  | .worker w => workerStep env w s
  | .workerFault w =>
    match s.workers w with
    | .busy job _ _ => some (s.setWorker w (.failed job))
    | _ => none
  | .stop => some { s with stop := true }
  | .unexpected => some (s.post .unexpected)
  | .undecodable => some (s.post .undecodable)

end SensorDataNormalization.NormalizerSystem
