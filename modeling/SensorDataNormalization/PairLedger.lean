import SensorDataNormalization.CycleAccounting
import SensorDataNormalization.PairSequence

set_option autoImplicit false

/-! What the manager uploads in a cycle is a function of the sequence of PairPut messages
that it dispatches. -/
namespace SensorDataNormalization.PairLedger
open PythonText PcapRecords PcapSplit StoreProgram Messages WorkerProgram ManagerProgram
  ProcessState PairBuckets PairSequence NormalizerSystem SystemSteps CycleAccounting

variable {n : ℕ} {env : Environment}

/-! ## The uploads of a program -/

def opDestination : WorkOp → Option Destination
  | .emit _ destination => some destination
  | _ => none

def emits (program : Program) : List Destination := program.filterMap opDestination

def outDestination : Output Bytes Destination PairPut → Option Destination
  | .published destination _ => some destination
  | _ => none

theorem exec_destination {op : WorkOp} {m m' : Store Str Bytes}
    {out : Output Bytes Destination PairPut} (h : op.exec m = some (m', out)) :
    outDestination out = opDestination op := by
  rcases Op.exec_shows h with ⟨hsilent, rfl⟩ | ⟨_, _, _, rfl, rfl⟩ | ⟨_, _, rfl, rfl⟩
  · cases op <;> first | rfl | exact hsilent.elim
  · rfl
  · rfl

theorem emits_append (p q : Program) : emits (p ++ q) = emits p ++ emits q := List.filterMap_append

theorem emits_cons (op : WorkOp) (p : Program) :
    emits (op :: p) = (opDestination op).toList ++ emits p := by
  cases h : opDestination op <;> simp [emits, h]

/-- The object of a group of pieces: the key of the first one. -/
def groupDestination (g : List PairPut) : Destination where
  key := (g.head?.map (fun p => p.item.prefixPath)).getD []
  sources := g.map PairPut.source

theorem emits_mergePair (a b : PairPut) :
    emits (mergePair [a, b]) = [groupDestination [a, b]] := rfl

theorem emits_uploadUnpaired {groups : List (List PairPut)} (h : ∀ g ∈ groups, ∃ a, g = [a]) :
    emits (uploadUnpaired groups) = groups.map groupDestination := by
  induction groups with
  | nil => rfl
  | cons g rest ih =>
    obtain ⟨a, rfl⟩ := h g List.mem_cons_self
    change emits (uploadBucket [a] ++ uploadUnpaired rest) = _
    rw [emits_append, ih (fun g hg => h g (List.mem_cons_of_mem _ hg))]
    rfl

/-! ## The ledger -/

def putSequence (cycle : Cycle) : Pairing Str PairPut :=
  pairing PairPut.pairKey (puts cycle.dispatched)

def managerUploads (s : System n) : List Destination :=
  (s.cycle.uploads.filter (fun u => decide (u.uploader = .manager))).map Upload.destination

structure Ledger (s : System n) : Prop where
  fifo : s.cycle.posted = s.cycle.dispatched ++ s.mailbox
  applied : Phase.isOpen s.phase → s.buckets = (putSequence s.cycle).buckets
  swept : ¬ Phase.isOpen s.phase → s.buckets = []
  merged : Phase.isOpen s.phase →
    managerUploads s ++ emits s.phase.program = (putSequence s.cycle).pairs.map groupDestination
  planned : ¬ Phase.isOpen s.phase →
    managerUploads s ++ emits s.phase.program = (putSequence s.cycle).groups.map groupDestination

/-- While messages are dispatched, a key waits with one item. -/
theorem Ledger.unmatched {s : System n} (h : Ledger s) (hopen : Phase.isOpen s.phase) :
    Unmatched s.buckets := by
  rw [h.applied hopen]
  exact (pairing_spec PairPut.pairKey _).unmatched

theorem managerUploads_publish (out : Output Bytes Destination PairPut) (s : System n) :
    managerUploads (s.publish .manager out) = managerUploads s ++ (outDestination out).toList := by
  cases out with
  | silent => exact (List.append_nil _).symm
  | published destination contents =>
    simp [System.publish, System.upload, managerUploads, outDestination]
  | given put => exact (List.append_nil _).symm

theorem managerUploads_worker (out : Output Bytes Destination PairPut) (s : System n) :
    managerUploads (s.publish .worker out) = managerUploads s := by
  cases out with
  | silent => rfl
  | published destination contents => simp [System.publish, System.upload, managerUploads]
  | given put => rfl

theorem fifo_publish {who : Uploader} {out : Output Bytes Destination PairPut} {s : System n}
    (h : s.cycle.posted = s.cycle.dispatched ++ s.mailbox) :
    (s.publish who out).cycle.posted =
      (s.publish who out).cycle.dispatched ++ (s.publish who out).mailbox := by
  cases out with
  | silent => exact h
  | published destination contents => exact h
  | given put =>
    change s.cycle.posted ++ [.pairPut put] = s.cycle.dispatched ++ (s.mailbox ++ [.pairPut put])
    rw [h, List.append_assoc]

theorem fifo_post {b : Body} {s : System n}
    (h : s.cycle.posted = s.cycle.dispatched ++ s.mailbox) :
    (s.post b).cycle.posted = (s.post b).cycle.dispatched ++ (s.post b).mailbox := by
  change s.cycle.posted ++ [b] = s.cycle.dispatched ++ (s.mailbox ++ [b])
  rw [h, List.append_assoc]

theorem puts_concat (bodies : List Body) (b : Body) :
    puts (bodies ++ [b]) = puts bodies ++ (bodyPut b).toList := by
  rw [puts, List.filterMap_append]
  cases hb : bodyPut b <;> simp [hb, puts]

theorem ledger_begin {s : System n} (hmail : s.mailbox = []) (request : Request)
    (files : List StorageFile) : Ledger ((s.openCycle env request).beginCycle files) where
  fifo := by
    change [] = [] ++ s.mailbox
    rw [hmail]
    rfl
  applied := fun _ => rfl
  swept := fun h => absurd trivial h
  merged := fun _ => rfl
  planned := fun h => absurd trivial h

theorem between_closed {p : Phase} (h : p.between) : ¬ Phase.isOpen p ∧ p.program = [] := by
  cases p <;> first | exact h.elim | exact ⟨id, rfl⟩

theorem counting_ne_raised {p : Phase} (h : Phase.counting p) : p ≠ .raised := by
  rintro rfl
  exact h

/-! ## The steps -/

namespace Ledger
variable {s : System n} (hi : Ledger s)
include hi

theorem closed (hopen : ¬ Phase.isOpen s.phase) (hprogram : s.phase.program = []) {phase : Phase}
    (hopen' : ¬ Phase.isOpen phase) (hprogram' : phase.program = []) {cycle : Cycle}
    (hdispatched : cycle.dispatched = s.cycle.dispatched) (hposted : cycle.posted = s.cycle.posted)
    (huploads : cycle.uploads = s.cycle.uploads) :
    Ledger { s with phase := phase, cycle := cycle } := by
  refine ⟨?_, fun ho => absurd ho hopen', fun _ => hi.swept hopen, fun ho => absurd ho hopen',
    fun _ => ?_⟩
  · change cycle.posted = cycle.dispatched ++ s.mailbox
    rw [hposted, hdispatched]
    exact hi.fifo
  · have hplan := hi.planned hopen
    rw [hprogram] at hplan
    simpa [managerUploads, putSequence, hprogram', hdispatched, huploads] using hplan

theorem opened (hopen : Phase.isOpen s.phase) (hprogram : s.phase.program = []) (phase : Phase)
    (hopen' : Phase.isOpen phase) (hprogram' : phase.program = []) (jobQueue : List Job) :
    Ledger { s with jobQueue := jobQueue, phase := phase } := by
  refine ⟨hi.fifo, fun _ => hi.applied hopen, fun h => absurd hopen' h, fun _ => ?_,
    fun h => absurd hopen' h⟩
  have hm := hi.merged hopen
  rw [hprogram] at hm
  change managerUploads s ++ emits phase.program = (putSequence s.cycle).pairs.map groupDestination
  rw [hprogram']
  exact hm

theorem manage {stage : Stage} {op : WorkOp} {program : Program} {disk : Store Str Bytes}
    {out : Output Bytes Destination PairPut} (hphase : s.phase = .working stage (op :: program))
    (hexec : op.exec s.disk = some (disk, out)) :
    Ledger ({ s with disk := disk, phase := .working stage program }.publish .manager out) := by
  have hplan : managerUploads ({ s with disk := disk, phase := .working stage program }.publish
      .manager out) ++ emits program = managerUploads s ++ emits s.phase.program := by
    rw [managerUploads_publish, exec_destination hexec, hphase]
    change managerUploads s ++ _ ++ _ = managerUploads s ++ emits (op :: program)
    rw [emits_cons, List.append_assoc]
  have hopen : Phase.isOpen (Phase.working stage program) → Phase.isOpen s.phase := by
    rw [hphase]
    cases stage <;> exact id
  have hclosed : ¬ Phase.isOpen (Phase.working stage program) → ¬ Phase.isOpen s.phase := by
    rw [hphase]
    cases stage <;> exact id
  refine ⟨fifo_publish hi.fifo, fun ho => ?_, fun ho => ?_, fun ho => ?_, fun ho => ?_⟩
  all_goals rw [publish_phase] at ho
  · simpa [putSequence] using hi.applied (hopen ho)
  · simpa using hi.swept (hclosed ho)
  · rw [publish_phase, putSequence, publish_dispatched]
    exact hplan.trans (hi.merged (hopen ho))
  · rw [publish_phase, putSequence, publish_dispatched]
    exact hplan.trans (hi.planned (hclosed ho))

theorem sweep (hphase : s.phase = .working .drain []) : Ledger s.sweep := by
  have ho : Phase.isOpen s.phase := by rw [hphase]; trivial
  refine ⟨hi.fifo, fun h => h.elim, fun _ => rfl, fun h => h.elim, fun _ => ?_⟩
  have hm := hi.merged ho
  rw [hphase] at hm
  have hsingle : ∀ g ∈ s.buckets.popAllRemaining, ∃ a, g = [a] := by
    intro g hg
    obtain ⟨row, hrow, rfl⟩ := List.mem_map.mp hg
    exact (hi.unmatched ho).single row hrow
  change managerUploads s ++ emits (uploadUnpaired s.buckets.popAllRemaining) =
    (putSequence s.cycle).groups.map groupDestination
  rw [emits_uploadUnpaired hsingle, Pairing.groups, List.map_append, ← hm, hi.applied ho]
  simp [Phase.program, emits]

theorem fifo_dispatch {b : Body} {mailbox : List Body} (hmail : s.mailbox = b :: mailbox) :
    s.cycle.posted = s.cycle.dispatched ++ [b] ++ mailbox := by
  rw [hi.fifo, hmail, List.append_assoc]
  rfl

section Dispatch
variable {mailbox : List Body} (hphase : s.phase = .working .drain [])
include hphase

theorem jobDone {job : Job} {success : Bool}
    (hmail : s.mailbox = .jobDone job success :: mailbox) :
    Ledger (System.dispatchMessage (.jobDone job success) { s with
      mailbox := mailbox
      cycle.dispatched := s.cycle.dispatched ++ [.jobDone job success] }) := by
  have ho : Phase.isOpen s.phase := by rw [hphase]; trivial
  have hsame : putSequence
      { s.cycle with dispatched := s.cycle.dispatched ++ [.jobDone job success] } =
        putSequence s.cycle := by
    change pairing PairPut.pairKey (puts (s.cycle.dispatched ++ [.jobDone job success])) = _
    rw [puts_concat]
    exact congrArg (pairing PairPut.pairKey) (List.append_nil _)
  refine ⟨hi.fifo_dispatch hmail, fun _ => ?_, fun h => absurd ho h, fun _ => ?_,
    fun h => absurd ho h⟩
  · exact (hi.applied ho).trans (congrArg Pairing.buckets hsame).symm
  · change managerUploads s ++ emits s.phase.program = (putSequence
      { s.cycle with dispatched := s.cycle.dispatched ++ [.jobDone job success] }).pairs.map _
    rw [hsame]
    exact hi.merged ho

theorem pairPut {put : PairPut} (hmail : s.mailbox = .pairPut put :: mailbox) :
    Ledger (System.dispatchMessage (.pairPut put) { s with
      mailbox := mailbox
      cycle.dispatched := s.cycle.dispatched ++ [.pairPut put] }) := by
  have ho : Phase.isOpen s.phase := by rw [hphase]; trivial
  have hm := hi.merged ho
  rw [hphase] at hm
  have hadd : putSequence { s.cycle with dispatched := s.cycle.dispatched ++ [.pairPut put] } =
      (putSequence s.cycle).add PairPut.pairKey put := by
    change pairing PairPut.pairKey (puts (s.cycle.dispatched ++ [.pairPut put])) = _
    rw [puts_concat]
    exact pairing_concat PairPut.pairKey _ put
  have hbuckets := hi.applied ho
  refine ⟨hi.fifo_dispatch hmail, fun _ => ?_, fun h => absurd trivial h, fun _ => ?_,
    fun h => absurd trivial h⟩
  · change (PairBuckets.put put.pairKey put s.buckets).1 = (putSequence
      { s.cycle with dispatched := s.cycle.dispatched ++ [.pairPut put] }).buckets
    rw [hadd, hbuckets]
    rfl
  · change managerUploads s ++ emits (mergeReady
      (PairBuckets.put put.pairKey put s.buckets).2) = (putSequence
        { s.cycle with dispatched := s.cycle.dispatched ++ [.pairPut put] }).pairs.map _
    rw [hadd, Pairing.add, List.map_append, ← hm, hbuckets]
    have hunmatched := (pairing_spec PairPut.pairKey (puts s.cycle.dispatched)).unmatched
    obtain ⟨-, hput⟩ | ⟨before, after, c, -, hput⟩ := put_cases hunmatched put.pairKey put
    · change managerUploads s ++ emits (mergeReady (PairBuckets.put put.pairKey put
        (pairing PairPut.pairKey (puts s.cycle.dispatched)).buckets).2) = _
      rw [putSequence, hput]
      simp [Phase.program, emits, mergeReady]
    · change managerUploads s ++ emits (mergeReady (PairBuckets.put put.pairKey put
        (pairing PairPut.pairKey (puts s.cycle.dispatched)).buckets).2) = _
      rw [putSequence, hput]
      change managerUploads s ++ emits (mergePair [c, put]) = _
      rw [emits_mergePair]
      simp [Phase.program, emits]

end Dispatch

theorem work (w : Fin n) (u : Worker) (disk : Store Str Bytes)
    (out : Output Bytes Destination PairPut) :
    Ledger (({ s with disk := disk }.setWorker w u).publish .worker out) := by
  refine ⟨fifo_publish hi.fifo, fun ho => ?_, fun ho => ?_, fun ho => ?_, fun ho => ?_⟩
  all_goals rw [publish_phase] at ho
  · simpa [putSequence, System.setWorker] using hi.applied ho
  · simpa [System.setWorker] using hi.swept ho
  · rw [managerUploads_worker, publish_phase, putSequence, publish_dispatched]
    exact hi.merged ho
  · rw [managerUploads_worker, publish_phase, putSequence, publish_dispatched]
    exact hi.planned ho

end Ledger

/-- A step inside a cycle keeps the ledger, unless the manager raises. -/
theorem ledger_step {s s' : System n} {a : Action n} (hi : Ledger s) (h : Move env s a s')
    (ha : ∀ request answer, a ≠ .request request answer) (hold : s.phase ≠ .raised)
    (hkept : s'.phase ≠ .raised) : Ledger s' := by
  cases h with
  | reject => exact absurd rfl (ha _ _)
  | begin => exact absurd rfl (ha _ _)
  | loop hbefore hafter =>
    obtain ⟨hopen, hprogram⟩ := between_closed hbefore
    obtain ⟨hopen', hprogram'⟩ := between_closed hafter
    exact hi.closed hopen hprogram hopen' hprogram' rfl rfl rfl
  | fail => exact absurd rfl hkept
  | fault => exact absurd rfl hkept
  | notify hphase =>
    exact hi.closed (by rw [hphase]; exact id) (by rw [hphase]; rfl) id rfl rfl rfl rfl
  | notifyFailure hphase => exact absurd hphase hold
  | wait => exact hi
  | poll => exact hi
  | @push job jobs hphase =>
    exact hi.opened (by rw [hphase]; trivial) (by rw [hphase]; rfl) (.pushing jobs) trivial rfl _
  | pushed hphase =>
    exact hi.opened (by rw [hphase]; trivial) (by rw [hphase]; rfl) (.working .drain []) trivial
      rfl s.jobQueue
  | manage hphase hexec => exact hi.manage hphase hexec
  | sweep hphase hexit => exact hi.sweep hphase
  | @dispatch b mailbox hphase hmail =>
    cases b with
    | jobDone job success => exact hi.jobDone hphase hmail
    | pairPut put => exact hi.pairPut hphase hmail
    | unexpected => exact absurd rfl hkept
    | undecodable => exact absurd rfl hkept
  | swept hphase =>
    exact hi.closed (by rw [hphase]; exact id) (by rw [hphase]; rfl) id rfl rfl rfl rfl
  | take => exact ⟨hi.fifo, hi.applied, hi.swept, hi.merged, hi.planned⟩
  | work hworker hexec => exact hi.work _ _ _ _
  | workerFail => exact ⟨hi.fifo, hi.applied, hi.swept, hi.merged, hi.planned⟩
  | workerFault => exact ⟨hi.fifo, hi.applied, hi.swept, hi.merged, hi.planned⟩
  | split => exact ⟨hi.fifo, hi.applied, hi.swept, hi.merged, hi.planned⟩
  | report => exact ⟨fifo_post hi.fifo, hi.applied, hi.swept, hi.merged, hi.planned⟩
  | stop => exact ⟨hi.fifo, hi.applied, hi.swept, hi.merged, hi.planned⟩
  | unexpected => exact ⟨fifo_post hi.fifo, hi.applied, hi.swept, hi.merged, hi.planned⟩
  | undecodable => exact ⟨fifo_post hi.fifo, hi.applied, hi.swept, hi.merged, hi.planned⟩

end SensorDataNormalization.PairLedger
