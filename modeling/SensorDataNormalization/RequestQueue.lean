import SensorDataNormalization.RequestListener
import SensorDataNormalization.Shutdown

set_option autoImplicit false

/-! The request queue and the daemon behind it: the manager pops one entry a turn in `poll`, and
each request among the entries opens a cycle. -/
namespace SensorDataNormalization.RequestQueue
open PythonText PcapRecords JsonMessages RequestListener ProjectConfig StoreProgram Messages
  WorkerPaths WorkerProgram ManagerProgram NormalizerSystem SystemSteps SystemFlow CycleIsolation
  FairRuns CycleProgress Shutdown

variable {n : ℕ}

/-! ## The fields of a request as texts -/

/-- A code point that is a character, not a lone surrogate. -/
def charOf (c : ℕ) : Option Char := if c.isValidChar then some (Char.ofNat c) else none

def textOf : Json → Option Str
  | .str value => value.mapM charOf
  | _ => none

theorem charOf_toNat (c : Char) : charOf c.toNat = some c := by
  have hvalid : c.toNat.isValidChar := c.valid
  rw [charOf, if_pos hvalid, Char.ofNat_toNat]

theorem textOf_codes (s : Str) : textOf (.str (codes s)) = some s := by
  induction s with
  | nil => rfl
  | cons c s ih =>
    change (codes s).mapM charOf = some s at ih
    change (c.toNat :: codes s).mapM charOf = some (c :: s)
    rw [List.mapM_cons, charOf_toNat, ih]
    rfl

/-- The request of a message whose fields are texts; the device may be null. -/
def toRequest (message : NormalizationRequest) : Option Request := do
  let requestId ← textOf message.requestId
  let date ← textOf message.date
  let vehicleId ← textOf message.vehicleId
  let selectedDevice ← match message.selectedDevice with
    | .null => some none
    | device => (textOf device).map some
  return ⟨requestId, date, vehicleId, selectedDevice⟩

/-! ## The daemon behind its queue -/

structure Host where
  env : Environment
  python : Python
  queueName : Bytes

/-- An entry of the queue, with the request id that it gets if it has none. -/
structure Entry where
  nextId : Str
  body : Bytes
  deriving DecidableEq

/-- `queue` is the Redis list from the end that `brpop` takes. What was pushed and popped and the
notices of the cycles before the last one are history. -/
structure Daemon (n : ℕ) where
  system : System n
  queue : List Bytes
  arrived : List Bytes
  popped : List Entry
  earlier : List Notice
  disconnected : Bool

def Daemon.init (disk s3 : Store Str Bytes) : Daemon n :=
  ⟨System.init disk s3, [], [], [], [], false⟩

def Daemon.sent (d : Daemon n) : List Notice := d.earlier ++ d.system.cycle.notices

namespace Host
variable (host : Host)

def poll (entry : Entry) : Except PyException (Option NormalizationRequest) :=
  RequestListener.poll { host.python with nextId := entry.nextId } host.env.config.redisReceiver
    (some (host.queueName, entry.body))

def request (entry : Entry) : Option Request :=
  match host.poll entry with
  | .ok (some message) => toRequest message
  | _ => none

def requests (popped : List Entry) : List Request := popped.filterMap host.request

end Host

/-- `action` from the answer of `brpop` on. An exception out of `poll` ends the process. -/
def Daemon.receive (host : Host) (entry : Entry) (answer : StorageAnswer) (d : Daemon n) :
    Option (Daemon n) :=
  match host.poll entry with
  | .error _ => some { d with popped := d.popped ++ [entry], system.phase := .exited }
  | .ok none => some { d with popped := d.popped ++ [entry], system.phase := .ready }
  | .ok (some message) => (toRequest message).map (fun request =>
      { d with
        popped := d.popped ++ [entry]
        system := d.system.handleRequest host.env request answer
        earlier := d.earlier ++ d.system.cycle.notices })

/-- A turn of the manager: in `poll` it takes the oldest entry, or waits for one in vain. -/
def managerTurn (host : Host) (nextId : Str) (answer : StorageAnswer) (d : Daemon n) :
    Option (Daemon n) :=
  match d.system.phase, d.queue with
  | .listening, body :: queue => { d with queue := queue }.receive host ⟨nextId, body⟩ answer
  | _, _ => (managerStep d.system).map (fun s => { d with system := s })

/-- A turn of the manager comes with what storage lists for the request if it takes one;
`disconnect` is an exception of `brpop`. -/
inductive Event (n : ℕ)
  | manager (nextId : Str) (answer : StorageAnswer)
  | disconnect
  | lpush (body : Bytes)
  | system (a : Action n)

def step (host : Host) (d : Daemon n) : Event n → Option (Daemon n)
  | .manager nextId answer => managerTurn host nextId answer d
  | .disconnect =>
    match d.system.phase with
    | .listening => some { d with system.phase := .exited, disconnected := true }
    | _ => none
  | .lpush body => some { d with queue := d.queue ++ [body], arrived := d.arrived ++ [body] }
  | .system .manager => none
  | .system (.request _ _) => none
  | .system a => (NormalizerSystem.step host.env d.system a).map (fun s => { d with system := s })

/-! ## What a step can do -/

variable {host : Host}

inductive Turn (host : Host) (d : Daemon n) : Event n → Daemon n → Prop
  | raises {nextId : Str} {answer : StorageAnswer} {body : Bytes} {queue : List Bytes}
      {e : PyException} (hphase : d.system.phase = .listening) (hqueue : d.queue = body :: queue)
      (hpoll : host.poll ⟨nextId, body⟩ = .error e) :
      Turn host d (.manager nextId answer)
        { d with
          queue := queue
          popped := d.popped ++ [⟨nextId, body⟩]
          system.phase := .exited }
  | drops {nextId : Str} {answer : StorageAnswer} {body : Bytes} {queue : List Bytes}
      (hphase : d.system.phase = .listening) (hqueue : d.queue = body :: queue)
      (hpoll : host.poll ⟨nextId, body⟩ = .ok none) :
      Turn host d (.manager nextId answer)
        { d with
          queue := queue
          popped := d.popped ++ [⟨nextId, body⟩]
          system.phase := .ready }
  | opens {nextId : Str} {answer : StorageAnswer} {body : Bytes} {queue : List Bytes}
      {message : NormalizationRequest} {request : Request} {s : System n}
      (hphase : d.system.phase = .listening) (hqueue : d.queue = body :: queue)
      (hpoll : host.poll ⟨nextId, body⟩ = .ok (some message))
      (hrequest : toRequest message = some request)
      (hstep : NormalizerSystem.step host.env d.system (.request request answer) = some s) :
      Turn host d (.manager nextId answer)
        { d with
          queue := queue
          popped := d.popped ++ [⟨nextId, body⟩]
          system := s
          earlier := d.earlier ++ d.system.cycle.notices }
  | manages {nextId : Str} {answer : StorageAnswer} {s : System n}
      (hidle : d.system.phase = .listening → d.queue = [])
      (hstep : NormalizerSystem.step host.env d.system .manager = some s) :
      Turn host d (.manager nextId answer) { d with system := s }
  | disconnects (hphase : d.system.phase = .listening) :
      Turn host d .disconnect { d with system.phase := .exited, disconnected := true }
  | pushes {body : Bytes} : Turn host d (.lpush body)
      { d with queue := d.queue ++ [body], arrived := d.arrived ++ [body] }
  | runs {a : Action n} {s : System n} (hmanager : a ≠ .manager)
      (hrequest : ∀ request answer, a ≠ .request request answer)
      (hstep : NormalizerSystem.step host.env d.system a = some s) :
      Turn host d (.system a) { d with system := s }

theorem managerTurn_cases {d d' : Daemon n} {nextId : Str} {answer : StorageAnswer}
    (h : managerTurn host nextId answer d = some d') : Turn host d (.manager nextId answer) d' := by
  unfold managerTurn at h
  split at h
  · rename_i body queue hphase hqueue
    unfold Daemon.receive at h
    split at h
    · rename_i hpoll
      cases h
      exact .raises hphase hqueue hpoll
    · rename_i hpoll
      cases h
      exact .drops hphase hqueue hpoll
    · rename_i message hpoll
      obtain ⟨request, hrequest, rfl⟩ := Option.map_eq_some_iff.mp h
      exact .opens hphase hqueue hpoll hrequest (by rw [NormalizerSystem.step, hphase])
  · rename_i hnot
    obtain ⟨s, hs, rfl⟩ := Option.map_eq_some_iff.mp h
    refine .manages (fun hphase => ?_) hs
    cases hqueue : d.queue with
    | nil => rfl
    | cons body queue => exact absurd hqueue (hnot body queue hphase)

theorem step_system {d : Daemon n} {a : Action n} (hmanager : a ≠ .manager)
    (hrequest : ∀ request answer, a ≠ .request request answer) : step host d (.system a) =
      (NormalizerSystem.step host.env d.system a).map (fun s => { d with system := s }) := by
  cases a with
  | manager => exact absurd rfl hmanager
  | request request answer => exact absurd rfl (hrequest request answer)
  | _ => rfl

theorem step_cases {d d' : Daemon n} {e : Event n} (h : step host d e = some d') :
    Turn host d e d' := by
  cases e with
  | manager nextId answer => exact managerTurn_cases h
  | disconnect =>
    simp only [step] at h
    split at h
    · rename_i hphase
      cases h
      exact .disconnects hphase
    · cases h
  | lpush body =>
    cases h
    exact .pushes
  | system a =>
    by_cases hmanager : a = .manager
    · rw [hmanager] at h
      cases h
    · have hrequest : ∀ request answer, a ≠ .request request answer := by
        rintro request answer rfl
        cases h
      rw [step_system hmanager hrequest] at h
      obtain ⟨s, hs, rfl⟩ := Option.map_eq_some_iff.mp h
      exact .runs hmanager hrequest hs

/-! ## What holds in every run -/

def Concerns (requestId summary : Str) : Notice → Prop
  | .success id text => id = requestId ∧ text = summary
  | .failure id text _ => id = requestId ∧ text = summary

def Answers (c : Config) (request : Request) (notice : Notice) : Prop :=
  Concerns request.requestId (summaryOf c request) notice

theorem notice_concerns (s : System n) : Concerns s.cycle.requestId s.cycle.summary s.notice := by
  unfold System.notice
  split_ifs <;> exact ⟨rfl, rfl⟩

theorem publish_header (who : Uploader) (out : Output Bytes Destination PairPut) (s : System n) :
    (s.publish who out).cycle.requestId = s.cycle.requestId ∧
      (s.publish who out).cycle.summary = s.cycle.summary := by
  cases out <;> exact ⟨rfl, rfl⟩

variable {env : Environment}

theorem move_header {s s' : System n} {a : Action n} (h : Move env s a s')
    (ha : ∀ request answer, a ≠ .request request answer) :
    s'.cycle.requestId = s.cycle.requestId ∧ s'.cycle.summary = s.cycle.summary := by
  cases h with
  | reject => exact absurd rfl (ha _ _)
  | begin => exact absurd rfl (ha _ _)
  | manage => exact publish_header _ _ _
  | work => exact publish_header _ _ _
  | @dispatch b => cases b <;> exact ⟨rfl, rfl⟩
  | _ => exact ⟨rfl, rfl⟩

/-- A step without a request ends the cycle with a notice about it, or sends nothing. -/
theorem move_notice {s s' : System n} {a : Action n} (h : Move env s a s')
    (ha : ∀ request answer, a ≠ .request request answer) :
    (s'.cycle.notices = s.cycle.notices ∧ (s'.phase.between ↔ s.phase.between)) ∨
      (¬ s.phase.between ∧ s'.phase.between ∧ ∃ notice,
        s'.cycle.notices = s.cycle.notices ++ [notice] ∧
          Concerns s.cycle.requestId s.cycle.summary notice) := by
  have hinside : ¬ s.phase.between → ¬ s'.phase.between → (s'.phase.between ↔ s.phase.between) :=
    fun h h' => ⟨fun hb => absurd hb h', fun hb => absurd hb h⟩
  cases h with
  | reject => exact absurd rfl (ha _ _)
  | begin => exact absurd rfl (ha _ _)
  | loop hold hnew => exact Or.inl ⟨rfl, fun _ => hold, fun _ => hnew⟩
  | push hphase => exact Or.inl ⟨rfl, hinside (by rw [hphase]; exact id) id⟩
  | pushed hphase => exact Or.inl ⟨rfl, hinside (by rw [hphase]; exact id) id⟩
  | manage hphase =>
    exact Or.inl ⟨publish_notices _ _ _,
      hinside (by rw [hphase]; exact id) (by rw [publish_phase]; exact id)⟩
  | fail hphase => exact Or.inl ⟨rfl, hinside (by rw [hphase]; exact id) id⟩
  | fault hphase =>
    refine Or.inl ⟨rfl, hinside ?_ id⟩
    cases hp : s.phase <;> rw [hp] at hphase <;> first | exact hphase.elim | exact id
  | sweep hphase => exact Or.inl ⟨rfl, hinside (by rw [hphase]; exact id) id⟩
  | @dispatch b mailbox hphase =>
    have hdrain : ¬ s.phase.between := by
      rw [hphase]
      exact id
    cases b with
    | jobDone job success => exact Or.inl ⟨rfl, Iff.rfl⟩
    | pairPut put => exact Or.inl ⟨rfl, hinside hdrain id⟩
    | unexpected => exact Or.inl ⟨rfl, hinside hdrain id⟩
    | undecodable => exact Or.inl ⟨rfl, hinside hdrain id⟩
  | swept hphase => exact Or.inl ⟨rfl, hinside (by rw [hphase]; exact id) id⟩
  | notify hphase =>
    exact Or.inr ⟨by rw [hphase]; exact id, trivial, _, rfl, notice_concerns s⟩
  | notifyFailure hphase =>
    exact Or.inr ⟨by rw [hphase]; exact id, trivial, _, rfl, rfl, rfl⟩
  | work => exact Or.inl ⟨publish_notices _ _ _, by rw [publish_phase]; rfl⟩
  | _ => exact Or.inl ⟨rfl, Iff.rfl⟩

/-- The request in work: the last one among the entries. -/
structure InWork (host : Host) (d : Daemon n) (answered : List Request) (request : Request) :
    Prop where
  requests : host.requests d.popped = answered ++ [request]
  requestId : d.system.cycle.requestId = request.requestId
  summary : d.system.cycle.summary = summaryOf host.env.config request
  silent : d.system.cycle.notices = []

structure Served (host : Host) (d : Daemon n) : Prop where
  fifo : d.arrived = d.popped.map Entry.body ++ d.queue
  between : d.system.phase.between →
    List.Forall₂ (Answers host.env.config) (host.requests d.popped) d.sent
  within : ¬ d.system.phase.between → ∃ answered request, InWork host d answered request ∧
    List.Forall₂ (Answers host.env.config) answered d.earlier

theorem requests_append (host : Host) (popped : List Entry) (entry : Entry) :
    host.requests (popped ++ [entry]) = host.requests popped ++ (host.request entry).toList := by
  rw [Host.requests, List.filterMap_append]
  cases h : host.request entry <;> simp [Host.requests, h]

theorem served_init (disk s3 : Store Str Bytes) : Served host (Daemon.init disk s3 : Daemon n) :=
  ⟨rfl, fun _ => List.Forall₂.nil, fun h => absurd trivial h⟩

theorem served_move {d : Daemon n} {s : System n} {a : Action n} (hi : Served host d)
    (h : Move host.env d.system a s) (ha : ∀ request answer, a ≠ .request request answer) :
    Served host { d with system := s } := by
  obtain ⟨hid, hsummary⟩ := move_header h ha
  rcases move_notice h ha with ⟨hnotices, hphase⟩ | ⟨hin, hout, notice, hnotices, hconcerns⟩
  · refine ⟨hi.fifo, fun hb => ?_, fun hb => ?_⟩
    · have hsent := hi.between (hphase.mp hb)
      rw [Daemon.sent, ← hnotices] at hsent
      exact hsent
    · obtain ⟨answered, request, hwork, hsent⟩ := hi.within (fun hb' => hb (hphase.mpr hb'))
      exact ⟨answered, request, ⟨hwork.requests, hid.trans hwork.requestId,
        hsummary.trans hwork.summary, hnotices.trans hwork.silent⟩, hsent⟩
  · refine ⟨hi.fifo, fun _ => ?_, fun hb => absurd hout hb⟩
    obtain ⟨answered, request, hwork, hsent⟩ := hi.within hin
    have hlast : Answers host.env.config request notice := by
      rw [Answers, ← hwork.requestId, ← hwork.summary]
      exact hconcerns
    change List.Forall₂ _ (host.requests d.popped) (d.earlier ++ s.cycle.notices)
    rw [hwork.requests, hnotices, hwork.silent]
    exact List.rel_append hsent (.cons hlast .nil)

theorem served_pass {d : Daemon n} {entry : Entry} {queue : List Bytes} {phase : Phase}
    (hi : Served host d) (hphase : d.system.phase.between) (hqueue : d.queue = entry.body :: queue)
    (hrequest : host.request entry = none) (hnew : phase.between) : Served host { d with
      queue := queue
      popped := d.popped ++ [entry]
      system.phase := phase } := by
  refine ⟨?_, fun _ => ?_, fun hb => absurd hnew hb⟩
  · change d.arrived = (d.popped ++ [entry]).map Entry.body ++ queue
    rw [hi.fifo, hqueue]
    simp
  · change List.Forall₂ _ (host.requests (d.popped ++ [entry])) d.sent
    rw [requests_append, hrequest, Option.toList_none, List.append_nil]
    exact hi.between hphase

theorem served_step {d d' : Daemon n} {e : Event n} (hi : Served host d)
    (h : step host d e = some d') : Served host d' := by
  cases step_cases h with
  | raises hphase hqueue hpoll =>
    exact served_pass hi (by rw [hphase]; trivial) hqueue (by rw [Host.request, hpoll]) trivial
  | drops hphase hqueue hpoll =>
    exact served_pass hi (by rw [hphase]; trivial) hqueue (by rw [Host.request, hpoll]) trivial
  | @opens nextId answer body queue message request s hphase hqueue hpoll hrequest hstep =>
    have hsent := hi.between (by rw [hphase]; trivial)
    have htaken : host.request ⟨nextId, body⟩ = some request := by
      rw [Host.request, hpoll]
      exact hrequest
    have hrequests : host.requests (d.popped ++ [⟨nextId, body⟩]) =
        host.requests d.popped ++ [request] := by
      rw [requests_append, htaken]
      rfl
    have hfifo : d.arrived = (d.popped ++ [Entry.mk nextId body]).map Entry.body ++ queue := by
      rw [hi.fifo, hqueue]
      simp
    cases step_move hstep with
    | reject =>
      exact ⟨hfifo, fun hb => hb.elim, fun _ => ⟨_, request, ⟨hrequests, rfl, rfl, rfl⟩, hsent⟩⟩
    | begin =>
      exact ⟨hfifo, fun hb => hb.elim, fun _ => ⟨_, request, ⟨hrequests, rfl, rfl, rfl⟩, hsent⟩⟩
  | manages _ hstep => exact served_move hi (step_move hstep) (by simp)
  | disconnects hphase =>
    exact ⟨hi.fifo, fun _ => hi.between (by rw [hphase]; trivial), fun hb => absurd trivial hb⟩
  | pushes =>
    refine ⟨?_, hi.between, fun hb => ?_⟩
    · change d.arrived ++ _ = _ ++ (d.queue ++ _)
      rw [hi.fifo, List.append_assoc]
    · obtain ⟨answered, request, hwork, hsent⟩ := hi.within hb
      exact ⟨answered, request, ⟨hwork.1, hwork.2, hwork.3, hwork.4⟩, hsent⟩
  | runs _ hrequest hstep => exact served_move hi (step_move hstep) hrequest

/-! ## When the manager exits -/

/-- An entry whose exception leaves `poll`. -/
def Fatal (host : Host) (entry : Entry) : Prop := ∃ e, host.poll entry = .error e

theorem runs_exited {s s' : System n} {a : Action n} (h : Move env s a s') (hm : a ≠ .manager)
    (ha : ∀ request answer, a ≠ .request request answer) :
    s'.phase = .exited ↔ s.phase = .exited := by
  by_cases hf : a = .managerFault
  · subst hf
    cases h with
    | fault hphase =>
      constructor
      · intro he
        cases he
      · intro he
        rw [he] at hphase
        exact hphase.elim
  · rw [(others_keep h hm hf ha).1]

/-- Only a stop request leads the manager from the head of its loop to its end. -/
theorem manager_exits {s s' : System n} (h : managerStep s = some s') (he : s'.phase = .exited) :
    s.stop = true := by
  by_contra hstop
  have hphase : s.phase ≠ .exited := by
    intro hp
    rw [managerStep, hp] at h
    cases h
  obtain ⟨t, ht, -, hphase'⟩ := managerStep_running (Bool.eq_false_iff.mpr hstop) hphase
  rw [ht] at h
  cases h
  exact hphase' he

structure Exits (host : Host) (d : Daemon n) : Prop where
  alive : d.system.phase ≠ .exited → ∀ entry ∈ d.popped, ¬ Fatal host entry
  first : ∀ entry ∈ d.popped.dropLast, ¬ Fatal host entry
  cause : d.system.phase = .exited → d.system.stop = true ∨ d.disconnected = true ∨
    ∃ before last, d.popped = before ++ [last] ∧ Fatal host last

theorem exits_pop {d : Daemon n} {entry : Entry} (hi : Exits host d)
    (hphase : d.system.phase = .listening) :
    ∀ e ∈ (d.popped ++ [entry]).dropLast, ¬ Fatal host e := by
  rw [List.dropLast_concat]
  exact hi.alive (by rw [hphase]; simp)

theorem exits_move {d : Daemon n} {s : System n} {a : Action n} (hi : Exits host d)
    (h : NormalizerSystem.step host.env d.system a = some s)
    (ha : ∀ request answer, a ≠ .request request answer) :
    Exits host { d with system := s } := by
  have hmove := step_move h
  by_cases hm : a = .manager
  · subst hm
    have hrunning : d.system.phase ≠ .exited := by
      intro he
      change managerStep d.system = some s at h
      rw [managerStep, he] at h
      cases h
    exact ⟨fun _ => hi.alive hrunning, hi.first,
      fun he => Or.inl (stop_stays hmove (manager_exits h he))⟩
  · have hexit := runs_exited hmove hm ha
    refine ⟨fun he => hi.alive (fun he' => he (hexit.mpr he')), hi.first, fun he => ?_⟩
    exact (hi.cause (hexit.mp he)).imp_left (stop_stays hmove)

theorem exits_step {d d' : Daemon n} {e : Event n} (hi : Exits host d)
    (h : step host d e = some d') : Exits host d' := by
  cases step_cases h with
  | @raises nextId answer body queue e hphase _ hpoll =>
    exact ⟨fun hne => absurd rfl hne, exits_pop hi hphase,
      fun _ => Or.inr (Or.inr ⟨d.popped, _, rfl, e, hpoll⟩)⟩
  | drops hphase _ hpoll =>
    refine ⟨fun _ entry hentry => ?_, exits_pop hi hphase, fun he => by cases he⟩
    rcases List.mem_append.mp hentry with hold | hnew
    · exact hi.alive (by rw [hphase]; simp) entry hold
    · rw [List.mem_singleton.mp hnew]
      rintro ⟨e, he⟩
      rw [hpoll] at he
      cases he
  | opens hphase _ hpoll _ hstep =>
    refine ⟨fun _ entry hentry => ?_, exits_pop hi hphase, fun he => ?_⟩
    · rcases List.mem_append.mp hentry with hold | hnew
      · exact hi.alive (by rw [hphase]; simp) entry hold
      · rw [List.mem_singleton.mp hnew]
        rintro ⟨e, he⟩
        rw [hpoll] at he
        cases he
    · cases step_move hstep <;> cases he
  | manages _ hstep => exact exits_move hi hstep (by simp)
  | disconnects hphase =>
    exact ⟨fun hne => absurd rfl hne, hi.first, fun _ => Or.inr (Or.inl rfl)⟩
  | pushes => exact ⟨hi.alive, hi.first, hi.cause⟩
  | runs _ hrequest hstep => exact exits_move hi hstep hrequest

theorem exits_init (disk s3 : Store Str Bytes) : Exits host (Daemon.init disk s3 : Daemon n) :=
  ⟨fun _ _ h => absurd h List.not_mem_nil, fun _ h => absurd h List.not_mem_nil,
    fun h => by cases h⟩

def Reached (host : Host) : Daemon n → Daemon n → Prop :=
  Relation.ReflTransGen (fun d d' => ∃ e, step host d e = some d')

theorem reached_keeps {I : Daemon n → Prop} {d d' : Daemon n} (run : Reached host d d')
    (hstep : ∀ {d d' e}, I d → step host d e = some d' → I d') (hi : I d) : I d' := by
  induction run with
  | refl => exact hi
  | tail _ h ih =>
    obtain ⟨e, he⟩ := h
    exact hstep ih he

/-- In every run the entries are popped in the order in which they were pushed, none twice and
none skipped. The requests among them are answered one by one in the same order, each under its
own id and summary, up to the one in work. The manager is at its end only after a stop request,
an exception of `brpop`, or an entry whose exception leaves `poll`, and that entry is the last
one that is popped. -/
theorem requests_in_order {disk s3 : Store Str Bytes} {d : Daemon n}
    (run : Reached host (Daemon.init disk s3) d) :
    d.arrived = d.popped.map Entry.body ++ d.queue ∧
      (∃ answered pending, host.requests d.popped = answered ++ pending ∧
        List.Forall₂ (Answers host.env.config) answered d.sent ∧
        (d.system.phase.between → pending = []) ∧
        (¬ d.system.phase.between → ∃ request, pending = [request] ∧
          d.system.cycle.requestId = request.requestId)) ∧
      (∀ entry ∈ d.popped.dropLast, ¬ Fatal host entry) ∧
      (d.system.phase = .exited → d.system.stop = true ∨ d.disconnected = true ∨
        ∃ before last, d.popped = before ++ [last] ∧ Fatal host last) := by
  have hserved := reached_keeps run served_step (served_init disk s3)
  have hexits := reached_keeps run exits_step (exits_init disk s3)
  refine ⟨hserved.fifo, ?_, hexits.first, hexits.cause⟩
  by_cases hb : d.system.phase.between
  · exact ⟨_, [], (List.append_nil _).symm, hserved.between hb, fun _ => rfl, absurd hb⟩
  · obtain ⟨answered, request, hwork, hsent⟩ := hserved.within hb
    refine ⟨answered, [request], hwork.requests, ?_, fun h => absurd h hb,
      fun _ => ⟨request, rfl, hwork.requestId⟩⟩
    rw [Daemon.sent, hwork.silent, List.append_nil]
    exact hsent

/-! ### A request for one day -/

def dayText : Str := "\x7b\"receiver\":\"normalizer\",\"date\":\"20240101\"\x7d".toList

def dayGiven : Keywords :=
  [(codes "receiver".toList, .str (codes "normalizer".toList)),
    (codes "date".toList, .str (codes "20240101".toList))]

def loadsDay (text : Str) : Option Json := if text = dayText then some (.dict dayGiven) else none

def dayHost : Host where
  env := hostOf sharedSecond
  python := ⟨loadsDay, [], unicodeDecimal, twoTexts.decimal_ascii⟩
  queueName := []

def dayRequest (nextId : Str) : Request := ⟨nextId, "20240101".toList, [], none⟩

theorem day_poll (nextId : Str) :
    ∃ message, dayHost.poll ⟨nextId, encodeUtf8 dayText⟩ = .ok (some message) ∧
      toRequest message = some (dayRequest nextId) := by
  have haddressed : Addressed { dayHost.python with nextId := nextId } "normalizer".toList
      (encodeUtf8 dayText) dayGiven :=
    { text := ⟨dayText, rfl, (if_pos rfl : loadsDay dayText = _)⟩
      keys := by decide +kernel
      receiver := rfl }
  have hascii : AsciiDate (dateOf dayGiven) := ⟨codes "20240101".toList, rfl, by decide⟩
  refine ⟨requestOf nextId dayGiven (.str (codes "normalizer".toList)), ?_, ?_⟩
  · have hpoll := poll_addressed haddressed dayHost.queueName
    rw [fullmatch_ascii hascii] at hpoll
    exact hpoll
  · have hfields : toRequest (requestOf nextId dayGiven (.str (codes "normalizer".toList))) =
        (textOf (.str (codes nextId))).bind (fun id => some (dayRequest id)) := rfl
    rw [hfields, textOf_codes]
    rfl

theorem day_opens {d : Daemon n} {queue : List Bytes} (hphase : d.system.phase = .listening)
    (hqueue : d.queue = encodeUtf8 dayText :: queue) (nextId : Str) (answer : StorageAnswer) :
    step dayHost d (.manager nextId answer) = some { d with
      queue := queue
      popped := d.popped ++ [⟨nextId, encodeUtf8 dayText⟩]
      system := d.system.handleRequest dayHost.env (dayRequest nextId) answer
      earlier := d.earlier ++ d.system.cycle.notices } := by
  obtain ⟨message, hpoll, hrequest⟩ := day_poll nextId
  rw [step, managerTurn, hphase, hqueue]
  dsimp only
  rw [Daemon.receive, hpoll]
  dsimp only
  rw [hrequest]
  rfl

theorem day_requests (nextIds : List Str) :
    dayHost.requests (nextIds.map (fun nextId => ⟨nextId, encodeUtf8 dayText⟩)) =
      nextIds.map dayRequest := by
  have htaken : ∀ nextId, dayHost.request ⟨nextId, encodeUtf8 dayText⟩ =
      some (dayRequest nextId) := by
    intro nextId
    obtain ⟨message, hpoll, hrequest⟩ := day_poll nextId
    rw [Host.request, hpoll]
    exact hrequest
  rw [Host.requests, List.filterMap_map, ← List.filterMap_eq_map]
  exact congrArg (fun f => List.filterMap f nextIds) (funext htaken)

def runEvents (host : Host) : List (Event n) → Daemon n → Option (Daemon n)
  | [], d => some d
  | e :: events, d => (step host d e).bind (runEvents host events)

theorem runEvents_reached {events : List (Event n)} {d d' : Daemon n}
    (h : runEvents host events d = some d') : Reached host d d' := by
  induction events generalizing d with
  | nil =>
    cases h
    exact .refl
  | cons e events ih =>
    obtain ⟨d₁, hstep, hrest⟩ := Option.bind_eq_some_iff.mp h
    exact .head ⟨e, hstep⟩ (ih hrest)

def ofAction (answer : StorageAnswer) : Action n → Event n
  | .manager => .manager [] answer
  | a => .system a

/-- Two entries: the request of the first is answered, that of the second is in work. -/
theorem requests_in_order_two_entries : ∃ (d : Daemon 1) (notice : Notice), d.queue = [] ∧
    dayHost.requests d.popped = [dayRequest "1".toList, dayRequest "2".toList] ∧
    d.sent = [notice] ∧ Answers dayHost.env.config (dayRequest "1".toList) notice ∧
    ¬ d.system.phase.between ∧ d.system.cycle.requestId = "2".toList := by
  let body := encodeUtf8 dayText
  let start : Daemon 1 := .init (fun _ => none) (fun _ => none)
  let polling : Daemon 1 :=
    { start with queue := [body, body], arrived := [body, body], system.phase := .listening }
  let answer : StorageAnswer := .listing (listingOf (sharedSecond.take 2))
  let opened : Daemon 1 := { polling with
    queue := [body]
    popped := [⟨"1".toList, body⟩]
    system := polling.system.handleRequest dayHost.env (dayRequest "1".toList) answer }
  have hpolling : Reached dayHost start polling :=
    .tail (.tail (.tail .refl ⟨.lpush body, rfl⟩) ⟨.lpush body, rfl⟩) ⟨.manager [] answer, rfl⟩
  have hopened : step dayHost polling (.manager "1".toList answer) = some opened :=
    day_opens rfl rfl "1".toList answer
  let cycle : List (Action 1) := twoFilesInTurn ++ [.manager, .manager]
  have hcycle : (runEvents dayHost (cycle.map (ofAction answer)) opened).any (fun d =>
      decide (d.system.phase = .listening) && decide (d.queue = [body]) &&
        decide (d.popped = [⟨"1".toList, body⟩])) = true := by
    decide +kernel
  obtain ⟨d₁, hevents, hd₁⟩ := (Option.any_eq_true _ _).mp hcycle
  simp only [Bool.and_eq_true, decide_eq_true_eq] at hd₁
  obtain ⟨⟨hphase, hqueue⟩, hpopped⟩ := hd₁
  have hreached : Reached dayHost start d₁ :=
    (hpolling.tail ⟨_, hopened⟩).trans (runEvents_reached hevents)
  have hagain := day_opens hphase hqueue "2".toList answer
  obtain ⟨-, ⟨answered, pending, hrequests, hanswers, -, hwork⟩, -⟩ :=
    requests_in_order (hreached.tail ⟨_, hagain⟩)
  have hboth : dayHost.requests (d₁.popped ++ [⟨"2".toList, body⟩]) =
      [dayRequest "1".toList] ++ [dayRequest "2".toList] := by
    rw [hpopped]
    exact day_requests ["1".toList, "2".toList]
  have hin :
      ¬ (d₁.system.handleRequest dayHost.env (dayRequest "2".toList) answer).phase.between := by
    unfold System.handleRequest
    split <;> exact id
  obtain ⟨request, rfl, hid⟩ := hwork hin
  obtain ⟨rfl, hlast⟩ := List.append_inj' (hboth.symm.trans hrequests) rfl
  obtain rfl := List.head_eq_of_cons_eq hlast
  obtain ⟨notice, notices, hnotice, hnotices, hsent⟩ := List.forall₂_cons_left_iff.mp hanswers
  rw [List.forall₂_nil_left_iff.mp hnotices] at hsent
  exact ⟨_, notice, rfl, hboth, hsent, hnotice, hin, hid⟩

/-! ## Every entry is served -/

/-- `poll` does not raise on the entry, and a request that it holds has texts for fields. -/
def Welcome (host : Host) (body : Bytes) : Prop :=
  ∀ nextId, ∃ answer, host.poll ⟨nextId, body⟩ = .ok answer ∧
    ∀ message, answer = some message → (toRequest message).isSome

/-- No stop request, no exception of `brpop`, and only welcome entries. -/
def Calm (host : Host) : Event n → Prop
  | .manager _ _ => True
  | .disconnect => False
  | .lpush body => Welcome host body
  | .system a => a ≠ .stop

abbrev CalmRun (n : ℕ) (host : Host) :=
  InfiniteRun (fun (d : Daemon n) e d' => step host d e = some d' ∧ Calm host e)

def Turns : Process n → Event n → Prop
  | .manager, e => ∃ nextId answer, e = .manager nextId answer
  | .worker w, e => e = .system (.worker w)

def Ready (d : Daemon n) (p : Process n) : Prop := Enabled d.system p

structure Serving (host : Host) (d : Daemon n) : Prop where
  served : Served host d
  live : Live d.system
  stop : d.system.stop = false
  running : d.system.phase ≠ .exited
  welcome : ∀ body ∈ d.queue, Welcome host body

theorem move_stop {s s' : System n} {a : Action n} (h : Move env s a s') (ha : a ≠ .stop) :
    s'.stop = s.stop := by
  cases h with
  | manage => exact publish_stop _ _ _
  | work => exact publish_stop _ _ _
  | @dispatch b => cases b <;> rfl
  | stop => exact absurd rfl ha
  | _ => rfl

theorem serving_init (disk s3 : Store Str Bytes) : Serving host (Daemon.init disk s3 : Daemon n) :=
  ⟨served_init disk s3, live_init disk s3, rfl, fun h => (by cases h),
    fun _ h => absurd h List.not_mem_nil⟩

theorem Welcome.not_error {body : Bytes} (h : Welcome host body) {nextId : Str} {e : PyException} :
    host.poll ⟨nextId, body⟩ ≠ .error e := by
  obtain ⟨answer, hanswer, -⟩ := h nextId
  rw [hanswer]
  simp

theorem serving_step {d d' : Daemon n} {e : Event n} (hi : Serving host d)
    (h : step host d e = some d' ∧ Calm host e) : Serving host d' := by
  obtain ⟨hstep, hcalm⟩ := h
  have hserved := served_step hi.served hstep
  have hpop : ∀ {body : Bytes} {queue : List Bytes}, d.queue = body :: queue →
      ∀ b ∈ queue, Welcome host b := by
    intro body queue hqueue b hb
    exact hi.welcome b (by rw [hqueue]; exact List.mem_cons_of_mem _ hb)
  cases step_cases hstep with
  | raises _ hqueue hpoll =>
    exact absurd hpoll (hi.welcome _ (by rw [hqueue]; exact List.mem_cons_self)).not_error
  | drops hphase hqueue =>
    have hmove : Move host.env d.system .manager { d.system with phase := .ready } :=
      .loop (by rw [hphase]; trivial) trivial
    exact ⟨hserved, live_move hi.live hmove, hi.stop, fun he => (by cases he), hpop hqueue⟩
  | opens hphase hqueue hpoll hrequest hs =>
    have hmove := step_move hs
    refine ⟨hserved, live_move hi.live hmove, (move_stop hmove (by simp)).trans hi.stop,
      fun he => ?_, hpop hqueue⟩
    cases hmove <;> cases he
  | manages _ hs =>
    have hmove := step_move hs
    refine ⟨hserved, live_move hi.live hmove, (move_stop hmove (by simp)).trans hi.stop,
      fun he => ?_, hi.welcome⟩
    exact absurd (manager_exits hs he) (by rw [hi.stop]; simp)
  | disconnects => exact hcalm.elim
  | @pushes body =>
    refine ⟨hserved, hi.live, hi.stop, hi.running, fun b hb => ?_⟩
    rcases List.mem_append.mp hb with hold | hnew
    · exact hi.welcome b hold
    · rw [List.mem_singleton.mp hnew]
      exact hcalm
  | runs hm hr hs =>
    have hmove := step_move hs
    exact ⟨hserved, live_move hi.live hmove, (move_stop hmove hcalm).trans hi.stop,
      fun he => hi.running ((runs_exited hmove hm hr).mp he), hi.welcome⟩

/-- The first `target` entries are popped, and the manager is outside a cycle. -/
structure CaughtUp (target : ℕ) (d : Daemon n) : Prop where
  popped : target ≤ d.popped.length
  between : d.system.phase.between

def backlog (target : ℕ) (d : Daemon n) : ℕ ×ₗ (ℕ ×ₗ ℕ) :=
  toLex (target - d.popped.length, rank d.system)

theorem backlog_pop {target : ℕ} {d d' : Daemon n} {entry : Entry} (hd : ¬ CaughtUp target d)
    (hphase : d.system.phase = .listening) (hpopped : d'.popped = d.popped ++ [entry]) :
    backlog target d' < backlog target d := by
  have hleft : ¬ target ≤ d.popped.length := fun hle => hd ⟨hle, by rw [hphase]; trivial⟩
  rw [backlog, backlog, Prod.Lex.toLex_lt_toLex, hpopped, List.length_append, List.length_singleton]
  exact Or.inl (by omega)

theorem backlog_move {target : ℕ} {d : Daemon n} {s : System n} (h : rank s < rank d.system) :
    backlog target { d with system := s } < backlog target d := by
  rw [backlog, backlog, Prod.Lex.toLex_lt_toLex]
  exact Or.inr ⟨rfl, h⟩

theorem rank_listen {s s' : System n} (hphase : s.phase = .ready) (hstop : s.stop = false)
    (h : managerStep s = some s') : rank s' < rank s := by
  rw [managerStep, hphase, hstop] at h
  cases h
  refine rank_lt (le_of_eq ?_) (Or.inr ?_)
  · simp only [Flow.total, hphase, Phase.jobs, Phase.program]
    rfl
  · simp only [burden, Flow.total, hphase, hstop, Phase.jobs, Phase.program, phaseSteps, ite_false,
      Bool.false_eq_true]
    omega

/-- What the rank of the system says of the backlog. -/
theorem backlog_falls {target : ℕ} {d : Daemon n} {s : System n} {a : Action n} {e : Event n}
    (hfall : rank s < rank d.system ∨ (rank s = rank d.system ∧ ∀ p, Active d.system p →
      Enabled d.system p → ¬ p.Takes a ∧ Active s p ∧ Enabled s p))
    (hturn : ∀ p, Turns p e → p.Takes a) :
    backlog target { d with system := s } < backlog target d ∨
      (backlog target { d with system := s } = backlog target d ∧ ∀ p, Active d.system p →
        Ready d p → ¬ Turns p e ∧ Active s p ∧ Ready { d with system := s } p) := by
  rcases hfall with hlt | ⟨heq, hstay⟩
  · exact Or.inl (backlog_move hlt)
  · refine Or.inr ⟨congrArg (fun r => toLex (target - d.popped.length, r)) heq, fun p hp he => ?_⟩
    obtain ⟨hnot, hp', he'⟩ := hstay p hp he
    exact ⟨fun hturns => hnot (hturn p hturns), hp', he'⟩

/-- Short of the target a manager outside a cycle that pops nothing is at the head of its loop. -/
theorem ready_of_idle {target : ℕ} {d : Daemon n} (hi : Serving host d)
    (htarget : target ≤ d.arrived.length) (hd : ¬ CaughtUp target d)
    (hidle : d.system.phase = .listening → d.queue = []) (hb : d.system.phase.between) :
    d.system.phase = .ready := by
  cases hp : d.system.phase with
  | ready => rfl
  | exited => exact absurd hp hi.running
  | listening =>
    -- nothing is left to pop, so the target is reached
    have hfifo := congrArg List.length hi.served.fifo
    rw [hidle hp, List.append_nil, List.length_map] at hfifo
    exact absurd ⟨by omega, hb⟩ hd
  | _ => rw [hp] at hb; exact hb.elim

theorem backlog_progress (hn : 0 < n) (target : ℕ) :
    Progress (fun (d : Daemon n) e d' => step host d e = some d' ∧ Calm host e) Turns Ready
      (fun d => Serving host d ∧ target ≤ d.arrived.length) (CaughtUp target) (backlog target)
      (fun d p => Active d.system p) where
  keeps := by
    intro d e d' hi _ h
    refine ⟨serving_step hi.1 h, ?_⟩
    have harrived := hi.2
    cases step_cases h.1 <;> first | exact harrived | skip
    change target ≤ (d.arrived ++ _).length
    rw [List.length_append]
    omega
  helper := by
    intro d hi _
    by_cases hb : d.system.phase.between
    · refine ⟨.manager, fun hdrain => ?_, hi.1.running⟩
      rw [hdrain] at hb
      exact hb.elim
    · exact exists_active hi.1.live hn hb
  falls := by
    intro d e d' hi hd h
    have hlive := hi.1.live
    cases step_cases h.1 with
    | raises hphase => exact Or.inl (backlog_pop hd hphase rfl)
    | drops hphase => exact Or.inl (backlog_pop hd hphase rfl)
    | opens hphase => exact Or.inl (backlog_pop hd hphase rfl)
    | @manages nextId answer s hidle hs =>
      by_cases hb : d.system.phase.between
      · have hready := ready_of_idle hi.1 hi.2 hd hidle hb
        exact Or.inl (backlog_move (rank_listen hready hi.1.stop hs))
      · refine backlog_falls (rank_falls hlive (by simp) (fun _ => hb) hs) (fun p hturn => ?_)
        cases p with
        | manager => rfl
        | worker w => cases hturn
    | disconnects => exact h.2.elim
    | pushes =>
      refine Or.inr ⟨rfl, fun p hp he => ⟨?_, hp, he⟩⟩
      cases p with
      | manager =>
        rintro ⟨nextId, answer, hw⟩
        cases hw
      | worker w =>
        intro hw
        cases hw
    | @runs a s hm hr hs =>
      refine backlog_falls (rank_falls hlive hr (fun ha => absurd ha hm) hs) (fun p hturn => ?_)
      cases p with
      | manager =>
        obtain ⟨nextId, answer, hw⟩ := hturn
        cases hw
      | worker w =>
        cases hturn
        rfl

/-- In every fair run without a stop request, an exception of `brpop` or an entry whose exception
leaves `poll`, everything that has been pushed is popped at some time, first come first served,
and every request that has been popped by then has its answer. -/
theorem entries_served {σ : CalmRun n host} {disk s3 : Store Str Bytes} (hn : 0 < n)
    (hinit : σ.state 0 = Daemon.init disk s3) (hfair : σ.Fair Turns Ready) (i : ℕ) :
    ∃ j, i ≤ j ∧ (σ.state i).arrived <+: (σ.state j).popped.map Entry.body ∧
      List.Forall₂ (Answers host.env.config) (host.requests (σ.state j).popped)
        (σ.state j).sent := by
  have hserving : ∀ k, Serving host (σ.state k) := by
    intro k
    refine σ.keeps (Serving host) (fun hi h => serving_step hi h) ?_ (Nat.zero_le k)
    rw [hinit]
    exact serving_init disk s3
  obtain ⟨j, hij, hj⟩ := (backlog_progress hn (σ.state i).arrived.length).reaches hfair
    (⟨hserving i, le_refl _⟩ : Serving host (σ.state i) ∧ _)
  have harrived : (σ.state i).arrived <+: (σ.state j).arrived := by
    refine σ.keeps (fun d => (σ.state i).arrived <+: d.arrived) (fun hi h => ?_)
      (List.prefix_refl _) hij
    cases step_cases h.1 <;> first | exact hi | exact hi.trans (List.prefix_append _ _)
  have hserved := (hserving j).served
  rw [hserved.fifo] at harrived
  refine ⟨j, hij, List.prefix_of_prefix_length_le harrived (List.prefix_append _ _) ?_,
    hserved.between hj.between⟩
  rw [List.length_map]
  exact hj.popped

/-! ### A fair run -/

theorem turn_exists {d : Daemon n} (hi : Serving host d) (nextId : Str) (answer : StorageAnswer) :
    ∃ d', step host d (.manager nextId answer) = some d' := by
  simp only [step, managerTurn]
  split
  · rename_i body queue _ hqueue
    obtain ⟨message, hmessage, hsome⟩ :=
      hi.welcome body (by rw [hqueue]; exact List.mem_cons_self) nextId
    unfold Daemon.receive
    rw [hmessage]
    cases message with
    | none => exact ⟨_, rfl⟩
    | some message =>
      obtain ⟨request, hrequest⟩ := Option.isSome_iff_exists.mp (hsome message rfl)
      dsimp only
      rw [hrequest]
      exact ⟨_, rfl⟩
  · obtain ⟨s, hs, -⟩ := managerStep_running hi.stop hi.running
    rw [hs]
    exact ⟨_, rfl⟩

theorem worker_exists {d : Daemon n} (hi : Serving host d) (w : Fin n) :
    ∃ d', step host d (.system (.worker w)) = some d' := by
  obtain ⟨s, hs, -⟩ : ∃ s, workerStep host.env w d.system = some s ∧ s.stop = false ∧
      s.phase ≠ .exited := workerStep_running w hi.stop hi.running
  rw [step_system (by simp) (by simp)]
  change ∃ d', (workerStep host.env w d.system).map _ = some d'
  rw [hs]
  exact ⟨_, rfl⟩

theorem day_welcome : Welcome dayHost (encodeUtf8 dayText) := by
  intro nextId
  obtain ⟨message, hpoll, hrequest⟩ := day_poll nextId
  refine ⟨_, hpoll, fun message' he => ?_⟩
  cases he
  rw [hrequest]
  rfl

/-- Two entries, then the manager and its one worker turn and turn about. -/
def dayTurns : ℕ → Event 1
  | 0 => .lpush (encodeUtf8 dayText)
  | 1 => .lpush (encodeUtf8 dayText)
  | k + 2 => if k % 2 = 0 then .manager [] (.listing (listingOf (sharedSecond.take 2)))
      else .system (.worker ⟨0, Nat.one_pos⟩)

theorem dayTurns_fair (p : Process 1) (i : ℕ) : ∃ j, i ≤ j ∧ Turns p (dayTurns j) := by
  cases p with
  | manager =>
    refine ⟨2 * i + 2, by omega, [], .listing (listingOf (sharedSecond.take 2)), ?_⟩
    rw [dayTurns, if_pos (by omega)]
  | worker w =>
    refine ⟨2 * i + 1 + 2, by omega, ?_⟩
    rw [dayTurns, if_neg (by omega), Subsingleton.elim w ⟨0, Nat.one_pos⟩]
    rfl

theorem entries_served_two_entries : ∃ d : Daemon 1,
    [encodeUtf8 dayText, encodeUtf8 dayText] <+: d.popped.map Entry.body ∧
      List.Forall₂ (Answers dayHost.env.config) (dayHost.requests d.popped) d.sent := by
  let body := encodeUtf8 dayText
  let start : Daemon 1 := .init (fun _ => none) (fun _ => none)
  let I : ℕ → Daemon 1 → Prop := fun k d => Serving dayHost d ∧ match k with
    | 0 => d = start
    | 1 => d.arrived = [body]
    | 2 => d.arrived = [body, body]
    | _ => True
  have hnext : ∀ k d, I k d →
      ∃ d', (step dayHost d (dayTurns k) = some d' ∧ Calm dayHost (dayTurns k)) ∧ I (k + 1) d' := by
    intro k d hd
    match k with
    | 0 =>
      obtain ⟨hserving, rfl⟩ := hd
      have hpush : step dayHost start (dayTurns 0) = some _ ∧ Calm dayHost (dayTurns 0) :=
        ⟨rfl, day_welcome⟩
      exact ⟨_, hpush, serving_step hserving hpush, rfl⟩
    | 1 =>
      obtain ⟨hserving, harrived⟩ := hd
      have hpush : step dayHost d (dayTurns 1) = some _ ∧ Calm dayHost (dayTurns 1) :=
        ⟨rfl, day_welcome⟩
      refine ⟨_, hpush, serving_step hserving hpush, ?_⟩
      exact congrArg (fun entries => entries ++ [body]) harrived
    | k + 2 =>
      have hcalm : Calm dayHost (dayTurns (k + 2)) := by
        rw [dayTurns]
        split_ifs
        · trivial
        · intro he
          cases he
      have hturn : ∃ d', step dayHost d (dayTurns (k + 2)) = some d' := by
        rw [dayTurns]
        split_ifs
        · exact turn_exists hd.1 _ _
        · exact worker_exists hd.1 _
      obtain ⟨d', hd'⟩ := hturn
      exact ⟨d', ⟨hd', hcalm⟩, serving_step hd.1 ⟨hd', hcalm⟩, trivial⟩
  obtain ⟨σ, hstart, hlabel, hI⟩ : ∃ σ : CalmRun 1 dayHost,
      σ.state 0 = start ∧ σ.label = dayTurns ∧ ∀ k, I k (σ.state k) :=
    InfiniteRun.exists_run I hnext ⟨serving_init _ _, rfl⟩
  have hfair : σ.Fair Turns Ready := by
    intro p i
    obtain ⟨j, hij, hj⟩ := dayTurns_fair p i
    exact ⟨j, hij, Or.inl (by rw [hlabel]; exact hj)⟩
  have harrived : (σ.state 2).arrived = [body, body] := (hI 2).2
  obtain ⟨j, -, hpopped, hsent⟩ := entries_served Nat.one_pos hstart hfair 2
  rw [harrived] at hpopped
  exact ⟨σ.state j, hpopped, hsent⟩

end SensorDataNormalization.RequestQueue
