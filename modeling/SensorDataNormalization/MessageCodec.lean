import SensorDataNormalization.JsonMessages
import SensorDataNormalization.ProcessState

set_option autoImplicit false

/-! `ProtocolMeta`: the three registered messages, their texts, and the mailbox loop that
decodes them. Fields are not checked when a message is built, so each can be any value. -/
namespace SensorDataNormalization.MessageCodec
open SeparatedLists PythonText JsonMessages ProcessState

/-! ## The messages -/

inductive ProtocolId
  | normalizationRequest
  | workerPairPut
  | workerJobDone
  deriving DecidableEq

def ProtocolId.value : ProtocolId → Str
  | .normalizationRequest => "NORMALIZATION_REQUEST".toList
  | .workerPairPut => "WORKER_PAIR_PUT".toList
  | .workerJobDone => "WORKER_JOB_DONE".toList

structure UnprocessedPcap where
  srcPath : Json
  outFilePath : Json
  prefixPath : Json

structure PairPutMessage where
  protocolId : Json
  sender : Json
  receiver : Json
  pairKey : Json
  item : UnprocessedPcap

structure JobDoneMessage where
  protocolId : Json
  sender : Json
  receiver : Json
  success : Json

inductive Message
  | normalizationRequest (m : NormalizationRequest)
  | pairPut (m : PairPutMessage)
  | jobDone (m : JobDoneMessage)

namespace Message

/-- The id under which the class of the message is registered. -/
def registeredId : Message → ProtocolId
  | .normalizationRequest _ => .normalizationRequest
  | .pairPut _ => .workerPairPut
  | .jobDone _ => .workerJobDone

def protocolId : Message → Json
  | .normalizationRequest m => m.protocolId
  | .pairPut m => m.protocolId
  | .jobDone m => m.protocolId

end Message

def itemFields : List Str :=
  ["src_path".toList, "out_file_path".toList, "prefix_path".toList]

def fields : ProtocolId → List Str
  | .normalizationRequest => requestFields
  | .workerPairPut => ["protocol_id".toList, "sender".toList, "receiver".toList,
      "pair_key".toList, "item".toList]
  | .workerJobDone => ["protocol_id".toList, "sender".toList, "receiver".toList,
      "success".toList]

def withoutDefault : ProtocolId → List Str
  | .normalizationRequest => ["receiver".toList]
  | .workerPairPut => ["sender".toList, "receiver".toList, "pair_key".toList, "item".toList]
  | .workerJobDone => ["sender".toList, "receiver".toList, "success".toList]

/-! ## `to_json` -/

def object (row : List (Str × Json)) : Json :=
  .dict (row.map (fun field => (codes field.1, field.2)))

def UnprocessedPcap.asdict (item : UnprocessedPcap) : Json :=
  object [("src_path".toList, item.srcPath), ("out_file_path".toList, item.outFilePath),
    ("prefix_path".toList, item.prefixPath)]

def Message.asdict : Message → Json
  | .normalizationRequest m => object
      [("protocol_id".toList, m.protocolId), ("sender".toList, m.sender),
        ("receiver".toList, m.receiver), ("request_id".toList, m.requestId),
        ("date".toList, m.date), ("vehicle_id".toList, m.vehicleId),
        ("selected_device".toList, m.selectedDevice)]
  | .pairPut m => object
      [("protocol_id".toList, m.protocolId), ("sender".toList, m.sender),
        ("receiver".toList, m.receiver), ("pair_key".toList, m.pairKey),
        ("item".toList, m.item.asdict)]
  | .jobDone m => object
      [("protocol_id".toList, m.protocolId), ("sender".toList, m.sender),
        ("receiver".toList, m.receiver), ("success".toList, m.success)]

def Message.toJson (dumps : Json → Str) (m : Message) : Str := dumps m.asdict

/-! ## `decode_body` -/

/-- `call` is the `TypeError` of a class that is called with other arguments. -/
inductive DecodeException
  | jsonDecode
  | notAnObject
  | missingProtocolId
  | unhashable
  | unregistered
  | missingItem
  | call (e : PyException)
  deriving DecidableEq

/-- The arguments of a call that has its required ones. -/
def arguments (names needed : List Str) (value : Json) : Except DecodeException Keywords :=
  match keywords names value with
  | .error e => .error (.call e)
  | .ok given =>
    match needed.find? (fun name => (given.lookup (codes name)).isNone) with
    | some name => .error (.call (.missingArgument name))
    | none => .ok given

def argument (given : Keywords) (name : Str) : Json := (given.lookup (codes name)).getD .null

def UnprocessedPcap.ofDict (value : Json) : Except DecodeException UnprocessedPcap := do
  let given ← arguments itemFields itemFields value
  return {
    srcPath := argument given "src_path".toList
    outFilePath := argument given "out_file_path".toList
    prefixPath := argument given "prefix_path".toList }

def itemOf : Json → Except DecodeException Json
  | .dict fields =>
    match fields.lookup (codes "item".toList) with
    | some item => .ok item
    | none => .error .missingItem
  | _ => .error .notAnObject

def PairPutMessage.ofDict (data : Json) : Except DecodeException PairPutMessage := do
  let value ← itemOf data
  let item ← UnprocessedPcap.ofDict value
  let given ← arguments (fields .workerPairPut) (withoutDefault .workerPairPut) data
  return {
    protocolId := optional given "protocol_id".toList
      (.str (codes ProtocolId.workerPairPut.value))
    sender := argument given "sender".toList
    receiver := argument given "receiver".toList
    pairKey := argument given "pair_key".toList
    item := item }

def JobDoneMessage.ofDict (data : Json) : Except DecodeException JobDoneMessage := do
  let given ← arguments (fields .workerJobDone) (withoutDefault .workerJobDone) data
  return {
    protocolId := optional given "protocol_id".toList
      (.str (codes ProtocolId.workerJobDone.value))
    sender := argument given "sender".toList
    receiver := argument given "receiver".toList
    success := argument given "success".toList }

section Decode
variable (loads : Str → Option Json) (nextId : Str)

/-- `json.loads`, where an exception is `none`. -/
def load (jsonBody : Str) : Except DecodeException Json :=
  match loads jsonBody with
  | some value => .ok value
  | none => .error .jsonDecode

def decoder (id : ProtocolId) (jsonBody : Str) : Except DecodeException Message :=
  match id with
  | .normalizationRequest =>
    match fromJson loads nextId jsonBody with
    | .ok m => .ok (.normalizationRequest m)
    | .error e => .error (.call e)
  | .workerPairPut => do
    let data ← load loads jsonBody
    let m ← PairPutMessage.ofDict data
    return .pairPut m
  | .workerJobDone => do
    let data ← load loads jsonBody
    let m ← JobDoneMessage.ofDict data
    return .jobDone m

/-- `_entries` after `_register_protocols`. -/
def entries : List (Text × ProtocolId) :=
  [.normalizationRequest, .workerPairPut, .workerJobDone].map (fun id => (codes id.value, id))

def entryOf : Json → Except DecodeException ProtocolId
  | .str text =>
    match entries.lookup text with
    | some id => .ok id
    | none => .error .unregistered
  | .list _ => .error .unhashable
  | .dict _ => .error .unhashable
  | _ => .error .unregistered

/-- `.get("protocol_id")`, and the test for `None`. -/
def protocolIdOf : Json → Except DecodeException Json
  | .dict fields =>
    match (fields.lookup (codes "protocol_id".toList)).getD .null with
    | .null => .error .missingProtocolId
    | id => .ok id
  | _ => .error .notAnObject

def decodeBody (jsonBody : Str) : Except DecodeException Message := do
  let body ← load loads jsonBody
  let protocolId ← protocolIdOf body
  let id ← entryOf protocolId
  decoder loads nextId id jsonBody

end Decode

/-! ## Which values decode -/

theorem bind_ok {α β : Type} {x : Except DecodeException α} {f : α → Except DecodeException β}
    {b : β} : (x >>= f) = .ok b ↔ ∃ a, x = .ok a ∧ f a = .ok b := by
  cases x with
  | error e =>
    constructor
    · intro h
      cases h
    · rintro ⟨_, h, _⟩
      cases h
  | ok a =>
    constructor
    · exact fun h => ⟨a, rfl, h⟩
    · rintro ⟨a', ha, h⟩
      cases ha
      exact h

/-- The keys of the object are known, and those that are needed are there. -/
structure Fits (names needed : List Str) (given : Keywords) : Prop where
  known : ∀ field ∈ given, field.1 ∈ names.map codes
  complete : ∀ name ∈ needed, codes name ∈ given.map Prod.fst

/-- An object of a registered id, with the keys of its class and, in a pair put, the item. -/
def Acceptable (v : Json) : Prop :=
  ∃ given id, v = .dict given ∧
    given.lookup (codes "protocol_id".toList) = some (.str (codes id.value)) ∧
    Fits (fields id) (withoutDefault id) given ∧
    (id = .workerPairPut → ∃ item, given.lookup (codes "item".toList) = some (.dict item) ∧
      Fits itemFields itemFields item)

theorem arguments_ok {names needed : List Str} {value : Json} {given : Keywords} :
    arguments names needed value = .ok given ↔ value = .dict given ∧ Fits names needed given := by
  unfold arguments
  cases hkeywords : keywords names value with
  | error e =>
    constructor
    · intro h
      cases h
    · rintro ⟨rfl, hfits⟩
      rw [keywords_ok.mpr ⟨rfl, hfits.known⟩] at hkeywords
      cases hkeywords
  | ok given' =>
    obtain ⟨rfl, hknown⟩ := keywords_ok.mp hkeywords
    dsimp only
    cases hfind : needed.find? (fun name => (given'.lookup (codes name)).isNone) with
    | some name =>
      have hnone := List.find?_some hfind
      have hmem := List.mem_of_find?_eq_some hfind
      constructor
      · intro h
        cases h
      · rintro ⟨he, hfits⟩
        cases he
        have hsome := lookup_isSome.mpr (hfits.complete name hmem)
        rw [Option.isNone_iff_eq_none.mp hnone] at hsome
        cases hsome
    | none =>
      have hcomplete : ∀ name ∈ needed, codes name ∈ given'.map Prod.fst := by
        intro name hname
        have hnot := List.find?_eq_none.mp hfind name hname
        exact lookup_isSome.mp (by simpa [Option.isSome_iff_ne_none] using hnot)
      constructor
      · intro h
        cases h
        exact ⟨rfl, hknown, hcomplete⟩
      · rintro ⟨he, -⟩
        cases he
        rfl

theorem ofDict_item_ok {value : Json} : (∃ item, UnprocessedPcap.ofDict value = .ok item) ↔
    ∃ given, value = .dict given ∧ Fits itemFields itemFields given := by
  constructor
  · rintro ⟨item, h⟩
    obtain ⟨given, hgiven, -⟩ := bind_ok.mp h
    exact ⟨given, arguments_ok.mp hgiven⟩
  · rintro ⟨given, h⟩
    exact ⟨_, bind_ok.mpr ⟨given, arguments_ok.mpr h, rfl⟩⟩

theorem ofDict_jobDone_ok {given : Keywords} : (∃ m, JobDoneMessage.ofDict (.dict given) = .ok m) ↔
    Fits (fields .workerJobDone) (withoutDefault .workerJobDone) given := by
  constructor
  · rintro ⟨m, h⟩
    obtain ⟨given', hgiven, -⟩ := bind_ok.mp h
    obtain ⟨he, hfits⟩ := arguments_ok.mp hgiven
    cases he
    exact hfits
  · intro h
    exact ⟨_, bind_ok.mpr ⟨given, arguments_ok.mpr ⟨rfl, h⟩, rfl⟩⟩

theorem itemOf_ok {given : Keywords} {value : Json} : itemOf (.dict given) = .ok value ↔
    given.lookup (codes "item".toList) = some value := by
  unfold itemOf
  dsimp only
  cases given.lookup (codes "item".toList) with
  | none =>
    constructor
    · intro h
      cases h
    · intro h
      cases h
  | some item => simp

theorem ofDict_pairPut_ok {given : Keywords} : (∃ m, PairPutMessage.ofDict (.dict given) = .ok m) ↔
    Fits (fields .workerPairPut) (withoutDefault .workerPairPut) given ∧
      ∃ item, given.lookup (codes "item".toList) = some (.dict item) ∧
        Fits itemFields itemFields item := by
  constructor
  · rintro ⟨m, h⟩
    obtain ⟨value, hvalue, h⟩ := bind_ok.mp h
    obtain ⟨item, hitem, h⟩ := bind_ok.mp h
    obtain ⟨given', hgiven, -⟩ := bind_ok.mp h
    obtain ⟨he, hfits⟩ := arguments_ok.mp hgiven
    cases he
    obtain ⟨itemGiven, rfl, hitemFits⟩ := ofDict_item_ok.mp ⟨item, hitem⟩
    exact ⟨hfits, itemGiven, itemOf_ok.mp hvalue, hitemFits⟩
  · rintro ⟨hfits, itemGiven, hvalue, hitemFits⟩
    obtain ⟨item, hitem⟩ := ofDict_item_ok.mpr ⟨itemGiven, rfl, hitemFits⟩
    exact ⟨_, bind_ok.mpr ⟨_, itemOf_ok.mpr hvalue, bind_ok.mpr ⟨item, hitem,
      bind_ok.mpr ⟨given, arguments_ok.mpr ⟨rfl, hfits⟩, rfl⟩⟩⟩⟩

section Decode
variable {loads : Str → Option Json} {nextId jsonBody : Str}

theorem fromJson_fits {given : Keywords} (hloads : loads jsonBody = some (.dict given)) :
    (∃ m, fromJson loads nextId jsonBody = .ok m) ↔
      Fits (fields .normalizationRequest) (withoutDefault .normalizationRequest) given := by
  constructor
  · rintro ⟨m, h⟩
    obtain ⟨given', receiver, hloads', hknown, hreceiver, -⟩ := fromJson_ok.mp h
    rw [hloads] at hloads'
    cases hloads'
    refine ⟨hknown, fun name hname => lookup_isSome.mp ?_⟩
    rw [List.mem_singleton.mp hname, hreceiver]
    rfl
  · intro h
    have hsome := lookup_isSome.mpr (h.complete "receiver".toList (List.mem_singleton.mpr rfl))
    obtain ⟨receiver, hreceiver⟩ := Option.isSome_iff_exists.mp hsome
    exact ⟨_, fromJson_ok.mpr ⟨given, receiver, hloads, h.known, hreceiver, rfl⟩⟩

theorem load_ok {v : Json} (hloads : loads jsonBody = some v) : load loads jsonBody = .ok v := by
  rw [load, hloads]

theorem decoder_ok {given : Keywords} (hloads : loads jsonBody = some (.dict given))
    (id : ProtocolId) : (∃ m, decoder loads nextId id jsonBody = .ok m) ↔
      Fits (fields id) (withoutDefault id) given ∧
        (id = .workerPairPut → ∃ item, given.lookup (codes "item".toList) = some (.dict item) ∧
          Fits itemFields itemFields item) := by
  have hload := load_ok hloads
  cases id with
  | normalizationRequest =>
    rw [← @fromJson_fits loads nextId jsonBody given hloads]
    unfold decoder
    dsimp only
    cases fromJson loads nextId jsonBody with
    | error e => simp
    | ok m => simp
  | workerPairPut =>
    constructor
    · rintro ⟨m, h⟩
      obtain ⟨data, hdata, h⟩ := bind_ok.mp h
      rw [hload] at hdata
      cases hdata
      obtain ⟨m, hm, -⟩ := bind_ok.mp h
      obtain ⟨hfits, hitem⟩ := ofDict_pairPut_ok.mp ⟨m, hm⟩
      exact ⟨hfits, fun _ => hitem⟩
    · rintro ⟨hfits, hitem⟩
      obtain ⟨m, hm⟩ := ofDict_pairPut_ok.mpr ⟨hfits, hitem rfl⟩
      exact ⟨_, bind_ok.mpr ⟨_, hload, bind_ok.mpr ⟨m, hm, rfl⟩⟩⟩
  | workerJobDone =>
    constructor
    · rintro ⟨m, h⟩
      obtain ⟨data, hdata, h⟩ := bind_ok.mp h
      rw [hload] at hdata
      cases hdata
      obtain ⟨m, hm, -⟩ := bind_ok.mp h
      exact ⟨ofDict_jobDone_ok.mp ⟨m, hm⟩, fun h => nomatch h⟩
    · rintro ⟨hfits, -⟩
      obtain ⟨m, hm⟩ := ofDict_jobDone_ok.mpr hfits
      exact ⟨_, bind_ok.mpr ⟨_, hload, bind_ok.mpr ⟨m, hm, rfl⟩⟩⟩

theorem entryOf_ok {value : Json} {id : ProtocolId} :
    entryOf value = .ok id ↔ value = .str (codes id.value) := by
  constructor
  · intro h
    cases value with
    | str text =>
      unfold entryOf at h
      dsimp only at h
      cases hlookup : entries.lookup text with
      | none =>
        rw [hlookup] at h
        cases h
      | some id' =>
        rw [hlookup] at h
        cases h
        obtain ⟨id', -, hid⟩ := List.mem_map.mp (mem_of_lookup hlookup)
        cases hid
        rfl
    | _ => cases h
  · rintro rfl
    cases id <;> rfl

theorem protocolIdOf_ok {given : Keywords} {text : Text} :
    protocolIdOf (.dict given) = .ok (.str text) ↔
      given.lookup (codes "protocol_id".toList) = some (.str text) := by
  unfold protocolIdOf
  dsimp only
  cases given.lookup (codes "protocol_id".toList) with
  | none =>
    constructor
    · intro h
      cases h
    · intro h
      cases h
  | some value => cases value <;> simp

theorem decodeBody_accepts {v : Json} (hloads : loads jsonBody = some v) :
    (∃ m, decodeBody loads nextId jsonBody = .ok m) ↔ Acceptable v := by
  have hload := load_ok hloads
  constructor
  · rintro ⟨m, h⟩
    obtain ⟨body, hbody, hrest⟩ := bind_ok.mp h
    rw [hload] at hbody
    cases hbody
    obtain ⟨protocolId, hprotocol, hrest⟩ := bind_ok.mp hrest
    obtain ⟨id, hid, hm⟩ := bind_ok.mp hrest
    rw [entryOf_ok] at hid
    subst hid
    cases v with
    | dict given =>
      exact ⟨given, id, rfl, protocolIdOf_ok.mp hprotocol, (decoder_ok hloads id).mp ⟨m, hm⟩⟩
    | _ => cases hprotocol
  · rintro ⟨given, id, rfl, hprotocol, hfits⟩
    obtain ⟨m, hm⟩ := (@decoder_ok loads nextId jsonBody given hloads id).mpr hfits
    exact ⟨m, bind_ok.mpr ⟨_, hload, bind_ok.mpr ⟨_, protocolIdOf_ok.mpr hprotocol,
      bind_ok.mpr ⟨id, entryOf_ok.mpr rfl, hm⟩⟩⟩⟩

/-! ## What was encoded -/

theorem decodeBody_asdict {m : Message} (hid : m.protocolId = .str (codes m.registeredId.value))
    (hloads : loads jsonBody = some m.asdict) : decodeBody loads nextId jsonBody = .ok m := by
  have hload := load_ok hloads
  have hdecoder : decoder loads nextId m.registeredId jsonBody = .ok m := by
    cases m with
    | normalizationRequest m =>
      have hm : fromJson loads nextId jsonBody = .ok m := by
        rw [fromJson, hloads]
        rfl
      simp only [Message.registeredId, decoder, hm]
    | pairPut m => exact bind_ok.mpr ⟨_, hload, rfl⟩
    | jobDone m => exact bind_ok.mpr ⟨_, hload, rfl⟩
  have hprotocol : protocolIdOf m.asdict = .ok (.str (codes m.registeredId.value)) := by
    cases m with
    | normalizationRequest m => exact protocolIdOf_ok.mpr (congrArg some hid)
    | pairPut m => exact protocolIdOf_ok.mpr (congrArg some hid)
    | jobDone m => exact protocolIdOf_ok.mpr (congrArg some hid)
  exact bind_ok.mpr ⟨_, hload, bind_ok.mpr ⟨_, hprotocol, bind_ok.mpr ⟨_, entryOf_ok.mpr rfl,
    hdecoder⟩⟩⟩

end Decode

/-! ## The mailbox of the manager -/

def truthy : Json → Bool
  | .null => false
  | .bool value => value
  | .int value => decide (value ≠ 0)
  | .float bits => decide (bits ≠ 0 ∧ bits ≠ 0x8000000000000000)
  | .str value => !value.isEmpty
  | .list items => !items.isEmpty
  | .dict fields => !fields.isEmpty

/-- The two objects that only the manager changes. -/
structure Owned (κ : Type) where
  buckets : PairBuckets κ UnprocessedPcap
  progress : JobProgressTracker

inductive DrainException
  | decode (e : DecodeException)
  | unhashableKey
  | merge
  | unexpectedMessage
  deriving DecidableEq

/-- One pass of the loop: the stop flag, the body that the queue returns, and whether
`_merge_pair` raises. -/
structure Turn where
  stop : Bool
  body : Option Str
  mergeRaises : Bool

inductive DrainEnd
  | stopped
  | done
  | raised (e : DrainException)
  deriving DecidableEq

section Mailbox
variable {κ : Type} [DecidableEq κ] (loads : Str → Option Json) (nextId : Str)
  (dictKey : Json → Option κ)

/-- `_dispatch_message`. `dictKey` is the key that a value is in a dict, `none` for a value
that has no hash. -/
def dispatchMessage (mergeRaises : Bool) (s : Owned κ) :
    Message → Owned κ × Option DrainException
  | .jobDone m => ({ s with progress := s.progress.markOneDone (truthy m.success) }, none)
  | .pairPut m =>
    match dictKey m.pairKey with
    | none => (s, some .unhashableKey)
    | some key =>
      let result := PairBuckets.put key m.item s.buckets
      ({ s with buckets := result.1 },
        if result.2.isSome && mergeRaises then some .merge else none)
  | .normalizationRequest _ => (s, some .unexpectedMessage)

/-- The body of the loop of `_drain_worker_messages`, and its test; `none` goes on. -/
def pass (s : Owned κ) (turn : Turn) : Owned κ × Option DrainEnd :=
  if s.progress.isDone then (s, some .done)
  else if turn.stop then (s, some .stopped)
  else
    match turn.body with
    | none => (s, none)
    | some body =>
      match decodeBody loads nextId body with
      | .error e => (s, some (.raised (.decode e)))
      | .ok m =>
        let result := dispatchMessage dictKey turn.mergeRaises s m
        (result.1, result.2.map .raised)

/-- `_drain_worker_messages`, as far as the turns go. -/
def drain (s : Owned κ) : List Turn → Owned κ × Option DrainEnd
  | [] => (s, if s.progress.isDone then some .done else none)
  | turn :: turns =>
    match pass loads nextId dictKey s turn with
    | (t, some ended) => (t, some ended)
    | (t, none) => drain t turns

variable {loads nextId dictKey}

theorem drain_end {s t : Owned κ} {turn : Turn} {ended : DrainEnd}
    (h : pass loads nextId dictKey s turn = (t, some ended)) (turns : List Turn) :
    drain loads nextId dictKey s (turn :: turns) = (t, some ended) := by
  rw [drain, h]

theorem drain_on {s t : Owned κ} {turn : Turn}
    (h : pass loads nextId dictKey s turn = (t, none)) (turns : List Turn) :
    drain loads nextId dictKey s (turn :: turns) = drain loads nextId dictKey t turns := by
  rw [drain, h]

/-- The loop goes on where it was. -/
theorem drain_append {s t : Owned κ} {turns : List Turn}
    (h : drain loads nextId dictKey s turns = (t, none)) (after : List Turn) :
    drain loads nextId dictKey s (turns ++ after) = drain loads nextId dictKey t after ∧
      ¬ t.progress.isDone := by
  induction turns generalizing s with
  | nil =>
    obtain ⟨rfl, hend⟩ := Prod.mk.inj h
    refine ⟨rfl, fun hdone => ?_⟩
    rw [if_pos hdone] at hend
    cases hend
  | cons turn turns ih =>
    obtain ⟨⟨u, ended⟩, hpass⟩ : ∃ result, pass loads nextId dictKey s turn = result := ⟨_, rfl⟩
    cases ended with
    | some ended =>
      rw [drain_end hpass] at h
      cases h
    | none =>
      rw [drain_on hpass] at h
      rw [List.cons_append, drain_on hpass]
      exact ih h

/-- A body that does not decode ends the loop and changes nothing. -/
theorem drain_undecodable {s t : Owned κ} {turns after : List Turn} {turn : Turn} {body : Str}
    {e : DecodeException} (h : drain loads nextId dictKey s turns = (t, none))
    (hstop : turn.stop = false) (hbody : turn.body = some body)
    (hdecode : decodeBody loads nextId body = .error e) :
    drain loads nextId dictKey s (turns ++ turn :: after) =
      (t, some (.raised (.decode e))) := by
  obtain ⟨hrun, hdone⟩ := drain_append h (turn :: after)
  have hpass : pass loads nextId dictKey t turn = (t, some (.raised (.decode e))) := by
    unfold pass
    rw [if_neg hdone, hstop, if_neg Bool.false_ne_true, hbody]
    dsimp only
    rw [hdecode]
  rw [hrun, drain_end hpass]

end Mailbox

/-- A message of default id is read back from its text; the objects that decode are those of the
registered classes; and a body that does not decode changes neither buckets nor counter. -/
theorem codec_exact {κ : Type} [DecidableEq κ] (loads : Str → Option Json) (dumps : Json → Str)
    (nextId : Str) (dictKey : Json → Option κ) :
    (∀ m : Message, m.protocolId = .str (codes m.registeredId.value) →
      loads (dumps m.asdict) = some m.asdict →
      decodeBody loads nextId (m.toJson dumps) = .ok m) ∧
    (∀ body v, loads body = some v →
      ((∃ m, decodeBody loads nextId body = .ok m) ↔ Acceptable v)) ∧
    ∀ (s t : Owned κ) turns turn after body e,
      drain loads nextId dictKey s turns = (t, none) → turn.stop = false →
      turn.body = some body → decodeBody loads nextId body = .error e →
      drain loads nextId dictKey s (turns ++ turn :: after) =
        (t, some (.raised (.decode e))) :=
  ⟨fun _ hid hloads => decodeBody_asdict hid hloads,
    fun _ _ hloads => decodeBody_accepts hloads,
    fun _ _ _ _ _ _ _ hrun hstop hbody hdecode => drain_undecodable hrun hstop hbody hdecode⟩

/-! ## A worker that is done, and a body that is a list -/

def doneText : Str :=
  "\x7b\"protocol_id\": \"WORKER_JOB_DONE\", \"sender\": \"w\", \"receiver\": \"m\", ".toList ++
    "\"success\": true\x7d".toList

def done : Message := .jobDone
  { protocolId := .str (codes ProtocolId.workerJobDone.value)
    sender := .str (codes "w".toList)
    receiver := .str (codes "m".toList)
    success := .bool true }

def loadsTwo (text : Str) : Option Json :=
  if text = doneText then some done.asdict
  else if text = "[]".toList then some (.list []) else none

theorem codec_exact_done :
    decodeBody loadsTwo [] (done.toJson (fun _ => doneText)) = .ok done ∧
    ¬ Acceptable (.list []) ∧
    drain loadsTwo [] (fun _ => some ()) ⟨[], .beginCycle 2⟩
      [⟨false, some doneText, false⟩, ⟨false, some "[]".toList, false⟩] =
        (⟨[], .markOneDone (.beginCycle 2) true⟩, some (.raised (.decode .notAnObject))) := by
  have hlist : loadsTwo "[]".toList = some (.list []) := rfl
  obtain ⟨hround, haccepts, hdrain⟩ :=
    codec_exact loadsTwo (fun _ => doneText) [] (fun _ => some ())
  refine ⟨hround done rfl rfl, ?_, ?_⟩
  · rw [← haccepts _ _ hlist]
    rintro ⟨m, h⟩
    cases h
  · exact hdrain _ _ [⟨false, some doneText, false⟩] _ [] _ _ rfl rfl rfl rfl

end SensorDataNormalization.MessageCodec
