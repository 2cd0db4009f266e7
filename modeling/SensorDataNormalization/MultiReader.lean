import SensorDataNormalization.PcapReader

set_option autoImplicit false

/-! `MultiPcapReader`: files read one after the other against one origin of time. -/
namespace SensorDataNormalization.MultiReader
open PcapRecords PacketBodies PcapReader

/-- A call of `read`: the filter, and the content of the file, if it can be opened. -/
structure Call where
  filterFn : Option FilterFn
  file : Option Bytes

/-- `MultiPcapReader.read`: the pool of the reader it returns, and `_world_first_time` after it.
A call that raises returns no reader and leaves the time. -/
def read (worldFirstTime : Option ℚ) (call : Call) : Option (List PcapPacket) × Option ℚ :=
  match call.file.bind (PcapReader.read call.filterFn worldFirstTime) with
  | none => (none, worldFirstTime)
  | some (_, pool) =>
    (some pool,
      if worldFirstTime.isNone then pool.head?.map (fun p => p.time.timeStamp)
      else worldFirstTime)

def readAll : Option ℚ → List Call → List (List PcapPacket) × Option ℚ
  | worldFirstTime, [] => ([], worldFirstTime)
  | worldFirstTime, call :: calls =>
    let (pool, next) := read worldFirstTime call
    let (pools, last) := readAll next calls
    (pool.toList ++ pools, last)

/-- `_world_first_time` after `__init__` or `reset`. -/
def reset : Option ℚ := none

/-! ## The packets of one file -/

abbrev Parsed := PacketHeader × PcapBody

/-- The packets that the loop of `PcapReader.read` parses; `none` is an exception. -/
def parsed (linkType : ℕ) : ℕ → Bytes → Option (List Parsed)
  | 0, _ => some []
  | fuel + 1, filePoint =>
    match packetHeaderFromFile filePoint with
    | none => some []
    | some (header, filePoint) =>
      match parseBody linkType header.packlen filePoint with
      | none => none
      | some none => some []
      | some (some (body, filePoint)) =>
        (parsed linkType fuel filePoint).map (fun packets => (header, body) :: packets)

def parsedFile (file : Bytes) : Option (List Parsed) :=
  let (fileHeader, filePoint) := FileHeader.fromFile file
  parsed fileHeader.linkType filePoint.length filePoint

section Loop
variable (filterFn : Option FilterFn) (worldFirstTime : Option ℚ)

def addAll (s : Progress) (packets : List Parsed) : Progress :=
  packets.foldl (fun s p => s.add filterFn worldFirstTime p.1 p.2) s

/-- The loop parses first and adds afterwards, as far as the result goes. -/
theorem readLoop_eq (linkType fuel : ℕ) (s : Progress) (filePoint : Bytes) :
    PcapReader.readLoop filterFn linkType worldFirstTime fuel s filePoint =
      (parsed linkType fuel filePoint).map
        (fun packets => (addAll filterFn worldFirstTime s packets).pool) := by
  induction fuel generalizing s filePoint with
  | zero => rfl
  | succ fuel ih =>
    rw [readLoop_succ, parsed]
    cases packetHeaderFromFile filePoint with
    | none => rfl
    | some first =>
      obtain ⟨header, filePoint⟩ := first
      dsimp only
      cases parseBody linkType header.packlen filePoint with
      | none => rfl
      | some body =>
        cases body with
        | none => rfl
        | some rest =>
          obtain ⟨body, filePoint⟩ := rest
          dsimp only
          rw [ih, Option.map_map]
          rfl

def firstTimeOf (packets : List Parsed) : Option ℚ := packets.head?.map (fun p => p.1.timeStamp)

def kept (packets : List Parsed) : List Parsed :=
  packets.filter (fun p => !isFiltering filterFn p.1 p.2)

theorem kept_cons (packet : Parsed) (packets : List Parsed) :
    kept filterFn (packet :: packets) =
      if isFiltering filterFn packet.1 packet.2 then kept filterFn packets
      else packet :: kept filterFn packets := by
  rw [kept, List.filter_cons]
  cases isFiltering filterFn packet.1 packet.2 <;> rfl

theorem calculate_world (timeStamp : ℚ) (previousTime firstTime : Option ℚ) :
    (calculate timeStamp previousTime firstTime worldFirstTime).worldAccumulateOffsetTime =
      timeStamp - worldFirstTime.getD (firstTime.getD timeStamp) := by
  cases worldFirstTime with
  | some w => rfl
  | none =>
    cases firstTime with
    | some first => rfl
    | none => exact (sub_self timeStamp).symm

def Timed (origin : ℚ) (p : PcapPacket) : Prop :=
  p.time.timeStamp = p.header.timeStamp ∧
    p.time.worldAccumulateOffsetTime = p.time.timeStamp - origin

/-- The pool grows by the packets that the filter lets through, all against one origin. -/
theorem addAll_pool (s : Progress) (packets : List Parsed) (start : ℚ)
    (hstart : ∀ t, (s.firstTime.or (firstTimeOf packets)) = some t → t = start) :
    ∃ added, (addAll filterFn worldFirstTime s packets).pool = s.pool ++ added ∧
      added.map (fun p => (p.header, p.body)) = kept filterFn packets ∧
      ∀ p ∈ added, Timed (worldFirstTime.getD start) p := by
  induction packets generalizing s with
  | nil => exact ⟨[], (List.append_nil _).symm, rfl, List.forall_mem_nil _⟩
  | cons packet packets ih =>
    obtain ⟨header, body⟩ := packet
    have hfirst : s.firstTime.getD header.timeStamp = start := by
      cases hs : s.firstTime with
      | none => exact hstart header.timeStamp (by rw [hs]; rfl)
      | some first => exact hstart first (by rw [hs]; rfl)
    have hnext : ∀ t, ((s.add filterFn worldFirstTime header body).firstTime.or
        (firstTimeOf packets)) = some t → t = start := by
      intro t ht
      rw [← hfirst]
      exact (Option.some.inj ht).symm
    obtain ⟨added, hpool, hkept, htimed⟩ :=
      ih (s.add filterFn worldFirstTime header body) hnext
    have hadd : addAll filterFn worldFirstTime s ((header, body) :: packets) =
        addAll filterFn worldFirstTime (s.add filterFn worldFirstTime header body) packets := rfl
    rw [hadd, hpool, kept_cons]
    by_cases hfiltered : isFiltering filterFn header body = true
    · rw [if_pos hfiltered]
      refine ⟨added, ?_, hkept, htimed⟩
      simp only [Progress.add, hfiltered, if_true]
    · let packet : PcapPacket := ⟨s.packetIndex, header, body,
        calculate header.timeStamp s.previousTime s.firstTime worldFirstTime⟩
      rw [if_neg hfiltered]
      refine ⟨packet :: added, ?_, congrArg ((header, body) :: ·) hkept, ?_⟩
      · simp only [Progress.add, if_neg hfiltered, List.append_assoc]
        rfl
      · intro p hp
        rcases List.mem_cons.mp hp with rfl | hp
        · refine ⟨rfl, ?_⟩
          rw [← hfirst]
          exact calculate_world worldFirstTime header.timeStamp s.previousTime s.firstTime
        · exact htimed p hp

end Loop

/-! ## One call -/

def Call.packets (call : Call) : List Parsed := ((call.file.bind parsedFile).getD [])

def Call.kept (call : Call) : List Parsed := MultiReader.kept call.filterFn call.packets

theorem read_file (filterFn : Option FilterFn) (worldFirstTime : Option ℚ) (file : Bytes) :
    PcapReader.read filterFn worldFirstTime file = (parsedFile file).map (fun packets =>
      ((FileHeader.fromFile file).1, (addAll filterFn worldFirstTime .new packets).pool)) := by
  rw [read_eq, parsedFile]
  dsimp only
  rw [readLoop_eq, Option.map_map]
  rfl

/-- What a call does: it returns no packets and leaves the time, or returns those that it keeps,
against the origin it was given or else the first time of the file. -/
theorem read_spec (worldFirstTime : Option ℚ) (call : Call) :
    ∃ pool, (read worldFirstTime call).1.toList.flatten = pool ∧
      pool.map (fun p => (p.header, p.body)) = call.kept ∧
      (∀ p ∈ pool, Timed (worldFirstTime.getD ((firstTimeOf call.packets).getD 0)) p) ∧
      (read worldFirstTime call).2 = worldFirstTime.or (firstTimeOf call.kept) := by
  have hraised : call.file.bind parsedFile = none →
      call.file.bind (PcapReader.read call.filterFn worldFirstTime) = none := by
    intro h
    cases hfile : call.file with
    | none => rfl
    | some file =>
      rw [hfile] at h
      change parsedFile file = none at h
      change PcapReader.read call.filterFn worldFirstTime file = none
      rw [read_file, h, Option.map_none]
  cases hp : call.file.bind parsedFile with
  | none =>
    have hpackets : call.packets = [] := by rw [Call.packets, hp]; rfl
    have hkept : call.kept = [] := by rw [Call.kept, hpackets]; rfl
    have hread : read worldFirstTime call = (none, worldFirstTime) := by
      rw [read, hraised hp]
    rw [hread, hkept]
    exact ⟨[], rfl, rfl, List.forall_mem_nil _, (Option.or_none).symm⟩
  | some packets =>
    obtain ⟨file, hfile, hparsed⟩ := Option.bind_eq_some_iff.mp hp
    have hpackets : call.packets = packets := by rw [Call.packets, hp]; rfl
    have hstart : ∀ t, (Progress.new.firstTime.or (firstTimeOf packets)) = some t →
        t = (firstTimeOf packets).getD 0 := by
      intro t ht
      change firstTimeOf packets = some t at ht
      rw [ht]
      rfl
    obtain ⟨added, hpool, hkept, htimed⟩ :=
      addAll_pool call.filterFn worldFirstTime .new packets _ hstart
    have hpool' : (addAll call.filterFn worldFirstTime .new packets).pool = added := hpool
    have hread : read worldFirstTime call = (some added, if worldFirstTime.isNone then
        added.head?.map (fun p => p.time.timeStamp) else worldFirstTime) := by
      rw [read, hfile, Option.bind_some, read_file, hparsed, Option.map_some, hpool']
    have hhead : added.head?.map (fun p => p.time.timeStamp) = firstTimeOf call.kept := by
      rw [firstTimeOf, Call.kept, hpackets, ← hkept]
      cases added with
      | nil => rfl
      | cons p added => exact congrArg some (htimed p List.mem_cons_self).1
    rw [hread, hhead, hpackets, Call.kept, hpackets]
    refine ⟨added, by simp, hkept, htimed, ?_⟩
    cases worldFirstTime <;> rfl

/-! ## All calls -/

/-- One time is the origin of every packet that the readers keep, and is stored once there is
such a packet. -/
def SharedOrigin (result : List (List PcapPacket) × Option ℚ) : Prop :=
  ∃ origin : ℚ, (∀ p ∈ result.1.flatten,
      p.time.worldAccumulateOffsetTime = p.time.timeStamp - origin) ∧
    (result.1.flatten ≠ [] → result.2 = some origin)

/-- The first call that keeps a packet keeps one with the time of the first packet of its file. -/
def Aligned (calls : List Call) : Prop :=
  ∀ call, calls.find? (fun c => !c.kept.isEmpty) = some call →
    firstTimeOf call.packets = firstTimeOf call.kept

theorem readAll_cons (worldFirstTime : Option ℚ) (call : Call) (calls : List Call) :
    (readAll worldFirstTime (call :: calls)).1.flatten =
      (read worldFirstTime call).1.toList.flatten ++
        (readAll (read worldFirstTime call).2 calls).1.flatten ∧
    (readAll worldFirstTime (call :: calls)).2 =
      (readAll (read worldFirstTime call).2 calls).2 :=
  ⟨List.flatten_append, rfl⟩

theorem readAll_stored (origin : ℚ) (calls : List Call) :
    (∀ p ∈ (readAll (some origin) calls).1.flatten, Timed origin p) ∧
      (readAll (some origin) calls).2 = some origin := by
  induction calls with
  | nil => exact ⟨List.forall_mem_nil _, rfl⟩
  | cons call calls ih =>
    obtain ⟨pool, hpool, -, htimed, hnext⟩ := read_spec (some origin) call
    obtain ⟨hflatten, hlast⟩ := readAll_cons (some origin) call calls
    have hstored : (read (some origin) call).2 = some origin := hnext
    rw [hflatten, hlast, hstored, hpool]
    refine ⟨?_, ih.2⟩
    intro p hp
    rcases List.mem_append.mp hp with hp | hp
    · exact htimed p hp
    · exact ih.1 p hp

theorem kept_subset {call : Call} {packet : Parsed} (h : packet ∈ call.kept) :
    packet ∈ call.packets := List.mem_of_mem_filter h

theorem readAll_first {call : Call} (hkept : call.kept ≠ []) (calls : List Call) :
    SharedOrigin (readAll none (call :: calls)) ↔
      firstTimeOf call.packets = firstTimeOf call.kept := by
  obtain ⟨pool, hpool, hcontent, htimed, hnext⟩ := read_spec none call
  obtain ⟨hflatten, hlast⟩ := readAll_cons none call calls
  obtain ⟨packet, packets, hk⟩ := List.exists_cons_of_ne_nil hkept
  have hmem : packet ∈ call.packets := kept_subset (hk ▸ List.mem_cons_self)
  obtain ⟨first, others, hp⟩ := List.exists_cons_of_ne_nil (List.ne_nil_of_mem hmem)
  have hfirst : firstTimeOf call.packets = some first.1.timeStamp := by rw [hp]; rfl
  have hstored : firstTimeOf call.kept = some packet.1.timeStamp := by rw [hk]; rfl
  rw [hstored, Option.none_or] at hnext
  rw [hfirst, Option.getD_none, Option.getD_some] at htimed
  rw [hnext] at hflatten hlast
  obtain ⟨hrest, hstate⟩ := readAll_stored packet.1.timeStamp calls
  rw [SharedOrigin, hflatten, hlast, hstate, hpool, hfirst, hstored, Option.some.injEq]
  have hne : pool ≠ [] := by
    rintro rfl
    rw [List.map_nil] at hcontent
    exact hkept hcontent.symm
  constructor
  · rintro ⟨origin, hworld, horigin⟩
    obtain ⟨p, hpmem⟩ := List.exists_mem_of_ne_nil _ hne
    have hsame := horigin (List.append_ne_nil_of_left_ne_nil hne _)
    have hoffset := (htimed p hpmem).2.symm.trans (hworld p (List.mem_append_left _ hpmem))
    rw [← Option.some.inj hsame] at hoffset
    exact sub_right_inj.mp hoffset
  · intro heq
    refine ⟨packet.1.timeStamp, ?_, fun _ => rfl⟩
    intro p hpmem
    rcases List.mem_append.mp hpmem with hpmem | hpmem
    · rw [(htimed p hpmem).2, heq]
    · exact (hrest p hpmem).2

theorem readAll_skip {call : Call} (hkept : call.kept = []) (calls : List Call) :
    (readAll none (call :: calls)).1.flatten = (readAll none calls).1.flatten ∧
      (readAll none (call :: calls)).2 = (readAll none calls).2 := by
  obtain ⟨pool, hpool, hcontent, -, hnext⟩ := read_spec none call
  obtain ⟨hflatten, hlast⟩ := readAll_cons none call calls
  rw [hkept] at hcontent hnext
  have hnil : pool = [] := List.map_eq_nil_iff.mp hcontent
  have hstate : (read none call).2 = none := hnext
  rw [hpool, hnil, hstate] at hflatten
  rw [hstate] at hlast
  exact ⟨hflatten, hlast⟩

/-- The files read after a reset share one origin exactly when, in the first file of which a
packet is kept, the first packet kept has the time of the first packet of the file. -/
theorem shared_origin_iff (calls : List Call) :
    SharedOrigin (readAll reset calls) ↔ Aligned calls := by
  change SharedOrigin (readAll none calls) ↔ Aligned calls
  induction calls with
  | nil =>
    constructor
    · intro _ call hcall
      cases hcall
    · exact fun _ => ⟨0, List.forall_mem_nil _, fun h => absurd rfl h⟩
  | cons call calls ih =>
    by_cases hkept : call.kept = []
    · obtain ⟨hflatten, hlast⟩ := readAll_skip hkept calls
      have hfind : (call :: calls).find? (fun c => !c.kept.isEmpty) =
          calls.find? (fun c => !c.kept.isEmpty) := by
        rw [List.find?_cons, hkept]
        rfl
      rw [SharedOrigin, hflatten, hlast, Aligned, hfind]
      exact ih
    · have hfind : (call :: calls).find? (fun c => !c.kept.isEmpty) = some call := by
        have hsome : (!call.kept.isEmpty) = true := by simpa using hkept
        rw [List.find?_cons, hsome]
      rw [readAll_first hkept, Aligned, hfind]
      constructor
      · rintro h other hother
        cases hother
        exact h
      · exact fun h => h call rfl

/-- Two packets, at 7 and at 8 seconds, and a filter that lets the second through. -/
def secondOnly : Call where
  filterFn := some (fun header _ => header.captime == 7)
  file := some (ethernetCapture (packetBytes 7 1 ++ packetBytes 8 5))

/-- The packet kept has offset 1, and its own time is stored as the origin. -/
theorem secondOnly_not_shared : ¬ SharedOrigin (readAll reset [secondOnly]) := by
  have hkept : secondOnly.kept.map (fun p => p.1) = [⟨8, 0, 1, 1⟩] := by decide
  have hpackets : secondOnly.packets.map (fun p => p.1) = [⟨7, 0, 1, 1⟩, ⟨8, 0, 1, 1⟩] := by
    decide
  have hne : secondOnly.kept ≠ [] := by
    intro h
    rw [h] at hkept
    cases hkept
  have htime : ∀ packets : List Parsed, firstTimeOf packets =
      (packets.map (fun p => p.1)).head?.map PacketHeader.timeStamp := by
    intro packets
    rw [firstTimeOf, List.head?_map, Option.map_map]
    rfl
  intro h
  have hsame := (readAll_first hne []).mp h
  rw [htime, htime, hkept, hpackets] at hsame
  have hseven : (⟨7, 0, 1, 1⟩ : PacketHeader).timeStamp = (⟨8, 0, 1, 1⟩ : PacketHeader).timeStamp :=
    Option.some.inj hsame
  norm_num [PacketHeader.timeStamp] at hseven

end SensorDataNormalization.MultiReader
