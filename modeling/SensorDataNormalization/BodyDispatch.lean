import SensorDataNormalization.PcapReader

set_option autoImplicit false

/-! `PcapBodyFactory` after registrations, and the reader that uses it. -/
namespace SensorDataNormalization.BodyDispatch
open SeparatedLists PcapRecords PacketBodies PcapReader

structure Registration where
  linkType : ℕ
  protocol : ℕ
  bodyCls : BodyClass

def Registration.key (r : Registration) : ℕ × ℕ := (r.linkType, r.protocol)

def register (table : BodyTable) (r : Registration) : BodyTable :=
  Function.update table r.key (some r.bodyCls)

def tableAfter (registrations : List Registration) : BodyTable :=
  registrations.foldl register initialTable

/-! ## The class for a packet -/

/-- The class registered last for a key, or the initial one. -/
def lastRegistered (registrations : List Registration) (key : ℕ × ℕ) : Option BodyClass :=
  ((registrations.reverse.find? (fun r => r.key == key)).map Registration.bodyCls).or
    (bodyTable.lookup key)

theorem tableAfter_eq (registrations : List Registration) (key : ℕ × ℕ) :
    tableAfter registrations key = lastRegistered registrations key := by
  induction registrations using List.reverseRecOn with
  | nil => rfl
  | append_singleton rs r ih =>
    have hafter : tableAfter (rs ++ [r]) = register (tableAfter rs) r :=
      List.foldl_concat register _ r rs
    rw [hafter, lastRegistered, List.reverse_append, List.reverse_singleton,
      List.singleton_append, register, List.find?_cons]
    by_cases hkey : r.key = key
    · have hsame : (r.key == key) = true := beq_iff_eq.mpr hkey
      rw [hsame, hkey, Function.update_self]
      rfl
    · have hother : (r.key == key) = false := beq_eq_false_iff_ne.mpr hkey
      rw [hother, Function.update_of_ne (Ne.symm hkey)]
      exact ih

/-- What `parse` is to return, for a packet of a protocol. -/
def expected (registrations : List Registration) (linkType protocol pakLen : ℕ)
    (filePoint : Bytes) : Option (PcapBody × Bytes) :=
  if pakLen = 0 ∨ filePoint = [] then none
  else
    ((lastRegistered registrations (linkType, protocol)).or
      (lastRegistered registrations (linkType, TCP))).map
        (fun cls => (cls (filePoint.take pakLen), filePoint.drop pakLen))

/-- `parse` raises nothing and returns what is expected. A link type without an offset may have
any protocol. -/
def Dispatched (registrations : List Registration) (linkType pakLen : ℕ) (filePoint : Bytes) :
    Prop :=
  ∃ protocol, (∀ offset, protocolOffset.lookup linkType = some offset →
      protocol = intAt (filePoint.take pakLen) offset (offset + 1)) ∧
    parseWith (tableAfter registrations) linkType pakLen filePoint =
      some (expected registrations linkType protocol pakLen filePoint)

theorem parseWith_end (table : BodyTable) (linkType : ℕ) {pakLen : ℕ} {filePoint : Bytes}
    (h : filePoint.take pakLen = []) : parseWith table linkType pakLen filePoint = some none := by
  unfold parseWith PacketBodies.read
  by_cases hlen : pakLen ≤ 0
  · rw [if_pos hlen]
  · rw [if_neg hlen]
    exact if_pos h

theorem parseWith_data (registrations : List Registration) (linkType : ℕ) {pakLen : ℕ}
    {filePoint : Bytes} (h : filePoint.take pakLen ≠ []) :
    parseWith (tableAfter registrations) linkType pakLen filePoint =
      (detectProtocol linkType (filePoint.take pakLen)).map
        (fun protocol => expected registrations linkType protocol pakLen filePoint) := by
  have hsome : ¬ (pakLen = 0 ∨ filePoint = []) := by
    rw [← List.take_eq_nil_iff]
    exact h
  have hpos : ¬ pakLen ≤ 0 := fun hle => hsome (Or.inl (Nat.le_zero.mp hle))
  unfold parseWith PacketBodies.read
  rw [if_neg hpos]
  dsimp only
  rw [if_neg h]
  cases detectProtocol linkType (filePoint.take pakLen) with
  | none => rfl
  | some protocol =>
    simp only [Option.map_some, expected, if_neg hsome, tableAfter_eq]
    cases (lastRegistered registrations (linkType, protocol)).or
      (lastRegistered registrations (linkType, TCP)) <;> rfl

theorem offset_isSome (linkType : ℕ) :
    (protocolOffset.lookup linkType).isSome ↔ linkType ∈ supportedLinkTypes := lookup_isSome

theorem offset_none {linkType : ℕ} (h : linkType ∉ supportedLinkTypes) :
    protocolOffset.lookup linkType = none := by
  rw [← Option.not_isSome_iff_eq_none, offset_isSome]
  exact h

theorem parseWith_unsupported (registrations : List Registration) {linkType : ℕ}
    (hlink : linkType ∉ supportedLinkTypes) {pakLen : ℕ} {filePoint : Bytes}
    (h : filePoint.take pakLen ≠ []) :
    parseWith (tableAfter registrations) linkType pakLen filePoint = none := by
  rw [parseWith_data registrations linkType h, detectProtocol, offset_none hlink]
  rfl

theorem dispatched_iff (registrations : List Registration) (linkType pakLen : ℕ)
    (filePoint : Bytes) : Dispatched registrations linkType pakLen filePoint ↔
      pakLen = 0 ∨ filePoint = [] ∨ linkType ∈ supportedLinkTypes := by
  by_cases hdata : filePoint.take pakLen = []
  · have hend := List.take_eq_nil_iff.mp hdata
    have hnone : ∀ protocol,
        expected registrations linkType protocol pakLen filePoint = none :=
      fun protocol => if_pos hend
    constructor
    · intro _
      rcases hend with hlen | hfile
      · exact Or.inl hlen
      · exact Or.inr (Or.inl hfile)
    · intro _
      refine ⟨intAt (filePoint.take pakLen) ((protocolOffset.lookup linkType).getD 0)
        ((protocolOffset.lookup linkType).getD 0 + 1), ?_, ?_⟩
      · intro offset hoffset
        rw [hoffset]
        rfl
      · rw [hnone, parseWith_end _ _ hdata]
  · have hsome : ¬ (pakLen = 0 ∨ filePoint = []) := by
      rw [← List.take_eq_nil_iff]
      exact hdata
    constructor
    · rintro ⟨protocol, -, hparse⟩
      refine Or.inr (Or.inr ?_)
      by_contra hlink
      rw [parseWith_unsupported registrations hlink hdata] at hparse
      cases hparse
    · intro h
      have hlink : linkType ∈ supportedLinkTypes := by
        rcases h with hlen | hfile | hlink
        · exact absurd (Or.inl hlen) hsome
        · exact absurd (Or.inr hfile) hsome
        · exact hlink
      obtain ⟨offset, hoffset⟩ := Option.isSome_iff_exists.mp ((offset_isSome linkType).mpr hlink)
      refine ⟨intAt (filePoint.take pakLen) offset (offset + 1), ?_, ?_⟩
      · intro offset' hoffset'
        rw [hoffset] at hoffset'
        cases hoffset'
        rfl
      · rw [parseWith_data registrations linkType hdata, detectProtocol, hoffset]
        rfl

/-! ## The reader -/

/-- A file of an unsupported link type is read to an empty pool when its first packet has no
bytes, and raises otherwise. -/
theorem readWith_unsupported (registrations : List Registration) (filterFn : Option FilterFn)
    (worldFirstTime : Option ℚ) {file : Bytes}
    (hlink : (FileHeader.fromFile file).1.linkType ∉ supportedLinkTypes) :
    readWith (tableAfter registrations) filterFn worldFirstTime file =
      if firstPacket (file.drop pcapFileHeaderSize) = none
      then some ((FileHeader.fromFile file).1, []) else none := by
  have hrest : (FileHeader.fromFile file).2 = file.drop pcapFileHeaderSize := fromFile_rest file
  unfold readWith
  dsimp only
  rw [hrest]
  generalize file.drop pcapFileHeaderSize = data
  have hloop : ∀ fuel, data.length ≤ fuel →
      readLoopWith (tableAfter registrations) filterFn (FileHeader.fromFile file).1.linkType
        worldFirstTime fuel .new data = if firstPacket data = none then some [] else none := by
    intro fuel hfuel
    unfold firstPacket
    cases fuel with
    | zero =>
      have hnil : data = [] := List.length_eq_zero_iff.mp (Nat.le_zero.mp hfuel)
      rw [hnil]
      rfl
    | succ fuel =>
      rw [readLoopWith, packetHeaderFromFile_eq]
      by_cases hdata : data = []
      · rw [hdata]
        rfl
      rw [if_neg hdata]
      dsimp only
      by_cases hcaptured : (data.drop pcapPacketHeaderSize).take
          (packetHeader (data.take pcapPacketHeaderSize)).packlen = []
      · rw [if_pos hcaptured, if_pos rfl, parseWith_end _ _ hcaptured]
        rfl
      · rw [if_neg hcaptured, if_neg (by simp), parseWith_unsupported _ hlink hcaptured]
  rw [hloop data.length (le_refl _)]
  by_cases hfirst : firstPacket data = none
  · rw [if_pos hfirst, if_pos hfirst, Option.map_some]
  · rw [if_neg hfirst, if_neg hfirst, Option.map_none]

/-- After any registrations `parse` does what it is to do exactly for the link types in the table
of offsets, apart from packets without bytes; so a file of another link type has an empty pool
exactly when its first packet has no bytes. -/
theorem dispatch_total_iff (registrations : List Registration) :
    (∀ linkType pakLen filePoint, Dispatched registrations linkType pakLen filePoint ↔
      pakLen = 0 ∨ filePoint = [] ∨ linkType ∈ supportedLinkTypes) ∧
    ∀ filterFn worldFirstTime file,
      (FileHeader.fromFile file).1.linkType ∉ supportedLinkTypes →
      (readWith (tableAfter registrations) filterFn worldFirstTime file =
        some ((FileHeader.fromFile file).1, []) ↔
          firstPacket (file.drop pcapFileHeaderSize) = none) := by
  refine ⟨dispatched_iff registrations, ?_⟩
  intro filterFn worldFirstTime file hlink
  rw [readWith_unsupported registrations filterFn worldFirstTime hlink]
  constructor
  · intro h
    by_contra hfirst
    rw [if_neg hfirst] at h
    cases h
  · intro h
    rw [if_pos h]

def rawRegistration : Registration := ⟨101, TCP, tcpEthernet⟩

def rawCapture : Bytes := List.replicate 20 0 ++ littleBytes 101 ++ packetBytes 7 1

theorem dispatch_total_rawCapture :
    ¬ Dispatched [] 101 1 [1] ∧ Dispatched [rawRegistration] 101 1 [] ∧
    readWith (tableAfter [rawRegistration]) none none rawCapture ≠
      some ((FileHeader.fromFile rawCapture).1, []) := by
  have hlink : (FileHeader.fromFile rawCapture).1.linkType ∉ supportedLinkTypes := by decide
  have hpacket : firstPacket (rawCapture.drop pcapFileHeaderSize) ≠ none := by decide
  refine ⟨?_, ?_, ?_⟩
  · rw [(dispatch_total_iff []).1]
    decide
  · rw [(dispatch_total_iff [rawRegistration]).1]
    exact Or.inr (Or.inl rfl)
  · intro h
    exact hpacket (((dispatch_total_iff [rawRegistration]).2 none none rawCapture hlink).mp h)

/-- The class is registered, and `parse` raises all the same. -/
theorem registered_type_raises :
    lastRegistered [rawRegistration] (101, TCP) = some tcpEthernet ∧
    parseWith (tableAfter [rawRegistration]) 101 1 [1] = none ∧
    ¬ Dispatched [rawRegistration] 101 1 [1] ∧
    readWith (tableAfter [rawRegistration]) none none rawCapture = none := by
  have hparse : parseWith (tableAfter [rawRegistration]) 101 1 [1] = none :=
    parseWith_unsupported _ (by decide) (by decide)
  have hlink : (FileHeader.fromFile rawCapture).1.linkType ∉ supportedLinkTypes := by decide
  have hpacket : firstPacket (rawCapture.drop pcapFileHeaderSize) ≠ none := by decide
  refine ⟨rfl, hparse, ?_, ?_⟩
  · rintro ⟨protocol, -, hresult⟩
    rw [hparse] at hresult
    cases hresult
  · rw [readWith_unsupported _ none none hlink, if_neg hpacket]

end SensorDataNormalization.BodyDispatch
