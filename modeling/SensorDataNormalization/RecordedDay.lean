import SensorDataNormalization.DeviceSelection
import SensorDataNormalization.PacketConservation
import SensorDataNormalization.RawUpload

set_option autoImplicit false

/-! From the recordings on disk to the packets in S3: the script uploads them, and then the
daemon is asked for their day. -/
namespace SensorDataNormalization.RecordedDay
open SeparatedLists PythonText SensorRegistry ProjectConfig WallClock PcapFilename PcapRecords
  PcapSplit StoreProgram WorkerPaths RawObjects Messages WorkerProgram ManagerProgram RawFiles
  NormalizerSystem SystemSteps CycleAccounting DrainQuiescence BatchOwnership PieceFlow
  UploadKeys SecondObjects PacketConservation DeviceSelection RawUpload

variable {n : ℕ} {env : Environment} {t : TextRules}

/-! ## Recordings -/

/-- A file `{vehicle}/{module}/{YYYYMMDD}/{name}` of a sensor of the registry. -/
structure Recording (t : TextRules) where
  vehicle : Str
  moduleLower : Str
  date : Str
  fname : Str
  hhmmss : Str
  contents : Bytes
  ascii : ∀ part ∈ [vehicle, moduleLower, fname], ∀ c ∈ part, c.toNat < 128
  vehicle_ordinary : Ordinary vehicle
  vehicle_no_brace : ∀ c ∈ vehicle, c ≠ '{' ∧ c ≠ '}'
  registered : Registered moduleLower
  date_digits : ∀ c ∈ date, IsDigit c
  date_length : date.length = 8
  fname_ordinary : Ordinary fname
  found : search t.isDecimal fname = some hhmmss

theorem registered_names_upper : ∀ name ∈ typeByName.map Prod.fst, upper name = name ∧
    't' ∉ name := by
  decide

theorem registered_upper {moduleName : Str} (h : Registered moduleName) :
    Registered (upper moduleName) := by
  have hself : upper (upper moduleName) = upper moduleName :=
    (registered_names_upper _ (registered_upper_mem h)).1
  rw [Registered, getModuleType, hself]
  exact h

namespace Recording
variable (r : Recording t)

theorem date_ordinary : Ordinary r.date := by
  refine digits_ordinary r.date_digits (fun h => ?_)
  have hlength := r.date_length
  rw [h] at hlength
  cases hlength

def file : SourceEntry where
  parts := [r.vehicle, r.moduleLower, r.date, r.fname]
  contents := some r.contents
  ordinary := by
    simp only [List.forall_mem_cons]
    exact ⟨r.vehicle_ordinary, registered_ordinary r.registered, r.date_ordinary,
      r.fname_ordinary, List.forall_mem_nil _⟩

def target : Target where
  vehicle := upper r.vehicle
  moduleName := upper r.moduleLower
  date := r.date
  hhmmss := r.hhmmss

theorem targetOf_file : targetOf t r.file.parts = some r.target := by
  have hvehicle : t.upper r.vehicle = upper r.vehicle :=
    t.upper_ascii _ (r.ascii _ (by simp))
  have hmodule : t.upper r.moduleLower = upper r.moduleLower :=
    t.upper_ascii _ (r.ascii _ (by simp))
  change (search t.isDecimal r.fname).map _ = _
  rw [r.found, hvehicle, hmodule]
  rfl

theorem hhmmss_digits : ∀ c ∈ r.hhmmss, IsDigit c := by
  obtain ⟨hwindow, -, hdecimal⟩ := search_some r.found
  intro c hc
  exact (t.isDecimal_ascii c (r.ascii _ (by simp) c (hwindow.subset hc))).mp (hdecimal c hc)

def stream : SensorStream where
  vehicle := upper r.vehicle
  moduleName := upper r.moduleLower
  vehicle_ordinary := upper_ordinary r.vehicle_ordinary
  vehicle_no_brace := by
    intro c hc
    by_cases hcapital : Capital c
    · constructor <;>
      · rintro rfl
        exact absurd hcapital (by decide)
    · exact r.vehicle_no_brace c (mem_of_upper hc hcapital)
  registered := registered_upper r.registered

def object : RawObject where
  dateFolder := r.date
  stream := r.stream
  stamp := r.date ++ r.hhmmss
  stamp_wf :=
    { digits := fun c hc => (List.mem_append.mp hc).elim (r.date_digits c) (r.hhmmss_digits c)
      length := by
        rw [List.length_append, r.date_length, (search_some r.found).2.1]
        exact Or.inr rfl }

def stored : RawObject × Bytes := (r.object, r.contents)

/-- The daemon looks for the recording where the script puts it. -/
theorem objectPath_target {u : RawUploader} {c : Config}
    (hroot : getRawStorageFullPath c.toSettings = u.path u.keyPrefix) :
    objectPath u r.target = r.object.filePath c := by
  have hkey : ∀ segments, u.path (slashes (u.keyPrefix :: segments)) =
      slashes (u.path u.keyPrefix :: segments) := by
    intro segments
    rw [slashes_cons, slashes_cons, RawUploader.path, RawUploader.path]
    simp
  rw [objectPath, Target.key, hkey, RawObject.filePath, hroot]
  rfl

/-- No name that the script gives has `temp` in it. -/
theorem not_temp (c : Config) : ¬ Temp (storageFile c r.object) := by
  have hmodule : 't' ∉ upper r.moduleLower :=
    (registered_names_upper _ (registered_upper_mem r.registered)).2
  have hstamp : 't' ∉ r.date ++ r.hhmmss := fun hmem =>
    absurd (r.object.stamp_wf.digits _ hmem) (by decide)
  intro htemp
  have hmem : 't' ∈ stampedName (upper r.moduleLower) (r.date ++ r.hhmmss) :=
    htemp.subset (by decide)
  simp only [stampedName, List.mem_append (t := ".pcap".toList)] at hmem
  rcases hmem with hmem | hmem
  · rcases List.mem_append.mp hmem with hmem | hmem
    · exact hmodule hmem
    · rcases List.mem_cons.mp hmem with hmem | hmem
      · exact absurd hmem (by decide)
      · exact hstamp hmem
  · exact absurd hmem (by decide)

theorem keepsFile_all (c : Config) (lower : Str → Str) :
    keepsFile lower SensorType.ALL (storageFile c r.object) = some true := by
  rw [keepsFile_eq, if_neg (r.not_temp c), if_pos rfl]

end Recording

/-! ## The day in S3 -/

def processFolder (c : Config) (date : Str) : Str :=
  slashes [getRawStorageFullPath c.toSettings, date]

/-- A run of the script has ended in the S3 that the daemon reads, and the recordings are the
files of the tree for the day, for which S3 had nothing before. -/
structure UploadedDay (env : Environment) (u : RawUploader) (tree : List SourceEntry)
    (s3 : Store Str Bytes) (date : Str) (recordings : List (Recording t)) : Prop where
  wet : u.dryRun = false
  ended : ∃ raises count, run t u raises (some tree) s3 = (env.raw, some count)
  root : getRawStorageFullPath env.config.toSettings = u.path u.keyPrefix
  fresh : ∀ path, (processFolder env.config date ++ ['/']) <+: path → s3 path = none
  date_no_slash : '/' ∉ date
  dated : ∀ r ∈ recordings, r.date = date
  present : ∀ r ∈ recordings, r.file ∈ rglob tree
  all : ∀ f ∈ rglob tree, ∀ x, targetOf t f.parts = some x → x.date = date →
    ∃ r ∈ recordings, r.file = f
  minutes : recordings.Pairwise (fun r r' => ¬ r.object.SameMinute r'.object)

/-- What storage lists below a folder: every object once, by its path and its name, and possibly
folders. -/
structure Lists (s3 : Store Str Bytes) (folder : Str) (listed : List StorageFile) : Prop where
  named : ∀ file ∈ listed, file.isDir = false → file.fileName = basename file.filePath
  once : ((listed.filter (fun f => !f.isDir)).map StorageFile.filePath).Nodup
  below : ∀ path, (∃ file ∈ listed, file.isDir = false ∧ file.filePath = path) ↔
    (s3 path).isSome ∧ (folder ++ ['/']) <+: path

theorem prefix_dated {root date date' rest : Str} (h : '/' ∉ date) (h' : '/' ∉ date') :
    (slashes [root, date] ++ ['/']) <+: (root ++ '/' :: (date' ++ '/' :: rest)) ↔ date = date' := by
  have hfolder : slashes [root, date] ++ ['/'] = root ++ '/' :: (date ++ ['/']) := by
    simp [slashes_cons, pathOf, joined]
  rw [hfolder, List.prefix_append_right_inj, List.cons_prefix_cons]
  constructor
  · rintro ⟨-, after, hafter⟩
    rw [List.append_assoc] at hafter
    exact (append_sep_left_eq h h' hafter).1
  · rintro rfl
    exact ⟨rfl, rest, by simp⟩

theorem filePath_eq (c : Config) (o : RawObject) : o.filePath c =
    getRawStorageFullPath c.toSettings ++
      '/' :: (o.dateFolder ++ '/' :: (o.stream.vehicle ++ '/' :: o.fileName)) := by
  simp [RawObject.filePath, slashes_cons, pathOf, joined]

theorem basename_filePath (c : Config) (o : RawObject) : basename (o.filePath c) = o.fileName := by
  have hpath : o.filePath c = slashes [getRawStorageFullPath c.toSettings, o.dateFolder,
      o.stream.vehicle] ++ '/' :: o.fileName := slashes_concat _ _ [_, _]
  rw [hpath]
  exact basename_slash _ o.fileName_no_slash

theorem filePath_same {c : Config} {o o' : RawObject} (hfolder : o.dateFolder = o'.dateFolder)
    (h : o.filePath c = o'.filePath c) : o.SameMinute o' := by
  rw [filePath_eq, filePath_eq, hfolder] at h
  have hrest := List.append_cancel_left (List.cons.inj (List.append_cancel_left h)).2
  obtain ⟨hvehicle, hname⟩ := append_sep_left_eq o.stream.vehicle_ordinary.no_slash
    o'.stream.vehicle_ordinary.no_slash (List.cons.inj hrest).2
  obtain ⟨hmodule, hstamp⟩ :=
    stampedName_injective o.stamp_wf.digits o'.stamp_wf.digits hname
  exact ⟨SensorStream.ext_names hvehicle hmodule, congrArg (List.take 12) hstamp⟩

theorem objectPath_eq (u : RawUploader) (x : Target) : objectPath u x =
    u.path u.keyPrefix ++ '/' :: (x.date ++ '/' ::
      (x.vehicle ++ '/' :: stampedName x.moduleName (x.date ++ x.hhmmss))) := by
  simp [objectPath, Target.key, RawUploader.path, slashes_cons, pathOf, joined]

section Day
variable {u : RawUploader} {tree : List SourceEntry} {s3 : Store Str Bytes} {date : Str}
  {recordings : List (Recording t)} (h : UploadedDay env u tree s3 date recordings)
include h

theorem UploadedDay.same_object {r r' : Recording t} (hr : r ∈ recordings) (hr' : r' ∈ recordings)
    (hsame : r.object.SameMinute r'.object) : r = r' := by
  have hsymm : Std.Symm (fun r r' : Recording t => ¬ r.object.SameMinute r'.object) :=
    ⟨fun _ _ hab hba => hab ⟨hba.1.symm, hba.2.symm⟩⟩
  by_contra hne
  exact h.minutes.forall hr hr' hne hsame

theorem UploadedDay.stored {r : Recording t} (hr : r ∈ recordings) :
    env.raw (r.object.filePath env.config) = some r.contents := by
  obtain ⟨raises, count, hrun⟩ := h.ended
  obtain ⟨g, hg, hgx, hobject, -⟩ :=
    run_last h.wet (by rw [hrun]) (h.present r hr) r.targetOf_file
  obtain ⟨r', hr', rfl⟩ := h.all g hg _ hgx (h.dated r hr)
  have htarget : r'.target = r.target := Option.some.inj (r'.targetOf_file.symm.trans hgx)
  have hsame : r'.object.SameMinute r.object := by
    have hvehicle : upper r'.vehicle = upper r.vehicle := congrArg Target.vehicle htarget
    have hmodule : upper r'.moduleLower = upper r.moduleLower := congrArg Target.moduleName htarget
    have hdate : r'.date = r.date := congrArg Target.date htarget
    have htime : r'.hhmmss = r.hhmmss := congrArg Target.hhmmss htarget
    refine ⟨SensorStream.ext_names hvehicle hmodule, ?_⟩
    change (r'.date ++ r'.hhmmss).take 12 = (r.date ++ r.hhmmss).take 12
    rw [hdate, htime]
  rw [h.same_object hr' hr hsame, r.objectPath_target h.root, hrun] at hobject
  exact hobject

theorem UploadedDay.only {path : Str} (hsome : (env.raw path).isSome)
    (hbelow : (processFolder env.config date ++ ['/']) <+: path) :
    ∃ r ∈ recordings, path = r.object.filePath env.config := by
  obtain ⟨raises, count, hrun⟩ := h.ended
  have huploads : env.raw path = s3 path ∨ _ := hrun ▸ @run_uploads t u raises s3 tree h.wet path
  rw [h.fresh path hbelow] at huploads
  rcases huploads with hnone | ⟨f, hf, x, -, hx, -, rfl, -⟩
  · rw [hnone] at hsome
    cases hsome
  · have hdate : date = x.date := by
      rw [objectPath_eq, processFolder, h.root] at hbelow
      exact (prefix_dated h.date_no_slash (targetOf_plain hx).date).mp hbelow
    obtain ⟨r, hr, rfl⟩ := h.all f hf x hx hdate.symm
    obtain rfl := Option.some.inj (r.targetOf_file.symm.trans hx)
    exact ⟨r, hr, r.objectPath_target h.root⟩

theorem UploadedDay.below {r : Recording t} (hr : r ∈ recordings) :
    (processFolder env.config date ++ ['/']) <+: r.object.filePath env.config := by
  rw [filePath_eq, processFolder]
  exact (prefix_dated h.date_no_slash r.date_ordinary.no_slash).mpr (h.dated r hr).symm

/-! ## The files of the cycle -/

variable {listed : List StorageFile}

theorem UploadedDay.listed_entry (hlist : Lists env.raw (processFolder env.config date) listed)
    {file : StorageFile} (hfile : file ∈ listed.filter (fun f => !f.isDir)) :
    ∃ r ∈ recordings, file = storageFile env.config r.object := by
  obtain ⟨hfile, hnot⟩ := List.mem_filter.mp hfile
  have hdir : file.isDir = false := by simpa using hnot
  obtain ⟨hsome, hbelow⟩ := (hlist.below file.filePath).mp ⟨file, hfile, hdir, rfl⟩
  obtain ⟨r, hr, hpath⟩ := h.only hsome hbelow
  have hname : file.fileName = r.object.fileName := by
    rw [hlist.named file hfile hdir, hpath, basename_filePath]
  refine ⟨r, hr, ?_⟩
  cases file
  rw [storageFile, StorageFile.mk.injEq]
  exact ⟨hpath, hname, hdir⟩

theorem UploadedDay.listed_perm (hlist : Lists env.raw (processFolder env.config date) listed) :
    (listed.filter (fun f => !f.isDir)).Perm
      (recordings.map (fun r => storageFile env.config r.object)) := by
  have hfolder : ∀ r ∈ recordings, r.object.dateFolder = date := h.dated
  have hnodup : (recordings.map (fun r => storageFile env.config r.object)).Nodup := by
    apply List.pairwise_map.mpr
    apply h.minutes.imp_of_mem
    intro r r' hr hr' hapart hsame
    exact hapart (filePath_same ((hfolder r hr).trans (hfolder r' hr').symm)
      (congrArg StorageFile.filePath hsame))
  refine (List.perm_ext_iff_of_nodup hlist.once.of_map hnodup).mpr (fun file => ?_)
  constructor
  · intro hfile
    obtain ⟨r, hr, rfl⟩ := h.listed_entry hlist hfile
    exact List.mem_map.mpr ⟨r, hr, rfl⟩
  · intro hfile
    obtain ⟨r, hr, rfl⟩ := List.mem_map.mp hfile
    obtain ⟨file, hfile, hdir, hpath⟩ :=
      (hlist.below _).mpr ⟨by rw [h.stored hr]; rfl, h.below hr⟩
    have hmem : file ∈ listed.filter (fun f => !f.isDir) :=
      List.mem_filter.mpr ⟨hfile, by rw [hdir]; rfl⟩
    obtain ⟨r', hr', rfl⟩ := h.listed_entry hlist hmem
    have hsame := filePath_same ((hfolder r' hr').trans (hfolder r hr).symm) hpath
    rw [h.same_object hr' hr hsame] at hmem
    exact hmem

theorem UploadedDay.selected {request : Request} (hvehicle : request.vehicleId = [])
    (hdevice : selectedDeviceOf env.config request = SensorType.ALL)
    (hlist : Lists env.raw (processFolder env.config date) listed) :
    selectFiles env request (.listing listed) = some (listed.filter (fun f => !f.isDir)) := by
  have hcollect : collectFileList (.listing listed) request.vehicleId =
      some (listed.filter (fun f => !f.isDir)) := by
    rw [hvehicle]
    rfl
  rw [selectFiles, hcollect, hdevice]
  apply filterByDevice_keeps
  intro file hfile
  obtain ⟨r, hr, rfl⟩ := h.listed_entry hlist hfile
  exact r.keepsFile_all env.config env.lower

theorem UploadedDay.lists : Lists env.raw (processFolder env.config date)
    (recordings.map (fun r => storageFile env.config r.object)) where
  named := by
    intro file hfile _
    obtain ⟨r, -, rfl⟩ := List.mem_map.mp hfile
    exact (basename_filePath env.config r.object).symm
  once := by
    have hfiles : (recordings.map (fun r => storageFile env.config r.object)).filter
        (fun f => !f.isDir) = recordings.map (fun r => storageFile env.config r.object) := by
      apply List.filter_eq_self.mpr
      intro file hfile
      obtain ⟨r, -, rfl⟩ := List.mem_map.mp hfile
      rfl
    rw [hfiles, List.map_map]
    apply List.pairwise_map.mpr
    apply h.minutes.imp_of_mem
    intro r r' hr hr' hapart hsame
    exact hapart (filePath_same ((h.dated r hr).trans (h.dated r' hr').symm) hsame)
  below := by
    intro path
    constructor
    · rintro ⟨file, hfile, -, rfl⟩
      obtain ⟨r, hr, rfl⟩ := List.mem_map.mp hfile
      exact ⟨by rw [storageFile, h.stored hr]; rfl, h.below hr⟩
    · rintro ⟨hsome, hbelow⟩
      obtain ⟨r, hr, rfl⟩ := h.only hsome hbelow
      exact ⟨_, List.mem_map.mpr ⟨r, hr, rfl⟩, rfl, rfl⟩

def rawFile (r : { r // r ∈ recordings }) : RawFile env where
  object := r.1.object
  contents := r.1.contents
  stored := h.stored r.2

theorem UploadedDay.day_files (hlist : Lists env.raw (processFolder env.config date) listed) :
    ∃ files : List (RawFile env), files.Perm (recordings.attach.map (rawFile h)) ∧
      files.map RawFile.entry = listed.filter (fun f => !f.isDir) := by
  apply exists_of_perm_map
  have hentries : (recordings.attach.map (rawFile h)).map RawFile.entry =
      recordings.map (fun r => storageFile env.config r.object) := by
    rw [List.map_map]
    exact List.attach_map_val (f := fun r : Recording t => storageFile env.config r.object)
  rw [hentries]
  exact h.listed_perm hlist

end Day

/-! ## The packets -/

namespace Recording

def seconds (r : Recording t) : List ℕ := sortedSeconds r.contents

def packets (r : Recording t) (second : ℕ) : List Record :=
  (readPcapRecords r.contents).2.filter (fun p => decide (p.second = second))

end Recording

/-- The recordings of each sensor are consecutive, with at most two for a second. -/
structure ConsecutiveRecordings (recordings : List (Recording t)) : Prop where
  ordered : recordings.Pairwise (fun r r' => r.stream = r'.stream →
    (∀ a ∈ r.seconds, ∀ b ∈ r'.seconds, a ≤ b) ∨ ∀ b ∈ r'.seconds, ∀ a ∈ r.seconds, b ≤ a)
  shared : ∀ stream second, (recordings.filter (fun r =>
    decide (r.stream = stream ∧ second ∈ r.seconds))).length ≤ 2

/-- Different packet seconds of a sensor have different wall-clock labels. -/
def DistinctRecorded (env : Environment) (recordings : List (Recording t)) : Prop :=
  ∀ r ∈ recordings, ∀ r' ∈ recordings, r.stream = r'.stream → ∀ a ∈ r.seconds,
    ∀ b ∈ r'.seconds, label env.clock a = label env.clock b → a = b

def recordedPackets (recordings : List (Recording t)) (stream : SensorStream) (second : ℕ) :
    List Record :=
  (recordings.filter (fun r => decide (r.stream = stream))).flatMap (fun r => r.packets second)

section Day
variable {u : RawUploader} {tree : List SourceEntry} {s3 : Store Str Bytes} {date : Str}
  {recordings : List (Recording t)} (h : UploadedDay env u tree s3 date recordings)

theorem rawFiles_consecutive (hc : ConsecutiveRecordings recordings) :
    Consecutive (recordings.attach.map (rawFile h)) where
  minutes := by
    have hminutes := h.minutes
    rw [← List.attach_map_subtype_val recordings] at hminutes
    exact List.pairwise_map.mpr (List.pairwise_map.mp hminutes)
  ordered := by
    have hordered := hc.ordered
    rw [← List.attach_map_subtype_val recordings] at hordered
    exact List.pairwise_map.mpr (List.pairwise_map.mp hordered)
  shared := by
    intro stream second
    have hshared := hc.shared stream second
    rw [← List.attach_map_subtype_val recordings, List.filter_map, List.length_map] at hshared
    rw [holders, List.filter_map, List.length_map]
    exact hshared

theorem rawFiles_labels (hlabels : DistinctRecorded env recordings) :
    DistinctLabels (recordings.attach.map (rawFile h)) := by
  intro f hf g hg
  obtain ⟨r, -, rfl⟩ := List.mem_map.mp hf
  obtain ⟨r', -, rfl⟩ := List.mem_map.mp hg
  exact hlabels r.1 r.2 r'.1 r'.2

theorem rawFiles_packets (stream : SensorStream) (second : ℕ) :
    rawPackets (recordings.attach.map (rawFile h)) stream second =
      recordedPackets recordings stream second := by
  conv_rhs => rw [recordedPackets, ← List.attach_map_subtype_val recordings]
  rw [rawPackets, List.filter_map, List.filter_map, List.flatMap_map, List.flatMap_map]
  rfl

end Day

/-- The script uploads a tree, and the daemon is asked for a day of it: after a cycle without
faults S3 holds, for each sensor and second, the packets of the recordings of that day, and
nothing else is written. -/
theorem day_normalized {u : RawUploader} {tree : List SourceEntry} {s3 : Store Str Bytes}
    {recordings : List (Recording t)} {request : Request} {listed : List StorageFile}
    {s₀ s₁ s : System n} (h : UploadedDay env u tree s3 request.date recordings)
    (hc : ConsecutiveRecordings recordings) (hlabels : DistinctRecorded env recordings)
    (hlist : Lists env.raw (processFolder env.config request.date) listed)
    (hvehicle : request.vehicleId = [])
    (hdevice : selectedDeviceOf env.config request = SensorType.ALL)
    (hquiet : Quiescent s₀) (hrunning : s₀.stop = false)
    (hstart : NormalizerSystem.step env s₀ (.request request (.listing listed)) = some s₁)
    (run : Runs env Faultless s₁ s) (hreturned : s.phase = .returned) :
    (∀ r ∈ recordings, ∀ second ∈ r.seconds,
      (storedPackets env s r.stream second).Perm (recordedPackets recordings r.stream second)) ∧
    ∀ key ∈ uploadKeys s, ∃ r ∈ recordings, ∃ second ∈ r.seconds,
      key ∈ secondKeys env r.stream second := by
  obtain ⟨files, hfiles, hentries⟩ := h.day_files hlist
  have hconsecutive := (rawFiles_consecutive h hc).perm hfiles
  have hdistinct := (rawFiles_labels h hlabels).perm hfiles
  have hstarts : Starts files request (.listing listed) s₀ s₁ :=
    ⟨hquiet, hrunning, by rw [hentries]; exact h.selected hvehicle hdevice hlist, hstart⟩
  have hd := delivering_run (B := .ofMinutes files hconsecutive.minutes) hdistinct.labelled
    hstarts run
  have hclosed : ¬ Phase.isOpen s.phase := by rw [hreturned]; exact id
  have hprogram : s.phase.program = [] := by rw [hreturned]; rfl
  constructor
  · intro r hr second hsecond
    have hf : rawFile h ⟨r, hr⟩ ∈ files :=
      hfiles.mem_iff.mpr (List.mem_map.mpr ⟨⟨r, hr⟩, List.mem_attach _ _, rfl⟩)
    have hraw : (rawPackets files r.stream second).Perm
        (rawPackets (recordings.attach.map (rawFile h)) r.stream second) :=
      (hfiles.filter _).flatMap_right _
    rw [rawFiles_packets] at hraw
    exact (stored_packets hd hclosed hprogram hconsecutive hdistinct hf hsecond).trans hraw
  · intro key hkey
    obtain ⟨f, hf, second, hsecond, rfl⟩ := (written_key hd hclosed hprogram).mp hkey
    obtain ⟨r, -, rfl⟩ := List.mem_map.mp (hfiles.mem_iff.mp hf)
    exact ⟨r.1, r.2, second, hsecond, objectKey_mem _ _⟩

def gnssRecording (fname hhmmss : Str) (contents : Bytes)
    (hfname : fname.all (fun c => decide (c.toNat < 128)) = true ∧ Ordinary fname)
    (hfound : search asciiRules.isDecimal fname = some hhmmss) : Recording asciiRules where
  vehicle := "v1".toList
  moduleLower := "gnss".toList
  date := "20240101".toList
  fname := fname
  hhmmss := hhmmss
  contents := contents
  ascii := by
    simp only [List.forall_mem_cons]
    exact ⟨forall_chars (by decide), forall_chars (by decide), forall_chars hfname.1,
      List.forall_mem_nil _⟩
  vehicle_ordinary := by decide
  vehicle_no_brace := forall_chars (by decide)
  registered := by decide
  date_digits := forall_chars (by decide)
  date_length := rfl
  fname_ordinary := hfname.2
  found := hfound

def gnssDay : List (Recording asciiRules) :=
  [gnssRecording "full_000000.pcap".toList "000000".toList
      (captureOf [(1704067200, 1), (1704067201, 2)]) (by decide) (by decide),
    gnssRecording "full_000100.pcap".toList "000100".toList (captureOf [(1704067201, 3)])
      (by decide) (by decide)]

def defaultUploader : RawUploader :=
  .new "oncx-dev-common-assets-bucket".toList "test/raw".toList false

def gnssHost : Environment :=
  { hostOf [] with
    raw := (run asciiRules defaultUploader (fun _ => false) (some (gnssDay.map Recording.file))
      (fun _ => none)).1 }

theorem gnssDay_uploaded : UploadedDay gnssHost defaultUploader (gnssDay.map Recording.file)
    (fun _ => none) "20240101".toList gnssDay where
  wet := rfl
  ended := ⟨fun _ => false, 2, Prod.ext rfl (by decide +kernel)⟩
  root := by decide
  fresh := fun _ _ => rfl
  date_no_slash := by decide
  dated := by decide
  present := by decide +kernel
  all := fun f hf _ _ _ => List.mem_map.mp (List.mem_filter.mp hf).1
  minutes := by decide +kernel

/-- Two files on disk, to the packets of the second that they share. -/
theorem day_normalized_two_recordings : ∃ s : System 1, ∃ r ∈ gnssDay,
    1704067201 ∈ r.seconds ∧ (recordedPackets gnssDay r.stream 1704067201).length = 2 ∧
      (storedPackets gnssHost s r.stream 1704067201).Perm
        (recordedPackets gnssDay r.stream 1704067201) := by
  let request : Request := ⟨[], "20240101".toList, [], none⟩
  let listed := gnssDay.map (fun r => storageFile gnssHost.config r.object)
  have hrun : (NormalizerSystem.step gnssHost (.polling : System 1)
      (.request request (.listing listed))).any (fun s₁ =>
        (runWhile gnssHost Faultless twoFilesInTurn s₁).any (fun s =>
          decide (s.phase = .returned))) = true := by
    decide +kernel
  obtain ⟨s₁, hstart, hs₁⟩ := (Option.any_eq_true _ _).mp hrun
  obtain ⟨s, hruns, hs⟩ := runs_of_any hs₁
  have hc : ConsecutiveRecordings gnssDay :=
    { ordered := by decide +kernel
      shared := fun _ _ => List.length_filter_le _ _ }
  have htexts : ∀ r ∈ gnssDay, ∀ r' ∈ gnssDay, r.stream = r'.stream → ∀ a ∈ r.seconds,
      ∀ b ∈ r'.seconds, (label gnssHost.clock a).text = (label gnssHost.clock b).text → a = b := by
    decide +kernel
  have hlabels : DistinctRecorded gnssHost gnssDay :=
    fun r hr r' hr' hs a ha b hb hab => htexts r hr r' hr' hs a ha b hb (congrArg Label.text hab)
  have hfile : ∃ r ∈ gnssDay, 1704067201 ∈ r.seconds ∧
      (recordedPackets gnssDay r.stream 1704067201).length = 2 := by
    decide +kernel
  obtain ⟨r, hr, hsecond, hlength⟩ := hfile
  exact ⟨s, r, hr, hsecond, hlength, (day_normalized gnssDay_uploaded hc hlabels
    gnssDay_uploaded.lists rfl (by decide) ⟨rfl, rfl, fun _ => rfl⟩ rfl hstart hruns
    (of_decide_eq_true hs)).1 r hr _ hsecond⟩

end SensorDataNormalization.RecordedDay
