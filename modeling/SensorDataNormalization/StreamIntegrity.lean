import SensorDataNormalization.RawFiles
import SensorDataNormalization.StoreDiscipline
import SensorDataNormalization.CycleIsolation

set_option autoImplicit false

/-! No packet ever gets into a foreign object: what the daemon writes under the name of a
vehicle, a module and a second, in any run, whatever fails and whatever files collide. -/
namespace SensorDataNormalization.StreamIntegrity
open SeparatedLists PythonText WallClock PcapRecords PcapSplit PcapMerge StoreProgram StoreTyping
  StoreDiscipline WorkerPaths RawObjects RawFiles Messages WorkerProgram ManagerProgram
  NormalizerSystem SystemSteps CycleIsolation ProjectConfig

variable {n : ℕ} {env : Environment}

/-! ## What an object may hold -/

/-- A packet of a raw file of the stream, at the wall-clock second of the label. -/
def Belongs (env : Environment) (s : SensorStream) (l : Label) (r : Record) : Prop :=
  label env.clock r.second = l ∧
    ∃ f : RawFile env, f.stream = s ∧ r ∈ (readPcapRecords f.contents).2

/-- A file header, and complete packets that all belong to the stream and the label. -/
def Part (env : Environment) (s : SensorStream) (l : Label) (v : Bytes) : Prop :=
  ∃ header records, header.length = pcapFileHeaderSize ∧ v = writePcap header records ∧
    ∀ r ∈ records, Belongs env s l r

/-- The same with at least one packet. -/
def Holds (env : Environment) (s : SensorStream) (l : Label) (v : Bytes) : Prop :=
  ∃ header records, header.length = pcapFileHeaderSize ∧ v = writePcap header records ∧
    records ≠ [] ∧ ∀ r ∈ records, Belongs env s l r

theorem Holds.head {s : SensorStream} {l : Label} {v : Bytes} (h : Holds env s l v) :
    Part env s l (v.take pcapFileHeaderSize) := by
  obtain ⟨header, records, hlen, rfl, -, -⟩ := h
  refine ⟨header, [], hlen, ?_, fun r hr => (by cases hr)⟩
  rw [take_writePcap hlen]
  exact (List.append_nil header).symm

theorem Part.append {s : SensorStream} {l : Label} {v w : Bytes} (h : Part env s l v)
    (hw : Holds env s l w) : Holds env s l (v ++ copyChunks (w.drop pcapFileHeaderSize)) := by
  obtain ⟨header, records, hlen, rfl, hrecords⟩ := h
  obtain ⟨header', records', hlen', rfl, hne, hrecords'⟩ := hw
  refine ⟨header, records ++ records', hlen, ?_, by simp [hne], fun r hr => ?_⟩
  · rw [copyChunks_eq, drop_writePcap hlen', writePcap, writePcap, recordsBytes, recordsBytes,
      recordsBytes, List.flatMap_append, List.append_assoc]
  · rcases List.mem_append.mp hr with hr | hr
    · exact hrecords r hr
    · exact hrecords' r hr

theorem Holds.part {s : SensorStream} {l : Label} {v : Bytes} (h : Holds env s l v) :
    Part env s l v := by
  obtain ⟨header, records, hlen, hv, -, hrecords⟩ := h
  exact ⟨header, records, hlen, hv, hrecords⟩

/-- An output file of a merge; only the manager touches it. -/
def OutCell (env : Environment) (path : Str) : Prop :=
  ∃ (s : SensorStream) (l : Label), path = s.outPath env.config l

def streamTyping (env : Environment) : Typing Str Bytes Destination PairPut where
  cell path v :=
    (∀ r : RawObject, path = r.downloadPath env.config →
      ∃ f : RawFile env, f.stream = r.stream ∧ f.contents = v) ∧
    (∀ (r : RawObject) (l : Label), path = (r.template env.config).pathAt l →
      Holds env r.stream l v) ∧
    ∀ (s : SensorStream) (l : Label), path = s.outPath env.config l → Part env s l v
  published destination v := ∃ (s : SensorStream) (l : Label),
    (destination.key = s.splitKey env.config l ∨ destination.key = s.endKey env.config l) ∧
      Holds env s l v
  given put := ∃ (r : RawObject) (l : Label), put.pairKey = r.stream.pairKey l ∧
    put.item =
      { srcPath := (r.template env.config).pathAt l
        outFilePath := r.stream.outPath env.config l
        prefixPath := r.stream.endKey env.config l }

/-! ## The worker -/

section Cells
variable {r : RawObject} {v : Bytes}

theorem cell_download {f : RawFile env} (hf : f.stream = r.stream) :
    (streamTyping env).cell (r.downloadPath env.config) f.contents := by
  refine ⟨fun r' hpath => ⟨f, ?_, rfl⟩, fun r' l hpath => ?_, fun s l hpath => ?_⟩
  · exact hf.trans ((r.downloadPath_eq_iff env.config r').mp hpath).1.1
  · exact absurd hpath (r.downloadPath_ne_pathAt env.config r' l)
  · exact absurd hpath (r.cache_ne_outPath env.config r.fileName_no_slash s l)

theorem cell_piece {l : Label} (h : Holds env r.stream l v) :
    (streamTyping env).cell ((r.template env.config).pathAt l) v := by
  refine ⟨fun r' hpath => ?_, fun r' l' hpath => ?_, fun s l' hpath => ?_⟩
  · exact absurd hpath.symm (r'.downloadPath_ne_pathAt env.config r l)
  · obtain ⟨hminute, rfl⟩ := (r.pathAt_eq_iff env.config r' l l').mp hpath
    exact hminute.1 ▸ h
  · exact absurd hpath
      (r.cache_ne_outPath env.config (splitName_no_slash r.stream.registered l) s l')

theorem outPath_injective {s s' : SensorStream} {l l' : Label}
    (h : s.outPath env.config l = s'.outPath env.config l') : s = s' ∧ l = l' := by
  have hsegments := joined_injective (fun x hx => (s.outPath_ordinary env.config l x hx).no_slash)
    (fun x hx => (s'.outPath_ordinary env.config l' x hx).no_slash) h
  have hkey : s.endKey env.config l = s'.endKey env.config l' := by
    rw [SensorStream.endKey, SensorStream.endKey, List.append_cancel_left hsegments]
  exact SensorStream.endKey_injective hkey

theorem cell_out {s : SensorStream} {l : Label} (h : Part env s l v) :
    (streamTyping env).cell (s.outPath env.config l) v := by
  refine ⟨fun r' hpath => ?_, fun r' l' hpath => ?_, fun s' l' hpath => ?_⟩
  · exact absurd hpath.symm (r'.cache_ne_outPath env.config r'.fileName_no_slash s l)
  · exact absurd hpath.symm
      (r'.cache_ne_outPath env.config (splitName_no_slash r'.stream.registered l') s l)
  · obtain ⟨rfl, rfl⟩ := outPath_injective hpath
    exact h

end Cells

/-- The file as it is on the disk, wherever its bytes come from. -/
def onDisk (env : Environment) (r : RawObject) (v : Bytes) :
    RawFile { env with raw := fun _ => some v } where
  object := r
  contents := v
  stored := rfl

/-- A typed operation of a worker, away from the files of the merges. -/
abbrev WorkerOp (env : Environment) (op : WorkOp) : Prop :=
  (streamTyping env).Foreign (OutCell env) op

theorem pathAt_free (r : RawObject) (l : Label) :
    ¬ OutCell env ((r.template env.config).pathAt l) := by
  rintro ⟨s, l', h⟩
  exact r.cache_ne_outPath env.config (splitName_no_slash r.stream.registered l) s l' h

theorem downloadPath_free (r : RawObject) : ¬ OutCell env (r.downloadPath env.config) := by
  rintro ⟨s, l, h⟩
  exact r.cache_ne_outPath env.config r.fileName_no_slash s l h

section Worker
variable {r : RawObject} {f : RawFile env} (hf : f.stream = r.stream)
include hf

theorem holds_cut {second : ℕ} (h : second ∈ (onDisk env r f.contents).seconds) :
    Holds env r.stream (label env.clock second) ((onDisk env r f.contents).cut second).contents := by
  obtain ⟨record, hrecord, hsecond⟩ := mem_sortedSeconds.mp h
  have hmem : record ∈ (readPcapRecords f.contents).2.filter
      (fun r => decide (r.second = second)) :=
    List.mem_filter.mpr ⟨hrecord, decide_eq_true hsecond⟩
  refine ⟨_, _, header_length_of_records (List.ne_nil_of_mem hrecord), rfl,
    List.ne_nil_of_mem hmem, fun x hx => ?_⟩
  obtain ⟨hx, he⟩ := List.mem_filter.mp hx
  exact ⟨congrArg (label env.clock) (of_decide_eq_true he), f, hf, hx⟩

theorem workerOp_work (job : Job) :
    ∀ op ∈ (onDisk env r f.contents).workProgram job, WorkerOp env op := by
  intro op hop
  have hfree : ∀ second, ∀ p ∈ [(onDisk env r f.contents).pathAt second], ¬ OutCell env p := by
    intro second p hp
    rw [List.mem_singleton.mp hp]
    exact pathAt_free r _
  simp only [RawFile.workProgram, List.mem_append, List.mem_cons, writePieces, RawFile.pieces,
    List.mem_map, List.mem_flatMap] at hop
  rcases hop with ⟨p, ⟨second, hsecond, rfl⟩, rfl⟩ | rfl | ⟨second, hsecond, hop⟩ |
    ⟨second, hsecond, rfl⟩
  · have hpath : abspath ((onDisk env r f.contents).cut second).piece.savePath =
        (r.template env.config).pathAt (label env.clock second) :=
      (onDisk env r f.contents).abspath_pathAt second
    rw [writeFile, hpath]
    exact ⟨cell_piece (holds_cut hf hsecond), hfree second⟩
  · refine ⟨trivial, fun p hp => ?_⟩
    rw [List.mem_singleton.mp hp]
    exact downloadPath_free r
  · simp only [RawFile.midOps, List.mem_cons, List.not_mem_nil, or_false] at hop
    rcases hop with rfl | rfl
    · refine ⟨fun v hv => ?_, hfree second⟩
      exact ⟨r.stream, label env.clock second, Or.inl rfl, hv.2.1 r _ rfl⟩
    · exact ⟨trivial, hfree second⟩
  · exact ⟨⟨r, label env.clock second, rfl, rfl⟩, hfree second⟩

end Worker

def RawJob (env : Environment) (job : Job) : Prop :=
  ∃ r : RawObject, job.file = storageFile env.config r

theorem workerOp_fail : WorkerOp env .fail := ⟨trivial, fun _ h => by cases h⟩

theorem workerOp_download {job : Job} (h : RawJob env job) :
    ∀ op ∈ download env job, WorkerOp env op := by
  obtain ⟨r, hr⟩ := h
  intro op hop
  cases hraw : env.raw (r.filePath env.config) with
  | none =>
    have hfail : download env job = [.fail] := by
      have hnone : env.raw (storageFile env.config r).filePath = none := hraw
      unfold download
      rw [hr]
      split
      · rfl
      · split
        · rename_i hsome
          rw [hnone] at hsome
          cases hsome
        · rfl
    rw [hfail] at hop
    rw [List.mem_singleton.mp hop]
    exact workerOp_fail
  | some contents =>
    let f : RawFile env := ⟨r, contents, hraw⟩
    rw [f.download_entry hr] at hop
    rw [List.mem_singleton.mp hop]
    refine ⟨cell_download (r := r) (f := f) rfl, fun p hp => ?_⟩
    rw [List.mem_singleton.mp hp]
    exact downloadPath_free r

/-- The split goes by what is on the disk, which need not be what this worker has downloaded. -/
theorem workerOp_split {job : Job} (h : RawJob env job) {disk : Store Str Bytes}
    (hdisk : (streamTyping env).Stored disk) :
    ∀ op ∈ splitUploadSend env disk job, WorkerOp env op := by
  obtain ⟨r, hr⟩ := h
  intro op hop
  cases hsource : disk (r.downloadPath env.config) with
  | none =>
    rw [splitUploadSend_absent hr hsource] at hop
    rw [List.mem_singleton.mp hop]
    exact workerOp_fail
  | some v =>
    obtain ⟨f, hf, rfl⟩ := (hdisk _ _ hsource).1 r rfl
    have hprogram : splitUploadSend env disk job = (onDisk env r f.contents).workProgram job :=
      (onDisk env r f.contents).splitUploadSend_entry hr hsource
    rw [hprogram] at hop
    exact workerOp_work hf job op hop

/-! ## The manager -/

/-- Pieces of one stream and one label, handed over. -/
def GivenAs (env : Environment) (s : SensorStream) (l : Label) (put : PairPut) : Prop :=
  put.pairKey = s.pairKey l ∧ ∃ r : RawObject, r.stream = s ∧ put.item =
    { srcPath := (r.template env.config).pathAt l
      outFilePath := s.outPath env.config l
      prefixPath := s.endKey env.config l }

theorem givenAs_of_key {put put' : PairPut} {s : SensorStream} {l : Label}
    (h : GivenAs env s l put) (h' : (streamTyping env).given put')
    (hkey : put'.pairKey = put.pairKey) : GivenAs env s l put' := by
  obtain ⟨r, l', hpair, hitem⟩ := h'
  rw [h.1, hpair] at hkey
  obtain ⟨rfl, rfl⟩ := SensorStream.pairKey_injective hkey
  exact ⟨hpair, r, rfl, hitem⟩

theorem given_as {put : PairPut} (h : (streamTyping env).given put) :
    ∃ s l, GivenAs env s l put := by
  obtain ⟨r, l, hpair, hitem⟩ := h
  exact ⟨r.stream, l, hpair, r, rfl, hitem⟩

section Merge
variable {s : SensorStream} {l : Label}

theorem abspath_src {put : PairPut} (h : GivenAs env s l put) :
    abspath put.item.srcPath = put.item.srcPath ∧
      ∀ v, (streamTyping env).cell put.item.srcPath v → Holds env s l v := by
  obtain ⟨-, r, rfl, hitem⟩ := h
  rw [hitem]
  exact ⟨(r.template env.config).abspath_pathAt l, fun v hv => hv.2.1 r l rfl⟩

theorem sound_appends {puts : List PairPut} (hputs : ∀ put ∈ puts, GivenAs env s l put)
    {rest : Program} {m : Store Str Bytes} {v : Bytes}
    (hm : m (s.outPath env.config l) = some v) (hv : Part env s l v)
    (hne : puts = [] → Holds env s l v)
    (hrest : ∀ n w, n (s.outPath env.config l) = some w → Holds env s l w →
      (streamTyping env).Sound (OutCell env) rest n) :
    (streamTyping env).Sound (OutCell env)
      (puts.map (fun put => appendBody (s.outPath env.config l) put.item.srcPath) ++ rest) m := by
  induction puts generalizing m v with
  | nil => exact hrest m v hm (hne rfl)
  | cons put puts ih =>
    obtain ⟨hsrc, hholds⟩ := abspath_src (hputs put List.mem_cons_self)
    rw [List.map_cons, List.cons_append, appendBody, hsrc, s.abspath_outPath]
    refine Typing.sound_derive ⟨s, l, rfl⟩ (fun w hw => ?_)
    have happended := hv.append (hholds w hw)
    rw [hm]
    refine ⟨cell_out happended.part, fun n hn => ?_⟩
    exact ih (fun p hp => hputs p (List.mem_cons_of_mem _ hp)) hn happended.part
      (fun _ => happended)

theorem sound_mergePair {first : PairPut} {puts : List PairPut}
    (hputs : ∀ put ∈ first :: puts, GivenAs env s l put) (m : Store Str Bytes) :
    (streamTyping env).Sound (OutCell env) (mergePair (first :: puts)) m := by
  obtain ⟨-, r, -, hitem⟩ := hputs first List.mem_cons_self
  obtain ⟨hsrc, hholds⟩ := abspath_src (hputs first List.mem_cons_self)
  have hout : first.item.outFilePath = s.outPath env.config l := by rw [hitem]
  have hkey : first.item.prefixPath = s.endKey env.config l := by rw [hitem]
  have hprogram : mergePair (first :: puts) =
      copyHeader first.item.srcPath (s.outPath env.config l) ::
        ((first :: puts).map (fun put => appendBody (s.outPath env.config l) put.item.srcPath) ++
          .emit (s.outPath env.config l)
              ⟨s.endKey env.config l, (first :: puts).map PairPut.source⟩ ::
            removeFile (s.outPath env.config l) ::
              ((first :: puts).map (fun p => p.item.srcPath)).map removeFile) := by
    simp only [mergePair, mergePcapFiles, hout, hkey, List.map_cons, List.map_map, List.cons_append,
      s.abspath_outPath]
    rfl
  rw [hprogram, copyHeader, hsrc, s.abspath_outPath]
  refine Typing.sound_derive ⟨s, l, rfl⟩ (fun v hv => ?_)
  have hhead := (hholds v hv).head
  refine ⟨cell_out hhead, fun n hn => ?_⟩
  refine sound_appends hputs hn hhead (fun h => by cases h) (fun k w hk hw => ?_)
  refine Typing.sound_emit ⟨s, l, rfl⟩ hk ⟨s, l, Or.inr rfl, hw⟩ (fun k => ?_)
  refine Typing.sound_typed (fun op hop => ?_)
  rcases List.mem_cons.mp hop with rfl | hop
  · trivial
  · obtain ⟨path, -, rfl⟩ := List.mem_map.mp hop
    trivial

end Merge

theorem typed_uploadBucket {head : PairPut} {rest : List PairPut}
    (h : (streamTyping env).given head) :
    ∀ op ∈ uploadBucket (head :: rest), (streamTyping env).Typed op := by
  intro op hop
  obtain ⟨s, l, hgiven⟩ := given_as h
  obtain ⟨hsrc, hholds⟩ := abspath_src hgiven
  obtain ⟨-, r, -, hitem⟩ := hgiven
  simp only [uploadBucket, List.mem_cons, List.not_mem_nil, or_false] at hop
  rcases hop with rfl | rfl
  · intro v hv
    rw [hsrc] at hv
    refine ⟨s, l, Or.inr ?_, hholds v hv⟩
    rw [hitem]
  · trivial

/-! ## The daemon -/

def streamDiscipline (env : Environment) : Discipline env where
  typing := streamTyping env
  own := OutCell env
  file := fun file => ∃ r : RawObject, file = storageFile env.config r
  download := fun _ h => workerOp_download h
  split := fun _ _ h hdisk => workerOp_split h hdisk
  merge := by
    intro a b disk ha hb hkey
    obtain ⟨s, l, hgiven⟩ := given_as ha
    refine sound_mergePair (s := s) (l := l) (fun p hp => ?_) disk
    rcases List.mem_cons.mp hp with rfl | hp
    · exact hgiven
    · rw [List.mem_singleton.mp hp]
      exact givenAs_of_key hgiven hb hkey.symm
  sweep := fun _ _ h => typed_uploadBucket h

def Listed (env : Environment) : StorageAnswer → Prop
  | .listing files => ∀ file ∈ files, file.isDir = false →
      ∃ r : RawObject, file = storageFile env.config r
  | _ => True

theorem selected_raw {request : Request} {answer : StorageAnswer} {files : List StorageFile}
    (h : selectFiles env request answer = some files) (hlisted : Listed env answer) :
    ∀ file ∈ files, ∃ r : RawObject, file = storageFile env.config r := by
  obtain ⟨collected, hcollected, hfiltered⟩ := Option.bind_eq_some_iff.mp h
  intro file hfile
  have hmem := (VehicleSelection.filterByDevice_sublist hfiltered).subset hfile
  cases answer with
  | raises => cases hcollected
  | absent =>
    cases hcollected
    cases hmem
  | listing listed =>
    obtain rfl := Option.some.inj hcollected
    have hall : file ∈ listed.filter (fun f => !f.isDir) := by
      split_ifs at hmem
      · exact (List.mem_filter.mp hmem).1
      · exact hmem
    obtain ⟨hin, hdir⟩ := List.mem_filter.mp hall
    exact hlisted file hin (by simpa using hdir)

def ListsRaw (env : Environment) (_ : System n) (a : Action n) (_ : System n) : Prop :=
  ∀ request answer, a = .request request answer → Listed env answer

end SensorDataNormalization.StreamIntegrity
