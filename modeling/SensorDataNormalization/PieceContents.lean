import SensorDataNormalization.PieceFlow

set_option autoImplicit false

/-! What the local files of the pieces hold: whoever owns a path finds there the bytes that
the split has written. -/
namespace SensorDataNormalization.PieceContents
open PythonText WallClock PcapRecords PcapSplit PcapMerge StoreProgram WorkerPaths Messages
  WorkerProgram ManagerProgram ProcessState PairBuckets RawFiles NormalizerSystem SystemSteps
  SystemFlow CycleAccounting PairLedger DrainQuiescence BatchOwnership PieceFlow

variable {n : ℕ} {env : Environment}

/-- The packet seconds of the file have different wall-clock labels. -/
def Labelled (f : RawFile env) : Prop := Set.InjOn (label env.clock) {second | second ∈ f.seconds}

/-- The bytes of the piece that a source names. -/
def contentsOf (files : List (RawFile env)) (source : Source) : Bytes :=
  (((files[source.job.index]?).bind (fun f =>
    f.pieces.find? (fun p => decide (p.piece = source.piece)))).map PieceFile.contents).getD []

/-- An upload holds the bytes of its pieces, merged in their order. -/
def pieceSpec (B : Batch env) : Spec Bytes Destination PairPut where
  published := fun destination contents =>
    contents = mergedBytes (destination.sources.map (contentsOf B.files))
  given := fun put contents => contents = contentsOf B.files put.source

theorem mergedBytes_single (contents : Bytes) : mergedBytes [contents] = contents := by
  simp [mergedBytes]

section Files
variable {B : Batch env} {number : ℕ} {job : Job} {f : RawFile env}

theorem pathAt_injOn (hl : Labelled f) {a b : ℕ} (ha : a ∈ f.seconds) (hb : b ∈ f.seconds)
    (h : f.pathAt a = f.pathAt b) : a = b :=
  hl ha hb (f.template.pathAt_injective h)

theorem contentsOf_source (hj : B.JobOf number job f) (hl : Labelled f) {second : ℕ}
    (hs : second ∈ f.seconds) :
    contentsOf B.files (f.source job second) = (f.cut second).contents := by
  have hfind : f.pieces.find? (fun p => decide (p.piece = (f.cut second).piece)) =
      some (f.cut second) := by
    rw [RawFile.pieces, List.find?_map]
    have hsecond : f.seconds.find? ((fun p => decide (p.piece = (f.cut second).piece)) ∘ f.cut) =
        some second := by
      cases hfound : f.seconds.find?
          ((fun p => decide (p.piece = (f.cut second).piece)) ∘ f.cut) with
      | none =>
        have hno := List.find?_eq_none.mp hfound second hs
        simp at hno
      | some other =>
        have hpiece : (f.cut other).piece = (f.cut second).piece := by
          simpa using List.find?_some hfound
        have hpath : f.pathAt other = f.pathAt second := congrArg SplitedPcap.savePath hpiece
        rw [pathAt_injOn hl (List.mem_of_find?_eq_some hfound) hs hpath]
    rw [hsecond]
    rfl
  change (((B.files[job.index]?).bind _).map _).getD [] = _
  rw [hj.file, Option.bind_some]
  change ((f.pieces.find? (fun p => decide (p.piece = (f.cut second).piece))).map _).getD [] = _
  rw [hfind]
  rfl

/-! ## The programs are safe -/

theorem safe_mids (hj : B.JobOf number job f) (hl : Labelled f) {seconds : List ℕ}
    (hnodup : seconds.Nodup) (hsub : ∀ s ∈ seconds, s ∈ f.seconds) {rest : Program}
    {m : Store Str Bytes} (hm : ∀ s ∈ seconds, m (f.pathAt s) = some (f.cut s).contents)
    (hrest : ∀ m' : Store Str Bytes,
      (∀ s ∈ f.seconds, s ∉ seconds → m' (f.pathAt s) = m (f.pathAt s)) →
        Safe (pieceSpec B) rest m') :
    Safe (pieceSpec B) (seconds.flatMap (f.midOps job) ++ rest) m := by
  induction seconds generalizing m with
  | nil => exact hrest m (fun _ _ _ => rfl)
  | cons s seconds ih =>
    obtain ⟨hs, hnodup⟩ := List.nodup_cons.mp hnodup
    have hmem := hsub s List.mem_cons_self
    have hother : ∀ t ∈ f.seconds, t ≠ s →
        Function.update m (f.pathAt s) none (f.pathAt t) = m (f.pathAt t) := by
      intro t ht hts
      exact Function.update_of_ne (fun h => hts (pathAt_injOn hl ht hmem h)) _ _
    apply safe_emit (hm s List.mem_cons_self)
    · change _ = mergedBytes [contentsOf B.files (f.source job s)]
      rw [contentsOf_source hj hl hmem, mergedBytes_single]
    · apply safe_erase
      apply ih hnodup (fun t ht => hsub t (List.mem_cons_of_mem _ ht))
      · intro t ht
        have hts : t ≠ s := by
          rintro rfl
          exact hs ht
        rw [hother t (hsub t (List.mem_cons_of_mem _ ht)) hts]
        exact hm t (List.mem_cons_of_mem _ ht)
      · intro m' hm'
        apply hrest
        intro t ht hnot
        have hts : t ≠ s := fun h => hnot (h ▸ List.mem_cons_self)
        rw [hm' t ht (fun h => hnot (List.mem_cons_of_mem _ h)), hother t ht hts]

theorem touches_ends (job : Job) (seconds : List ℕ) :
    touches (seconds.map (f.endOp job)) = seconds.map f.pathAt := by
  induction seconds with
  | nil => rfl
  | cons s rest ih =>
    rw [List.map_cons, touches_cons, ih]
    rfl

theorem safe_ends (hj : B.JobOf number job f) (hl : Labelled f) {seconds : List ℕ}
    (hnodup : seconds.Nodup) (hsub : ∀ s ∈ seconds, s ∈ f.seconds) {m : Store Str Bytes}
    (hm : ∀ s ∈ seconds, m (f.pathAt s) = some (f.cut s).contents) :
    Safe (pieceSpec B) (seconds.map (f.endOp job)) m := by
  induction seconds with
  | nil => trivial
  | cons s seconds ih =>
    obtain ⟨hs, hnodup⟩ := List.nodup_cons.mp hnodup
    have hmem := hsub s List.mem_cons_self
    apply safe_give (hm s List.mem_cons_self)
    · exact (contentsOf_source hj hl hmem).symm
    · rw [touches_ends]
      intro h
      obtain ⟨t, ht, hpath⟩ := List.mem_map.mp h
      have hts := pathAt_injOn hl (hsub t (List.mem_cons_of_mem _ ht)) hmem hpath
      exact hs (hts ▸ ht)
    · exact ih hnodup (fun t ht => hsub t (List.mem_cons_of_mem _ ht))
        (fun t ht => hm t (List.mem_cons_of_mem _ ht))

theorem safe_workProgram (hj : B.JobOf number job f) (hl : Labelled f) (m : Store Str Bytes) :
    Safe (pieceSpec B) (f.workProgram job) m := by
  have hnodup := filePieces_paths_nodup env.clock f.stream.moduleName f.template f.contents hl
  obtain ⟨after, hrun, hpieces⟩ := run_writePieces (E := Destination) (G := PairPut) hnodup m
  have hafter : ∀ s ∈ f.seconds, Function.update after f.downloadPath none (f.pathAt s) =
      some (f.cut s).contents := by
    intro s hs
    rw [Function.update_of_ne (fun h => f.downloadPath_ne_pathAt f s h.symm), ← f.abspath_pathAt s]
    exact hpieces (f.cut s) (List.mem_map.mpr ⟨s, hs, rfl⟩)
  refine safe_silent ?_ hrun ?_
  · intro op hop
    obtain ⟨p, -, rfl⟩ := List.mem_map.mp hop
    trivial
  · apply safe_erase
    apply safe_mids hj hl (f.seconds_nodup.filter _) (fun s hs => f.mem_mids hs)
      (fun s hs => hafter s (f.mem_mids hs))
    intro m' hm'
    apply safe_ends hj hl (f.seconds_nodup.filter _) (fun s hs => f.mem_ends hs)
    intro s hs
    have hnot : s ∉ f.mids := by
      intro hmid
      have hno := (List.mem_filter.mp hs).2
      rw [(List.mem_filter.mp hmid).2] at hno
      cases hno
    rw [hm' s (f.mem_ends hs) hnot]
    exact hafter s (f.mem_ends hs)

theorem mergePcapFiles_silent {pcapFiles : List Str} {out : Str} {op : WorkOp}
    (h : op ∈ mergePcapFiles pcapFiles out) : op.Silent := by
  cases pcapFiles with
  | nil => cases h
  | cons first rest =>
    rcases List.mem_cons.mp h with rfl | h
    · trivial
    · obtain ⟨source, -, rfl⟩ := List.mem_map.mp h
      trivial

theorem safe_mergePair {a b : PairPut} {m : Store Str Bytes}
    (ha : m (abspath a.item.srcPath) = some (contentsOf B.files a.source))
    (hb : m (abspath b.item.srcPath) = some (contentsOf B.files b.source))
    (hao : abspath a.item.srcPath ≠ abspath a.item.outFilePath)
    (hbo : abspath b.item.srcPath ≠ abspath a.item.outFilePath) :
    Safe (pieceSpec B) (mergePair [a, b]) m := by
  let inputs := [(a.item.srcPath, contentsOf B.files a.source),
    (b.item.srcPath, contentsOf B.files b.source)]
  have hin : ∀ i ∈ inputs, m (abspath i.1) = some i.2 ∧
      abspath i.1 ≠ abspath a.item.outFilePath := by
    intro i hi
    simp only [inputs, List.mem_cons, List.not_mem_nil, or_false] at hi
    rcases hi with rfl | rfl
    · exact ⟨ha, hao⟩
    · exact ⟨hb, hbo⟩
  have hne : inputs ≠ [] := List.cons_ne_nil _ _
  obtain ⟨after, hrun, hout⟩ := run_mergePcapFiles (E := Destination) (G := PairPut) hne
    (fun i hi => (hin i hi).1) (fun i hi => (hin i hi).2)
  change Safe (pieceSpec B) (mergePcapFiles [a.item.srcPath, b.item.srcPath] a.item.outFilePath ++
    .emit (abspath a.item.outFilePath) ⟨a.item.prefixPath, [a.source, b.source]⟩ ::
      [removeFile a.item.outFilePath, removeFile a.item.srcPath, removeFile b.item.srcPath]) m
  refine safe_silent (fun op hop => mergePcapFiles_silent hop) hrun ?_
  apply safe_emit hout
  · rfl
  · exact safe_erase (safe_erase (safe_erase trivial))

theorem safe_uploadUnpaired {groups : List (List PairPut)} (hsingle : ∀ g ∈ groups, ∃ a, g = [a])
    (hnodup : (groups.flatten.map (fun put => abspath put.item.srcPath)).Nodup)
    {m : Store Str Bytes}
    (hm : ∀ put ∈ groups.flatten,
      m (abspath put.item.srcPath) = some (contentsOf B.files put.source)) :
    Safe (pieceSpec B) (uploadUnpaired groups) m := by
  induction groups generalizing m with
  | nil => trivial
  | cons g rest ih =>
    obtain ⟨a, rfl⟩ := hsingle g List.mem_cons_self
    rw [List.flatten_cons, List.map_append] at hnodup
    obtain ⟨ha, hrest⟩ := List.nodup_cons.mp hnodup
    apply safe_emit (hm a (by simp))
    · change _ = mergedBytes [contentsOf B.files a.source]
      rw [mergedBytes_single]
    · apply safe_erase
      apply ih (fun g hg => hsingle g (List.mem_cons_of_mem _ hg)) hrest
      intro put hput
      have hne : abspath put.item.srcPath ≠ abspath a.item.srcPath :=
        fun h => ha (List.mem_map.mpr ⟨put, hput, h⟩)
      rw [Function.update_of_ne hne]
      exact hm put (by simp [hput])

end Files

/-! ## The invariant -/

/-- Every owner finds the bytes of its pieces. -/
structure ContentInv (B : Batch env) (number : ℕ) (s : System n) : Prop where
  batch : BatchInv B number s
  owned : ∀ f ∈ B.files, ∀ p ∈ f.paths, (B.owners p).total s ≤ 1
  workers : ∀ w job program, s.workers w = .busy job .report program →
    Safe (pieceSpec B) program s.disk
  mail : ∀ put, .pairPut put ∈ s.mailbox →
    s.disk put.item.srcPath = some (contentsOf B.files put.source)
  bucket : ∀ put ∈ s.buckets.items, s.disk put.item.srcPath = some (contentsOf B.files put.source)
  manager : Safe (pieceSpec B) s.phase.program s.disk
  uploads : ∀ u ∈ s.cycle.uploads,
    u.contents = mergedBytes (u.destination.sources.map (contentsOf B.files))

section Step
variable {B : Batch env} {number : ℕ} {s s' : System n} {a : Action n}

theorem owner_path {worker : Worker} {disk : Store Str Bytes} {p : Str}
    (hw : B.WorkerOk number disk worker) (h : (B.owners p).worker worker = 1) :
    ∃ f ∈ B.files, p ∈ f.paths := by
  cases worker with
  | idle => cases h
  | failed job => cases h
  | busy job next program =>
    cases next with
    | split =>
      obtain ⟨f, hj, -⟩ := hw
      rw [owners_split hj] at h
      by_cases hp : p ∈ f.paths
      · exact ⟨f, hj.mem, hp⟩
      · rw [if_neg hp] at h
        cases h
    | report =>
      obtain ⟨f, hj, hsuffix⟩ := hw
      by_cases hp : p ∈ touches program
      · obtain ⟨before, hbefore⟩ := hsuffix
        have hmem : p ∈ touches (f.workProgram job) := by
          rw [← hbefore, touches, List.flatMap_append]
          exact List.mem_append_right _ hp
        exact ⟨f, hj.mem, f.touches_workProgram hmem⟩
      · change (if p ∈ touches program then 1 else 0) = 1 at h
        rw [if_neg hp] at h
        cases h

theorem waiting_kept (hi : ContentInv B number s) (h : Move env s a s') {p : Str}
    (hp : ∃ f ∈ B.files, p ∈ f.paths)
    (hwait : 1 ≤ weigh (B.owners p).mail s.mailbox + weigh (B.owners p).bucket s.buckets.items) :
    s'.disk p = s.disk p := by
  obtain ⟨f, hf, hpf⟩ := hp
  have hone := hi.owned f hf p hpf
  by_contra hne
  cases move_disk hi.batch h hne with
  | manager hphase howner =>
    obtain ⟨-, hmail, hbucket⟩ := owner_manager hone howner
    omega
  | worker hworker howner =>
    obtain ⟨-, -, hmail, hbucket⟩ := owner_worker hone howner
    omega

theorem mail_kept (hi : ContentInv B number s) (h : Move env s a s') {put : PairPut}
    (hput : .pairPut put ∈ s.mailbox) : s'.disk put.item.srcPath = s.disk put.item.srcPath := by
  apply waiting_kept hi h (hi.batch.mail put hput).src_mem
  have hone : 1 ≤ weigh (B.owners put.item.srcPath).mail s.mailbox :=
    weigh_le_of_mem hput (le_of_eq (if_pos rfl).symm)
  omega

theorem bucket_kept (hi : ContentInv B number s) (h : Move env s a s') {put : PairPut}
    (hput : put ∈ s.buckets.items) : s'.disk put.item.srcPath = s.disk put.item.srcPath := by
  apply waiting_kept hi h (hi.batch.bucket put hput).src_mem
  have hone : 1 ≤ weigh (B.owners put.item.srcPath).bucket s.buckets.items :=
    weigh_le_of_mem hput (le_of_eq (if_pos rfl).symm)
  omega

/-- The steps of others keep what a worker still needs. -/
theorem worker_kept (hi : ContentInv B number s) (h : Move env s a s') {v : Fin n}
    (hactor : a ≠ .worker v) {job : Job} {program : Program}
    (hv : s.workers v = .busy job .report program) : Safe (pieceSpec B) program s'.disk := by
  apply (hi.workers v job program hv).congr
  intro c hc
  have howner : (B.owners c).worker (s.workers v) = 1 := by
    rw [hv]
    exact if_pos hc
  obtain ⟨f, hf, hcf⟩ := owner_path (hi.batch.workers v) howner
  obtain ⟨hothers, hmanager, -, -⟩ := owner_worker (hi.owned f hf c hcf) howner
  by_contra hne
  cases move_disk hi.batch h (Ne.symm hne) with
  | manager hphase hm => omega
  | @worker w job' next op program' hworker hw =>
    have hwv : w ≠ v := fun he => hactor (by rw [he])
    have hzero := hothers w hwv
    omega

/-- The steps of the workers keep what the manager still needs. -/
theorem manager_kept (hi : ContentInv B number s) (h : Move env s a s') (hactor : a ≠ .manager) :
    Safe (pieceSpec B) s.phase.program s'.disk := by
  apply hi.manager.congr
  intro c hc
  by_contra hne
  cases move_disk hi.batch h (Ne.symm hne) with
  | manager hphase hm => exact hactor rfl
  | @worker w job next op program hworker hw =>
    obtain ⟨f, hf, hcf⟩ := owner_path (hi.batch.workers w) hw
    have howner : (B.owners c).manager s.phase.program = 1 := if_pos hc
    have hzero := (owner_manager (hi.owned f hf c hcf) howner).1 w
    omega

theorem content_owned (hi : ContentInv B number s) (h : Move env s a s')
    (ha : ∀ request answer, a ≠ .request request answer) :
    ∀ f ∈ B.files, ∀ p ∈ f.paths, (B.owners p).total s' ≤ 1 := by
  intro f hf p hp
  obtain ⟨rest, before, after, hs, hs', hexchange⟩ := (B.owners p).total_move h ha
  have hle := owners_exchange hi.batch hp (fun w job cell put program hw hcell => by
    obtain ⟨_, _, hexec, -⟩ := hi.workers w job _ hw
    rw [hcell]
    exact ((hi.workers w job _ hw).step hexec).2.1 cell put rfl |>.1) hexchange
  have hone := hi.owned f hf p hp
  omega

theorem report_set {t : System n} {w : Fin n} {worker : Worker} {P : Program → Prop}
    (hold : ∀ v job program, v ≠ w → t.workers v = .busy job .report program → P program)
    (hnew : ∀ job program, worker = .busy job .report program → P program) :
    ∀ v job program, (t.setWorker w worker).workers v = .busy job .report program →
      P program :=
  setWorker_forall (P := fun u => ∀ job program, u = .busy job .report program → P program)
    (fun v hvw job program => hold v job program hvw) hnew

theorem content_workers (hlabels : ∀ f ∈ B.files, Labelled f) (hi : ContentInv B number s)
    (h : Move env s a s') (ha : ∀ request answer, a ≠ .request request answer) :
    ∀ w job program, s'.workers w = .busy job .report program →
      Safe (pieceSpec B) program s'.disk := by
  have hkept : ∀ v job program, a ≠ .worker v → s.workers v = .busy job .report program →
      Safe (pieceSpec B) program s'.disk :=
    fun v job program hactor hv => worker_kept hi h hactor hv
  have hother : ∀ {w v : Fin n}, v ≠ w → Action.worker w ≠ .worker v := by
    intro w v hvw he
    cases he
    exact hvw rfl
  cases h with
  | reject => exact absurd rfl (ha _ _)
  | begin => exact absurd rfl (ha _ _)
  | poll => exact hi.workers
  | manage =>
    rw [publish_workers]
    exact fun v job program hv => hkept v job program (fun he => by cases he) hv
  | take =>
    exact report_set (fun v job program hvw hv => hkept v job program (hother hvw) hv)
      (fun job program he => by cases he)
  | @work w job next op program disk out hworker hexec =>
    rw [publish_workers]
    rw [publish_disk] at hkept ⊢
    apply report_set (fun v job program hvw hv => hkept v job program (hother hvw) hv)
    intro job' program' he
    cases he
    exact ((hi.workers w job _ hworker).step hexec).2.2
  | workerFail =>
    exact report_set (fun v job program hvw hv => hkept v job program (hother hvw) hv)
      (fun job program he => by cases he)
  | workerFault =>
    exact report_set (fun v job program _ hv => hkept v job program (fun he => by cases he) hv)
      (fun job program he => by cases he)
  | @split w job hworker =>
    apply report_set (fun v job program hvw hv => hkept v job program (hother hvw) hv)
    intro job' program' he
    cases he
    have hw := hi.batch.workers w
    rw [hworker] at hw
    obtain ⟨f, hj, hprogram⟩ := hw
    rcases hprogram with hnil | ⟨-, hdisk⟩
    · cases hnil
    · rw [f.splitUploadSend_entry hj.entry hdisk]
      exact safe_workProgram hj (hlabels f hj.mem) s.disk
  | report =>
    exact report_set (fun v job program hvw hv => hkept v job program (hother hvw) hv)
      (fun job program he => by cases he)
  | @dispatch b =>
    intro v job program hv
    apply hkept v job program (fun he => by cases he)
    cases b <;> exact hv
  | _ => exact fun v job program hv => hkept v job program (fun he => by cases he) hv

theorem content_mail (hi : ContentInv B number s) (h : Move env s a s') :
    ∀ put, .pairPut put ∈ s'.mailbox →
      s'.disk put.item.srcPath = some (contentsOf B.files put.source) := by
  intro put hput
  rcases mail_of_move h hi.batch.silent hput with hput | ⟨w, job, next, op, program, hworker, hexec⟩
  · exact (mail_kept hi h hput).trans (hi.mail put hput)
  · obtain ⟨cell, rfl⟩ := Op.exec_given hexec
    have hw := hi.batch.workers w
    rw [hworker] at hw
    cases next with
    | split =>
      obtain ⟨f, -, hprogram⟩ := hw
      rcases hprogram with hprogram | ⟨hnil, -⟩
      · cases (exec_split_silent hprogram hexec).1
      · cases hnil
    | report =>
      obtain ⟨f, hj, hsuffix⟩ := hw
      obtain ⟨second, -, rfl, rfl⟩ := give_of_suffix hsuffix List.mem_cons_self
      obtain ⟨-, value, hvalue, hgiven⟩ :=
        ((hi.workers w job _ hworker).step hexec).2.1 _ _ rfl
      have hdisk : s.disk = s'.disk := congrArg Prod.fst (Option.some.inj hexec)
      rw [← show value = contentsOf B.files (f.put job second).source from hgiven, ← hdisk]
      exact hvalue

theorem content_bucket (hi : ContentInv B number s) (h : Move env s a s') :
    ∀ put ∈ s'.buckets.items, s'.disk put.item.srcPath = some (contentsOf B.files put.source) := by
  intro put hput
  cases bucket_of_move h hi.batch.unmatched hput with
  | inl hput => exact (bucket_kept hi h hput).trans (hi.bucket put hput)
  | inr hput => exact (mail_kept hi h hput).trans (hi.mail put hput)

theorem weigh_bucket_count (p : Str) (items : List PairPut) :
    weigh (B.owners p).bucket items = (items.map (fun put => put.item.srcPath)).count p := by
  induction items with
  | nil => rfl
  | cons a rest ih =>
    rw [weigh_cons, ih, List.map_cons, List.count_cons, add_comm]
    congr 1
    change (if p = a.item.srcPath then 1 else 0) = _
    by_cases hp : p = a.item.srcPath
    · rw [if_pos hp, if_pos (by simpa using hp.symm)]
    · rw [if_neg hp, if_neg (by simpa using Ne.symm hp)]

theorem bucket_paths_nodup (hi : ContentInv B number s) :
    (s.buckets.items.map (fun put => abspath put.item.srcPath)).Nodup := by
  have habs : s.buckets.items.map (fun put => abspath put.item.srcPath) =
      s.buckets.items.map (fun put => put.item.srcPath) :=
    List.map_congr_left (fun put hput => (hi.batch.bucket put hput).abspath_src)
  rw [habs]
  apply List.nodup_iff_count_le_one.mpr
  intro p
  by_cases hp : p ∈ s.buckets.items.map (fun put => put.item.srcPath)
  · obtain ⟨put, hput, rfl⟩ := List.mem_map.mp hp
    obtain ⟨f, hf, hpf⟩ := (hi.batch.bucket put hput).src_mem
    have hone := hi.owned f hf _ hpf
    rw [owners_total] at hone
    rw [← weigh_bucket_count (B := B)]
    omega
  · rw [List.count_eq_zero.mpr hp]
    exact Nat.zero_le 1

theorem safe_sweep (hi : ContentInv B number s) :
    Safe (pieceSpec B) (uploadUnpaired s.buckets.popAllRemaining) s.disk := by
  apply safe_uploadUnpaired
  · intro g hg
    obtain ⟨row, hrow, rfl⟩ := List.mem_map.mp hg
    exact hi.batch.unmatched.single row hrow
  · rw [popAllRemaining_flatten]
    exact bucket_paths_nodup hi
  · rw [popAllRemaining_flatten]
    intro put hput
    rw [(hi.batch.bucket put hput).abspath_src]
    exact hi.bucket put hput

theorem safe_ready (hi : ContentInv B number s) {put : PairPut}
    (hmem : .pairPut put ∈ s.mailbox) :
    Safe (pieceSpec B) (mergeReady (PairBuckets.put put.pairKey put s.buckets).2) s.disk := by
  obtain ⟨-, hnone⟩ | ⟨rows, rest, a, hbuckets, hsome⟩ :=
    put_cases hi.batch.unmatched put.pairKey put
  · rw [hnone]
    trivial
  · rw [hsome]
    have hitem : a ∈ s.buckets.items := by
      rw [hbuckets]
      simp [items]
    have ha := hi.batch.bucket a hitem
    have hput := hi.batch.mail put hmem
    obtain ⟨f, -, hf⟩ := ha.src_mem
    obtain ⟨g, -, hg⟩ := hput.src_mem
    apply safe_mergePair
    · rw [ha.abspath_src]
      exact hi.bucket a hitem
    · rw [hput.abspath_src]
      exact hi.mail put hmem
    · rw [ha.abspath_src, ha.abspath_out]
      exact Batch.path_ne_out hf ha
    · rw [hput.abspath_src, ha.abspath_out]
      exact Batch.path_ne_out hg ha

theorem content_manager (hi : ContentInv B number s) (h : Move env s a s')
    (ha : ∀ request answer, a ≠ .request request answer) :
    Safe (pieceSpec B) s'.phase.program s'.disk := by
  have hkept : a ≠ .manager → Safe (pieceSpec B) s.phase.program s'.disk :=
    fun hactor => manager_kept hi h hactor
  cases h with
  | reject => exact absurd rfl (ha _ _)
  | begin => exact absurd rfl (ha _ _)
  | loop hold hnew =>
    rename_i phase
    change Safe _ phase.program _
    rw [(between_closed hnew).2]
    trivial
  | wait => exact hi.manager
  | poll => exact hi.manager
  | @manage stage op program disk out hphase hexec =>
    rw [publish_phase, publish_disk]
    have hm := hi.manager
    rw [hphase] at hm
    exact (hm.step hexec).2.2
  | sweep => exact safe_sweep hi
  | @dispatch b mailbox hphase hmail =>
    cases b with
    | jobDone job success =>
      change Safe _ s.phase.program _
      rw [hphase]
      trivial
    | pairPut put =>
      refine safe_ready hi ?_
      rw [hmail]
      exact List.mem_cons_self
    | unexpected => trivial
    | undecodable => trivial
  | push => trivial
  | pushed => trivial
  | fail => trivial
  | fault => trivial
  | swept => trivial
  | notify => trivial
  | notifyFailure => trivial
  | work =>
    rw [publish_phase]
    exact hkept (fun he => by cases he)
  | stop => exact hi.manager
  | unexpected => exact hi.manager
  | undecodable => exact hi.manager
  | _ => exact hkept (fun he => by cases he)

theorem content_publish {who : Uploader} {out : Output Bytes Destination PairPut} {t : System n}
    (ht : ∀ u ∈ t.cycle.uploads,
      u.contents = mergedBytes (u.destination.sources.map (contentsOf B.files)))
    (hout : ∀ destination contents, out = .published destination contents →
      (pieceSpec B).published destination contents) :
    ∀ u ∈ (t.publish who out).cycle.uploads,
      u.contents = mergedBytes (u.destination.sources.map (contentsOf B.files)) := by
  cases out with
  | silent => exact ht
  | given put => exact ht
  | published destination contents =>
    intro u hu
    rcases List.mem_append.mp hu with hu | hu
    · exact ht u hu
    · rw [List.mem_singleton.mp hu]
      exact hout destination contents rfl

theorem content_uploads (hi : ContentInv B number s) (h : Move env s a s')
    (ha : ∀ request answer, a ≠ .request request answer) :
    ∀ u ∈ s'.cycle.uploads,
      u.contents = mergedBytes (u.destination.sources.map (contentsOf B.files)) := by
  cases h with
  | reject => exact absurd rfl (ha _ _)
  | begin => exact absurd rfl (ha _ _)
  | @manage stage op program disk out hphase hexec =>
    have hm := hi.manager
    rw [hphase] at hm
    exact content_publish hi.uploads (hm.step hexec).1
  | @work w job next op program disk out hworker hexec =>
    apply content_publish (t := System.setWorker w (.busy job next program)
      { s with disk := disk }) hi.uploads
    have hw := hi.batch.workers w
    rw [hworker] at hw
    cases next with
    | split =>
      obtain ⟨f, -, hprogram⟩ := hw
      rcases hprogram with hprogram | ⟨hnil, -⟩
      · obtain ⟨rfl, -, -, -⟩ := exec_split_silent hprogram hexec
        exact fun _ _ he => by cases he
      · cases hnil
    | report => exact ((hi.workers w job _ hworker).step hexec).1
  | @dispatch b => cases b <;> exact hi.uploads
  | _ => exact hi.uploads

theorem contentInv_step (hlabels : ∀ f ∈ B.files, Labelled f) (hi : ContentInv B number s)
    (h : Move env s a s') (ha : ∀ request answer, a ≠ .request request answer) :
    ContentInv B number s' where
  batch := batchInv_step hi.batch (fun f hf => hi.owned f hf _ f.downloadPath_mem) h ha
  owned := content_owned hi h ha
  workers := content_workers hlabels hi h ha
  mail := content_mail hi h
  bucket := content_bucket hi h
  manager := content_manager hi h ha
  uploads := content_uploads hi h ha

theorem contentInv_begin (h : Quiescent s) (request : Request) :
    ContentInv B (s.cycle.number + 1) ((s.openCycle env request).beginCycle B.entries) where
  batch := batchInv_begin h.queue h.mail h.idle request
  owned := fun _ _ _ _ => owners_begin h.queue h.mail h.idle request
  workers := fun w job program hw => by
    change s.workers w = _ at hw
    rw [h.idle w] at hw
    cases hw
  mail := fun put hput => by
    change _ ∈ s.mailbox at hput
    rw [h.mail] at hput
    cases hput
  bucket := fun put hput => by cases hput
  manager := trivial
  uploads := fun u hu => by cases hu

end Step
end SensorDataNormalization.PieceContents
