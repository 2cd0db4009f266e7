import SensorDataNormalization.PacketConservation

set_option autoImplicit false

/-! Cycles for several dates, one after the other. -/
namespace SensorDataNormalization.DateBoundary
open PythonText WallClock PcapRecords PcapMerge StoreProgram WorkerPaths RawObjects Messages
  WorkerProgram ManagerProgram RawFiles NormalizerSystem SystemSteps CycleAccounting
  CycleIsolation DrainQuiescence BatchOwnership PieceFlow UploadKeys SecondObjects
  PacketConservation

variable {n : ℕ} {env : Environment}

/-- A request, what storage answers for its folder, and the raw files that it selects. -/
structure Day (env : Environment) where
  request : Request
  answer : StorageAnswer
  files : List (RawFile env)

/-- The cycles of a list of requests, one after the other and without faults. -/
inductive Days : List (Day env) → System n → System n → Prop
  | nil (s : System n) : Days [] s s
  | cons {day : Day env} {days : List (Day env)} {s s₁ t u : System n}
      (selected : selectFiles env day.request day.answer = some (day.files.map RawFile.entry))
      (started : NormalizerSystem.step env s (.request day.request day.answer) = some s₁)
      (run : Runs env Faultless s₁ t) (listening : t.phase = .listening)
      (rest : Days days t u) : Days (day :: days) s u

def allFiles (days : List (Day env)) : List (RawFile env) := days.flatMap Day.files

def Holds (stream : SensorStream) (second : ℕ) (f : RawFile env) : Prop :=
  f.stream = stream ∧ second ∈ f.seconds

/-- No second of a stream has packets in the files of two requests. -/
def NoSharedSecond (days : List (Day env)) : Prop :=
  days.Pairwise (fun d d' => ∀ f ∈ d.files, ∀ g ∈ d'.files, f.stream = g.stream →
    ∀ second ∈ f.seconds, second ∉ g.seconds)

/-- The object of every second of every file holds all packets of that second. -/
def Preserved (days : List (Day env)) (s : System n) : Prop :=
  ∀ f ∈ allFiles days, ∀ second ∈ f.seconds, ∃ object, s.s3 (objectKey f second) = some object ∧
    (rawPackets (allFiles days) f.stream second).Subperm (readPcapRecords object).2

theorem rawPackets_append (fs gs : List (RawFile env)) (stream : SensorStream) (second : ℕ) :
    rawPackets (fs ++ gs) stream second =
      rawPackets fs stream second ++ rawPackets gs stream second := by
  rw [rawPackets, List.filter_append, List.flatMap_append]
  rfl

theorem rawPackets_allFiles (before after : List (Day env)) (day : Day env)
    (stream : SensorStream) (second : ℕ) :
    rawPackets (allFiles (before ++ day :: after)) stream second =
      rawPackets (allFiles before) stream second ++ (rawPackets day.files stream second ++
        rawPackets (allFiles after) stream second) := by
  rw [allFiles, List.flatMap_append, List.flatMap_cons, rawPackets_append, rawPackets_append]
  rfl

theorem rawPackets_nil {files : List (RawFile env)} {stream : SensorStream} {second : ℕ}
    (h : ∀ f ∈ files, ¬ Holds stream second f) : rawPackets files stream second = [] := by
  apply List.flatMap_eq_nil_iff.mpr
  intro f hf
  obtain ⟨hfile, hstream⟩ := List.mem_filter.mp hf
  exact packets_nil (fun hsecond => h f hfile ⟨of_decide_eq_true hstream, hsecond⟩)

theorem rawPackets_pos {files : List (RawFile env)} {f : RawFile env} {second : ℕ}
    (hf : f ∈ files) (hsecond : second ∈ f.seconds) :
    0 < (rawPackets files f.stream second).length := by
  obtain ⟨r, hr, hrsecond⟩ := mem_sortedSeconds.mp hsecond
  have hpacket : r ∈ f.packets second := List.mem_filter.mpr ⟨hr, decide_eq_true hrsecond⟩
  have hfile : f ∈ files.filter (fun g => decide (g.stream = f.stream)) :=
    List.mem_filter.mpr ⟨hf, decide_eq_true rfl⟩
  exact List.length_pos_of_mem (List.mem_flatMap.mpr ⟨f, hfile, hpacket⟩)

theorem Consecutive.sublist {fs gs : List (RawFile env)} (h : Consecutive gs)
    (hsub : fs.Sublist gs) : Consecutive fs where
  minutes := h.minutes.sublist hsub
  ordered := h.ordered.sublist hsub
  shared := fun stream second => ((hsub.filter _).length_le).trans (h.shared stream second)

theorem distinctLabels_sublist {fs gs : List (RawFile env)} (h : DistinctLabels gs)
    (hsub : fs.Sublist gs) : DistinctLabels fs :=
  fun f hf g hg => h f (hsub.subset hf) g (hsub.subset hg)

/-! ## One day -/

section OneDay
variable {files : List (RawFile env)} {request : Request} {answer : StorageAnswer}
  {s s₁ t : System n}

theorem day_result (hc : Consecutive files) (hlabels : DistinctLabels files)
    (h : Starts files request answer s s₁) (run : Runs env Faultless s₁ t)
    (hlistening : t.phase = .listening) :
    (Quiescent t ∧ t.stop = false) ∧
    (∀ f ∈ files, ∀ second ∈ f.seconds, ∃ object, t.s3 (objectKey f second) = some object ∧
      (readPcapRecords object).2.Perm (rawPackets files f.stream second)) ∧
    ∀ key, (∀ f ∈ files, ∀ second ∈ f.seconds, key ≠ objectKey f second) →
      t.s3 key = s.s3 key := by
  have hd := delivering_run (B := .ofMinutes files hc.minutes) hlabels.labelled h run
  have hclosed : ¬ Phase.isOpen t.phase := by rw [hlistening]; exact id
  have hprogram : t.phase.program = [] := by rw [hlistening]; rfl
  refine ⟨⟨hd.clean.quiet.quiescent hclosed, hd.clean.quiet.stop⟩, ?_,
    fun key hkey => kept_key hd hclosed hprogram hkey⟩
  intro f hf second hsecond
  obtain ⟨order, hperm, -, hstored⟩ := stored_object (R := fun _ _ => True) hd hclosed hprogram hc
    hlabels (fun _ _ _ _ _ _ _ => trivial) hf hsecond
  refine ⟨_, hstored, ?_⟩
  rw [object_records hperm, rawPackets_holders]
  exact hperm.flatMap_right _

end OneDay

/-! ## All days -/

section AllDays
variable {days : List (Day env)} {s u : System n}

theorem days_keep (h : Days days s u) (hc : Consecutive (allFiles days))
    (hlabels : DistinctLabels (allFiles days)) (hs : Quiescent s) (hstop : s.stop = false)
    {key : Str} (hkey : ∀ f ∈ allFiles days, ∀ second ∈ f.seconds, key ≠ objectKey f second) :
    u.s3 key = s.s3 key := by
  induction h with
  | nil => rfl
  | @cons day days s s₁ t u selected started run listening rest ih =>
    have hfirst : day.files.Sublist (allFiles (day :: days)) := List.sublist_append_left _ _
    have hrest : (allFiles days).Sublist (allFiles (day :: days)) := List.sublist_append_right _ _
    obtain ⟨⟨ht, htstop⟩, -, hkeep⟩ := day_result (Consecutive.sublist hc hfirst)
      (distinctLabels_sublist hlabels hfirst) ⟨hs, hstop, selected, started⟩ run listening
    rw [ih (Consecutive.sublist hc hrest) (distinctLabels_sublist hlabels hrest) ht htstop
      (fun f hf => hkey f (hrest.subset hf)), hkeep key (fun f hf => hkey f (hfirst.subset hf))]

theorem last_day (h : Days days s u) (hc : Consecutive (allFiles days))
    (hlabels : DistinctLabels (allFiles days)) (hs : Quiescent s) (hstop : s.stop = false)
    {f : RawFile env} {second : ℕ} (hf : f ∈ allFiles days) (hsecond : second ∈ f.seconds) :
    ∃ before day after object, days = before ++ day :: after ∧
      (∃ g ∈ day.files, Holds f.stream second g) ∧
      (∀ g ∈ allFiles after, ¬ Holds f.stream second g) ∧
      u.s3 (objectKey f second) = some object ∧
      (readPcapRecords object).2.Perm (rawPackets day.files f.stream second) := by
  induction h generalizing f with
  | nil => cases hf
  | @cons day days s s₁ t u selected started run listening rest ih =>
    have hfirst : day.files.Sublist (allFiles (day :: days)) := List.sublist_append_left _ _
    have hrest : (allFiles days).Sublist (allFiles (day :: days)) := List.sublist_append_right _ _
    have hcrest := Consecutive.sublist hc hrest
    have hlrest := distinctLabels_sublist hlabels hrest
    obtain ⟨⟨ht, htstop⟩, hobject, -⟩ := day_result (Consecutive.sublist hc hfirst)
      (distinctLabels_sublist hlabels hfirst) ⟨hs, hstop, selected, started⟩ run listening
    by_cases hlater : ∃ g ∈ allFiles days, Holds f.stream second g
    · obtain ⟨g, hg, hstream, hgsecond⟩ := hlater
      obtain ⟨before, last, after, object, hdays, hlast, hafter, hstored, hrecords⟩ :=
        ih hcrest hlrest ht htstop hg hgsecond
      rw [hstream] at hlast hafter hrecords
      have hkey := hc.objectKey_same hf (hrest.subset hg) hstream hsecond hgsecond
      exact ⟨day :: before, last, after, object, by rw [hdays]; rfl, hlast, hafter,
        hkey ▸ hstored, hrecords⟩
    · have hnone : ∀ g ∈ allFiles days, ¬ Holds f.stream second g :=
        fun g hg hholds => hlater ⟨g, hg, hholds⟩
      have hfday : f ∈ day.files := by
        rcases List.mem_append.mp hf with hf | hf
        · exact hf
        · exact absurd ⟨rfl, hsecond⟩ (hnone f hf)
      obtain ⟨object, hstored, hrecords⟩ := hobject f hfday second hsecond
      refine ⟨[], day, days, object, rfl, ⟨f, hfday, rfl, hsecond⟩, hnone, ?_, hrecords⟩
      rw [days_keep rest hcrest hlrest ht htstop, hstored]
      intro g hg y hy hkey
      obtain ⟨hstream, hys⟩ := objectKey_eq hlabels hf (hrest.subset hg) hsecond hy hkey
      exact hnone g hg ⟨hstream, hys ▸ hy⟩

/-- The days one after the other preserve all packets exactly when no second of a stream has
packets in the files of two of them. -/
theorem dates_preserved_iff (h : Days days s u) (hc : Consecutive (allFiles days))
    (hlabels : DistinctLabels (allFiles days)) (hs : Quiescent s) (hstop : s.stop = false) :
    Preserved days u ↔ NoSharedSecond days := by
  constructor
  · intro hpreserved
    apply List.pairwise_iff_forall_sublist.mpr
    intro d d' hsub f hf g hg hstream second hfsecond hgsecond
    have hfall : f ∈ allFiles days :=
      List.mem_flatMap.mpr ⟨d, hsub.subset List.mem_cons_self, hf⟩
    obtain ⟨before, last, after, object, hdays, -, hafter, hstored, hrecords⟩ :=
      last_day h hc hlabels hs hstop hfall hfsecond
    have hbefore : d ∈ before := by
      rw [hdays] at hsub
      obtain ⟨front, back, hsplit, hfront, hback⟩ := List.sublist_append_iff.mp hsub
      cases front with
      | nil =>
        have htail : [d'].Sublist after := by
          rw [List.nil_append] at hsplit
          rw [← hsplit] at hback
          exact hback.tail
        exact absurd ⟨hstream.symm, hgsecond⟩
          (hafter g (List.mem_flatMap.mpr ⟨d', htail.subset List.mem_cons_self, hg⟩))
      | cons x front =>
        rw [List.cons_append, List.cons.injEq] at hsplit
        rw [hsplit.1]
        exact hfront.subset List.mem_cons_self
    obtain ⟨object', hstored', hsubperm⟩ := hpreserved f hfall second hfsecond
    rw [hstored] at hstored'
    cases hstored'
    have hlength := hsubperm.length_le
    have hpos := rawPackets_pos (List.mem_flatMap.mpr ⟨d, hbefore, hf⟩) hfsecond
    rw [hrecords.length_eq, hdays, rawPackets_allFiles, List.length_append,
      List.length_append] at hlength
    change 0 < (rawPackets (allFiles before) f.stream second).length at hpos
    omega
  · intro hapart f hf second hsecond
    obtain ⟨before, last, after, object, hdays, hlast, hafter, hstored, hrecords⟩ :=
      last_day h hc hlabels hs hstop hf hsecond
    obtain ⟨g, hg, hgstream, hgsecond⟩ := hlast
    have hbefore : ∀ x ∈ allFiles before, ¬ Holds f.stream second x := by
      rintro x hx ⟨hxstream, hxsecond⟩
      obtain ⟨d, hd, hxd⟩ := List.mem_flatMap.mp hx
      rw [hdays] at hapart
      have hpair := (List.pairwise_append.mp hapart).2.2 d hd last List.mem_cons_self
      exact hpair x hxd g hg (hxstream.trans hgstream.symm) second hxsecond hgsecond
    refine ⟨object, hstored, ?_⟩
    rw [hdays, rawPackets_allFiles, rawPackets_nil hbefore, rawPackets_nil hafter,
      List.nil_append, List.append_nil]
    exact hrecords.symm.subperm

end AllDays

/-! ## Two days -/

theorem shared_of_seconds {files : List (RawFile env)} (h : ∀ f ∈ files, ∀ second ∈ f.seconds,
    (holders files f.stream second).length ≤ 2) (stream : SensorStream) (second : ℕ) :
    (holders files stream second).length ≤ 2 := by
  cases hh : holders files stream second with
  | nil => exact Nat.zero_le 2
  | cons f rest =>
    have hf : f ∈ holders files stream second := by
      rw [hh]
      exact List.mem_cons_self
    obtain ⟨hfile, hstream, hsecond⟩ := mem_holders.mp hf
    have hlength := h f hfile second hsecond
    rw [hstream, hh] at hlength
    exact hlength

/-- The cycles of two requests on one worker, with what a check finds at their end. -/
theorem two_days (d d' : Day env) (actions actions' : List (Action 1)) (check : System 1 → Bool)
    (hfiles : selectFiles env d.request d.answer = some (d.files.map RawFile.entry))
    (hfiles' : selectFiles env d'.request d'.answer = some (d'.files.map RawFile.entry))
    (h : (NormalizerSystem.step env .polling (.request d.request d.answer)).any (fun s₁ =>
      (runWhile env Faultless actions s₁).any (fun t => decide (t.phase = .listening) &&
        (NormalizerSystem.step env t (.request d'.request d'.answer)).any (fun t₁ =>
          (runWhile env Faultless actions' t₁).any (fun u =>
            decide (u.phase = .listening) && check u)))) = true) :
    ∃ u, Days [d, d'] .polling u ∧ check u = true := by
  obtain ⟨s₁, hstart, hs₁⟩ := (Option.any_eq_true _ _).mp h
  obtain ⟨t, hruns, ht⟩ := runs_of_any hs₁
  obtain ⟨hlistening, ht⟩ := (Bool.and_eq_true _ _).mp ht
  obtain ⟨t₁, hstart', ht₁⟩ := (Option.any_eq_true _ _).mp ht
  obtain ⟨u, hruns', hu⟩ := runs_of_any ht₁
  obtain ⟨hlistening', hcheck⟩ := (Bool.and_eq_true _ _).mp hu
  exact ⟨u, .cons hfiles hstart hruns (of_decide_eq_true hlistening)
    (.cons hfiles' hstart' hruns' (of_decide_eq_true hlistening') (.nil u)), hcheck⟩

def dayOf {objects : List (RawObject × Bytes)} (date : Str) (part : List (RawObject × Bytes))
    (h : ∀ o ∈ part, (hostOf objects).raw (o.1.filePath (hostOf objects).config) = some o.2) :
    Day (hostOf objects) where
  request := ⟨[], date, [], none⟩
  answer := .listing (listingOf part)
  files := filesOf part h

def newYear : Day (hostOf sharedSecond) :=
  dayOf "20240101".toList (sharedSecond.take 2) firstDay_stored

def dayAfter : Day (hostOf sharedSecond) :=
  dayOf "20240102".toList (sharedSecond.drop 2) (by decide +kernel)

theorem dates_preserved_two_days : ∃ u : System 1, Preserved [newYear, dayAfter] u ∧
    (allFiles [newYear, dayAfter]).length = 3 := by
  obtain ⟨u, hdays, -⟩ := two_days newYear dayAfter (inTurn 3 16 18) (inTurn 2 7 8)
    (fun _ => true) (by decide +kernel) (by decide +kernel) (by decide +kernel)
  have hc : Consecutive (allFiles [newYear, dayAfter]) :=
    { minutes := by decide +kernel
      ordered := by decide +kernel
      shared := shared_of_seconds (by decide +kernel) }
  have hapart : NoSharedSecond [newYear, dayAfter] := by
    unfold NoSharedSecond
    decide +kernel
  exact ⟨u, (dates_preserved_iff hdays hc (distinctLabels_of_text (by decide +kernel))
    ⟨rfl, rfl, fun _ => rfl⟩ rfl).mpr hapart, by decide +kernel⟩

/-- The last file of a day, with packets of the next day, and the first file of that day. -/
def midnight : List (RawObject × Bytes) :=
  [(.gnss "20240101".toList "202401012359".toList (by decide),
      captureOf [(1704153599, 1), (1704153600, 2)]),
    (.gnss "20240102".toList "202401020000".toList stamp_nextDay,
      captureOf [(1704153600, 3), (1704153601, 4)])]

def beforeMidnight : Day (hostOf midnight) :=
  dayOf "20240101".toList (midnight.take 1) (by decide +kernel)

def afterMidnight : Day (hostOf midnight) :=
  dayOf "20240102".toList (midnight.drop 1) (by decide +kernel)

/-- The object of the first second of the second day replaces that of the first day: a packet of
the first day is in no S3 object. -/
theorem midnight_packet_lost : ∃ u : System 1, Days [beforeMidnight, afterMidnight] .polling u ∧
    Consecutive (allFiles [beforeMidnight, afterMidnight]) ∧
    DistinctLabels (allFiles [beforeMidnight, afterMidnight]) ∧
    beforeMidnight.request.date ≠ afterMidnight.request.date ∧
    (∀ day ∈ [beforeMidnight, afterMidnight], ∀ f ∈ day.files,
      f.object.dateFolder = day.request.date) ∧
    ∃ f ∈ beforeMidnight.files, ∃ r ∈ (readPcapRecords f.contents).2,
      ∀ key object, u.s3 key = some object → r ∉ (readPcapRecords object).2 := by
  have hc : Consecutive (allFiles [beforeMidnight, afterMidnight]) :=
    { minutes := by decide +kernel
      ordered := by decide +kernel
      shared := shared_of_length (by decide +kernel) }
  have hlabels : DistinctLabels (allFiles [beforeMidnight, afterMidnight]) :=
    distinctLabels_of_text (by decide +kernel)
  obtain ⟨u, hdays, hlost⟩ := two_days beforeMidnight afterMidnight (inTurn 2 9 11)
    (inTurn 2 9 11) (fun u => beforeMidnight.files.any (fun f =>
      (readPcapRecords f.contents).2.any (fun r =>
        (allFiles [beforeMidnight, afterMidnight]).all (fun g => g.seconds.all (fun second =>
          decide (r ∉ (readPcapRecords ((u.s3 (objectKey g second)).getD [])).2))))))
    (by decide +kernel) (by decide +kernel) (by decide +kernel)
  simp only [List.any_eq_true, List.all_eq_true, decide_eq_true_eq] at hlost
  obtain ⟨f, hf, r, hr, hlost⟩ := hlost
  refine ⟨u, hdays, hc, hlabels, by decide, by decide +kernel, f, hf, r, hr, ?_⟩
  intro key object hobject
  by_cases hkey : ∃ g ∈ allFiles [beforeMidnight, afterMidnight], ∃ second ∈ g.seconds,
      key = objectKey g second
  · obtain ⟨g, hg, second, hsecond, rfl⟩ := hkey
    have hnot := hlost g hg second hsecond
    rw [hobject] at hnot
    exact hnot
  · have hkept : u.s3 key = (.polling : System 1).s3 key :=
      days_keep hdays hc hlabels ⟨rfl, rfl, fun _ => rfl⟩ rfl
        (fun g hg second hsecond he => hkey ⟨g, hg, second, hsecond, he⟩)
    rw [hkept] at hobject
    cases hobject

end SensorDataNormalization.DateBoundary
