import SensorDataNormalization.PcapSplit

set_option autoImplicit false
namespace SensorDataNormalization.PcapMerge
open PythonText WallClock PcapFilename PcapRecords KeyedGrouping StoreProgram PcapSplit

/-! ## The seconds of a file -/

theorem mem_sortedSeconds {file : Bytes} {second : ℕ} :
    second ∈ sortedSeconds file ↔ ∃ r ∈ (readPcapRecords file).2, r.second = second :=
  mem_sortedKeys

theorem sortedSeconds_pairwise (file : Bytes) : (sortedSeconds file).Pairwise (· < ·) :=
  sortedKeys_pairwise Record.second _

theorem sortedSeconds_nodup (file : Bytes) : (sortedSeconds file).Nodup :=
  (sortedSeconds_pairwise file).imp (fun h => Nat.ne_of_lt h)

theorem sortedSeconds_eq_nil {file : Bytes} :
    sortedSeconds file = [] ↔ (readPcapRecords file).2 = [] := by
  constructor
  · intro h
    by_contra hne
    obtain ⟨r, rest, hr⟩ := List.exists_cons_of_ne_nil hne
    have hm : r.second ∈ sortedSeconds file := mem_sortedSeconds.mpr ⟨r, by rw [hr]; simp, rfl⟩
    rw [h] at hm
    cases hm
  · intro h
    rw [sortedSeconds, h]
    rfl

/-- A list of pieces in which only the ends are not MID is cut by `outcomeOf` so that
the ends and the MID pieces go different ways. -/
theorem outcomeOf_ends {first last : PieceFile} {middle : List PieceFile}
    (hf : first.piece.position ≠ .MID) (hl : last.piece.position ≠ .MID)
    (hm : ∀ p ∈ middle, p.piece.position = .MID) :
    outcomeOf (first :: (middle ++ [last])) =
      { processed := middle.map PieceFile.piece
        unprocessed := [first.piece, last.piece] } := by
  have hkeep : (middle.map PieceFile.piece).filter (fun p => decide (p.position = .MID)) =
      middle.map PieceFile.piece := by
    refine List.filter_eq_self.mpr (fun p hp => ?_)
    obtain ⟨q, hq, rfl⟩ := List.mem_map.mp hp
    exact decide_eq_true (hm q hq)
  have hdrop : (middle.map PieceFile.piece).filter (fun p => decide (p.position ≠ .MID)) = [] := by
    refine List.filter_eq_nil_iff.mpr (fun p hp => ?_)
    obtain ⟨q, hq, rfl⟩ := List.mem_map.mp hp
    simp [hm q hq]
  simp only [outcomeOf, List.map_cons, List.map_append, List.map_nil, List.filter_cons,
    List.filter_append, hkeep, hdrop, List.filter_nil]
  simp [hf, hl]

def ascending (o : SplitOutcome) : List SplitedPcap :=
  o.unprocessed.take 1 ++ o.processed ++ o.unprocessed.drop 1

section Pieces
variable (clock : HostClock) (moduleName : Str) (t : SplitTemplate) (file : Bytes)

theorem filePieces_ends {s last : ℕ} {middle : List ℕ}
    (h : sortedSeconds file = s :: (middle ++ [last])) :
    filePieces clock moduleName t file =
      pieceAt clock moduleName t file s last s ::
        (middle.map (pieceAt clock moduleName t file s last) ++
          [pieceAt clock moduleName t file s last last]) := by
  have hlast : (s :: (middle ++ [last])).getLast? = some last := by
    rw [← List.cons_append, List.getLast?_concat]
  simp only [filePieces, h, hlast, List.head?_cons, Option.getD_some, List.map_cons,
    List.map_append, List.map_nil]

/-- Only the smallest and the largest second of a file are boundary pieces. -/
theorem ends_positions {s last : ℕ} {middle : List ℕ}
    (h : sortedSeconds file = s :: (middle ++ [last])) :
    classifyPosition s s last = .HEAD ∧ classifyPosition last s last = .TAIL ∧
      ∀ k ∈ middle, classifyPosition k s last = .MID := by
  have hpair := sortedSeconds_pairwise file
  rw [h] at hpair
  obtain ⟨hs, hrest⟩ := List.pairwise_cons.mp hpair
  have hsl : s < last := hs last (by simp)
  refine ⟨if_pos rfl, ?_, fun k hk => ?_⟩
  · rw [classifyPosition, if_neg (by omega), if_pos rfl]
  · have hsk : s < k := hs k (by simp [hk])
    have hkl : k < last := (List.pairwise_append.mp hrest).2.2 k hk last (by simp)
    rw [classifyPosition, if_neg (by omega), if_neg (by omega)]

/-- The pieces of `split_once` in the order HEAD, MID, TAIL are in the order of their seconds. -/
theorem ascending_filePieces :
    ascending (outcomeOf (filePieces clock moduleName t file)) =
      (filePieces clock moduleName t file).map PieceFile.piece := by
  cases hs : sortedSeconds file with
  | nil => simp [filePieces, hs, ascending, outcomeOf]
  | cons s rest =>
    rcases List.eq_nil_or_concat rest with rfl | ⟨middle, last, rfl⟩
    · have hone : filePieces clock moduleName t file = [pieceAt clock moduleName t file s s s] := by
        simp [filePieces, hs]
      simp [hone, ascending, outcomeOf, pieceAt, classifyPosition]
    · rw [List.concat_eq_append] at hs
      obtain ⟨hhead, htail, hmid⟩ := ends_positions file hs
      have hfirst : (pieceAt clock moduleName t file s last s).piece.position ≠ .MID := by
        change classifyPosition s s last ≠ _
        rw [hhead]
        decide
      have hlast : (pieceAt clock moduleName t file s last last).piece.position ≠ .MID := by
        change classifyPosition last s last ≠ _
        rw [htail]
        decide
      have hmiddle : ∀ p ∈ middle.map (pieceAt clock moduleName t file s last),
          p.piece.position = .MID := by
        intro p hp
        obtain ⟨k, hk, rfl⟩ := List.mem_map.mp hp
        exact hmid k hk
      rw [filePieces_ends clock moduleName t file hs, outcomeOf_ends hfirst hlast hmiddle]
      simp [ascending]

theorem filePieces_savePaths :
    (filePieces clock moduleName t file).map (fun p => p.piece.savePath) =
      (sortedSeconds file).map (fun second => t.pathAt (label clock second)) := by
  simp only [filePieces, List.map_map]
  rfl

theorem filePieces_paths_nodup
    (hlabels : Set.InjOn (label clock) {s | s ∈ sortedSeconds file}) :
    ((filePieces clock moduleName t file).map (fun p => abspath p.piece.savePath)).Nodup := by
  have hpaths : (filePieces clock moduleName t file).map (fun p => abspath p.piece.savePath) =
      (sortedSeconds file).map (fun second => t.pathAt (label clock second)) := by
    simp only [filePieces, List.map_map]
    exact List.map_congr_left (fun second _ => t.abspath_pathAt _)
  rw [hpaths]
  exact List.Nodup.map_on
    (fun a ha b hb hab => hlabels ha hb (t.pathAt_injective hab)) (sortedSeconds_nodup file)

end Pieces

/-! ## Running the writes and the merge -/

section Programs
variable {E G : Type}

theorem run_writePieces_other (pieces : List PieceFile) (disk : Store Str Bytes) :
    ∃ after, run (writePieces pieces : List (Op Str Bytes E G)) disk = some after ∧
      ∀ path, path ∉ pieces.map (fun p => abspath p.piece.savePath) → after path = disk path := by
  induction pieces generalizing disk with
  | nil => exact ⟨disk, rfl, fun _ _ => rfl⟩
  | cons p pieces ih =>
    obtain ⟨after, hrun, hother⟩ :=
      ih (Function.update disk (abspath p.piece.savePath) (some p.contents))
    refine ⟨after, hrun, fun path hp => ?_⟩
    simp only [List.map_cons, List.mem_cons, not_or] at hp
    rw [hother path hp.2, Function.update_of_ne hp.1]

theorem run_writePieces {pieces : List PieceFile}
    (hnodup : (pieces.map (fun p => abspath p.piece.savePath)).Nodup) (disk : Store Str Bytes) :
    ∃ after, run (writePieces pieces : List (Op Str Bytes E G)) disk = some after ∧
      ∀ p ∈ pieces, after (abspath p.piece.savePath) = some p.contents := by
  induction pieces generalizing disk with
  | nil => exact ⟨disk, rfl, by simp⟩
  | cons p pieces ih =>
    obtain ⟨hp, hrest⟩ := List.nodup_cons.mp hnodup
    let disk' := Function.update disk (abspath p.piece.savePath) (some p.contents)
    obtain ⟨after, hrun, hin⟩ := ih hrest disk'
    obtain ⟨after', hrun', hother⟩ := run_writePieces_other (E := E) (G := G) pieces disk'
    have hsame : after' = after := Option.some.inj (hrun'.symm.trans hrun)
    refine ⟨after, hrun, fun q hq => ?_⟩
    rcases List.mem_cons.mp hq with rfl | hq
    · rw [← hsame, hother _ hp]
      exact Function.update_self _ _ _
    · exact hin q hq

/-- What `merge_pcap_files` leaves in the output file. -/
def mergedBytes (files : List Bytes) : Bytes :=
  (files.head?.getD []).take pcapFileHeaderSize ++
    files.flatMap (fun contents => contents.drop pcapFileHeaderSize)

theorem run_appendBodies {out : Str} {inputs : List (Str × Bytes)} {disk : Store Str Bytes}
    {sofar : Bytes} (hout : disk (abspath out) = some sofar)
    (hin : ∀ i ∈ inputs, disk (abspath i.1) = some i.2)
    (hfree : ∀ i ∈ inputs, abspath i.1 ≠ abspath out) :
    ∃ after, run (inputs.map (fun i => appendBody out i.1) : List (Op Str Bytes E G)) disk =
        some after ∧
      after (abspath out) =
        some (sofar ++ inputs.flatMap (fun i => i.2.drop pcapFileHeaderSize)) := by
  induction inputs generalizing disk sofar with
  | nil => exact ⟨disk, rfl, by rw [hout]; simp⟩
  | cons i inputs ih =>
    let disk' := Function.update disk (abspath out)
      (some (sofar ++ copyChunks (i.2.drop pcapFileHeaderSize)))
    have hstep : (appendBody out i.1 : Op Str Bytes E G).exec disk = some (disk', .silent) := by
      rw [appendBody, Op.exec, hin i (by simp), hout]
      rfl
    have hself : disk' (abspath out) = some (sofar ++ copyChunks (i.2.drop pcapFileHeaderSize)) :=
      Function.update_self _ _ _
    obtain ⟨after, hrun, hafter⟩ := ih hself
      (fun j hj => (Function.update_of_ne (hfree j (by simp [hj])) _ _).trans
        (hin j (by simp [hj])))
      (fun j hj => hfree j (by simp [hj]))
    refine ⟨after, ?_, ?_⟩
    · rw [List.map_cons, run, hstep]
      exact hrun
    · rw [hafter, copyChunks_eq, List.append_assoc, List.flatMap_cons]

theorem run_mergePcapFiles {out : Str} {inputs : List (Str × Bytes)} {disk : Store Str Bytes}
    (hne : inputs ≠ []) (hin : ∀ i ∈ inputs, disk (abspath i.1) = some i.2)
    (hfree : ∀ i ∈ inputs, abspath i.1 ≠ abspath out) :
    ∃ after, run (mergePcapFiles (inputs.map Prod.fst) out : List (Op Str Bytes E G)) disk =
        some after ∧ after (abspath out) = some (mergedBytes (inputs.map Prod.snd)) := by
  obtain ⟨i, rest, rfl⟩ := List.exists_cons_of_ne_nil hne
  let disk' := Function.update disk (abspath out) (some (i.2.take pcapFileHeaderSize))
  have hstep : (copyHeader i.1 out : Op Str Bytes E G).exec disk = some (disk', .silent) := by
    rw [copyHeader, Op.exec, hin i (by simp)]
    rfl
  have hself : disk' (abspath out) = some (i.2.take pcapFileHeaderSize) :=
    Function.update_self _ _ _
  have hin' : ∀ j ∈ i :: rest, disk' (abspath j.1) = some j.2 :=
    fun j hj => (Function.update_of_ne (hfree j hj) _ _).trans (hin j hj)
  obtain ⟨after, hrun, hafter⟩ := run_appendBodies (E := E) (G := G) hself hin' hfree
  refine ⟨after, ?_, ?_⟩
  · change run (copyHeader i.1 out :: ((i :: rest).map Prod.fst).map (appendBody out)) disk = _
    rw [run, hstep, List.map_map]
    exact hrun
  · rw [hafter]
    simp [mergedBytes, List.flatMap_map]

end Programs

/-- Merging files that were written piece by piece writes their records after the first header. -/
theorem mergedBytes_writePcap {α : Type} {header : α → Bytes} {records : α → List Record} {a : α}
    {rest : List α} (h : ∀ b ∈ a :: rest, (header b).length = pcapFileHeaderSize) :
    mergedBytes ((a :: rest).map (fun b => writePcap (header b) (records b))) =
      writePcap (header a) ((a :: rest).flatMap records) := by
  have hbody : ∀ xs : List α, (∀ b ∈ xs, (header b).length = pcapFileHeaderSize) →
      (xs.map (fun b => writePcap (header b) (records b))).flatMap
        (fun contents => contents.drop pcapFileHeaderSize) =
          recordsBytes (xs.flatMap records) := by
    intro xs hxs
    induction xs with
    | nil => rfl
    | cons b xs ih =>
      rw [List.map_cons, List.flatMap_cons, drop_writePcap (hxs b List.mem_cons_self),
        ih (fun c hc => hxs c (List.mem_cons_of_mem _ hc)), List.flatMap_cons, recordsBytes,
        recordsBytes, recordsBytes, List.flatMap_append]
  rw [mergedBytes, hbody _ h]
  exact congrArg (· ++ _) (take_writePcap (h a List.mem_cons_self) _)

theorem records_mergedBytes {α : Type} {header : α → Bytes} {records : α → List Record}
    {pieces : List α} (h : ∀ a ∈ pieces, (header a).length = pcapFileHeaderSize) :
    (readPcapRecords (mergedBytes (pieces.map (fun a => writePcap (header a) (records a))))).2 =
      pieces.flatMap records := by
  cases pieces with
  | nil => rfl
  | cons a rest =>
    rw [mergedBytes_writePcap h, readPcapRecords_writePcap (h a List.mem_cons_self)]

/-! ## Splitting and merging are inverse -/

theorem mergedBytes_filePieces (clock : HostClock) (moduleName : Str) (t : SplitTemplate)
    {file : Bytes} (hrec : (readPcapRecords file).2 ≠ []) :
    mergedBytes ((filePieces clock moduleName t file).map PieceFile.contents) =
      writePcap (readPcapRecords file).1 (stableSort Record.second (readPcapRecords file).2) := by
  have hlen := header_length_of_records hrec
  have hcontents : (filePieces clock moduleName t file).map PieceFile.contents =
      (sortedSeconds file).map (fun second => writePcap (readPcapRecords file).1
        (groupAt (groupsOf Record.second (readPcapRecords file).2) second)) := by
    simp only [filePieces, List.map_map]
    refine List.map_congr_left (fun second _ => ?_)
    rw [groupAt_groupsOf]
    rfl
  obtain ⟨s, rest, hs⟩ :=
    List.exists_cons_of_ne_nil (fun h => hrec (sortedSeconds_eq_nil.mp h))
  have hsorted := flatMap_sortedKeys Record.second (readPcapRecords file).2
  rw [hcontents, mergedBytes, List.flatMap_map]
  simp only [drop_writePcap hlen]
  have hhead : (((sortedSeconds file).map (fun second => writePcap (readPcapRecords file).1
      (groupAt (groupsOf Record.second (readPcapRecords file).2) second))).head?.getD []).take
        pcapFileHeaderSize = (readPcapRecords file).1 := by
    rw [hs]
    exact take_writePcap hlen _
  rw [hhead, writePcap, ← hsorted]
  congr 1
  exact (List.flatMap_assoc ..).symm

/-- Merging the pieces of a raw file in the order of their seconds gives its header and
its complete records, stably sorted by second; for a file in time order that is the
file without what follows its last complete record. -/
theorem merge_split_inverse {E G : Type} (clock : HostClock)
    (t : SplitTemplate) (srcFile outFilePath : Str) (parts : PcapFilenameParts)
    (hname : parse (basename srcFile) = some parts) (file : Bytes)
    (hlabels : Set.InjOn (label clock) {s | s ∈ sortedSeconds file}) (disk : Store Str Bytes)
    (hsrc : disk (abspath srcFile) = some file) (hrec : (readPcapRecords file).2 ≠ [])
    (hout : ∀ second ∈ sortedSeconds file,
      abspath outFilePath ≠ abspath (t.pathAt (label clock second))) :
    ∃ writes outcome disk₁ disk₂,
      (splitOnce clock disk srcFile t.text : Option (List (Op Str Bytes E G) × _)) =
        some (writes, outcome) ∧
      run writes disk = some disk₁ ∧
      (ascending outcome).map SplitedPcap.savePath =
        (sortedSeconds file).map (fun second => t.pathAt (label clock second)) ∧
      run (mergePcapFiles ((ascending outcome).map SplitedPcap.savePath) outFilePath :
        List (Op Str Bytes E G)) disk₁ = some disk₂ ∧
      disk₂ (abspath outFilePath) = some (writePcap (readPcapRecords file).1
        (stableSort Record.second (readPcapRecords file).2)) ∧
      (Ascending Record.second (readPcapRecords file).2 →
        ∃ merged rest, disk₂ (abspath outFilePath) = some merged ∧ file = merged ++ rest ∧
          firstRecord rest = none) := by
  let pieces := filePieces clock parts.moduleName t file
  have hpaths := filePieces_savePaths clock parts.moduleName t file
  have hnodup := filePieces_paths_nodup clock parts.moduleName t file hlabels
  obtain ⟨disk₁, hrun₁, hpieces⟩ := run_writePieces (E := E) (G := G) hnodup disk
  have hne : pieces.map (fun p => (p.piece.savePath, p.contents)) ≠ [] := by
    intro h
    have hnil : sortedSeconds file = [] := by simpa [pieces, filePieces] using h
    exact hrec (sortedSeconds_eq_nil.mp hnil)
  have hascending : (ascending (outcomeOf pieces)).map SplitedPcap.savePath =
      (pieces.map (fun p => (p.piece.savePath, p.contents))).map Prod.fst := by
    rw [ascending_filePieces, List.map_map, List.map_map]
    rfl
  have hin : ∀ i ∈ pieces.map (fun p => (p.piece.savePath, p.contents)),
      disk₁ (abspath i.1) = some i.2 := by
    intro i hi
    obtain ⟨p, hp, rfl⟩ := List.mem_map.mp hi
    exact hpieces p hp
  have hfree : ∀ i ∈ pieces.map (fun p => (p.piece.savePath, p.contents)),
      abspath i.1 ≠ abspath outFilePath := by
    intro i hi
    obtain ⟨p, hp, rfl⟩ := List.mem_map.mp hi
    obtain ⟨second, hsecond, rfl⟩ := List.mem_map.mp hp
    exact (hout second hsecond).symm
  obtain ⟨disk₂, hrun₂, hmerged⟩ := run_mergePcapFiles (E := E) (G := G) hne hin hfree
  have hbytes : disk₂ (abspath outFilePath) = some (writePcap (readPcapRecords file).1
      (stableSort Record.second (readPcapRecords file).2)) := by
    rw [hmerged, List.map_map]
    exact congrArg some (mergedBytes_filePieces clock parts.moduleName t hrec)
  refine ⟨writePieces pieces, outcomeOf pieces, disk₁, disk₂, ?_, hrun₁, ?_, ?_, hbytes, ?_⟩
  · rw [splitOnce, hname, Option.bind_some, hsrc, Option.bind_some, splitPieces_template]
    rfl
  · rw [hascending, List.map_map]
    exact hpaths
  · rw [hascending]
    exact hrun₂
  · intro hsorted
    obtain ⟨rest, hrest, hincomplete⟩ := readPcapRecords_split file
    refine ⟨_, rest, hbytes, ?_, firstRecord_none.mpr hincomplete⟩
    rw [stableSort_eq_self hsorted]
    exact hrest

/-- A file of three seconds, the last record out of order, with a truncated record. -/
theorem merge_split_inverse_three_seconds :
    ∃ writes outcome disk₁ disk₂,
      (splitOnce utcClock
        (Function.update (fun _ => none) "/in/GNSS_202401010000.pcap".toList
          (some (captureOf [(7, 1), (9, 2), (8, 3), (7, 4)] ++ [5, 5])))
        "/in/GNSS_202401010000.pcap".toList "/cache/GNSS_split_{}.pcap".toList :
          Option (List (Op Str Bytes Unit Unit) × _)) = some (writes, outcome) ∧
      run writes (Function.update (fun _ => none) "/in/GNSS_202401010000.pcap".toList
          (some (captureOf [(7, 1), (9, 2), (8, 3), (7, 4)] ++ [5, 5]))) = some disk₁ ∧
      run (mergePcapFiles ((ascending outcome).map SplitedPcap.savePath) "/out/all.pcap".toList :
        List (Op Str Bytes Unit Unit)) disk₁ = some disk₂ ∧
      disk₂ "/out/all.pcap".toList = some (captureOf [(7, 1), (7, 4), (8, 3), (9, 2)]) := by
  let t : SplitTemplate :=
    { folder := ["cache".toList]
      before := "GNSS_split_".toList
      after := ".pcap".toList
      ordinary := by decide
      folder_no_brace := fun s hs => List.mem_singleton.mp hs ▸ forall_chars (by decide)
      before_plain := forall_chars (by decide)
      after_plain := forall_chars (by decide) }
  obtain ⟨writes, outcome, disk₁, disk₂, hsplit, hwrite, -, hmerge, hbytes, -⟩ :=
    merge_split_inverse (E := Unit) (G := Unit) utcClock t "/in/GNSS_202401010000.pcap".toList
      "/out/all.pcap".toList
      ⟨"GNSS".toList, "20240101".toList, "00".toList, "00".toList, []⟩ (by decide)
      (captureOf [(7, 1), (9, 2), (8, 3), (7, 4)] ++ [5, 5])
      (by
        have hs : sortedSeconds (captureOf [(7, 1), (9, 2), (8, 3), (7, 4)] ++ [5, 5]) =
          [7, 8, 9] := by decide
        rw [hs]
        exact label_injOn (by decide))
      (Function.update (fun _ => none) "/in/GNSS_202401010000.pcap".toList
        (some (captureOf [(7, 1), (9, 2), (8, 3), (7, 4)] ++ [5, 5])))
      (by decide) (by decide) (by decide)
  exact ⟨writes, outcome, disk₁, disk₂, hsplit, hwrite, hmerge, hbytes.trans (by decide)⟩

end SensorDataNormalization.PcapMerge
