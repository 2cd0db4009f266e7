import SensorDataNormalization.NameCollisions

set_option autoImplicit false

/-! Reading the names of the pieces back. -/
namespace SensorDataNormalization.NameParsing
open PythonText SensorRegistry WallClock PcapFilename PcapSplit StoreProgram WorkerPaths RawObjects
  WorkerProgram RawFiles UploadKeys CycleIsolation PieceNames NameCollisions

variable {env : Environment}

def partsOf (piece : SplitedPcap) : PcapFilenameParts :=
  { moduleName := piece.moduleName
    date := piece.date
    hours := piece.hours
    minutes := piece.minutes
    second := piece.second }

/-- The names of the piece and of its merged or unpaired object give back the parts. -/
def ParsesBack (env : Environment) (vehicleId : Str) (piece : SplitedPcap) : Prop :=
  parse (basename piece.savePath) = some (partsOf piece) ∧
    (prefixPath env.config vehicleId piece).bind (fun key => parse (basename key)) =
      some (partsOf piece)

section Pieces
variable {f : Capture} {folder m : Str} {k : ℕ} {piece : SplitedPcap}

theorem parse_splitName (h : CutSpec env f folder m k piece) :
    parse (basename piece.savePath) =
      some { partsOf piece with moduleName := piece.moduleName ++ "_split".toList } := by
  obtain ⟨hdate, hhours, hminutes, hsecond⟩ := label_slices (label env.clock k)
  rw [h.named.basename_savePath, splitName_eq_stamped, parse_marked h.registered (label_stamp _),
    hdate, hhours, hminutes, if_pos (label env.clock k).text_length.ge, hsecond, partsOf,
    h.module_eq, h.date_eq, h.hours_eq, h.minutes_eq, h.second_eq]

theorem parse_endName (h : CutSpec env f folder m k piece) (vehicleId : Str) :
    (prefixPath env.config vehicleId piece).bind (fun key => parse (basename key)) =
      some (partsOf piece) := by
  obtain ⟨hdate, hhours, hminutes, hsecond⟩ := label_slices (label env.clock k)
  rw [h.named.prefixPath_eq, Option.bind_some,
    basename_slash _ (endName_no_slash h.registered _), endName_eq_stamped,
    parse_registered h.registered (label_stamp _), hdate, hhours, hminutes,
    if_pos (label env.clock k).text_length.ge, hsecond, partsOf, h.module_eq, h.date_eq,
    h.hours_eq, h.minutes_eq, h.second_eq]

end Pieces

/-- The name of no piece of any capture parses back: the marker of the split is read as a part of
the module, and no module of that name is registered. The name of its merged or unpaired
object does. -/
theorem marked_name_not_parsed_back {f : Capture} {vehicleId : Str} {second : ℕ}
    {piece : SplitedPcap} (h : CutFrom env f vehicleId second piece) :
    ¬ ParsesBack env vehicleId piece ∧
      parse (basename piece.savePath) =
        some { partsOf piece with moduleName := piece.moduleName ++ "_split".toList } ∧
      ¬ Registered (piece.moduleName ++ "_split".toList) ∧
      (prefixPath env.config vehicleId piece).bind (fun key => parse (basename key)) =
        some (partsOf piece) := by
  obtain ⟨folder, hfolder⟩ := cutFrom_spec env f vehicleId
  obtain ⟨parts, -, hspec⟩ := hfolder second piece h
  have hsplit := parse_splitName hspec
  refine ⟨fun hback => ?_, hsplit, fun hr => registered_not_split hr _ rfl,
    parse_endName hspec vehicleId⟩
  have hmodule := congrArg PcapFilenameParts.moduleName
    (Option.some.inj (hsplit.symm.trans hback.1))
  have hlength := congrArg List.length hmodule
  simp [partsOf] at hlength

theorem gnss_piece_not_parsed_back : ∃ f ∈ firstDayFiles, ∃ p,
    ¬ ParsesBack (hostOf sharedSecond) f.stream.vehicle p ∧ p.moduleName = "GNSS".toList ∧
      parse (basename p.savePath) = some
        { partsOf p with moduleName := p.moduleName ++ "_split".toList } := by
  have hfile : ∃ f ∈ firstDayFiles, 1704067200 ∈ f.seconds ∧
      f.stream.moduleName = "GNSS".toList := by
    decide +kernel
  obtain ⟨f, hf, hsecond, hmodule⟩ := hfile
  have hback := marked_name_not_parsed_back (cutFrom_cut f hsecond)
  exact ⟨f, hf, _, hback.1, hmodule, hback.2.1⟩

/-- `GNSS_split_20240101000000.pcap` is read as a file of module `GNSS_split`. -/
theorem gnss_marker_read_as_module : ∃ f ∈ firstDayFiles, ∃ p,
    CutFrom (hostOf sharedSecond) (captureAt f) f.stream.vehicle 1704067200 p ∧
    f.object.fileName = "GNSS_202401010000.pcap".toList ∧
    basename p.savePath = "GNSS_split_20240101000000.pcap".toList ∧
    (parse (basename p.savePath)).map (·.moduleName) = some "GNSS_split".toList ∧
    ¬ ParsesBack (hostOf sharedSecond) f.stream.vehicle p := by
  have hfile : ∃ f ∈ firstDayFiles, 1704067200 ∈ f.seconds ∧
      f.object.fileName = "GNSS_202401010000.pcap".toList ∧
      basename (f.cut 1704067200).piece.savePath = "GNSS_split_20240101000000.pcap".toList ∧
      (f.cut 1704067200).piece.moduleName = "GNSS".toList := by
    decide +kernel
  obtain ⟨f, hf, hsecond, hname, hbase, hmodule⟩ := hfile
  have hparse : (parse "GNSS_split_20240101000000.pcap".toList).map (·.moduleName) =
      some "GNSS_split".toList := by
    decide +kernel
  rw [← hbase] at hparse
  refine ⟨f, hf, _, cutFrom_cut f hsecond, hname, hbase, hparse, fun hback => ?_⟩
  rw [hback.1] at hparse
  exact absurd (hmodule.symm.trans (Option.some.inj hparse)) (by decide)

end SensorDataNormalization.NameParsing
