import Mathlib.Data.Char
import Mathlib.Data.List.DropRight
import Mathlib.Data.List.Lex
import Mathlib.Data.List.Sort
import SensorDataNormalization.PcapFilename
import SensorDataNormalization.PcapRecords
import SensorDataNormalization.StoreProgram

set_option autoImplicit false

/-! `scripts/upload_raw_to_s3.py`: which raw files it uploads, and under which keys. -/
namespace SensorDataNormalization.RawUpload
open SeparatedLists PythonText PcapFilename PcapRecords StoreProgram

/-! ## The script -/

/-- What the script takes from Python: `str.upper` and the characters that `\d` matches. -/
structure TextRules where
  upper : Str → Str
  isDecimal : Char → Bool
  upper_ascii : ∀ s, (∀ c ∈ s, c.toNat < 128) → upper s = PythonText.upper s
  upper_no_slash : ∀ s, '/' ∉ s → '/' ∉ upper s
  isDecimal_ascii : ∀ c, c.toNat < 128 → (isDecimal c = true ↔ IsDigit c)

/-- An entry below the source, with the parts of its relative path: a file with its bytes, or
something that is not a file, such as a directory. -/
structure SourceEntry where
  parts : List Str
  contents : Option Bytes
  ordinary : ∀ part ∈ parts, Ordinary part
  deriving DecidableEq

structure RawUploader where
  bucket : Str
  keyPrefix : Str
  dryRun : Bool

def strip (c : Char) (s : Str) : Str :=
  (s.dropWhile (fun x => decide (x = c))).rdropWhile (fun x => decide (x = c))

def RawUploader.new (bucket keyPrefix : Str) (dryRun : Bool) : RawUploader where
  bucket := bucket
  keyPrefix := strip '/' keyPrefix
  dryRun := dryRun

/-- The path of an object of the bucket. -/
def RawUploader.path (u : RawUploader) (key : Str) : Str := '/' :: (u.bucket ++ '/' :: key)

/-- `HHMMSS_RE.search`: the first six decimal characters in a row. -/
def search (isDecimal : Char → Bool) : Str → Option Str
  | [] => none
  | c :: rest =>
    let found := (c :: rest).take 6
    if found.length = 6 ∧ found.all isDecimal = true then some found else search isDecimal rest

def deriveMapping (t : TextRules) (u : RawUploader) (rel : List Str) : Option Str :=
  match rel with
  | [vehicle, moduleLower, date, fname] =>
    match search t.isDecimal fname with
    | none => none
    | some hhmmss =>
      let newName := t.upper moduleLower ++ '_' :: (date ++ hhmmss) ++ ".pcap".toList
      some (slashes [u.keyPrefix, date, t.upper vehicle, newName])
  | _ => none

/-- `source.rglob("*.pcap")`, in some order; directories of such a name are among them. -/
def rglob (tree : List SourceEntry) : List SourceEntry :=
  tree.filter (fun f => f.parts.getLast?.any (fun name => decide (".pcap".toList <:+ name)))

def sortedPcaps (tree : List SourceEntry) : List SourceEntry :=
  (rglob tree).insertionSort (fun f g => f.parts ≤ g.parts)

section Run
variable (t : TextRules) (u : RawUploader) (raises : SourceEntry → Bool)

/-- What `upload_file` reads. It raises on what is not a file, and on the files of which `raises`
holds. -/
def uploadFile (pcap : SourceEntry) : Option Bytes :=
  if raises pcap then none else pcap.contents

/-- The loop of `run`, with the objects in S3 and `uploaded`; there is no count if it raises. -/
def uploadEntries (entries : List SourceEntry) (s3 : Store Str Bytes) (uploaded : ℕ) :
    Store Str Bytes × Option ℕ :=
  match entries with
  | [] => (s3, some uploaded)
  | pcap :: rest =>
    match deriveMapping t u pcap.parts with
    | none => uploadEntries rest s3 uploaded
    | some s3Key =>
      if u.dryRun then uploadEntries rest s3 (uploaded + 1)
      else
        match uploadFile raises pcap with
        | none => (s3, none)
        | some contents =>
          uploadEntries rest (Function.update s3 (u.path s3Key) (some contents)) (uploaded + 1)

/-- `run`; there is no tree if the source is not a folder. -/
def run (source : Option (List SourceEntry)) (s3 : Store Str Bytes) : Store Str Bytes × Option ℕ :=
  match source with
  | none => (s3, none)
  | some tree => uploadEntries t u raises (sortedPcaps tree) s3 0

end Run

/-! ## The key of a file -/

structure Target where
  vehicle : Str
  moduleName : Str
  date : Str
  hhmmss : Str
  deriving DecidableEq

def targetOf (t : TextRules) (rel : List Str) : Option Target :=
  match rel with
  | [vehicle, moduleLower, date, fname] => (search t.isDecimal fname).map (fun hhmmss =>
      { vehicle := t.upper vehicle, moduleName := t.upper moduleLower, date := date,
        hhmmss := hhmmss })
  | _ => none

def Target.key (u : RawUploader) (x : Target) : Str :=
  slashes [u.keyPrefix, x.date, x.vehicle, stampedName x.moduleName (x.date ++ x.hhmmss)]

theorem deriveMapping_eq (t : TextRules) (u : RawUploader) (rel : List Str) :
    deriveMapping t u rel = (targetOf t rel).map (Target.key u) := by
  unfold deriveMapping targetOf
  split
  · cases search t.isDecimal _ <;> rfl
  · rfl

theorem search_some {isDecimal : Char → Bool} {s w : Str} (h : search isDecimal s = some w) :
    w <:+: s ∧ w.length = 6 ∧ ∀ c ∈ w, isDecimal c = true := by
  induction s with
  | nil => cases h
  | cons c rest ih =>
    unfold search at h
    dsimp only at h
    split_ifs at h with hfound
    · obtain rfl := Option.some.inj h
      exact ⟨(List.take_prefix _ _).isInfix, hfound.1, List.all_eq_true.mp hfound.2⟩
    · obtain ⟨hwindow, hw⟩ := ih h
      exact ⟨hwindow.trans (List.suffix_cons c rest).isInfix, hw⟩

theorem targetOf_some {t : TextRules} {rel : List Str} {x : Target} (h : targetOf t rel = some x) :
    ∃ vehicle moduleLower date fname hhmmss, rel = [vehicle, moduleLower, date, fname] ∧
      search t.isDecimal fname = some hhmmss ∧
      x = ⟨t.upper vehicle, t.upper moduleLower, date, hhmmss⟩ := by
  unfold targetOf at h
  split at h
  · obtain ⟨hhmmss, hsearch, rfl⟩ := Option.map_eq_some_iff.mp h
    exact ⟨_, _, _, _, _, rfl, hsearch, rfl⟩
  · cases h

structure Target.Plain (x : Target) : Prop where
  vehicle : '/' ∉ x.vehicle
  moduleName : '/' ∉ x.moduleName
  date : '/' ∉ x.date
  hhmmss : '/' ∉ x.hhmmss
  length : x.hhmmss.length = 6

theorem targetOf_plain {t : TextRules} {f : SourceEntry} {x : Target}
    (h : targetOf t f.parts = some x) : x.Plain := by
  obtain ⟨vehicle, moduleLower, date, fname, hhmmss, hparts, hsearch, rfl⟩ := targetOf_some h
  obtain ⟨-, hlength, hdecimal⟩ := search_some hsearch
  have hslash : ∀ part ∈ [vehicle, moduleLower, date, fname], '/' ∉ part :=
    fun part hpart => (f.ordinary part (hparts ▸ hpart)).no_slash
  exact
    { vehicle := t.upper_no_slash _ (hslash _ (by simp))
      moduleName := t.upper_no_slash _ (hslash _ (by simp))
      date := hslash _ (by simp)
      hhmmss := fun hmem => absurd ((t.isDecimal_ascii '/' (by decide)).mp (hdecimal _ hmem))
        (by decide)
      length := hlength }

/-- Files of different targets get different keys. -/
theorem Target.key_injective {u : RawUploader} {x y : Target} (hx : x.Plain) (hy : y.Plain)
    (h : x.key u = y.key u) : x = y := by
  have hname : ∀ z : Target, z.Plain → '/' ∉ stampedName z.moduleName (z.date ++ z.hhmmss) := by
    intro z hz
    simp only [stampedName, List.mem_append, List.mem_cons, not_or]
    exact ⟨⟨hz.moduleName, by decide, hz.date, hz.hhmmss⟩, by decide⟩
  have hsegments : ∀ z : Target, z.Plain → ∀ segment ∈ [z.date, z.vehicle,
      stampedName z.moduleName (z.date ++ z.hhmmss)], '/' ∉ segment := by
    intro z hz
    simp only [List.forall_mem_cons]
    exact ⟨hz.date, hz.vehicle, hname z hz, List.forall_mem_nil _⟩
  rw [key, key, slashes_cons, slashes_cons] at h
  have hsame := joined_injective (hsegments x hx) (hsegments y hy) (List.append_cancel_left h)
  simp only [List.cons.injEq, and_true] at hsame
  obtain ⟨hdate, hvehicle, hnames⟩ := hsame
  have hstamped : x.moduleName ++ '_' :: (x.date ++ x.hhmmss) =
      y.moduleName ++ '_' :: (y.date ++ y.hhmmss) := List.append_cancel_right hnames
  rw [hdate] at hstamped
  have hlength : ('_' :: (y.date ++ x.hhmmss)).length = ('_' :: (y.date ++ y.hhmmss)).length := by
    simp [hx.length, hy.length]
  obtain ⟨hmodule, hstamp⟩ := List.append_inj' hstamped hlength
  have htime : x.hhmmss = y.hhmmss := List.append_cancel_left (List.cons.inj hstamp).2
  cases x
  cases y
  rw [Target.mk.injEq]
  exact ⟨hvehicle, hmodule, hdate, htime⟩

/-! ## The run -/

section Run
variable {t : TextRules} {u : RawUploader} {raises : SourceEntry → Bool}
  {entries : List SourceEntry} {s3 : Store Str Bytes} {uploaded : ℕ}

def objectPath (u : RawUploader) (x : Target) : Str := u.path (x.key u)

/-- The script reads a target from the path. -/
def Mapped (t : TextRules) (f : SourceEntry) : Prop := (targetOf t f.parts).isSome

instance (t : TextRules) : DecidablePred (Mapped t) :=
  fun f => inferInstanceAs (Decidable ((targetOf t f.parts).isSome = true))

/-- Whatever of the entries the script maps is a file. -/
def AllFiles (t : TextRules) (entries : List SourceEntry) : Prop :=
  ∀ f ∈ entries, Mapped t f → f.contents.isSome

theorem allFiles_nil : AllFiles t [] := fun _ hf => (List.not_mem_nil hf).elim

def writesOf (t : TextRules) (u : RawUploader) (entries : List SourceEntry) : List (Str × Bytes) :=
  entries.filterMap (fun f => (targetOf t f.parts).bind (fun x =>
    f.contents.map (fun contents => (objectPath u x, contents))))

theorem objectPath_injective {x y : Target} (hx : x.Plain) (hy : y.Plain)
    (h : objectPath u x = objectPath u y) : x = y := by
  have hkey : u.bucket ++ '/' :: x.key u = u.bucket ++ '/' :: y.key u := (List.cons.inj h).2
  exact Target.key_injective hx hy (List.cons.inj (List.append_cancel_left hkey)).2

theorem writesOf_cons_none {f : SourceEntry} (h : targetOf t f.parts = none) :
    writesOf t u (f :: entries) = writesOf t u entries := by
  rw [writesOf, List.filterMap_cons, h]
  rfl

theorem writesOf_cons_some {f : SourceEntry} {x : Target} {contents : Bytes}
    (h : targetOf t f.parts = some x) (hf : f.contents = some contents) :
    writesOf t u (f :: entries) = (objectPath u x, contents) :: writesOf t u entries := by
  rw [writesOf, List.filterMap_cons, h, hf]
  rfl

theorem countP_mapped_none {f : SourceEntry} (h : targetOf t f.parts = none) :
    (f :: entries).countP (fun f => decide (Mapped t f)) =
      entries.countP (fun f => decide (Mapped t f)) :=
  List.countP_cons_of_neg (by simp [Mapped, h])

theorem countP_mapped_some {f : SourceEntry} {x : Target} (h : targetOf t f.parts = some x) :
    (f :: entries).countP (fun f => decide (Mapped t f)) =
      entries.countP (fun f => decide (Mapped t f)) + 1 :=
  List.countP_cons_of_pos (by simp [Mapped, h])

theorem uploadEntries_dry (hdry : u.dryRun = true) :
    uploadEntries t u raises entries s3 uploaded =
      (s3, some (uploaded + entries.countP (fun f => decide (Mapped t f)))) := by
  induction entries generalizing uploaded with
  | nil => rfl
  | cons f entries ih =>
    rw [uploadEntries, deriveMapping_eq]
    cases htarget : targetOf t f.parts with
    | none =>
      rw [countP_mapped_none htarget]
      exact ih
    | some x =>
      rw [countP_mapped_some htarget, Option.map_some]
      simp only [hdry, if_true]
      rw [ih, Nat.add_right_comm, Nat.add_assoc]

theorem uploadFile_some {f : SourceEntry} {contents : Bytes}
    (h : uploadFile raises f = some contents) : f.contents = some contents := by
  unfold uploadFile at h
  split_ifs at h
  exact h

/-- A run uploads the entries up to the first on which it raises; they are files. -/
theorem uploadEntries_wet (hwet : u.dryRun = false) : ∃ done rest, entries = done ++ rest ∧
    AllFiles t done ∧
    (uploadEntries t u raises entries s3 uploaded).1 = writeAll s3 (writesOf t u done) ∧
    ∀ count, (uploadEntries t u raises entries s3 uploaded).2 = some count → rest = [] ∧
      count = uploaded + entries.countP (fun f => decide (Mapped t f)) := by
  induction entries generalizing s3 uploaded with
  | nil =>
    exact ⟨[], [], rfl, allFiles_nil, rfl, fun count h => ⟨rfl, (Option.some.inj h).symm⟩⟩
  | cons f entries ih =>
    rw [uploadEntries, deriveMapping_eq]
    cases htarget : targetOf t f.parts with
    | none =>
      obtain ⟨done, rest, hentries, hfiles, hs3, hcount⟩ := @ih s3 uploaded
      refine ⟨f :: done, rest, by rw [hentries, List.cons_append], ?_, ?_, ?_⟩
      · refine List.forall_mem_cons.mpr ⟨fun hmapped => ?_, hfiles⟩
        rw [Mapped, htarget] at hmapped
        cases hmapped
      · rw [writesOf_cons_none htarget]
        exact hs3
      · rw [countP_mapped_none htarget]
        exact hcount
    | some x =>
      rw [Option.map_some]
      simp only [hwet, if_false, Bool.false_eq_true]
      cases hread : uploadFile raises f with
      | none =>
        exact ⟨[], f :: entries, rfl, allFiles_nil, rfl, fun count h => by cases h⟩
      | some contents =>
        have hcontents := uploadFile_some hread
        obtain ⟨done, rest, hentries, hfiles, hs3, hcount⟩ :=
          @ih (Function.update s3 (objectPath u x) (some contents)) (uploaded + 1)
        refine ⟨f :: done, rest, by rw [hentries, List.cons_append], ?_, ?_, fun count h => ?_⟩
        · exact List.forall_mem_cons.mpr ⟨fun _ => by rw [hcontents]; rfl, hfiles⟩
        · rw [writesOf_cons_some htarget hcontents]
          exact hs3
        · obtain ⟨hrest, hlength⟩ := hcount count h
          rw [countP_mapped_some htarget]
          exact ⟨hrest, by omega⟩

theorem mem_writesOf {write : Str × Bytes} : write ∈ writesOf t u entries ↔ ∃ f ∈ entries,
    ∃ x contents, targetOf t f.parts = some x ∧ f.contents = some contents ∧
      write = (objectPath u x, contents) := by
  simp only [writesOf, List.mem_filterMap, Option.bind_eq_some_iff, Option.map_eq_some_iff]
  constructor
  · rintro ⟨f, hf, x, hx, contents, hcontents, rfl⟩
    exact ⟨f, hf, x, contents, hx, hcontents, rfl⟩
  · rintro ⟨f, hf, x, contents, hx, hcontents, rfl⟩
    exact ⟨f, hf, x, hx, contents, hcontents, rfl⟩

theorem writesOf_other {path : Str}
    (h : ∀ f ∈ entries, ∀ x, targetOf t f.parts = some x → path ≠ objectPath u x) :
    writeAll s3 (writesOf t u entries) path = s3 path := by
  apply writeAll_other
  intro hmem
  obtain ⟨write, hwrite, rfl⟩ := List.mem_map.mp hmem
  obtain ⟨f, hf, x, contents, hx, -, rfl⟩ := mem_writesOf.mp hwrite
  exact h f hf x hx rfl

theorem writesOf_last {x : Target} (hfiles : AllFiles t entries)
    (h : ∃ f ∈ entries, targetOf t f.parts = some x) :
    ∃ before g after contents, entries = before ++ g :: after ∧ targetOf t g.parts = some x ∧
      (∀ f ∈ after, targetOf t f.parts ≠ some x) ∧ g.contents = some contents ∧
      writeAll s3 (writesOf t u entries) (objectPath u x) = some contents := by
  obtain ⟨before, g, after, rfl, hg, hafter⟩ := exists_last h
  obtain ⟨contents, hcontents⟩ :=
    Option.isSome_iff_exists.mp (hfiles g (by simp) (by rw [Mapped, hg]; rfl))
  refine ⟨before, g, after, contents, rfl, hg, hafter, hcontents, ?_⟩
  have hwrites : writesOf t u (before ++ g :: after) =
      writesOf t u before ++ (objectPath u x, contents) :: writesOf t u after := by
    rw [← writesOf_cons_some hg hcontents]
    exact List.filterMap_append
  rw [hwrites]
  apply writeAll_last
  intro hmem
  obtain ⟨write, hwrite, hpath⟩ := List.mem_map.mp hmem
  obtain ⟨f, hf, y, _, hy, -, rfl⟩ := mem_writesOf.mp hwrite
  have hyx := objectPath_injective (targetOf_plain hy) (targetOf_plain hg) hpath
  exact hafter f hf (hyx ▸ hy)

theorem mem_sortedPcaps {tree : List SourceEntry} {f : SourceEntry} :
    f ∈ sortedPcaps tree ↔ f ∈ rglob tree :=
  List.mem_insertionSort _

theorem sortedPcaps_sorted (tree : List SourceEntry) :
    (sortedPcaps tree).Pairwise (fun f g => f.parts ≤ g.parts) :=
  List.pairwise_insertionSort _ _

theorem sortedPcaps_count (tree : List SourceEntry) (p : SourceEntry → Bool) :
    (sortedPcaps tree).countP p = (rglob tree).countP p :=
  (List.perm_insertionSort _ _).countP_eq _

/-! ## What the bucket holds -/

/-- An object of the bucket is as before, or it is a file of the tree under the key of its path. -/
def Uploads (t : TextRules) (u : RawUploader) (tree : List SourceEntry)
    (s3 s3' : Store Str Bytes) : Prop :=
  ∀ path, s3' path = s3 path ∨ ∃ f ∈ rglob tree, ∃ x contents, targetOf t f.parts = some x ∧
    f.contents = some contents ∧ path = objectPath u x ∧ s3' path = some contents

theorem run_uploads {tree : List SourceEntry} (hwet : u.dryRun = false) :
    Uploads t u tree s3 (run t u raises (some tree) s3).1 := by
  obtain ⟨done, rest, hentries, hfiles, hs3, -⟩ :=
    @uploadEntries_wet t u raises (sortedPcaps tree) s3 0 hwet
  intro path
  rw [run, hs3]
  by_cases hpath : ∃ f ∈ done, ∃ x, targetOf t f.parts = some x ∧ path = objectPath u x
  · obtain ⟨f, hf, x, hx, rfl⟩ := hpath
    obtain ⟨before, g, after, contents, rfl, hg, -, hcontents, hlast⟩ :=
      @writesOf_last t u done s3 x hfiles ⟨f, hf, hx⟩
    have hmem : g ∈ sortedPcaps tree := by
      rw [hentries]
      simp
    exact Or.inr ⟨g, mem_sortedPcaps.mp hmem, x, contents, hg, hcontents, rfl, hlast⟩
  · left
    exact writesOf_other (fun f hf x hx hp => hpath ⟨f, hf, x, hx, hp⟩)

section Complete
variable {tree : List SourceEntry} {count : ℕ}

/-- A run that ends has uploaded all that it maps, and this was files. -/
theorem run_complete (hwet : u.dryRun = false)
    (hcount : (run t u raises (some tree) s3).2 = some count) :
    AllFiles t (rglob tree) ∧
      (run t u raises (some tree) s3).1 = writeAll s3 (writesOf t u (sortedPcaps tree)) ∧
      count = (rglob tree).countP (fun f => decide (Mapped t f)) := by
  obtain ⟨done, rest, hentries, hfiles, hs3, hend⟩ :=
    @uploadEntries_wet t u raises (sortedPcaps tree) s3 0 hwet
  obtain ⟨rfl, hlength⟩ := hend count hcount
  rw [List.append_nil] at hentries
  refine ⟨fun f hf => hfiles f (hentries ▸ mem_sortedPcaps.mpr hf), ?_, ?_⟩
  · rw [run, hs3, hentries]
  · rw [hlength, Nat.zero_add, sortedPcaps_count]

/-- Of the files with one target, the last in the order of the paths stays. -/
theorem run_last (hwet : u.dryRun = false)
    (hcount : (run t u raises (some tree) s3).2 = some count) {f : SourceEntry}
    (hf : f ∈ rglob tree) {x : Target} (hx : targetOf t f.parts = some x) :
    ∃ g ∈ rglob tree, targetOf t g.parts = some x ∧
      (run t u raises (some tree) s3).1 (objectPath u x) = g.contents ∧
      ∀ h ∈ rglob tree, targetOf t h.parts = some x → h.parts ≤ g.parts := by
  obtain ⟨hfiles, hs3, -⟩ := run_complete hwet hcount
  obtain ⟨before, g, after, contents, hentries, hg, hafter, hcontents, hlast⟩ :=
    @writesOf_last t u (sortedPcaps tree) s3 x (fun f hf => hfiles f (mem_sortedPcaps.mp hf))
      ⟨f, mem_sortedPcaps.mpr hf, hx⟩
  have hsorted := sortedPcaps_sorted tree
  rw [hentries] at hsorted
  have hmem : g ∈ sortedPcaps tree := by
    rw [hentries]
    simp
  refine ⟨g, mem_sortedPcaps.mp hmem, hg, ?_, fun h hh hhx => ?_⟩
  · rw [hs3, hcontents]
    exact hlast
  · have hin := mem_sortedPcaps.mpr hh
    rw [hentries] at hin
    rcases List.mem_append.mp hin with hbefore | hin
    · exact (List.pairwise_append.mp hsorted).2.2 h hbefore g List.mem_cons_self
    · rcases List.mem_cons.mp hin with rfl | hin
      · exact le_refl _
      · exact absurd hhx (hafter h hin)

end Complete
end Run

/-- The script, on any tree and whatever `upload_file` does: it writes nothing but files of the
tree, each under the key of its path. A dry run writes nothing, and counts the entries whose paths
it can read, directories too. A run that ends met files only among these and has counted them, the
last in the order of the paths stays of those whose keys are the same, and so every file is kept
exactly when files of one key have the same bytes. -/
theorem run_keeps_last (t : TextRules) (u : RawUploader) (raises : SourceEntry → Bool)
    (tree : List SourceEntry) (s3 : Store Str Bytes) :
    (u.dryRun = true → run t u raises (some tree) s3 =
      (s3, some ((rglob tree).countP (fun f => decide (Mapped t f))))) ∧
    (u.dryRun = false → Uploads t u tree s3 (run t u raises (some tree) s3).1 ∧
      ∀ count, (run t u raises (some tree) s3).2 = some count →
        AllFiles t (rglob tree) ∧ count = (rglob tree).countP (fun f => decide (Mapped t f)) ∧
        (∀ f ∈ rglob tree, ∀ x, targetOf t f.parts = some x →
          ∃ g ∈ rglob tree, targetOf t g.parts = some x ∧
            (run t u raises (some tree) s3).1 (objectPath u x) = g.contents ∧
            ∀ h ∈ rglob tree, targetOf t h.parts = some x → h.parts ≤ g.parts) ∧
        ((∀ f ∈ rglob tree, ∀ x, targetOf t f.parts = some x →
            (run t u raises (some tree) s3).1 (objectPath u x) = f.contents) ↔
          ∀ f ∈ rglob tree, ∀ g ∈ rglob tree, Mapped t f →
            targetOf t f.parts = targetOf t g.parts → f.contents = g.contents)) := by
  constructor
  · intro hdry
    rw [run, uploadEntries_dry hdry, Nat.zero_add, sortedPcaps_count]
  · intro hwet
    refine ⟨run_uploads hwet, fun count hcount => ?_⟩
    obtain ⟨hfiles, -, hlength⟩ := run_complete hwet hcount
    refine ⟨hfiles, hlength, fun f hf x hx => run_last hwet hcount hf hx, ?_⟩
    constructor
    · intro hkept f hf g hg hsome hsame
      obtain ⟨x, hx⟩ := Option.isSome_iff_exists.mp hsome
      exact (hkept f hf x hx).symm.trans (hkept g hg x (hsame ▸ hx))
    · intro hsame f hf x hx
      obtain ⟨g, hg, hgx, hstored, -⟩ := run_last hwet hcount hf hx
      rw [hstored, hsame f hf g hg (by rw [Mapped, hx]; rfl) (hx.trans hgx.symm)]

def asciiRules : TextRules where
  upper := PythonText.upper
  isDecimal := fun c => decide (IsDigit c)
  upper_ascii := fun _ _ => rfl
  upper_no_slash := fun _ h hmem => h (mem_of_upper hmem (by decide))
  isDecimal_ascii := fun _ _ => decide_eq_true_iff

/-- Two vehicle folders that differ in the letter case only. -/
def mixedCase : List SourceEntry :=
  [{ parts := ["v1".toList, "gnss".toList, "20240101".toList, "full_000000.pcap".toList]
     contents := some [1], ordinary := by decide },
    { parts := ["V1".toList, "gnss".toList, "20240101".toList, "000000.pcap".toList]
      contents := some [2], ordinary := by decide }]

/-- The script counts two files, and one of them is lost. -/
theorem run_keeps_last_mixed_case : ∃ s3' : Store Str Bytes,
    run asciiRules (.new "assets".toList "/test/raw/".toList false) (fun _ => false)
      (some mixedCase) (fun _ => none) = (s3', some 2) ∧
    ¬ ∀ f ∈ rglob mixedCase, ∀ x, targetOf asciiRules f.parts = some x →
      s3' (objectPath (.new "assets".toList "/test/raw/".toList false) x) = f.contents := by
  have hcount : (run asciiRules (.new "assets".toList "/test/raw/".toList false) (fun _ => false)
      (some mixedCase) (fun _ => none)).2 = some 2 := by
    decide +kernel
  obtain ⟨-, hend⟩ := (run_keeps_last asciiRules (.new "assets".toList "/test/raw/".toList false)
    (fun _ => false) mixedCase (fun _ => none)).2 rfl
  refine ⟨_, Prod.ext rfl hcount, fun hkept => ?_⟩
  have hsame := (hend 2 hcount).2.2.2.mp hkept
  have hlost : ∃ f ∈ rglob mixedCase, ∃ g ∈ rglob mixedCase, Mapped asciiRules f ∧
      targetOf asciiRules f.parts = targetOf asciiRules g.parts ∧ f.contents ≠ g.contents := by
    decide +kernel
  obtain ⟨f, hf, g, hg, hsome, htarget, hne⟩ := hlost
  exact hne (hsame f hf g hg hsome htarget)

end SensorDataNormalization.RawUpload
