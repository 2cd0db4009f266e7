import Mathlib.Data.Nat.Notation
import SensorDataNormalization.SeparatedLists

set_option autoImplicit false

/-! Python text and POSIX paths, as far as the pipeline uses them. A `str` is the
list of its characters. -/
namespace SensorDataNormalization.PythonText
open SeparatedLists

abbrev Str := List Char

/-- `str.upper` on the characters whose capital is an ASCII letter. Every other
character is kept: its capital is not ASCII, so no registry key contains it. -/
def upperChar (c : Char) : Str :=
  if 'a' ≤ c ∧ c ≤ 'z' then [Char.ofNat (c.toNat - 32)]
  else if c = 'ı' then ['I']
  else if c = 'ſ' then ['S']
  else if c = 'ß' then ['S', 'S']
  else if c = 'ﬀ' then ['F', 'F']
  else if c = 'ﬁ' then ['F', 'I']
  else if c = 'ﬂ' then ['F', 'L']
  else if c = 'ﬃ' then ['F', 'F', 'I']
  else if c = 'ﬄ' then ['F', 'F', 'L']
  else if c = 'ﬅ' ∨ c = 'ﬆ' then ['S', 'T']
  else [c]

def upper (s : Str) : Str := s.flatMap upperChar

/-- `str.lower` of the registry's sensor types, which are ASCII. -/
def lowerAscii (s : Str) : Str :=
  s.map (fun c => if 'A' ≤ c ∧ c ≤ 'Z' then Char.ofNat (c.toNat + 32) else c)

def IsDigit (c : Char) : Prop := '0' ≤ c ∧ c ≤ '9'

instance (c : Char) : Decidable (IsDigit c) := inferInstanceAs (Decidable (_ ∧ _))

/-- Evaluates a property of every character of a text. -/
theorem forall_chars {p : Char → Prop} [DecidablePred p] {s : Str}
    (h : s.all (fun c => decide (p c)) = true) : ∀ c ∈ s, p c :=
  fun c hc => of_decide_eq_true (List.all_eq_true.mp h c hc)

theorem upper_append (s t : Str) : upper (s ++ t) = upper s ++ upper t :=
  List.flatMap_append

theorem upperChar_digit {c : Char} (h : IsDigit c) : upperChar c = [c] := by
  have h9 : c.toNat ≤ 57 := h.2
  have hne : ∀ e : Char, 57 < e.toNat → c ≠ e := by
    intro e he hc
    rw [hc] at h9
    omega
  have hlow : ¬ ('a' ≤ c ∧ c ≤ 'z') := by
    intro hc
    have ha : 97 ≤ c.toNat := hc.1
    omega
  unfold upperChar
  rw [if_neg hlow, if_neg (hne _ (by decide)), if_neg (hne _ (by decide)),
    if_neg (hne _ (by decide)), if_neg (hne _ (by decide)), if_neg (hne _ (by decide)),
    if_neg (hne _ (by decide)), if_neg (hne _ (by decide)), if_neg (hne _ (by decide)),
    if_neg (not_or.mpr ⟨hne _ (by decide), hne _ (by decide)⟩)]

theorem upper_digits {s : Str} (h : ∀ c ∈ s, IsDigit c) : upper s = s := by
  induction s with
  | nil => rfl
  | cons c s ih =>
    change upperChar c ++ upper s = c :: s
    rw [upperChar_digit (h c (by simp)), ih (fun d hd => h d (by simp [hd]))]
    rfl

theorem mem_upper {s : Str} {c : Char} (hc : c ∈ s) (hself : upperChar c = [c]) :
    c ∈ upper s :=
  List.mem_flatMap.mpr ⟨c, hc, by rw [hself]; exact List.mem_singleton_self c⟩

def Capital (c : Char) : Prop := 'A' ≤ c ∧ c ≤ 'Z'

instance (c : Char) : Decidable (Capital c) := inferInstanceAs (Decidable (_ ∧ _))

theorem capital_of_lower {c : Char} (h : 'a' ≤ c ∧ c ≤ 'z') :
    Capital (Char.ofNat (c.toNat - 32)) := by
  have ha : 97 ≤ c.toNat := h.1
  have hz : c.toNat ≤ 122 := h.2
  have hall : ∀ k, k < 26 → Capital (Char.ofNat (65 + k)) := by decide
  rw [show c.toNat - 32 = 65 + (c.toNat - 97) by omega]
  exact hall _ (by omega)

/-- The character itself, or capital letters. -/
def OwnOrCapital (c : Char) (w : Str) : Prop := w = [c] ∨ w ≠ [] ∧ ∀ d ∈ w, Capital d

theorem OwnOrCapital.ite {c : Char} {w w' : Str} {p : Prop} [Decidable p]
    (hw : w ≠ [] ∧ ∀ d ∈ w, Capital d) (hw' : OwnOrCapital c w') :
    OwnOrCapital c (if p then w else w') := by
  split
  · exact Or.inr hw
  · exact hw'

theorem upperChar_cases (c : Char) : OwnOrCapital c (upperChar c) := by
  unfold upperChar
  by_cases h : 'a' ≤ c ∧ c ≤ 'z'
  · rw [if_pos h]
    exact Or.inr ⟨List.cons_ne_nil _ _, List.forall_mem_singleton.mpr (capital_of_lower h)⟩
  · rw [if_neg h]
    iterate 9 refine OwnOrCapital.ite ⟨List.cons_ne_nil _ _, forall_chars (by decide)⟩ ?_
    exact Or.inl rfl

theorem mem_of_upper {s : Str} {c : Char} (hc : c ∈ upper s) (hnot : ¬ Capital c) : c ∈ s := by
  obtain ⟨d, hd, hcd⟩ := List.mem_flatMap.mp hc
  rcases upperChar_cases d with hself | ⟨-, hcapital⟩
  · rw [hself, List.mem_singleton] at hcd
    exact hcd ▸ hd
  · exact absurd (hcapital c hcd) hnot

/-- Only a text without small letters has capitals without capital letters. -/
theorem upper_eq_plain {s w : Str} (h : upper s = w) (hw : ∀ c ∈ w, ¬ Capital c) : s = w := by
  induction s generalizing w with
  | nil => exact h
  | cons c s ih =>
    have hcons : upperChar c ++ upper s = w := h
    rcases upperChar_cases c with hself | ⟨hne, hcapital⟩
    · rw [hself] at hcons
      rw [← hcons] at hw
      rw [ih rfl (fun d hd => hw d (List.mem_cons_of_mem _ hd))]
      exact hcons
    · obtain ⟨d, hd⟩ := List.exists_mem_of_ne_nil _ hne
      exact absurd (hcapital d hd) (hw d (hcons ▸ List.mem_append_left _ hd))

/-- `f"{a}/{b}/…"`. -/
def slashes (parts : List Str) : Str := ['/'].intercalate parts

/-- A path segment that names a folder: not empty, not `.` or `..`, no slash. -/
structure Ordinary (s : Str) : Prop where
  nonempty : s ≠ []
  no_slash : '/' ∉ s
  not_dot : s ≠ ['.']
  not_dots : s ≠ ['.', '.']

instance (s : Str) : Decidable (Ordinary s) :=
  decidable_of_iff (s ≠ [] ∧ '/' ∉ s ∧ s ≠ ['.'] ∧ s ≠ ['.', '.'])
    ⟨fun h => ⟨h.1, h.2.1, h.2.2.1, h.2.2.2⟩, fun h => ⟨h.1, h.2, h.3, h.4⟩⟩

theorem ordinary_of_length {s : Str} (hlength : 3 ≤ s.length) (hslash : '/' ∉ s) :
    Ordinary s where
  nonempty := by
    rintro rfl
    exact absurd hlength (by decide)
  no_slash := hslash
  not_dot := by
    rintro rfl
    exact absurd hlength (by decide)
  not_dots := by
    rintro rfl
    exact absurd hlength (by decide)

theorem upper_ordinary {s : Str} (h : Ordinary s) : Ordinary (upper s) where
  nonempty := fun he => h.nonempty (upper_eq_plain he (List.forall_mem_nil _))
  no_slash := fun hmem => h.no_slash (mem_of_upper hmem (by decide))
  not_dot := fun he => h.not_dot (upper_eq_plain he (forall_chars (by decide)))
  not_dots := fun he => h.not_dots (upper_eq_plain he (forall_chars (by decide)))

def pathOf (segments : List Str) : Str := joined '/' segments

/-- One component of `posixpath.normpath` on an absolute path; `kept` is reversed. -/
def normStep (kept : List Str) (component : Str) : List Str :=
  if component = [] ∨ component = ['.'] then kept
  else if component = ['.', '.'] then kept.tail
  else component :: kept

/-- `os.path.abspath` of an absolute path. Two leading slashes, but not three, are kept. -/
def abspath (path : Str) : Str :=
  let components := ((path.splitOn '/').foldl normStep []).reverse
  let root := if path.take 2 = ['/', '/'] ∧ path.take 3 ≠ ['/', '/', '/'] then ['/', '/'] else ['/']
  root ++ slashes components

def basename (path : Str) : Str := (fromEnd (path.splitOn '/') 0).getD []

theorem slashes_cons (s : Str) (segments : List Str) :
    slashes (s :: segments) = s ++ pathOf segments :=
  intercalate_cons_eq_joined '/' s segments

theorem slashes_root (root segments : List Str) :
    slashes (pathOf root :: segments) = pathOf (root ++ segments) := by
  rw [slashes_cons]
  exact (joined_append '/' root segments).symm

theorem slashes_concat (s name : Str) (segments : List Str) :
    slashes (s :: segments ++ [name]) = slashes (s :: segments) ++ '/' :: name := by
  rw [List.cons_append, slashes_cons, slashes_cons, pathOf, joined_append, List.append_assoc]
  simp [pathOf, joined]

theorem pathOf_append (xs ys : List Str) : pathOf (xs ++ ys) = pathOf xs ++ pathOf ys :=
  joined_append '/' xs ys

theorem foldl_normStep {segments : List Str} (h : ∀ s ∈ segments, Ordinary s)
    (kept : List Str) : segments.foldl normStep kept = segments.reverse ++ kept := by
  induction segments generalizing kept with
  | nil => rfl
  | cons s segments ih =>
    have hs := h s (by simp)
    have hstep : normStep kept s = s :: kept := by
      unfold normStep
      rw [if_neg (not_or.mpr ⟨hs.nonempty, hs.not_dot⟩), if_neg hs.not_dots]
    rw [List.foldl_cons, hstep, ih (fun x hx => h x (by simp [hx]))]
    simp

theorem abspath_pathOf {segments : List Str} (h : ∀ s ∈ segments, Ordinary s)
    (hne : segments ≠ []) : abspath (pathOf segments) = pathOf segments := by
  obtain ⟨s, rest, rfl⟩ := List.exists_cons_of_ne_nil hne
  have hs := h s (by simp)
  have hsplit : (pathOf (s :: rest)).splitOn '/' = [] :: s :: rest :=
    splitOn_joined (fun x hx => (h x hx).no_slash)
  have hfold : ([] :: s :: rest).foldl normStep [] = (s :: rest).reverse := by
    change (s :: rest).foldl normStep [] = _
    rw [foldl_normStep h, List.append_nil]
  have hroot : ¬ ((pathOf (s :: rest)).take 2 = ['/', '/'] ∧
      (pathOf (s :: rest)).take 3 ≠ ['/', '/', '/']) := by
    rintro ⟨htwo, -⟩
    cases s with
    | nil => exact hs.nonempty rfl
    | cons c s =>
      have hc : c = '/' := by simpa [pathOf, joined] using htwo
      exact hs.no_slash (by simp [hc])
  unfold abspath
  simp only [hsplit, hfold, List.reverse_reverse, if_neg hroot, slashes_cons]
  rfl

theorem basename_slash (path : Str) {name : Str} (hn : '/' ∉ name) :
    basename (path ++ '/' :: name) = name := by
  rw [basename, fromEnd_splitOn_zero hn]
  rfl

theorem basename_pathOf {segments : List Str} {name : Str} (hn : '/' ∉ name) :
    basename (pathOf (segments ++ [name])) = name := by
  have hp : pathOf (segments ++ [name]) = pathOf segments ++ '/' :: name := by
    rw [pathOf_append]
    simp [pathOf, joined]
  rw [hp, basename_slash _ hn]

theorem foldl_normStep_filter {segments : List Str} (h : ∀ s ∈ segments, s ≠ ['.', '.'])
    (kept : List Str) : segments.foldl normStep kept =
      (segments.filter (fun s => decide (s ≠ [] ∧ s ≠ ['.']))).reverse ++ kept := by
  induction segments generalizing kept with
  | nil => rfl
  | cons s segments ih =>
    obtain ⟨hs, hsegments⟩ := List.forall_mem_cons.mp h
    rw [List.foldl_cons, ih hsegments]
    by_cases hskip : s = [] ∨ s = ['.']
    · have hstep : normStep kept s = kept := if_pos hskip
      have hout : ¬ (s ≠ [] ∧ s ≠ ['.']) := fun h => not_or.mpr h hskip
      rw [hstep, List.filter_cons, if_neg (mt of_decide_eq_true hout)]
    · have hstep : normStep kept s = s :: kept := by
        rw [normStep, if_neg hskip, if_neg hs]
      rw [hstep, List.filter_cons, if_pos (decide_eq_true (not_or.mp hskip)), List.reverse_cons,
        List.append_assoc]
      rfl

theorem basename_root {root : Str} (hroot : root = ['/'] ∨ root = ['/', '/'])
    (segments : List Str) {name : Str} (hn : '/' ∉ name) :
    basename (root ++ slashes (segments ++ [name])) = name := by
  have hone : slashes [name] = name := by simp [slashes_cons, pathOf, joined]
  cases segments with
  | nil =>
    rcases hroot with rfl | rfl
    · exact (congrArg (fun n => basename ('/' :: n)) hone).trans (basename_slash [] hn)
    · exact (congrArg (fun n => basename ('/' :: '/' :: n)) hone).trans (basename_slash ['/'] hn)
  | cons s rest =>
    have hcut : root ++ slashes (s :: rest ++ [name]) =
        (root ++ s ++ pathOf rest) ++ '/' :: name := by
      rw [List.cons_append, slashes_cons, pathOf_append]
      simp [pathOf, joined]
    rw [hcut, basename_slash _ hn]

/-- The last segment of a normalised path is one of those from `name` on, when none of them
goes up. -/
theorem basename_abspath_mem (path : Str) {name : Str} {rest : List Str} (hn : Ordinary name)
    (hslash : ∀ s ∈ rest, '/' ∉ s) (hdots : ∀ s ∈ rest, s ≠ ['.', '.']) :
    basename (abspath (path ++ pathOf (name :: rest))) ∈ name :: rest := by
  have hfree : ∀ s ∈ name :: rest, '/' ∉ s := List.forall_mem_cons.mpr ⟨hn.no_slash, hslash⟩
  have hsplit : (path ++ pathOf (name :: rest)).splitOn '/' = path.splitOn '/' ++ name :: rest :=
    splitOn_append_joined hfree path
  have hfold := foldl_normStep_filter (List.forall_mem_cons.mpr ⟨hn.not_dots, hdots⟩)
    ((path.splitOn '/').foldl normStep [])
  have hkept : name ∈ (name :: rest).filter (fun s => decide (s ≠ [] ∧ s ≠ ['.'])) :=
    List.mem_filter.mpr ⟨List.mem_cons_self, decide_eq_true ⟨hn.nonempty, hn.not_dot⟩⟩
  rcases List.eq_nil_or_concat ((name :: rest).filter (fun s => decide (s ≠ [] ∧ s ≠ ['.'])))
    with hnil | ⟨before, last, hlast⟩
  · rw [hnil] at hkept
    cases hkept
  · rw [List.concat_eq_append] at hlast
    have hmem : last ∈ name :: rest := by
      have hin : last ∈ before ++ [last] := by simp
      rw [← hlast] at hin
      exact List.mem_of_mem_filter hin
    have hbase : basename (abspath (path ++ pathOf (name :: rest))) = last := by
      unfold abspath
      simp only [hsplit, List.foldl_append, hfold, hlast, List.reverse_append, List.reverse_reverse,
        ← List.append_assoc]
      refine basename_root ?_ _ (hfree last hmem)
      split_ifs
      · exact Or.inr rfl
      · exact Or.inl rfl
    rw [hbase]
    exact hmem

theorem basename_abspath (path : Str) {name : Str} (hn : Ordinary name) :
    basename (abspath (path ++ '/' :: name)) = name := by
  have hmem := @basename_abspath_mem path name [] hn (by simp) (by simp)
  have hone : pathOf [name] = '/' :: name := by simp [pathOf, joined]
  rw [hone] at hmem
  exact List.mem_singleton.mp hmem

/-- `template.format(arg)` for a template with automatic fields only. A second
field, a named or numbered field, or a lone brace raises. -/
def formatFields (arg : Str) : Bool → Str → Option Str
  | _, [] => some []
  | used, '{' :: '{' :: rest => (formatFields arg used rest).map ('{' :: ·)
  | used, '}' :: '}' :: rest => (formatFields arg used rest).map ('}' :: ·)
  | false, '{' :: '}' :: rest => (formatFields arg true rest).map (arg ++ ·)
  | used, c :: rest =>
    if c = '{' ∨ c = '}' then none else (formatFields arg used rest).map (c :: ·)

def format (template arg : Str) : Option Str := formatFields arg false template

theorem formatFields_char {c : Char} (hc : c ≠ '{' ∧ c ≠ '}') (arg : Str) (used : Bool)
    (rest : Str) :
    formatFields arg used (c :: rest) = (formatFields arg used rest).map (c :: ·) := by
  rw [formatFields.eq_5 _ _ _ _ (by simp [hc.1]) (by simp [hc.2]) (by simp [hc.1]),
    if_neg (not_or.mpr hc)]

theorem formatFields_plain {s : Str} (hs : ∀ c ∈ s, c ≠ '{' ∧ c ≠ '}') (arg rest : Str)
    (used : Bool) :
    formatFields arg used (s ++ rest) = (formatFields arg used rest).map (s ++ ·) := by
  induction s with
  | nil => simp
  | cons c s ih =>
    have hc := hs c (by simp)
    have hrest := ih (fun x hx => hs x (by simp [hx]))
    rw [List.cons_append, formatFields_char hc, hrest]
    cases formatFields arg used rest <;> rfl

theorem format_field {before after : Str} (hb : ∀ c ∈ before, c ≠ '{' ∧ c ≠ '}')
    (ha : ∀ c ∈ after, c ≠ '{' ∧ c ≠ '}') (arg : Str) :
    format (before ++ '{' :: '}' :: after) arg = some (before ++ arg ++ after) := by
  have hafter : formatFields arg true after = some after := by
    have h := formatFields_plain ha arg [] true
    simpa [formatFields] using h
  rw [format, formatFields_plain hb]
  change ((formatFields arg true after).map (arg ++ ·)).map (before ++ ·) = _
  rw [hafter]
  simp

theorem formatFields_lone {c d : Char} {used : Bool} (hc : c = '{' ∨ c = '}') (hd : d ≠ c)
    (hfield : ¬ (used = false ∧ c = '{' ∧ d = '}')) (arg rest : Str) :
    formatFields arg used (c :: d :: rest) = none := by
  rw [formatFields.eq_5, if_pos hc]
  · rintro rest' rfl he
    exact hd (List.cons.inj he).1
  · rintro rest' rfl he
    exact hd (List.cons.inj he).1
  · rintro rest' hu hc he
    exact hfield ⟨hu, hc, (List.cons.inj he).1⟩

/-- What the part of a template before a slash does: it raises, it is kept, or it uses the field. -/
inductive Scan (used : Bool) (s : Str) : Prop
  | raises (h : ∀ arg rest, formatFields arg used (s ++ '/' :: rest) = none)
  | literal (text : Str) (h : ∀ arg rest, formatFields arg used (s ++ '/' :: rest) =
      (formatFields arg used ('/' :: rest)).map (text ++ ·))
  | field (hused : used = false) (h : ∀ arg, ∃ text, ∀ rest,
      formatFields arg used (s ++ '/' :: rest) =
        (formatFields arg true ('/' :: rest)).map (text ++ ·))

theorem Scan.keep {used : Bool} {s s' : Str} (h : Scan used s') (head : Str)
    (hhead : ∀ arg rest, formatFields arg used (s ++ '/' :: rest) =
      (formatFields arg used (s' ++ '/' :: rest)).map (head ++ ·)) : Scan used s := by
  cases h with
  | raises h => exact .raises (fun arg rest => by rw [hhead, h]; rfl)
  | literal text h =>
    refine .literal (head ++ text) (fun arg rest => ?_)
    rw [hhead, h]
    cases formatFields arg used ('/' :: rest) <;> simp
  | field hused h =>
    refine .field hused (fun arg => ?_)
    obtain ⟨text, h⟩ := h arg
    refine ⟨head ++ text, fun rest => ?_⟩
    rw [hhead, h]
    cases formatFields arg true ('/' :: rest) <;> simp

theorem Scan.use {s s' : Str} (h : Scan true s')
    (hhead : ∀ arg rest, formatFields arg false (s ++ '/' :: rest) =
      (formatFields arg true (s' ++ '/' :: rest)).map (arg ++ ·)) : Scan false s := by
  cases h with
  | raises h => exact .raises (fun arg rest => by rw [hhead, h]; rfl)
  | literal text h =>
    refine .field rfl (fun arg => ⟨arg ++ text, fun rest => ?_⟩)
    rw [hhead, h]
    cases formatFields arg true ('/' :: rest) <;> simp
  | field hused => cases hused

theorem scan (used : Bool) (s : Str) : Scan used s := by
  induction hn : s.length using Nat.strong_induction_on generalizing used s with
  | _ n ih =>
    subst hn
    match s with
    | [] => exact .literal [] (fun arg rest => by simp)
    | [c] =>
      by_cases hc : c = '{' ∨ c = '}'
      · refine .raises (fun arg rest => formatFields_lone hc ?_ ?_ arg rest)
        · rcases hc with rfl | rfl <;> decide
        · rintro ⟨-, -, h⟩
          exact absurd h (by decide)
      · refine .literal [c] (fun arg rest => ?_)
        exact formatFields_char (not_or.mp hc) arg used _
    | c :: d :: s =>
      have hlen : s.length < (c :: d :: s).length := by
        simp only [List.length_cons]
        omega
      by_cases hc : c = '{' ∨ c = '}'
      · by_cases hdc : d = c
        · subst hdc
          refine (ih _ hlen used s rfl).keep [d] (fun arg rest => ?_)
          rcases hc with rfl | rfl
          · exact formatFields.eq_2 _ _ _
          · exact formatFields.eq_3 _ _ _
        · by_cases hfield : used = false ∧ c = '{' ∧ d = '}'
          · obtain ⟨rfl, rfl, rfl⟩ := hfield
            exact (ih _ hlen true s rfl).use (fun arg rest => formatFields.eq_4 _ _)
          · exact .raises (fun arg rest => formatFields_lone hc hdc hfield arg _)
      · refine (ih _ (Nat.lt_succ_self _) used (d :: s) rfl).keep [c] (fun arg rest => ?_)
        exact formatFields_char (not_or.mp hc) arg used _

/-- A template whose last segment has a field raises, or keeps what comes before that segment. -/
theorem format_last_field {before after : Str} (hb : ∀ c ∈ before, c ≠ '{' ∧ c ≠ '}')
    (ha : ∀ c ∈ after, c ≠ '{' ∧ c ≠ '}') (folder : Str) :
    (∀ arg, format (folder ++ '/' :: (before ++ '{' :: '}' :: after)) arg = none) ∨
      ∃ text, ∀ arg, format (folder ++ '/' :: (before ++ '{' :: '}' :: after)) arg =
        some (text ++ '/' :: (before ++ arg ++ after)) := by
  have hslash : ∀ c ∈ '/' :: before, c ≠ '{' ∧ c ≠ '}' :=
    List.forall_mem_cons.mpr ⟨by decide, hb⟩
  cases scan false folder with
  | raises h => exact Or.inl (fun arg => h arg _)
  | literal text h =>
    refine Or.inr ⟨text, fun arg => ?_⟩
    have hfield : formatFields arg false ('/' :: before ++ '{' :: '}' :: after) =
        some ('/' :: before ++ arg ++ after) := format_field hslash ha arg
    rw [format, h]
    exact congrArg (Option.map (text ++ ·)) hfield
  | field _ h =>
    refine Or.inl (fun arg => ?_)
    obtain ⟨text, h⟩ := h arg
    have hsecond : formatFields arg true ('{' :: '}' :: after) = none :=
      formatFields_lone (Or.inl rfl) (by decide) (by simp) arg after
    have hrest := formatFields_plain hslash arg ('{' :: '}' :: after) true
    rw [hsecond] at hrest
    rw [format, h]
    exact congrArg (Option.map (text ++ ·)) hrest

end SensorDataNormalization.PythonText
