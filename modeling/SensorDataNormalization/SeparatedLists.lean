import Mathlib.Data.List.Infix

set_option autoImplicit false

/-! Lists written with a separator: cutting at the last separator, segments that
survive a join, and deletion of every occurrence of a pattern. At the end, tables with keys. -/
namespace SensorDataNormalization.SeparatedLists

variable {α : Type}

def fromEnd (xs : List α) (k : ℕ) : Option α := xs.reverse[k]?

/-- Every segment preceded by the separator. -/
def joined (sep : α) (segments : List (List α)) : List α :=
  segments.flatMap (fun segment => sep :: segment)

theorem joined_append (sep : α) (xs ys : List (List α)) :
    joined sep (xs ++ ys) = joined sep xs ++ joined sep ys :=
  List.flatMap_append

theorem joined_cons (sep : α) (x : List α) (xs : List (List α)) :
    joined sep (x :: xs) = sep :: x ++ joined sep xs := rfl

theorem intercalate_cons_eq_joined (sep : α) (x : List α) (xs : List (List α)) :
    [sep].intercalate (x :: xs) = x ++ joined sep xs := by
  induction xs generalizing x with
  | nil => simp [joined, List.intercalate]
  | cons y ys ih =>
    rw [List.intercalate_cons_cons, ih, joined_cons]
    simp

theorem append_sep_left_eq {sep : α} {a b x y : List α} (hx : sep ∉ x) (hy : sep ∉ y)
    (h : x ++ sep :: a = y ++ sep :: b) : x = y ∧ a = b := by
  induction x generalizing y with
  | nil =>
    cases y with
    | nil => exact ⟨rfl, by simpa using h⟩
    | cons c y =>
      have hc : sep = c := (List.cons.inj h).1
      simp [hc] at hy
  | cons c x ih =>
    cases y with
    | nil =>
      have hc : c = sep := (List.cons.inj h).1
      simp [hc] at hx
    | cons e y =>
      obtain ⟨hce, hrest⟩ := List.cons.inj h
      obtain ⟨hxy, hab⟩ := ih (fun m => hx (List.mem_cons_of_mem _ m))
        (fun m => hy (List.mem_cons_of_mem _ m)) hrest
      exact ⟨by rw [hce, hxy], hab⟩

/-- What follows the last separator is determined. -/
theorem append_sep_right_eq {sep : α} {a b x y : List α} (hx : sep ∉ x) (hy : sep ∉ y)
    (h : a ++ sep :: x = b ++ sep :: y) : a = b ∧ x = y := by
  have hr := congrArg List.reverse h
  simp only [List.reverse_append, List.reverse_cons, List.append_assoc,
    List.singleton_append] at hr
  obtain ⟨hxy, hab⟩ := append_sep_left_eq (by simpa using hx) (by simpa using hy) hr
  exact ⟨List.reverse_injective hab, List.reverse_injective hxy⟩

/-- A separator that occurs once cuts in one place. -/
theorem append_sep_only_eq {sep : α} {a b x y : List α} (hx : sep ∉ x) (hy : sep ∉ y)
    (h : a ++ sep :: b = x ++ sep :: y) : a = x ∧ b = y := by
  rcases List.append_eq_append_iff.mp h with ⟨c, rfl, hb⟩ | ⟨c, rfl, hy'⟩
  · cases c with
    | nil => exact ⟨(List.append_nil a).symm, (List.cons.inj hb).2⟩
    | cons e c =>
      have he : sep = e := (List.cons.inj hb).1
      exact absurd (by simp [he]) hx
  · cases c with
    | nil => exact ⟨List.append_nil x, (List.cons.inj hy').2.symm⟩
    | cons e c =>
      have hb : y = c ++ sep :: b := (List.cons.inj hy').2
      exact absurd (by simp [hb]) hy

theorem exists_joined [DecidableEq α] (sep : α) (xs : List α) :
    ∃ first rest, xs = first ++ joined sep rest ∧ ∀ s ∈ first :: rest, sep ∉ s := by
  induction xs with
  | nil => exact ⟨[], [], rfl, by simp⟩
  | cons x xs ih =>
    obtain ⟨first, rest, rfl, hfree⟩ := ih
    by_cases hx : x = sep
    · subst hx
      exact ⟨[], first :: rest, rfl, List.forall_mem_cons.mpr ⟨List.not_mem_nil, hfree⟩⟩
    · obtain ⟨hfirst, hrest⟩ := List.forall_mem_cons.mp hfree
      have hcons : sep ∉ x :: first :=
        fun hmem => (List.mem_cons.mp hmem).elim (fun h => hx h.symm) hfirst
      exact ⟨x :: first, rest, rfl, List.forall_mem_cons.mpr ⟨hcons, hrest⟩⟩

/-- A list is cut at the last element with a property. -/
theorem exists_last {p : α → Prop} {xs : List α} (h : ∃ x ∈ xs, p x) :
    ∃ before x after, xs = before ++ x :: after ∧ p x ∧ ∀ y ∈ after, ¬ p y := by
  induction xs with
  | nil =>
    obtain ⟨x, hx, -⟩ := h
    cases hx
  | cons a xs ih =>
    by_cases hxs : ∃ x ∈ xs, p x
    · obtain ⟨before, x, after, rfl, hx, hafter⟩ := ih hxs
      exact ⟨a :: before, x, after, rfl, hx, hafter⟩
    · obtain ⟨x, hx, hp⟩ := h
      rcases List.mem_cons.mp hx with rfl | hx
      · exact ⟨[], x, xs, rfl, hp, fun y hy hpy => hxs ⟨y, hy, hpy⟩⟩
      · exact absurd ⟨x, hx, hp⟩ hxs

theorem exists_of_perm_map {β : Type} {f : α → β} {xs : List β} {ys : List α}
    (h : xs.Perm (ys.map f)) : ∃ zs : List α, zs.Perm ys ∧ zs.map f = xs := by
  induction xs generalizing ys with
  | nil =>
    obtain rfl := List.map_eq_nil_iff.mp h.symm.eq_nil
    exact ⟨[], List.Perm.refl _, rfl⟩
  | cons x xs ih =>
    obtain ⟨y, hy, rfl⟩ := List.mem_map.mp (h.subset List.mem_cons_self)
    obtain ⟨before, after, rfl⟩ := List.append_of_mem hy
    have hrest : xs.Perm ((before ++ after).map f) := by
      have hmiddle : ((before ++ y :: after).map f).Perm (f y :: (before ++ after).map f) := by
        rw [List.map_append, List.map_cons, List.map_append]
        exact List.perm_middle
      exact (h.trans hmiddle).cons_inv
    obtain ⟨zs, hzs, rfl⟩ := ih hrest
    exact ⟨y :: zs, (hzs.cons y).trans List.perm_middle.symm, rfl⟩

theorem infix_joined {sep : α} {x : List α} {segments : List (List α)} (h : x ∈ segments) :
    x <:+: joined sep segments := by
  obtain ⟨before, after, rfl⟩ := List.append_of_mem h
  refine ⟨joined sep before ++ [sep], joined sep after, ?_⟩
  rw [joined_append, joined_cons]
  simp

theorem joined_injective {sep : α} {xs ys : List (List α)} (hx : ∀ s ∈ xs, sep ∉ s)
    (hy : ∀ s ∈ ys, sep ∉ s) (h : joined sep xs = joined sep ys) : xs = ys := by
  induction xs using List.reverseRecOn generalizing ys with
  | nil =>
    cases ys with
    | nil => rfl
    | cons y ys => cases h
  | append_singleton xs x ih =>
    rcases List.eq_nil_or_concat ys with rfl | ⟨zs, y, rfl⟩
    · simp [joined] at h
    · simp only [List.concat_eq_append, joined_append] at h hy ⊢
      obtain ⟨hl, hr⟩ := append_sep_right_eq (hx x (by simp)) (hy y (by simp))
        (by simpa [joined] using h)
      rw [ih (fun s m => hx s (by simp [m])) (fun s m => hy s (by simp [m])) hl, hr]

section Search
variable [DecidableEq α]

theorem splitOn_append_joined {sep : α} {segments : List (List α)}
    (h : ∀ s ∈ segments, sep ∉ s) (xs : List α) :
    (xs ++ joined sep segments).splitOn sep = xs.splitOn sep ++ segments := by
  induction segments using List.reverseRecOn with
  | nil => simp [joined]
  | append_singleton segments s ih =>
    have hcut : xs ++ joined sep (segments ++ [s]) = (xs ++ joined sep segments) ++ sep :: s := by
      rw [joined_append, List.append_assoc]
      simp [joined]
    rw [hcut, List.splitOn_append_cons_self, ih (fun t ht => h t (by simp [ht])),
      List.splitOn_eq_singleton (h s (by simp)), List.append_assoc]

theorem splitOn_joined {sep : α} {xs : List (List α)} (hx : ∀ s ∈ xs, sep ∉ s) :
    (joined sep xs).splitOn sep = [] :: xs := by
  have h := splitOn_append_joined hx []
  rwa [List.splitOn_nil] at h

theorem fromEnd_splitOn_zero {sep : α} {a x : List α} (hx : sep ∉ x) :
    fromEnd ((a ++ sep :: x).splitOn sep) 0 = some x := by
  rw [List.splitOn_append_cons_self, List.splitOn_eq_singleton hx]
  simp [fromEnd]

theorem fromEnd_splitOn_one {sep : α} {a x y : List α} (hx : sep ∉ x) (hy : sep ∉ y) :
    fromEnd ((a ++ sep :: (x ++ sep :: y)).splitOn sep) 1 = some x := by
  rw [List.splitOn_append_cons_self, List.splitOn_append_cons_self_of_not_mem hx,
    List.splitOn_eq_singleton hy]
  simp [fromEnd]

theorem fromEnd_splitOn_one_of_two {sep : α} {x y : List α} (hx : sep ∉ x) (hy : sep ∉ y) :
    fromEnd ((x ++ sep :: y).splitOn sep) 1 = some x := by
  rw [List.splitOn_append_cons_self_of_not_mem hx, List.splitOn_eq_singleton hy]
  simp [fromEnd]

/-- Delete left to right every occurrence of `pattern`; `skip` counts the elements
of an occurrence that still have to be dropped. -/
def eraseFrom (pattern : List α) : ℕ → List α → List α
  | _, [] => []
  | skip + 1, _ :: xs => eraseFrom pattern skip xs
  | 0, x :: xs =>
    if pattern.isPrefixOf (x :: xs) then eraseFrom pattern (pattern.length - 1) xs
    else x :: eraseFrom pattern 0 xs

def eraseAll (pattern xs : List α) : List α := eraseFrom pattern 0 xs

theorem eraseFrom_skip (pattern : List α) (k : ℕ) (xs : List α) :
    eraseFrom pattern k xs = eraseFrom pattern 0 (xs.drop k) := by
  induction xs generalizing k with
  | nil => cases k <;> rfl
  | cons x xs ih =>
    cases k with
    | zero => rfl
    | succ k => exact ih k

/-- A pattern whose head does not recur in it can only occur across the joint of
`xs ++ pattern` by starting at the joint. -/
theorem prefix_of_append_pattern {sep : α} {rest : List α} (hs : sep ∉ rest) {x : α}
    {xs : List α} (h : (sep :: rest) <+: (x :: xs) ++ (sep :: rest)) :
    (sep :: rest) <+: (x :: xs) := by
  by_contra hno
  have hlen : (x :: xs).length < (sep :: rest).length := by
    by_contra hle
    exact hno (List.prefix_of_prefix_length_le h (List.prefix_append _ _) (by omega))
  have hp : (x :: xs) <+: (sep :: rest) :=
    List.prefix_of_prefix_length_le (List.prefix_append _ _) h (by omega)
  obtain ⟨tail, ht⟩ := hp
  obtain ⟨after, ha⟩ := h
  rw [← ht, List.append_assoc] at ha
  have hcut := List.append_cancel_left ha
  cases tail with
  | nil => rw [← ht] at hlen; simp at hlen
  | cons c tail =>
    have hc : c = x := (List.cons.inj hcut).1
    have hx : x = sep := (List.cons.inj ht).1
    have hmem : sep ∈ rest := by
      rw [← (List.cons.inj ht).2, hc, hx]
      simp
    exact hs hmem

theorem eraseAll_cons_unmatched {pattern : List α} {x : α} {xs : List α}
    (h : ¬ pattern <+: x :: xs) : eraseAll pattern (x :: xs) = x :: eraseAll pattern xs := by
  change (if pattern.isPrefixOf (x :: xs) then _ else x :: eraseFrom pattern 0 xs) = _
  rw [if_neg (fun hp => h (List.isPrefixOf_iff_prefix.mp hp))]
  rfl

theorem eraseAll_pattern_append (x : α) (pattern xs : List α) :
    eraseAll (x :: pattern) ((x :: pattern) ++ xs) = eraseAll (x :: pattern) xs := by
  have hp : (x :: pattern).isPrefixOf (x :: (pattern ++ xs)) = true :=
    List.isPrefixOf_iff_prefix.mpr (List.prefix_append (x :: pattern) xs)
  change (if (x :: pattern).isPrefixOf (x :: (pattern ++ xs)) then
    eraseFrom (x :: pattern) ((x :: pattern).length - 1) (pattern ++ xs) else _) = _
  rw [if_pos hp, eraseFrom_skip, List.length_cons, Nat.add_sub_cancel, List.drop_left]
  rfl

theorem eraseAll_length_le (pattern xs : List α) :
    (eraseAll pattern xs).length ≤ xs.length := by
  have hfrom : ∀ k, (eraseFrom pattern k xs).length ≤ xs.length := by
    induction xs with
    | nil =>
      intro k
      cases k <;> exact Nat.zero_le _
    | cons x xs ih =>
      intro k
      cases k with
      | succ k => exact (ih k).trans (Nat.le_succ _)
      | zero =>
        change (if pattern.isPrefixOf (x :: xs) then eraseFrom pattern (pattern.length - 1) xs
          else x :: eraseFrom pattern 0 xs).length ≤ _
        split
        · exact (ih _).trans (Nat.le_succ _)
        · exact Nat.succ_le_succ (ih 0)
  exact hfrom 0

theorem eraseAll_of_not_infix {pattern xs : List α} (h : ¬ pattern <:+: xs) :
    eraseAll pattern xs = xs := by
  induction xs with
  | nil => rfl
  | cons x xs ih =>
    rw [eraseAll_cons_unmatched (fun hp => h hp.isInfix),
      ih (fun m => h (m.trans (List.suffix_cons x xs).isInfix))]

/-- Nothing before the first head of the pattern is deleted. -/
theorem eraseAll_append_of_not_mem {sep : α} {rest xs : List α} (hx : sep ∉ xs) (ys : List α) :
    eraseAll (sep :: rest) (xs ++ ys) = xs ++ eraseAll (sep :: rest) ys := by
  induction xs with
  | nil => rfl
  | cons x xs ih =>
    have hhead : ¬ (sep :: rest) <+: x :: (xs ++ ys) :=
      fun h => hx (by rw [(List.cons_prefix_cons.mp h).1]; exact List.mem_cons_self)
    rw [List.cons_append, eraseAll_cons_unmatched hhead,
      ih (fun hmem => hx (List.mem_cons_of_mem x hmem)), List.cons_append]

/-- The parts of a list are cleaned one by one when no occurrence of the pattern crosses the
joint. -/
theorem eraseAll_append {sep : α} {rest ys : List α}
    (hjoint : ∀ x xs, (sep :: rest) <+: x :: xs ++ ys → (sep :: rest) <+: x :: xs) (xs : List α) :
    eraseAll (sep :: rest) (xs ++ ys) =
      eraseAll (sep :: rest) xs ++ eraseAll (sep :: rest) ys := by
  induction hn : xs.length using Nat.strong_induction_on generalizing xs with
  | _ n ih =>
    cases xs with
    | nil => rfl
    | cons x xs =>
      by_cases hp : (sep :: rest) <+: x :: xs
      · obtain ⟨tail, htail⟩ := hp
        have hlen : (sep :: rest).length + tail.length = n := by
          rw [← hn, ← htail, List.length_append]
        rw [List.length_cons] at hlen
        rw [← htail, List.append_assoc, eraseAll_pattern_append, eraseAll_pattern_append]
        exact ih tail.length (by omega) tail rfl
      · have hunmatched : ¬ (sep :: rest) <+: x :: (xs ++ ys) := fun h => hp (hjoint x xs h)
        rw [List.cons_append, eraseAll_cons_unmatched hunmatched, eraseAll_cons_unmatched hp]
        rw [List.length_cons] at hn
        exact congrArg (x :: ·) (ih xs.length (by omega) xs rfl)

theorem eraseAll_append_of_disjoint {sep : α} {rest ys : List α} (hy : ∀ y ∈ ys, y ∉ sep :: rest)
    (xs : List α) : eraseAll (sep :: rest) (xs ++ ys) = eraseAll (sep :: rest) xs ++ ys := by
  have hkept : eraseAll (sep :: rest) ys = ys :=
    eraseAll_of_not_infix (fun h => hy sep (h.subset List.mem_cons_self) List.mem_cons_self)
  rw [eraseAll_append _ xs, hkept]
  intro x xs h
  rcases List.prefix_or_prefix_of_prefix h (List.prefix_append (x :: xs) ys) with
    hin | ⟨tail, htail⟩
  · exact hin
  · cases tail with
    | nil =>
      rw [List.append_nil] at htail
      rw [htail]
    | cons c tail =>
      rw [← htail, List.prefix_append_right_inj] at h
      have hmem : c ∈ sep :: rest := by
        rw [← htail]
        simp
      exact absurd hmem (hy c (h.subset List.mem_cons_self))

/-- An occurrence of a pattern whose head does not recur in it is deleted on its own: no other
occurrence overlaps it. -/
theorem eraseAll_append_pattern_append {sep : α} {rest : List α} (hs : sep ∉ rest)
    (xs ys : List α) : eraseAll (sep :: rest) (xs ++ (sep :: rest) ++ ys) =
      eraseAll (sep :: rest) xs ++ eraseAll (sep :: rest) ys := by
  rw [List.append_assoc, eraseAll_append _ xs, eraseAll_pattern_append]
  intro x xs h
  rw [← List.append_assoc] at h
  have hjoined : (sep :: rest) <+: (x :: xs) ++ (sep :: rest) :=
    List.prefix_of_prefix_length_le h (List.prefix_append ((x :: xs) ++ (sep :: rest)) ys)
      (by rw [List.length_append]; omega)
  exact prefix_of_append_pattern hs hjoined

theorem eraseAll_append_pattern {sep : α} {rest : List α} (hs : sep ∉ rest) {xs : List α}
    (hx : ¬ (sep :: rest) <:+: xs) : eraseAll (sep :: rest) (xs ++ (sep :: rest)) = xs := by
  have h := eraseAll_append_pattern_append hs xs []
  rw [List.append_nil, eraseAll_of_not_infix hx] at h
  exact h.trans (List.append_nil xs)

/-- The last occurrence alone is deleted exactly when there is no other. -/
theorem eraseAll_append_pattern_iff {sep : α} {rest : List α} (hs : sep ∉ rest) {xs : List α} :
    eraseAll (sep :: rest) (xs ++ (sep :: rest)) = xs ↔ ¬ (sep :: rest) <:+: xs := by
  refine ⟨?_, eraseAll_append_pattern hs⟩
  rintro heq ⟨before, after, rfl⟩
  have hlast := eraseAll_append_pattern_append hs (before ++ (sep :: rest) ++ after) []
  rw [List.append_nil, heq, eraseAll_append_pattern_append hs before after] at hlast
  have hlength := congrArg List.length hlast
  have hbefore := eraseAll_length_le (sep :: rest) before
  have hafter := eraseAll_length_le (sep :: rest) after
  have hnil : (eraseAll (sep :: rest) []).length = 0 := rfl
  simp only [List.length_append, List.length_cons, hnil] at hlength hbefore hafter
  omega

end Search
section Tables
variable {κ β : Type} [BEq κ] [LawfulBEq κ] {table : List (κ × β)} {key : κ}

theorem lookup_isSome : (table.lookup key).isSome ↔ key ∈ table.map Prod.fst := by
  rw [List.lookup_isSome_iff, List.mem_map]
  constructor
  · rintro ⟨row, hrow, hkey⟩
    exact ⟨row, hrow, (beq_iff_eq.mp hkey).symm⟩
  · rintro ⟨row, hrow, rfl⟩
    exact ⟨row, hrow, beq_iff_eq.mpr rfl⟩

theorem mem_of_lookup {value : β} (h : table.lookup key = some value) : (key, value) ∈ table := by
  obtain ⟨before, after, rfl, -⟩ := List.lookup_eq_some_iff.mp h
  exact List.mem_append_right _ List.mem_cons_self

end Tables

end SensorDataNormalization.SeparatedLists
