import Mathlib.Data.List.Sort

set_option autoImplicit false

/-! Grouping a list by a key in an insertion-ordered table, and the stable sort that
reading the groups in ascending key order amounts to. -/
namespace SensorDataNormalization.KeyedGrouping

variable {α κ : Type}

section Table
variable [DecidableEq κ]

/-- `table.setdefault(key, []).append(a)`. -/
def setdefaultAppend (key : κ) (a : α) : List (κ × List α) → List (κ × List α)
  | [] => [(key, [a])]
  | (k, xs) :: rest =>
    if k = key then (k, xs ++ [a]) :: rest else (k, xs) :: setdefaultAppend key a rest

def groupsFrom (key : α → κ) (table : List (κ × List α)) (xs : List α) : List (κ × List α) :=
  xs.foldl (fun t a => setdefaultAppend (key a) a t) table

def groupsOf (key : α → κ) (xs : List α) : List (κ × List α) := groupsFrom key [] xs

def groupAt (table : List (κ × List α)) (k : κ) : List α := (table.lookup k).getD []

def keys (table : List (κ × List α)) : List κ := table.map Prod.fst

theorem groupAt_cons (k k' : κ) (xs : List α) (rest : List (κ × List α)) :
    groupAt ((k', xs) :: rest) k = if k = k' then xs else groupAt rest k := by
  unfold groupAt
  rw [List.lookup_cons]
  by_cases h : k = k'
  · simp [h]
  · have hb : (k == k') = false := by simpa using h
    rw [hb, if_neg h]

theorem groupAt_setdefaultAppend (key k : κ) (a : α) (table : List (κ × List α)) :
    groupAt (setdefaultAppend key a table) k =
      if k = key then groupAt table k ++ [a] else groupAt table k := by
  induction table with
  | nil =>
    change groupAt [(key, [a])] k = _
    rw [groupAt_cons]
    split_ifs <;> rfl
  | cons row rest ih =>
    obtain ⟨k', xs⟩ := row
    unfold setdefaultAppend
    by_cases hk : k' = key
    · rw [if_pos hk, groupAt_cons, groupAt_cons, hk]
      split_ifs <;> rfl
    · rw [if_neg hk, groupAt_cons, groupAt_cons, ih]
      by_cases hkk : k = k'
      · have hne : ¬ k = key := fun h => hk (hkk.symm.trans h)
        rw [if_pos hkk, if_pos hkk, if_neg hne]
      · rw [if_neg hkk, if_neg hkk]

theorem keys_setdefaultAppend (key : κ) (a : α) (table : List (κ × List α)) :
    keys (setdefaultAppend key a table) =
      if key ∈ keys table then keys table else keys table ++ [key] := by
  induction table with
  | nil => rfl
  | cons row rest ih =>
    obtain ⟨k', xs⟩ := row
    unfold setdefaultAppend
    by_cases hk : k' = key
    · rw [if_pos hk]
      simp [keys, hk]
    · rw [if_neg hk]
      change k' :: keys (setdefaultAppend key a rest) = _
      have hmem : key ∈ keys ((k', xs) :: rest) ↔ key ∈ keys rest := by
        simp [keys, Ne.symm hk]
      rw [ih]
      by_cases hr : key ∈ keys rest
      · rw [if_pos hr, if_pos (hmem.mpr hr)]
        rfl
      · rw [if_neg hr, if_neg (fun h => hr (hmem.mp h))]
        rfl

theorem groupAt_groupsFrom (key : α → κ) (table : List (κ × List α)) (xs : List α) (k : κ) :
    groupAt (groupsFrom key table xs) k =
      groupAt table k ++ xs.filter (fun a => decide (key a = k)) := by
  induction xs generalizing table with
  | nil => simp [groupsFrom]
  | cons a xs ih =>
    change groupAt (groupsFrom key (setdefaultAppend (key a) a table) xs) k = _
    rw [ih, groupAt_setdefaultAppend]
    by_cases h : key a = k
    · rw [if_pos h.symm]
      simp [h]
    · rw [if_neg (Ne.symm h)]
      simp [h]

theorem groupAt_groupsOf (key : α → κ) (xs : List α) (k : κ) :
    groupAt (groupsOf key xs) k = xs.filter (fun a => decide (key a = k)) := by
  rw [groupsOf, groupAt_groupsFrom]
  rfl

theorem keys_groupsFrom (key : α → κ) (table : List (κ × List α)) (xs : List α)
    (h : (keys table).Nodup) :
    (keys (groupsFrom key table xs)).Nodup ∧
      ∀ k, k ∈ keys (groupsFrom key table xs) ↔ k ∈ keys table ∨ ∃ a ∈ xs, key a = k := by
  induction xs generalizing table with
  | nil => exact ⟨h, by simp [groupsFrom]⟩
  | cons a xs ih =>
    have hkeys := keys_setdefaultAppend (key a) a table
    have hnodup : (keys (setdefaultAppend (key a) a table)).Nodup := by
      rw [hkeys]
      split_ifs with hm
      · exact h
      · exact List.Nodup.append h (List.nodup_singleton _) (by simpa using hm)
    obtain ⟨hn, hmem⟩ := ih _ hnodup
    refine ⟨hn, fun k => ?_⟩
    change k ∈ keys (groupsFrom key (setdefaultAppend (key a) a table) xs) ↔ _
    rw [hmem, hkeys]
    have hstep : (k ∈ if key a ∈ keys table then keys table else keys table ++ [key a]) ↔
        k ∈ keys table ∨ key a = k := by
      split_ifs with hm
      · constructor
        · exact Or.inl
        · rintro (hk | rfl)
          · exact hk
          · exact hm
      · simp [eq_comm]
    rw [hstep, or_assoc]
    simp

theorem keys_groupsOf_nodup (key : α → κ) (xs : List α) : (keys (groupsOf key xs)).Nodup :=
  (keys_groupsFrom key [] xs List.nodup_nil).1

theorem mem_keys_groupsOf {key : α → κ} {xs : List α} {k : κ} :
    k ∈ keys (groupsOf key xs) ↔ ∃ a ∈ xs, key a = k := by
  rw [groupsOf, (keys_groupsFrom key [] xs List.nodup_nil).2]
  simp [keys]

end Table

section Sorted
variable [LinearOrder κ]

def Ascending (key : α → κ) (xs : List α) : Prop := xs.Pairwise (fun a b => key a ≤ key b)

def stableSort (key : α → κ) (xs : List α) : List α :=
  xs.insertionSort (fun a b => key a ≤ key b)

theorem stableSort_ascending (key : α → κ) (xs : List α) : Ascending key (stableSort key xs) := by
  have htotal : Std.Total (fun a b : α => key a ≤ key b) := ⟨fun a b => le_total _ _⟩
  have htrans : IsTrans α (fun a b => key a ≤ key b) := ⟨fun _ _ _ => le_trans⟩
  exact List.pairwise_insertionSort _ xs

/-- The elements of one key keep their order: the sort is stable. -/
theorem stableSort_filter (key : α → κ) (xs : List α) (k : κ) :
    (stableSort key xs).filter (fun a => decide (key a = k)) =
      xs.filter (fun a => decide (key a = k)) := by
  have hequal : (xs.filter (fun a => decide (key a = k))).Pairwise (fun a b => key a ≤ key b) := by
    refine List.pairwise_of_forall_mem_list (fun a ha b hb => ?_)
    have hka : key a = k := of_decide_eq_true (List.mem_filter.mp ha).2
    have hkb : key b = k := of_decide_eq_true (List.mem_filter.mp hb).2
    exact le_of_eq (hka.trans hkb.symm)
  have hsub := List.sublist_insertionSort hequal List.filter_sublist
  have hfilter := hsub.filter (fun a => decide (key a = k))
  rw [List.filter_filter, show (fun a => decide (key a = k) && decide (key a = k)) =
    (fun a => decide (key a = k)) from funext (fun a => Bool.and_self _)] at hfilter
  have hperm := (List.perm_insertionSort (fun a b => key a ≤ key b) xs).filter
    (fun a => decide (key a = k))
  exact (hfilter.eq_of_length hperm.length_eq.symm).symm

/-- Two ascending lists with the same elements, in the same order, of every key are equal. -/
theorem ascending_ext (key : α → κ) {xs ys : List α} (hx : Ascending key xs)
    (hy : Ascending key ys)
    (h : ∀ k, xs.filter (fun a => decide (key a = k)) = ys.filter (fun a => decide (key a = k))) :
    xs = ys := by
  induction xs generalizing ys with
  | nil =>
    cases ys with
    | nil => rfl
    | cons b ys => simpa using h (key b)
  | cons a xs ih =>
    cases ys with
    | nil => simpa using h (key a)
    | cons b ys =>
      have hxa := List.pairwise_cons.mp hx
      have hyb := List.pairwise_cons.mp hy
      have hkey : key a = key b := by
        apply le_antisymm
        · have hb : b ∈ (a :: xs).filter (fun c => decide (key c = key b)) := by
            rw [h (key b)]
            simp
          rcases List.mem_cons.mp (List.mem_filter.mp hb).1 with rfl | hm
          · exact le_refl _
          · exact hxa.1 b hm
        · have ha : a ∈ (b :: ys).filter (fun c => decide (key c = key a)) := by
            rw [← h (key a)]
            simp
          rcases List.mem_cons.mp (List.mem_filter.mp ha).1 with rfl | hm
          · exact le_refl _
          · exact hyb.1 a hm
      have hhead : a = b := by
        have hk := h (key a)
        simp only [List.filter_cons, hkey, decide_true, ↓reduceIte] at hk
        exact (List.cons.inj hk).1
      subst hhead
      rw [ih hxa.2 hyb.2 (fun k => ?_)]
      have hk := h k
      simp only [List.filter_cons] at hk
      split_ifs at hk
      · exact (List.cons.inj hk).2
      · exact hk

def sortedKeys (table : List (κ × List α)) : List κ := (keys table).insertionSort (· ≤ ·)

theorem sortedKeys_pairwise (key : α → κ) (xs : List α) :
    (sortedKeys (groupsOf key xs)).Pairwise (· < ·) := by
  have hle : (sortedKeys (groupsOf key xs)).Pairwise (· ≤ ·) :=
    List.pairwise_insertionSort _ _
  have hne : (sortedKeys (groupsOf key xs)).Nodup :=
    (List.perm_insertionSort _ _).nodup_iff.mpr (keys_groupsOf_nodup key xs)
  exact hle.imp₂ (fun _ _ h hn => lt_of_le_of_ne h hn) hne

theorem mem_sortedKeys {key : α → κ} {xs : List α} {k : κ} :
    k ∈ sortedKeys (groupsOf key xs) ↔ ∃ a ∈ xs, key a = k := by
  rw [sortedKeys, List.mem_insertionSort, mem_keys_groupsOf]

theorem flatMap_filter_of_ascending {key : α → κ} {f : κ → List α}
    (hf : ∀ k, ∀ a ∈ f k, key a = k) {ks : List κ} (hks : ks.Pairwise (· < ·)) (k : κ) :
    (ks.flatMap f).filter (fun a => decide (key a = k)) = if k ∈ ks then f k else [] := by
  induction ks with
  | nil => rfl
  | cons c ks ih =>
    obtain ⟨hc, hrest⟩ := List.pairwise_cons.mp hks
    rw [List.flatMap_cons, List.filter_append, ih hrest]
    by_cases hk : k = c
    · subst hk
      have hnot : k ∉ ks := fun hm => lt_irrefl k (hc k hm)
      rw [if_neg hnot, if_pos (List.mem_cons_self), List.append_nil]
      exact List.filter_eq_self.mpr (fun a ha => decide_eq_true (hf k a ha))
    · have hnone : (f c).filter (fun a => decide (key a = k)) = [] :=
        List.filter_eq_nil_iff.mpr (fun a ha h => hk ((of_decide_eq_true h).symm.trans (hf c a ha)))
      rw [hnone, List.nil_append]
      simp [hk]

/-- Reading the groups in ascending key order is a stable sort by the key. -/
theorem flatMap_sortedKeys (key : α → κ) (xs : List α) :
    (sortedKeys (groupsOf key xs)).flatMap (groupAt (groupsOf key xs)) = stableSort key xs := by
  have hkeyed : ∀ k, ∀ a ∈ groupAt (groupsOf key xs) k, key a = k := by
    intro k a ha
    rw [groupAt_groupsOf] at ha
    exact of_decide_eq_true (List.mem_filter.mp ha).2
  have hpair := sortedKeys_pairwise key xs
  apply ascending_ext key _ (stableSort_ascending key xs)
  · intro k
    rw [flatMap_filter_of_ascending hkeyed hpair, stableSort_filter, groupAt_groupsOf]
    split_ifs with hk
    · rfl
    · symm
      rw [List.filter_eq_nil_iff]
      exact fun a ha h => hk (mem_sortedKeys.mpr ⟨a, ha, of_decide_eq_true h⟩)
  · unfold Ascending
    rw [List.pairwise_flatMap]
    refine ⟨fun k _ => ?_, hpair.imp (fun hlt a ha b hb => ?_)⟩
    · refine List.pairwise_of_forall_mem_list (fun a ha b hb => ?_)
      rw [hkeyed k a ha, hkeyed k b hb]
    · rw [hkeyed _ a ha, hkeyed _ b hb]
      exact le_of_lt hlt

theorem stableSort_eq_self {key : α → κ} {xs : List α} (h : Ascending key xs) :
    stableSort key xs = xs :=
  List.Pairwise.insertionSort_eq h

end Sorted
end SensorDataNormalization.KeyedGrouping
