import Mathlib.Data.List.Induction
import SensorDataNormalization.ProcessState

set_option autoImplicit false

/-! What a whole sequence of `put`s does: the pairs that left, and the items that wait. -/
namespace SensorDataNormalization.PairSequence
open ProcessState PairBuckets

variable {κ α : Type} [DecidableEq κ]

structure Pairing (κ α : Type) where
  buckets : PairBuckets κ α
  pairs : List (List α)

def Pairing.add (key : α → κ) (r : Pairing κ α) (a : α) : Pairing κ α where
  buckets := (put (key a) a r.buckets).1
  pairs := r.pairs ++ (put (key a) a r.buckets).2.toList

def pairing (key : α → κ) (xs : List α) : Pairing κ α := xs.foldl (Pairing.add key) ⟨[], []⟩

theorem pairing_concat (key : α → κ) (xs : List α) (a : α) :
    pairing key (xs ++ [a]) = (pairing key xs).add key a :=
  List.foldl_concat ..

/-- The groups that leave the buckets: the pairs, and at the end the items that wait. -/
def Pairing.groups (r : Pairing κ α) : List (List α) := r.pairs ++ r.buckets.popAllRemaining

structure PairingOf (key : α → κ) (xs : List α) (r : Pairing κ α) : Prop where
  unmatched : Unmatched r.buckets
  bucket_key : ∀ row ∈ r.buckets, ∀ a ∈ row.2, key a = row.1
  pair : ∀ g ∈ r.pairs, ∃ a b, g = [a, b] ∧ key a = key b ∧ [a, b].Sublist xs
  perm : (r.buckets.items ++ r.pairs.flatten).Perm xs

theorem pairing_spec (key : α → κ) (xs : List α) : PairingOf key xs (pairing key xs) := by
  induction xs using List.reverseRecOn with
  | nil =>
    exact
      { unmatched := unmatched_nil
        bucket_key := by simp [pairing]
        pair := by simp [pairing]
        perm := List.Perm.refl _ }
  | append_singleton xs x ih =>
    rw [pairing_concat]
    have hperm : ((put (key x) x (pairing key xs).buckets).1.items ++
        ((pairing key xs).pairs ++ (put (key x) x (pairing key xs).buckets).2.toList).flatten).Perm
          (xs ++ [x]) := by
      have hout : (put (key x) x (pairing key xs).buckets).2.toList.flatten =
          (put (key x) x (pairing key xs).buckets).2.getD [] := by
        cases (put (key x) x (pairing key xs).buckets).2 <;> simp
      rw [List.flatten_append, hout]
      exact (put_items_beside ih.unmatched (key x) x _).trans (List.Perm.append_right _ ih.perm)
    obtain ⟨hk, hput⟩ | ⟨before, after, a, hbuckets, hput⟩ := put_cases ih.unmatched (key x) x
    · refine ⟨put_unmatched ih.unmatched _ _, ?_, ?_, hperm⟩
      · intro row hrow b hb
        change row ∈ (put (key x) x (pairing key xs).buckets).1 at hrow
        rw [hput] at hrow
        rcases List.mem_append.mp hrow with hrow | hrow
        · exact ih.bucket_key row hrow b hb
        · rw [List.mem_singleton.mp hrow] at hb ⊢
          rw [List.mem_singleton.mp hb]
      · intro g hg
        change g ∈ (pairing key xs).pairs ++ (put (key x) x (pairing key xs).buckets).2.toList at hg
        rw [hput] at hg
        obtain ⟨b, c, hg, hkey, hsub⟩ := ih.pair g (by simpa using hg)
        exact ⟨b, c, hg, hkey, hsub.trans (List.sublist_append_left _ _)⟩
    · refine ⟨put_unmatched ih.unmatched _ _, ?_, ?_, hperm⟩
      · intro row hrow b hb
        change row ∈ (put (key x) x (pairing key xs).buckets).1 at hrow
        rw [hput] at hrow
        refine ih.bucket_key row ?_ b hb
        rw [hbuckets]
        rcases List.mem_append.mp hrow with hrow | hrow
        · exact List.mem_append_left _ hrow
        · exact List.mem_append_right _ (List.mem_cons_of_mem _ hrow)
      · intro g hg
        change g ∈ (pairing key xs).pairs ++ (put (key x) x (pairing key xs).buckets).2.toList at hg
        rw [hput] at hg
        rcases List.mem_append.mp hg with hg | hg
        · obtain ⟨b, c, hg, hkey, hsub⟩ := ih.pair g hg
          exact ⟨b, c, hg, hkey, hsub.trans (List.sublist_append_left _ _)⟩
        · have ha : a ∈ xs := by
            refine ih.perm.subset (List.mem_append_left _ ?_)
            rw [hbuckets]
            simp [items]
          have hka : key a = key x :=
            ih.bucket_key (key x, [a]) (by rw [hbuckets]; simp) a (by simp)
          refine ⟨a, x, by simpa using hg, hka, ?_⟩
          exact (List.singleton_sublist.mpr ha).append (List.Sublist.refl [x])

/-! ## How many groups a key leaves with -/

def leads (key : α → κ) (k : κ) (g : List α) : Bool := decide (g.head?.map key = some k)

theorem countP_pairs {key : α → κ} {pairs : List (List α)}
    (h : ∀ g ∈ pairs, ∃ a b, g = [a, b] ∧ key a = key b) (k : κ) :
    pairs.flatten.countP (fun a => decide (key a = k)) = 2 * pairs.countP (leads key k) := by
  induction pairs with
  | nil => rfl
  | cons g rest ih =>
    obtain ⟨a, b, rfl, hab⟩ := h g List.mem_cons_self
    rw [List.flatten_cons, List.countP_append, List.countP_cons,
      ih (fun g hg => h g (List.mem_cons_of_mem _ hg))]
    by_cases ha : key a = k
    · have hb : key b = k := hab.symm.trans ha
      simp [leads, ha, hb]
      omega
    · have hb : ¬ key b = k := fun hb => ha (hab.trans hb)
      simp [leads, ha, hb]

theorem countP_singles {key : α → κ} {groups : List (List α)}
    (h : ∀ g ∈ groups, ∃ a, g = [a]) (k : κ) :
    groups.flatten.countP (fun a => decide (key a = k)) = groups.countP (leads key k) := by
  induction groups with
  | nil => rfl
  | cons g rest ih =>
    obtain ⟨a, rfl⟩ := h g List.mem_cons_self
    rw [List.flatten_cons, List.countP_append, List.countP_cons,
      ih (fun g hg => h g (List.mem_cons_of_mem _ hg))]
    by_cases ha : key a = k
    · simp [leads, ha]
      omega
    · simp [leads, ha]

theorem waiting_le_one {key : α → κ} {xs : List α} {r : Pairing κ α} (h : PairingOf key xs r)
    (k : κ) : r.buckets.popAllRemaining.countP (leads key k) ≤ 1 := by
  have hnodup := h.unmatched.keys_nodup
  have hsingle := h.unmatched.single
  have hkey := h.bucket_key
  have hle : r.buckets.popAllRemaining.countP (leads key k) ≤ (r.buckets.map Prod.fst).count k := by
    rw [popAllRemaining]
    generalize r.buckets = rows at hsingle hkey ⊢
    induction rows with
    | nil => exact Nat.zero_le _
    | cons row rest ih =>
      have hrest := ih (fun row hr => hsingle row (List.mem_cons_of_mem _ hr))
        (fun row hr => hkey row (List.mem_cons_of_mem _ hr))
      obtain ⟨a, ha⟩ := hsingle row List.mem_cons_self
      have hrow := hkey row List.mem_cons_self a (by rw [ha]; simp)
      rw [List.map_cons, List.map_cons, List.countP_cons, List.count_cons]
      have hleads : leads key k row.2 = (row.1 == k) := by
        rw [ha, ← hrow]
        simp [leads, Bool.beq_eq_decide_eq]
      rw [hleads]
      omega
  have hone := List.nodup_iff_count_le_one.mp hnodup k
  omega

/-- A key of `m` items leaves in `m / 2` groups, rounded up. -/
theorem groups_count (key : α → κ) (xs : List α) (k : κ) :
    (pairing key xs).groups.countP (leads key k) =
      (xs.countP (fun a => decide (key a = k)) + 1) / 2 := by
  have h := pairing_spec key xs
  have hwait := waiting_le_one h k
  have hsingle : ∀ g ∈ (pairing key xs).buckets.popAllRemaining, ∃ a, g = [a] := by
    intro g hg
    obtain ⟨row, hrow, rfl⟩ := List.mem_map.mp hg
    exact h.unmatched.single row hrow
  have hpairs : ∀ g ∈ (pairing key xs).pairs, ∃ a b, g = [a, b] ∧ key a = key b := by
    intro g hg
    obtain ⟨a, b, hab, hkey, -⟩ := h.pair g hg
    exact ⟨a, b, hab, hkey⟩
  have hcount := h.perm.countP_eq (fun a => decide (key a = k))
  rw [List.countP_append, ← popAllRemaining_flatten, countP_singles hsingle k,
    countP_pairs hpairs k] at hcount
  rw [Pairing.groups, List.countP_append]
  omega

theorem groups_perm (key : α → κ) (xs : List α) : (pairing key xs).groups.flatten.Perm xs := by
  rw [Pairing.groups, List.flatten_append, popAllRemaining_flatten]
  exact List.perm_append_comm.trans (pairing_spec key xs).perm

theorem groups_uniform {key : α → κ} {xs : List α} {g : List α}
    (hg : g ∈ (pairing key xs).groups) : ∃ a rest, g = a :: rest ∧ ∀ b ∈ g, key b = key a := by
  have hspec := pairing_spec key xs
  rcases List.mem_append.mp hg with hg | hg
  · obtain ⟨a, b, rfl, hab, -⟩ := hspec.pair g hg
    refine ⟨a, [b], rfl, fun c hc => ?_⟩
    simp only [List.mem_cons, List.not_mem_nil, or_false] at hc
    rcases hc with rfl | rfl
    · rfl
    · exact hab.symm
  · obtain ⟨row, hrow, rfl⟩ := List.mem_map.mp hg
    obtain ⟨a, ha⟩ := hspec.unmatched.single row hrow
    rw [ha]
    exact ⟨a, [], rfl, fun c hc => by rw [List.mem_singleton.mp hc]⟩

theorem filter_flatten {key : α → κ} {groups : List (List α)} (k : κ)
    (h : ∀ g ∈ groups, ∃ a rest, g = a :: rest ∧ ∀ b ∈ g, key b = key a) :
    groups.flatten.filter (fun a => decide (key a = k)) =
      (groups.filter (leads key k)).flatten := by
  induction groups with
  | nil => rfl
  | cons g groups ih =>
    obtain ⟨a, rest, hg, hsame⟩ := h g List.mem_cons_self
    rw [List.flatten_cons, List.filter_append, ih (fun g hg => h g (List.mem_cons_of_mem _ hg))]
    by_cases hk : key a = k
    · have hleads : leads key k g = true := by simp [leads, hg, hk]
      have hall : g.filter (fun b => decide (key b = k)) = g :=
        List.filter_eq_self.mpr (fun b hb => decide_eq_true ((hsame b hb).trans hk))
      rw [hall, List.filter_cons_of_pos hleads, List.flatten_cons]
    · have hleads : ¬ leads key k g = true := by simp [leads, hg, hk]
      have hnone : g.filter (fun b => decide (key b = k)) = [] := by
        apply List.filter_eq_nil_iff.mpr
        intro b hb hbk
        exact hk ((hsame b hb).symm.trans (of_decide_eq_true hbk))
      rw [hnone, List.filter_cons_of_neg hleads, List.nil_append]

/-- A key of one or two items leaves in one group, which holds them all. -/
theorem group_of_key {key : α → κ} {xs : List α} {k : κ}
    (hpos : 1 ≤ xs.countP (fun a => decide (key a = k)))
    (htwo : xs.countP (fun a => decide (key a = k)) ≤ 2) :
    ∃ g ∈ (pairing key xs).groups, g.Perm (xs.filter (fun a => decide (key a = k))) := by
  have hcount : ((pairing key xs).groups.filter (leads key k)).length = 1 := by
    rw [← List.countP_eq_length_filter, groups_count]
    omega
  obtain ⟨g, hg⟩ := List.length_eq_one_iff.mp hcount
  have hmem : g ∈ (pairing key xs).groups.filter (leads key k) := by
    rw [hg]
    exact List.mem_singleton_self g
  refine ⟨g, (List.mem_filter.mp hmem).1, ?_⟩
  have huniform : ∀ g ∈ (pairing key xs).groups,
      ∃ a rest, g = a :: rest ∧ ∀ b ∈ g, key b = key a := fun g hg => groups_uniform hg
  have hflat := filter_flatten k huniform
  rw [hg, List.flatten_singleton] at hflat
  rw [← hflat]
  exact (groups_perm key xs).filter _

end SensorDataNormalization.PairSequence
