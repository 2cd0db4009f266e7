import Mathlib.Data.List.Nodup
import Mathlib.Data.Int.Notation
import Mathlib.Data.Nat.Notation

set_option autoImplicit false

/-! The two objects that the manager alone owns: the job counter and the pair buckets. -/
namespace SensorDataNormalization.ProcessState

/-! ## `JobProgressTracker` -/

structure JobProgressTracker where
  remaining : ℤ
  success : ℕ
  failure : ℕ

namespace JobProgressTracker

def new : JobProgressTracker := ⟨0, 0, 0⟩

def beginCycle (total : ℕ) : JobProgressTracker := ⟨total, 0, 0⟩

def markOneDone (t : JobProgressTracker) (success : Bool) : JobProgressTracker where
  remaining := t.remaining - 1
  success := if success then t.success + 1 else t.success
  failure := if success then t.failure else t.failure + 1

def isDone (t : JobProgressTracker) : Bool := decide (t.remaining ≤ 0)

theorem isDone_iff (t : JobProgressTracker) : t.isDone = true ↔ t.remaining ≤ 0 :=
  decide_eq_true_iff

theorem foldl_markOneDone (t : JobProgressTracker) (results : List Bool) :
    results.foldl markOneDone t =
      { remaining := t.remaining - results.length
        success := t.success + results.count true
        failure := t.failure + results.count false } := by
  induction results generalizing t with
  | nil => simp
  | cons r results ih =>
    rw [List.foldl_cons, ih]
    cases r <;> simp [markOneDone] <;> omega

end JobProgressTracker

/-! ## `PairBuckets` -/

variable {κ α : Type}

/-- The dict of `PairBuckets`, in insertion order. -/
abbrev PairBuckets (κ α : Type) := List (κ × List α)

namespace PairBuckets

def popAllRemaining (buckets : PairBuckets κ α) : List (List α) := buckets.map Prod.snd

/-- Every key waits with exactly one item. -/
structure Unmatched (buckets : PairBuckets κ α) : Prop where
  keys_nodup : (buckets.map Prod.fst).Nodup
  single : ∀ row ∈ buckets, ∃ a, row.2 = [a]

theorem unmatched_nil : Unmatched ([] : PairBuckets κ α) where
  keys_nodup := List.nodup_nil
  single := by simp

/-- The items that wait, oldest key first. -/
def items (buckets : PairBuckets κ α) : List α := buckets.flatMap Prod.snd

theorem popAllRemaining_flatten (buckets : PairBuckets κ α) :
    (popAllRemaining buckets).flatten = items buckets := by
  rw [popAllRemaining, items, List.flatMap_def]

variable [DecidableEq κ]

def get (key : κ) (buckets : PairBuckets κ α) : List α := (buckets.lookup key).getD []

def del (key : κ) (buckets : PairBuckets κ α) : PairBuckets κ α :=
  buckets.filter (fun row => decide (row.1 ≠ key))

def set (key : κ) (bucket : List α) (buckets : PairBuckets κ α) : PairBuckets κ α :=
  if key ∈ buckets.map Prod.fst then
    buckets.map (fun row => if row.1 = key then (key, bucket) else row)
  else buckets ++ [(key, bucket)]

def put (key : κ) (item : α) (buckets : PairBuckets κ α) :
    PairBuckets κ α × Option (List α) :=
  let bucket := get key buckets ++ [item]
  if 2 ≤ bucket.length then (del key buckets, some bucket)
  else (set key bucket buckets, none)

theorem get_of_not_mem {key : κ} {buckets : PairBuckets κ α}
    (h : key ∉ buckets.map Prod.fst) : get key buckets = [] := by
  induction buckets with
  | nil => rfl
  | cons row rest ih =>
    simp only [List.map_cons, List.mem_cons, not_or] at h
    have hb : (key == row.1) = false := by simpa using h.1
    rw [get, List.lookup_cons, hb]
    exact ih h.2

theorem get_append {key : κ} {before after : PairBuckets κ α} {bucket : List α}
    (h : key ∉ before.map Prod.fst) : get key (before ++ (key, bucket) :: after) = bucket := by
  induction before with
  | nil => simp [get]
  | cons row rest ih =>
    simp only [List.map_cons, List.mem_cons, not_or] at h
    have hb : (key == row.1) = false := by simpa using h.1
    rw [List.cons_append, get, List.lookup_cons, hb]
    exact ih h.2

theorem del_append {key : κ} {before after : PairBuckets κ α} {bucket : List α}
    (h : ((before ++ (key, bucket) :: after).map Prod.fst).Nodup) :
    del key (before ++ (key, bucket) :: after) = before ++ after := by
  have hkeep : ∀ rows : PairBuckets κ α, key ∉ rows.map Prod.fst →
      rows.filter (fun row => decide (row.1 ≠ key)) = rows := by
    intro rows hrows
    refine List.filter_eq_self.mpr (fun row hr => decide_eq_true ?_)
    intro he
    exact hrows (List.mem_map.mpr ⟨row, hr, he⟩)
  simp only [List.map_append, List.map_cons, List.nodup_append, List.nodup_cons] at h
  have hbefore : key ∉ before.map Prod.fst :=
    fun hm => h.2.2 key hm key (by simp) rfl
  rw [del, List.filter_append, List.filter_cons_of_neg (by simp), hkeep before hbefore,
    hkeep after h.2.1.1]

theorem put_cases {buckets : PairBuckets κ α} (h : Unmatched buckets) (key : κ) (item : α) :
    (key ∉ buckets.map Prod.fst ∧ put key item buckets = (buckets ++ [(key, [item])], none)) ∨
    (∃ before after a, buckets = before ++ (key, [a]) :: after ∧
      put key item buckets = (before ++ after, some [a, item])) := by
  by_cases hk : key ∈ buckets.map Prod.fst
  · right
    obtain ⟨row, hrow, rfl⟩ := List.mem_map.mp hk
    obtain ⟨a, ha⟩ := h.single row hrow
    obtain ⟨before, after, rfl⟩ := List.append_of_mem hrow
    obtain ⟨key, bucket⟩ := row
    change bucket = [a] at ha
    subst ha
    have hnodup := h.keys_nodup
    have hbefore : key ∉ before.map Prod.fst := by
      simp only [List.map_append, List.map_cons, List.nodup_append] at hnodup
      exact fun hm => hnodup.2.2 key hm key (by simp) rfl
    refine ⟨before, after, a, rfl, ?_⟩
    unfold put
    dsimp only
    rw [get_append hbefore, del_append hnodup]
    rfl
  · left
    refine ⟨hk, ?_⟩
    unfold put
    dsimp only
    rw [get_of_not_mem hk, set, if_neg hk]
    rfl

theorem put_unmatched {buckets : PairBuckets κ α} (h : Unmatched buckets) (key : κ) (item : α) :
    Unmatched (put key item buckets).1 := by
  obtain ⟨hk, hput⟩ | ⟨before, after, a, rfl, hput⟩ := put_cases h key item
  · rw [hput]
    refine ⟨?_, ?_⟩
    · rw [List.map_append]
      exact h.keys_nodup.append (List.nodup_singleton key) (by simpa using hk)
    · intro row hr
      rcases List.mem_append.mp hr with hr | hr
      · exact h.single row hr
      · exact ⟨item, by rw [List.mem_singleton.mp hr]⟩
  · rw [hput]
    have hsub : (before ++ after).Sublist (before ++ (key, [a]) :: after) :=
      (List.Sublist.refl before).append (List.sublist_cons_self _ _)
    exact ⟨h.keys_nodup.sublist (hsub.map Prod.fst), fun row hr => h.single row (hsub.subset hr)⟩

/-- A `put` loses nothing: what waited and the new item either wait or leave as a pair. -/
theorem put_items {buckets : PairBuckets κ α} (h : Unmatched buckets) (key : κ) (item : α) :
    (items (put key item buckets).1 ++ (put key item buckets).2.getD []).Perm
      (items buckets ++ [item]) := by
  obtain ⟨-, hput⟩ | ⟨before, after, a, rfl, hput⟩ := put_cases h key item
  · rw [hput]
    simp [items]
  · rw [hput]
    simp only [items, List.flatMap_append, List.flatMap_cons, Option.getD_some, List.append_assoc,
      List.cons_append, List.nil_append]
    refine List.Perm.append_left _ ?_
    have hpair : (after.flatMap Prod.snd ++ [a, item]).Perm
        (a :: item :: after.flatMap Prod.snd) := List.perm_append_comm
    have hitem : (item :: after.flatMap Prod.snd).Perm (after.flatMap Prod.snd ++ [item]) :=
      (List.perm_append_singleton item _).symm
    exact hpair.trans (List.Perm.cons a hitem)

theorem put_items_beside {buckets : PairBuckets κ α} (h : Unmatched buckets) (key : κ) (item : α)
    (left : List α) :
    (items (put key item buckets).1 ++ (left ++ (put key item buckets).2.getD [])).Perm
      (items buckets ++ left ++ [item]) :=
  calc items (put key item buckets).1 ++ (left ++ (put key item buckets).2.getD [])
    _ |>.Perm (items (put key item buckets).1 ++ ((put key item buckets).2.getD [] ++ left)) :=
      List.Perm.append_left _ List.perm_append_comm
    _ |>.Perm (items buckets ++ [item] ++ left) := by
      rw [← List.append_assoc]
      exact List.Perm.append_right _ (put_items h key item)
    _ |>.Perm (items buckets ++ left ++ [item]) := by
      rw [List.append_assoc, List.append_assoc]
      exact List.Perm.append_left _ List.perm_append_comm

end PairBuckets
end SensorDataNormalization.ProcessState
