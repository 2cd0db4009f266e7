import Mathlib.Algebra.Group.Nat.Even
import SensorDataNormalization.PairSequence

set_option autoImplicit false

/-! `PairBuckets` against the history of its calls. Per key, the items that were put are
cut into pairs from the front; what is left of an odd number is the last item. -/
namespace SensorDataNormalization.PairHistory
open ProcessState PairBuckets

variable {κ α : Type}

/-! ## Pairs from the front -/

def pairs : List α → List (List α)
  | a :: b :: rest => [a, b] :: pairs rest
  | _ => []

def unpaired : List α → List α
  | _ :: _ :: rest => unpaired rest
  | rest => rest

theorem unpaired_eq (xs : List α) :
    unpaired xs = if Even xs.length then [] else xs.getLast?.toList := by
  induction xs using unpaired.induct with
  | case1 a b rest ih =>
    have heven : Even (a :: b :: rest).length ↔ Even rest.length := by
      rw [List.length_cons, List.length_cons, Nat.even_add_one, Nat.even_add_one, not_not]
    rw [unpaired, ih]
    simp only [heven]
    cases rest with
    | nil => rfl
    | cons c rest => rw [List.getLast?_cons_cons, List.getLast?_cons_cons]
  | case2 rest hrest =>
    match rest, hrest with
    | [], _ => rfl
    | [a], _ => rfl
    | a :: b :: rest, hrest => exact absurd rfl (hrest a b rest)

/-- One more item either waits, or leaves with the item that waits. -/
theorem pairs_concat (xs : List α) (a : α) :
    (unpaired xs = [] ∧ unpaired (xs ++ [a]) = [a] ∧ pairs (xs ++ [a]) = pairs xs) ∨
      ∃ b, unpaired xs = [b] ∧ unpaired (xs ++ [a]) = [] ∧
        pairs (xs ++ [a]) = pairs xs ++ [[b, a]] := by
  induction xs using unpaired.induct with
  | case1 b c rest ih =>
    obtain ⟨hnone, hafter, hpairs⟩ | ⟨d, hone, hafter, hpairs⟩ := ih
    · refine Or.inl ⟨hnone, hafter, ?_⟩
      exact congrArg ([b, c] :: ·) hpairs
    · refine Or.inr ⟨d, hone, hafter, ?_⟩
      exact congrArg ([b, c] :: ·) hpairs
  | case2 rest hrest =>
    match rest, hrest with
    | [], _ => exact Or.inl ⟨rfl, rfl, rfl⟩
    | [b], _ => exact Or.inr ⟨b, rfl, rfl, rfl⟩
    | b :: c :: rest, hrest => exact absurd rfl (hrest b c rest)

/-! ## The calls of one store -/

section Calls
variable [DecidableEq κ]

/-- `pop_all_remaining`: the dict that it leaves, and its result. -/
def popAll (buckets : PairBuckets κ α) : PairBuckets κ α × List (List α) :=
  ([], popAllRemaining buckets)

structure History (κ α : Type) where
  buckets : PairBuckets κ α
  returned : List (κ × List α)

def History.put (h : History κ α) (call : κ × α) : History κ α where
  buckets := (PairBuckets.put call.1 call.2 h.buckets).1
  returned := h.returned ++
    ((PairBuckets.put call.1 call.2 h.buckets).2.map (fun pair => (call.1, pair))).toList

def history (calls : List (κ × α)) : History κ α := calls.foldl History.put ⟨[], []⟩

theorem history_concat (calls : List (κ × α)) (call : κ × α) :
    history (calls ++ [call]) = (history calls).put call :=
  List.foldl_concat ..

def itemsOf (k : κ) (calls : List (κ × α)) : List α :=
  (calls.filter (fun call => decide (call.1 = k))).map Prod.snd

def History.pairsOf (h : History κ α) (k : κ) : List (List α) :=
  (h.returned.filter (fun pair => decide (pair.1 = k))).map Prod.snd

theorem itemsOf_concat (k : κ) (calls : List (κ × α)) (call : κ × α) :
    itemsOf k (calls ++ [call]) =
      if call.1 = k then itemsOf k calls ++ [call.2] else itemsOf k calls := by
  rw [itemsOf, List.filter_append, List.map_append]
  by_cases h : call.1 = k
  · rw [if_pos h, List.filter_singleton, decide_eq_true h]
    rfl
  · rw [if_neg h, List.filter_singleton, decide_eq_false h]
    exact List.append_nil _

/-- What holds of the store after every sequence of calls. -/
structure HistoryInv (calls : List (κ × α)) (h : History κ α) : Prop where
  unmatched : Unmatched h.buckets
  waiting : ∀ k, get k h.buckets = unpaired (itemsOf k calls)
  returned : ∀ k, h.pairsOf k = pairs (itemsOf k calls)
  items : (h.buckets.items ++ h.returned.flatMap Prod.snd).Perm (calls.map Prod.snd)

theorem get_split {key : κ} {before after : PairBuckets κ α} {a : α}
    (h : Unmatched (before ++ (key, [a]) :: after)) (k : κ) :
    PairBuckets.get k (before ++ (key, [a]) :: after) =
        (if key = k then [a] else PairBuckets.get k (before ++ after)) ∧
      PairBuckets.get key (before ++ after) = [] := by
  have hnodup := h.keys_nodup
  simp only [List.map_append, List.map_cons, List.nodup_append, List.nodup_cons] at hnodup
  have hbefore : key ∉ before.map Prod.fst := fun hm => hnodup.2.2 key hm key (by simp) rfl
  have hafter : key ∉ after.map Prod.fst := hnodup.2.1.1
  constructor
  · by_cases hk : key = k
    · subst hk
      rw [if_pos rfl, get_append hbefore]
    · have hne : (k == key) = false := by simpa using Ne.symm hk
      rw [if_neg hk, PairBuckets.get, PairBuckets.get, List.lookup_append, List.lookup_append,
        List.lookup_cons, hne]
  · exact get_of_not_mem (by simp [hbefore, hafter])

theorem pairsOf_put (h : History κ α) (call : κ × α) (k : κ) :
    (h.put call).pairsOf k = h.pairsOf k ++
      if call.1 = k then (PairBuckets.put call.1 call.2 h.buckets).2.toList else [] := by
  rw [History.pairsOf, History.put]
  simp only [List.filter_append, List.map_append]
  cases (PairBuckets.put call.1 call.2 h.buckets).2 with
  | none => simp [History.pairsOf]
  | some pair =>
    by_cases hk : call.1 = k
    · simp [History.pairsOf, hk]
    · simp [History.pairsOf, hk]

theorem HistoryInv.put {calls : List (κ × α)} {h : History κ α} (hi : HistoryInv calls h)
    (call : κ × α) : HistoryInv (calls ++ [call]) (h.put call) := by
  obtain ⟨key, item⟩ := call
  have hperm : ((h.put (key, item)).buckets.items ++
      (h.put (key, item)).returned.flatMap Prod.snd).Perm
        ((calls ++ [(key, item)]).map Prod.snd) := by
    have hout : (h.put (key, item)).returned.flatMap Prod.snd = h.returned.flatMap Prod.snd ++
        (PairBuckets.put key item h.buckets).2.getD [] := by
      rw [History.put]
      cases (PairBuckets.put key item h.buckets).2 <;> simp
    rw [hout, List.map_append]
    exact (put_items_beside hi.unmatched key item _).trans (List.Perm.append_right _ hi.items)
  obtain ⟨hk, hput⟩ | ⟨before, after, a, hbuckets, hput⟩ := put_cases hi.unmatched key item
  · have hwait : unpaired (itemsOf key calls) = [] := by
      rw [← hi.waiting key]
      exact get_of_not_mem hk
    obtain ⟨-, hafter, hpairs⟩ | ⟨b, hb, -⟩ := pairs_concat (itemsOf key calls) item
    · refine ⟨put_unmatched hi.unmatched _ _, fun k => ?_, fun k => ?_, hperm⟩
      · change PairBuckets.get k (PairBuckets.put key item h.buckets).1 = _
        rw [hput, itemsOf_concat]
        by_cases hkey : key = k
        · subst hkey
          rw [if_pos rfl, hafter]
          exact get_append hk
        · have hne : (k == key) = false := by simpa using Ne.symm hkey
          rw [if_neg hkey, ← hi.waiting k, PairBuckets.get, List.lookup_append, List.lookup_cons,
            hne]
          simp [PairBuckets.get]
      · rw [pairsOf_put, hi.returned k, hput, itemsOf_concat]
        by_cases hkey : key = k
        · subst hkey
          simp [hpairs]
        · simp [hkey]
    · rw [hwait] at hb
      cases hb
  · have hunmatched : Unmatched (before ++ (key, [a]) :: after) := hbuckets ▸ hi.unmatched
    have hwait : unpaired (itemsOf key calls) = [a] := by
      rw [← hi.waiting key, hbuckets, (get_split hunmatched key).1, if_pos rfl]
    obtain ⟨hnone, -⟩ | ⟨b, hb, hafter, hpairs⟩ := pairs_concat (itemsOf key calls) item
    · rw [hwait] at hnone
      cases hnone
    · rw [hwait] at hb
      cases hb
      refine ⟨put_unmatched hi.unmatched _ _, fun k => ?_, fun k => ?_, hperm⟩
      · change PairBuckets.get k (PairBuckets.put key item h.buckets).1 = _
        rw [hput, itemsOf_concat]
        by_cases hkey : key = k
        · subst hkey
          rw [if_pos rfl, hafter]
          exact (get_split hunmatched key).2
        · rw [if_neg hkey, ← hi.waiting k, hbuckets, (get_split hunmatched k).1, if_neg hkey]
      · rw [pairsOf_put, hi.returned k, hput, itemsOf_concat]
        by_cases hkey : key = k
        · subst hkey
          simp [hpairs]
        · simp [hkey]

theorem history_inv (calls : List (κ × α)) : HistoryInv calls (history calls) := by
  induction calls using List.reverseRecOn with
  | nil =>
    exact
      { unmatched := unmatched_nil
        waiting := fun _ => rfl
        returned := fun _ => rfl
        items := List.Perm.refl _ }
  | append_singleton calls call ih =>
    rw [history_concat]
    exact ih.put call

/-! ## The store after the calls -/

/-- The keys that wait are those with an odd number of items, each with the last of them. -/
theorem HistoryInv.mem_buckets {calls : List (κ × α)} {h : History κ α} (hi : HistoryInv calls h)
    {row : κ × List α} (hrow : row ∈ h.buckets) :
    ¬ Even (itemsOf row.1 calls).length ∧ row.2 = (itemsOf row.1 calls).getLast?.toList := by
  obtain ⟨a, ha⟩ := hi.unmatched.single row hrow
  obtain ⟨before, after, hsplit⟩ := List.append_of_mem hrow
  have hrow' : row = (row.1, [a]) := by rw [← ha]
  rw [hrow'] at hsplit
  have hget : PairBuckets.get row.1 h.buckets = [a] := by
    rw [hsplit, (get_split (hsplit ▸ hi.unmatched) row.1).1, if_pos rfl]
  have hwait : unpaired (itemsOf row.1 calls) = [a] := (hi.waiting row.1).symm.trans hget
  rw [unpaired_eq] at hwait
  by_cases heven : Even (itemsOf row.1 calls).length
  · rw [if_pos heven] at hwait
    cases hwait
  · rw [if_neg heven] at hwait
    exact ⟨heven, ha.trans hwait.symm⟩

theorem HistoryInv.mem_keys {calls : List (κ × α)} {h : History κ α} (hi : HistoryInv calls h)
    (k : κ) : k ∈ h.buckets.map Prod.fst ↔ ¬ Even (itemsOf k calls).length := by
  constructor
  · intro hk
    obtain ⟨row, hrow, rfl⟩ := List.mem_map.mp hk
    exact (hi.mem_buckets hrow).1
  · intro hodd
    by_contra hk
    have hwait := (get_of_not_mem hk).symm.trans (hi.waiting k)
    rw [unpaired_eq, if_neg hodd] at hwait
    cases hlast : (itemsOf k calls).getLast? with
    | none => exact hodd (by rw [List.getLast?_eq_none_iff.mp hlast]; exact Even.zero)
    | some a =>
      rw [hlast] at hwait
      cases hwait

theorem itemsOf_perm {calls calls' : List (κ × α)} (h : calls'.Perm calls) (k : κ) :
    (itemsOf k calls').length = (itemsOf k calls).length :=
  ((h.filter _).map _).length_eq

/-- What a sequence of `put` calls returned, and what `pop_all_remaining` does after it. -/
structure PairedExactly (calls : List (κ × α)) : Prop where
  single : ∀ row ∈ (history calls).buckets, ∃ item, row.2 = [item]
  pairs : ∀ k, (history calls).pairsOf k = pairs (itemsOf k calls)
  popped : ∃ waiting : List κ, waiting.Nodup ∧
    (∀ k, k ∈ waiting ↔ ¬ Even (itemsOf k calls).length) ∧
    (popAll (history calls).buckets).2 =
      waiting.map (fun k => (itemsOf k calls).getLast?.toList)
  emptied : (popAll (history calls).buckets).1 = []
  kept : ((popAll (history calls).buckets).2.flatten ++
    (history calls).returned.flatMap Prod.snd).Perm (calls.map Prod.snd)
  order : ∀ calls', calls'.Perm calls → ∀ k,
    k ∈ (history calls').buckets.map Prod.fst ↔ k ∈ (history calls).buckets.map Prod.fst

/-- `PairBuckets` pairs the items of each key in their order, and loses and mixes nothing. -/
theorem pairs_without_loss (calls : List (κ × α)) : PairedExactly calls := by
  have hi := history_inv calls
  exact
    { single := hi.unmatched.single
      pairs := hi.returned
      popped := by
        refine ⟨(history calls).buckets.map Prod.fst, hi.unmatched.keys_nodup, hi.mem_keys, ?_⟩
        rw [List.map_map]
        exact List.map_congr_left (fun row hrow => (hi.mem_buckets hrow).2)
      emptied := rfl
      kept := by
        change ((popAllRemaining (history calls).buckets).flatten ++ _).Perm _
        rw [popAllRemaining_flatten]
        exact hi.items
      order := fun calls' hperm k => by
        rw [hi.mem_keys, (history_inv calls').mem_keys, itemsOf_perm hperm] }

example : (history [(1, 'a'), (2, 'b'), (1, 'c'), (1, 'd')]).returned = [(1, ['a', 'c'])] ∧
    popAll (history [(1, 'a'), (2, 'b'), (1, 'c'), (1, 'd')]).buckets =
      ([], [['b'], ['d']]) := by decide

end Calls
end SensorDataNormalization.PairHistory
