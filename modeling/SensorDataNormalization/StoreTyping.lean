import SensorDataNormalization.StoreProgram

set_option autoImplicit false

/-! Threads over one store. A typing says what a cell may contain, what may be published and
what may be handed over. A program is sound for the cells that its thread owns when each of its
steps keeps the typing, whatever the others have done to the other cells in the meantime. -/
namespace SensorDataNormalization.StoreTyping
open StoreProgram

variable {P V E G : Type}

structure Typing (P V E G : Type) where
  cell : P → V → Prop
  published : E → V → Prop
  given : G → Prop

namespace Typing
variable (T : Typing P V E G)

def Stored (m : Store P V) : Prop := ∀ p v, m p = some v → T.cell p v

def Shows : Output V E G → Prop
  | .silent => True
  | .published event value => T.published event value
  | .given message => T.given message

variable [DecidableEq P]

def Sound (own : P → Prop) : List (Op P V E G) → Store P V → Prop
  | [], _ => True
  | op :: ops, m => ∀ n, (∀ p, own p → n p = m p) → T.Stored n →
      ∀ n' out, op.exec n = some (n', out) → T.Stored n' ∧ T.Shows out ∧ Sound own ops n'

/-- An operation that keeps the typing without any cell of its own. -/
def Typed : Op P V E G → Prop
  | .put cell value => T.cell cell value
  | .derive source target f => ∀ v old, T.cell source v → (∀ w, old = some w → T.cell target w) →
      T.cell target (f v old)
  | .erase _ => True
  | .emit source event => ∀ v, T.cell source v → T.published event v
  | .give _ message => T.given message
  | .fail => True

/-- A typed operation of a thread that stays away from the cells of another one. -/
def Foreign (own : P → Prop) (op : Op P V E G) : Prop := T.Typed op ∧ ∀ p ∈ op.touches, ¬ own p

variable {T}

theorem Stored.update {m : Store P V} (h : T.Stored m) {cell : P} {value : V}
    (hv : T.cell cell value) : T.Stored (Function.update m cell (some value)) := by
  intro p v hp
  by_cases hc : p = cell
  · rw [hc, Function.update_self] at hp
    cases hp
    rw [hc]
    exact hv
  · rw [Function.update_of_ne hc] at hp
    exact h p v hp

theorem Stored.erase {m : Store P V} (h : T.Stored m) (cell : P) :
    T.Stored (Function.update m cell none) := by
  intro p v hp
  by_cases hc : p = cell
  · rw [hc, Function.update_self] at hp
    cases hp
  · rw [Function.update_of_ne hc] at hp
    exact h p v hp

theorem Stored.exec {op : Op P V E G} (ht : T.Typed op) {m m' : Store P V} {out : Output V E G}
    (h : T.Stored m) (hexec : op.exec m = some (m', out)) : T.Stored m' ∧ T.Shows out := by
  cases op with
  | put cell value =>
    cases hexec
    exact ⟨h.update ht, trivial⟩
  | derive source target f =>
    obtain ⟨v, hv, he⟩ := Option.map_eq_some_iff.mp hexec
    cases he
    exact ⟨h.update (ht v _ (h source v hv) (fun w hw => h target w hw)), trivial⟩
  | erase cell =>
    cases hexec
    exact ⟨h.erase cell, trivial⟩
  | emit source event =>
    obtain ⟨v, hv, he⟩ := Option.map_eq_some_iff.mp hexec
    cases he
    exact ⟨h, ht v (h source v hv)⟩
  | give cell message =>
    cases hexec
    exact ⟨h, ht⟩
  | fail => cases hexec

section Rules
variable {own : P → Prop} {op : Op P V E G} {ops : List (Op P V E G)} {m : Store P V}

/-- Soundness rests on the owned cells only. -/
theorem Sound.congr {n : Store P V} (h : T.Sound own ops m) (hown : ∀ p, own p → n p = m p) :
    T.Sound own ops n := by
  cases ops with
  | nil => trivial
  | cons op ops => exact fun k hk => h k (fun p hp => (hk p hp).trans (hown p hp))

theorem Sound.step (h : T.Sound own (op :: ops) m) (hm : T.Stored m) {m' : Store P V}
    {out : Output V E G} (hexec : op.exec m = some (m', out)) :
    T.Stored m' ∧ T.Shows out ∧ T.Sound own ops m' :=
  h m (fun _ _ => rfl) hm m' out hexec

/-- A step of another thread. -/
theorem Sound.other (h : T.Sound own ops m) {m' : Store P V} {out : Output V E G}
    (hexec : op.exec m = some (m', out)) (hfree : ∀ p ∈ op.touches, ¬ own p) :
    T.Sound own ops m' :=
  h.congr (fun _ hp => Op.exec_frame hexec (fun hmem => hfree _ hmem hp))

theorem sound_typed_cons (ht : T.Typed op) (h : ∀ n, T.Sound own ops n) :
    T.Sound own (op :: ops) m := by
  intro n _ hn n' out hexec
  obtain ⟨hn', hout⟩ := hn.exec ht hexec
  exact ⟨hn', hout, h n'⟩

theorem sound_typed (ht : ∀ op ∈ ops, T.Typed op) : T.Sound own ops m := by
  induction ops generalizing m with
  | nil => trivial
  | cons op ops ih =>
    exact sound_typed_cons (ht op List.mem_cons_self)
      (fun n => ih (fun op' hop => ht op' (List.mem_cons_of_mem _ hop)))

theorem sound_derive {source target : P} {f : V → Option V → V} (hown : own target)
    (h : ∀ v, T.cell source v → T.cell target (f v (m target)) ∧
      ∀ n, n target = some (f v (m target)) → T.Sound own ops n) :
    T.Sound own (.derive source target f :: ops) m := by
  intro n hn hstored n' out hexec
  obtain ⟨v, hv, he⟩ := Option.map_eq_some_iff.mp hexec
  cases he
  obtain ⟨hcell, hrest⟩ := h v (hstored source v hv)
  rw [hn target hown]
  exact ⟨hstored.update hcell, trivial, hrest _ (Function.update_self _ _ _)⟩

theorem sound_emit {source : P} {event : E} {v : V} (hown : own source) (hv : m source = some v)
    (hp : T.published event v) (h : ∀ n, T.Sound own ops n) :
    T.Sound own (.emit source event :: ops) m := by
  intro n hn hstored n' out hexec
  obtain ⟨w, hw, he⟩ := Option.map_eq_some_iff.mp hexec
  cases he
  rw [hn source hown, hv] at hw
  cases hw
  exact ⟨hstored, hp, h _⟩

end Rules
end Typing
end SensorDataNormalization.StoreTyping
