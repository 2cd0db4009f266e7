import SensorDataNormalization.StoreProgram

set_option autoImplicit false

/-! Store programs that can be cut short: any operation but a hand-over may raise, and other
threads may change the store before every operation. -/
namespace SensorDataNormalization.StoreAttempts
open StoreProgram

variable {P V E G : Type}

/-- Everything but a hand-over. -/
def CanRaise (op : Op P V E G) : Prop := ∀ cell message, op ≠ .give cell message

theorem canRaise_of_silent {op : Op P V E G} (h : op.Silent) : CanRaise op := by
  rintro cell message rfl
  exact h

variable [DecidableEq P]

/-- A program ran to its end (`true`), or raised at some operation (`false`), and this is what it
made visible before. -/
inductive Attempt : List (Op P V E G) → List (Output V E G) → Bool → Prop
  | done : Attempt [] [] true
  | step {op : Op P V E G} {ops : List (Op P V E G)} {m m' : Store P V} {out : Output V E G}
      {outs : List (Output V E G)} {ok : Bool} : op.exec m = some (m', out) →
      Attempt ops outs ok → Attempt (op :: ops) (out :: outs) ok
  | raises {op : Op P V E G} {ops : List (Op P V E G)} : CanRaise op → Attempt (op :: ops) [] false

def Output.event : Output V E G → Option E
  | .published event _ => some event
  | _ => none

def Output.message : Output V E G → Option G
  | .given message => some message
  | _ => none

def events (outs : List (Output V E G)) : List E := outs.filterMap Output.event
def messages (outs : List (Output V E G)) : List G := outs.filterMap Output.message

theorem messages_append (outs outs' : List (Output V E G)) :
    messages (outs ++ outs') = messages outs ++ messages outs' := List.filterMap_append

theorem events_append (outs outs' : List (Output V E G)) :
    events (outs ++ outs') = events outs ++ events outs' := List.filterMap_append

namespace Attempt
variable {p q : List (Op P V E G)} {outs : List (Output V E G)} {ok : Bool}

theorem append (h : Attempt (p ++ q) outs ok) :
    (∃ first later, outs = first ++ later ∧ Attempt p first true ∧ Attempt q later ok) ∨
      (ok = false ∧ Attempt p outs false) := by
  induction p generalizing outs with
  | nil => exact Or.inl ⟨[], outs, rfl, .done, h⟩
  | cons op p ih =>
    cases h with
    | step hexec hrest =>
      rcases ih hrest with ⟨first, later, rfl, hp, hq⟩ | ⟨hok, hp⟩
      · exact Or.inl ⟨_ :: first, later, rfl, .step hexec hp, hq⟩
      · exact Or.inr ⟨hok, .step hexec hp⟩
    | raises hop => exact Or.inr ⟨rfl, .raises hop⟩

/-- Only hand-overs give messages. -/
theorem no_messages (h : Attempt p outs ok) (hp : ∀ op ∈ p, CanRaise op) :
    messages outs = [] := by
  induction h with
  | done => rfl
  | raises _ => rfl
  | @step op ops m m' out outs ok hexec hrest ih =>
    have hout : Output.message out = none := by
      cases out with
      | given message =>
        obtain ⟨cell, hgive⟩ := Op.exec_given hexec
        exact absurd hgive (hp op List.mem_cons_self cell message)
      | _ => rfl
    rw [messages, List.filterMap_cons_none hout]
    exact ih (fun op' hop' => hp op' (List.mem_cons_of_mem _ hop'))

theorem no_events (h : Attempt p outs ok) (hp : ∀ op ∈ p, op.Silent) : events outs = [] := by
  induction h with
  | done => rfl
  | raises _ => rfl
  | @step op ops m m' out outs ok hexec hrest ih =>
    have hout : out = .silent := by
      have hop := hp op List.mem_cons_self
      cases op with
      | put cell value =>
        cases hexec
        rfl
      | erase cell =>
        cases hexec
        rfl
      | derive source target f =>
        simp only [Op.exec, Option.map_eq_some_iff] at hexec
        obtain ⟨v, -, hv⟩ := hexec
        cases hv
        rfl
      | emit source event => exact hop.elim
      | give cell message => exact hop.elim
      | fail => exact hop.elim
    rw [hout]
    exact ih (fun op' hop' => hp op' (List.mem_cons_of_mem _ hop'))

theorem gives {α : Type} {xs : List α} {cell : α → P} {message : α → G}
    (h : Attempt (xs.map (fun x => Op.give (cell x) (message x)) : List (Op P V E G)) outs ok) :
    ok = true ∧ messages outs = xs.map message ∧ events outs = [] := by
  induction xs generalizing outs with
  | nil =>
    cases h
    exact ⟨rfl, rfl, rfl⟩
  | cons x xs ih =>
    cases h with
    | step hexec hrest =>
      obtain ⟨hok, hmessages, hevents⟩ := ih hrest
      cases hexec
      exact ⟨hok, congrArg (message x :: ·) hmessages, hevents⟩
    | raises hop => exact absurd rfl (hop _ _)

theorem fail (h : Attempt (.fail :: p) outs ok) : ok = false ∧ outs = [] := by
  cases h with
  | step hexec hrest => cases hexec
  | raises _ => exact ⟨rfl, rfl⟩

theorem of_run {m m' : Store P V} (h : run p m = some m') : ∃ outs, Attempt p outs true := by
  induction p generalizing m with
  | nil => exact ⟨[], .done⟩
  | cons op p ih =>
    obtain ⟨⟨m₁, out⟩, hexec, hrest⟩ := Option.bind_eq_some_iff.mp h
    obtain ⟨outs, hp⟩ := ih hrest
    exact ⟨out :: outs, .step hexec hp⟩

end Attempt

end SensorDataNormalization.StoreAttempts
