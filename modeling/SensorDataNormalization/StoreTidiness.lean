import SensorDataNormalization.StoreProgram

set_option autoImplicit false

/-! Programs that free the cells they write: an erasure, or a hand-over to an owner who erases,
comes after every write. Other threads may change the store before every operation. -/
namespace SensorDataNormalization.StoreTidiness
open StoreProgram

variable {P V E G : Type}

def Op.writes : Op P V E G → List P
  | .put cell _ => [cell]
  | .derive _ target _ => [target]
  | .erase _ => []
  | .emit _ _ => []
  | .give _ _ => []
  | .fail => []

/-- The message makes its receiver responsible for the cell. -/
abbrev Release (P G : Type) := G → P → Prop

/-- The program is going to erase the cell, to hand it over, or to fail. -/
inductive Frees (release : Release P G) (program : List (Op P V E G)) (cell : P) : Prop
  | erases (h : .erase cell ∈ program)
  | gives {source : P} {message : G} (h : .give source message ∈ program)
      (hcell : release message cell)
  | fails (h : .fail ∈ program)

/-- What the program writes it frees afterwards, or leaves for what comes after it. -/
def Tidy (release : Release P G) (later : P → Prop) : List (Op P V E G) → Prop
  | [] => True
  | op :: ops =>
    (∀ cell ∈ Op.writes op, Frees release ops cell ∨ later cell) ∧ Tidy release later ops

section Programs
variable {release : Release P G} {later : P → Prop} {ops ops' : List (Op P V E G)} {cell : P}

theorem Frees.mono (h : Frees release ops cell) (hsub : ops ⊆ ops') : Frees release ops' cell := by
  cases h with
  | erases h => exact .erases (hsub h)
  | gives h hcell => exact .gives (hsub h) hcell
  | fails h => exact .fails (hsub h)

theorem not_frees_nil : ¬ Frees release ([] : List (Op P V E G)) cell := by
  intro h
  cases h with
  | erases h => cases h
  | gives h => cases h
  | fails h => cases h

theorem tidy_of_no_writes (h : ∀ op ∈ ops, Op.writes op = []) : Tidy release later ops := by
  induction ops with
  | nil => trivial
  | cons op ops ih =>
    refine ⟨?_, ih (fun o ho => h o (List.mem_cons_of_mem _ ho))⟩
    rw [h op List.mem_cons_self]
    exact fun cell hcell => absurd hcell List.not_mem_nil

theorem tidy_append (hfirst : ∀ op ∈ ops, ∀ cell ∈ Op.writes op, Frees release ops' cell)
    (hlast : Tidy release later ops') : Tidy release later (ops ++ ops') := by
  induction ops with
  | nil => exact hlast
  | cons op ops ih =>
    refine ⟨?_, ih (fun o ho => hfirst o (List.mem_cons_of_mem _ ho))⟩
    intro cell hcell
    exact Or.inl ((hfirst op List.mem_cons_self cell hcell).mono (List.subset_append_right _ _))

end Programs

section Execution
variable [DecidableEq P] {release : Release P G} {later : P → Prop} {op : Op P V E G}
  {ops : List (Op P V E G)} {m m' : Store P V} {out : Output V E G} {cell : P}

theorem exec_unwritten (h : op.exec m = some (m', out)) (hc : cell ∉ Op.writes op) :
    m' cell = m cell ∨ m' cell = none := by
  by_cases htouch : cell ∈ op.touches
  · cases op with
    | put target value => exact absurd htouch hc
    | derive source target f =>
      have hne : cell ≠ target := fun he => hc (List.mem_singleton.mpr he)
      obtain ⟨v, -, hv⟩ := Option.map_eq_some_iff.mp h
      cases hv
      exact Or.inl (Function.update_of_ne hne _ _)
    | erase target =>
      cases h
      rw [List.mem_singleton.mp htouch]
      exact Or.inr (Function.update_self _ _ _)
    | emit source event =>
      obtain ⟨v, -, hv⟩ := Option.map_eq_some_iff.mp h
      cases hv
      exact Or.inl rfl
    | give source message =>
      cases h
      exact Or.inl rfl
    | fail => cases h
  · exact Or.inl (Op.exec_frame h htouch)

theorem Frees.exec (hf : Frees release (op :: ops) cell) (h : op.exec m = some (m', out)) :
    Frees release ops cell ∨ m' cell = none ∨
      ∃ message, out = .given message ∧ release message cell := by
  cases hf with
  | erases hmem =>
    rcases List.mem_cons.mp hmem with hop | hmem
    · rw [← hop] at h
      cases h
      exact Or.inr (Or.inl (Function.update_self _ _ _))
    · exact Or.inl (.erases hmem)
  | @gives source message hmem hcell =>
    rcases List.mem_cons.mp hmem with hop | hmem
    · rw [← hop] at h
      cases h
      exact Or.inr (Or.inr ⟨message, rfl, hcell⟩)
    · exact Or.inl (.gives hmem hcell)
  | fails hmem =>
    rcases List.mem_cons.mp hmem with hop | hmem
    · rw [← hop] at h
      cases h
    · exact Or.inl (.fails hmem)

theorem Tidy.exec (ht : Tidy release later (op :: ops)) (h : op.exec m = some (m', out))
    (hc : m cell = none) : m' cell = none ∨ Frees release ops cell ∨ later cell := by
  by_cases hwrite : cell ∈ Op.writes op
  · exact Or.inr (ht.1 cell hwrite)
  · rcases exec_unwritten h hwrite with hsame | hnone
    · exact Or.inl (hsame.trans hc)
    · exact Or.inl hnone

end Execution
end SensorDataNormalization.StoreTidiness
