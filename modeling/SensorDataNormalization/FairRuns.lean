import Mathlib.Data.Nat.Notation
import Mathlib.Order.Lattice.Nat
import Mathlib.Order.WellFounded

set_option autoImplicit false

/-! Infinite runs of labelled steps under weak fairness, and the rule that leads every fair
run to a goal: a rank that no step raises, and at every state short of the goal some process
whose own step lowers the rank and which stays able to do so until the rank falls. -/
namespace SensorDataNormalization.FairRuns

variable {State Label Process α : Type}

structure InfiniteRun (next : State → Label → State → Prop) where
  state : ℕ → State
  label : ℕ → Label
  moves : ∀ i, next (state i) (label i) (state (i + 1))

variable {next : State → Label → State → Prop} {acts : Process → Label → Prop}
  {enabled : State → Process → Prop}

namespace InfiniteRun
variable (σ : InfiniteRun next)

/-- A process does not stay enabled for ever without a step of its own. -/
def Fair (acts : Process → Label → Prop) (enabled : State → Process → Prop) : Prop :=
  ∀ p i, ∃ j, i ≤ j ∧ (acts p (σ.label j) ∨ ¬ enabled (σ.state j) p)

/-- At `i` or later the run comes to a state in `goal`. -/
def Reaches (i : ℕ) (goal : State → Prop) : Prop := ∃ j, i ≤ j ∧ goal (σ.state j)

theorem keeps (I : State → Prop) (hstep : ∀ {s a t}, I s → next s a t → I t) {i : ℕ}
    (hi : I (σ.state i)) {j : ℕ} (hij : i ≤ j) : I (σ.state j) := by
  induction j, hij using Nat.le_induction with
  | base => exact hi
  | succ j _ ih => exact hstep ih (σ.moves j)

variable {σ}

theorem Reaches.later {i k : ℕ} {goal : State → Prop} (hik : i ≤ k) (h : σ.Reaches k goal) :
    σ.Reaches i goal := by
  obtain ⟨j, hkj, hj⟩ := h
  exact ⟨j, hik.trans hkj, hj⟩

theorem Reaches.mono {i : ℕ} {goal goal' : State → Prop} (h : σ.Reaches i goal)
    (hgoal : ∀ s, goal s → goal' s) : σ.Reaches i goal' := by
  obtain ⟨j, hij, hj⟩ := h
  exact ⟨j, hij, hgoal _ hj⟩

/-- A schedule that can always go on is the schedule of an infinite run. -/
theorem exists_run {label : ℕ → Label} (I : ℕ → State → Prop)
    (hnext : ∀ k s, I k s → ∃ t, next s (label k) t ∧ I (k + 1) t) {s : State} (hs : I 0 s) :
    ∃ σ : InfiniteRun next, σ.state 0 = s ∧ σ.label = label ∧ ∀ k, I k (σ.state k) := by
  choose t ht hI using hnext
  let states : (k : ℕ) → { s // I k s } :=
    Nat.rec ⟨s, hs⟩ (fun k s => ⟨t k s.1 s.2, hI k s.1 s.2⟩)
  exact ⟨⟨fun k => (states k).1, label, fun k => ht k _ (states k).2⟩, rfl, rfl,
    fun k => (states k).2⟩

end InfiniteRun

/-- Progress to `goal` inside `I`. -/
structure Progress [Preorder α] (next : State → Label → State → Prop)
    (acts : Process → Label → Prop) (enabled : State → Process → Prop) (I goal : State → Prop)
    (rank : State → α) (helpful : State → Process → Prop) : Prop where
  keeps : ∀ {s a t}, I s → ¬ goal s → next s a t → I t
  helper : ∀ {s}, I s → ¬ goal s → ∃ p, helpful s p ∧ enabled s p
  falls : ∀ {s a t}, I s → ¬ goal s → next s a t → rank t < rank s ∨ (rank t = rank s ∧
    ∀ p, helpful s p → enabled s p → ¬ acts p a ∧ helpful t p ∧ enabled t p)

namespace Progress
variable [Preorder α] {I goal : State → Prop} {rank : State → α} {helpful : State → Process → Prop}

/-- Short of the goal a helpful process stays helpful as long as the rank does not fall. -/
theorem helpful_until (h : Progress next acts enabled I goal rank helpful)
    {σ : InfiniteRun next} {i : ℕ} (hi : I (σ.state i)) {p : Process} (hp : helpful (σ.state i) p)
    (henabled : enabled (σ.state i) p) {j : ℕ} (hij : i ≤ j) :
    σ.Reaches i goal ∨ (∃ k, i ≤ k ∧ I (σ.state k) ∧ rank (σ.state k) < rank (σ.state i)) ∨
      (I (σ.state j) ∧ rank (σ.state j) = rank (σ.state i) ∧ helpful (σ.state j) p ∧
        enabled (σ.state j) p) := by
  induction j, hij using Nat.le_induction with
  | base => exact Or.inr (Or.inr ⟨hi, rfl, hp, henabled⟩)
  | succ j hij ih =>
    rcases ih with hgoal | hfell | ⟨hI, hrank, hp, henabled⟩
    · exact Or.inl hgoal
    · exact Or.inr (Or.inl hfell)
    · by_cases hgoal : goal (σ.state j)
      · exact Or.inl ⟨j, hij, hgoal⟩
      · right
        have hnext := h.keeps hI hgoal (σ.moves j)
        rcases h.falls hI hgoal (σ.moves j) with hlt | ⟨heq, hstay⟩
        · exact Or.inl ⟨j + 1, Nat.le_succ_of_le hij, hnext, hrank ▸ hlt⟩
        · obtain ⟨-, hp', henabled'⟩ := hstay p hp henabled
          exact Or.inr ⟨hnext, heq.trans hrank, hp', henabled'⟩

theorem falls_or_reaches (h : Progress next acts enabled I goal rank helpful) {σ : InfiniteRun next}
    (hfair : σ.Fair acts enabled) {i : ℕ} (hi : I (σ.state i)) :
    σ.Reaches i goal ∨ ∃ k, i ≤ k ∧ I (σ.state k) ∧ rank (σ.state k) < rank (σ.state i) := by
  by_cases hgoal : goal (σ.state i)
  · exact Or.inl ⟨i, le_refl i, hgoal⟩
  · obtain ⟨p, hp, henabled⟩ := h.helper hi hgoal
    obtain ⟨j, hij, hj⟩ := hfair p i
    rcases h.helpful_until hi hp henabled hij with hreach | hfell | ⟨hI, hrank, hp', henabled'⟩
    · exact Or.inl hreach
    · exact Or.inr hfell
    · by_cases hgoalj : goal (σ.state j)
      · exact Or.inl ⟨j, hij, hgoalj⟩
      · have hlabel := hj.resolve_right (not_not_intro henabled')
        rcases h.falls hI hgoalj (σ.moves j) with hlt | ⟨-, hstay⟩
        · exact Or.inr ⟨j + 1, Nat.le_succ_of_le hij, h.keeps hI hgoalj (σ.moves j), hrank ▸ hlt⟩
        · exact absurd hlabel (hstay p hp' henabled').1

theorem reaches [WellFoundedLT α] (h : Progress next acts enabled I goal rank helpful)
    {σ : InfiniteRun next} (hfair : σ.Fair acts enabled) {i : ℕ} (hi : I (σ.state i)) :
    σ.Reaches i goal := by
  have hwf : ∀ (r : α) (k : ℕ), I (σ.state k) → rank (σ.state k) = r → σ.Reaches k goal := by
    intro r
    induction r using WellFoundedLT.induction with
    | ind r ih =>
      intro k hk hrank
      rcases h.falls_or_reaches hfair hk with hreach | ⟨m, hkm, hm, hlt⟩
      · exact hreach
      · exact (ih _ (hrank ▸ hlt) m hm rfl).later hkm
  exact hwf _ i hi rfl

end Progress
end SensorDataNormalization.FairRuns
