import Mathlib.Logic.Function.Basic

set_option autoImplicit false

/-! Straight-line programs over a store shared by several threads. A program may
read and write cells, publish the content of a cell, and hand a cell over to
another owner. `Safe` says that a program cannot fail and that what it publishes
and hands over is as specified; it depends on the cells the program touches only. -/
namespace SensorDataNormalization.StoreProgram

variable {P V E G : Type}

abbrev Store (P V : Type) := P → Option V

inductive Op (P V E G : Type)
  | put (cell : P) (value : V)
  | derive (source target : P) (f : V → Option V → V)
  | erase (cell : P)
  | emit (source : P) (event : E)
  | give (cell : P) (message : G)
  | fail

def Op.touches : Op P V E G → List P
  | .put cell _ => [cell]
  | .derive source target _ => [source, target]
  | .erase cell => [cell]
  | .emit source _ => [source]
  | .give cell _ => [cell]
  | .fail => []

def touches (program : List (Op P V E G)) : List P := program.flatMap Op.touches

theorem touches_cons (op : Op P V E G) (ops : List (Op P V E G)) :
    touches (op :: ops) = op.touches ++ touches ops := rfl

/-- What a step makes visible to others. -/
inductive Output (V E G : Type)
  | silent
  | published (event : E) (value : V)
  | given (message : G)

section Execution
variable [DecidableEq P]

def Op.exec : Op P V E G → Store P V → Option (Store P V × Output V E G)
  | .put cell value, m => some (Function.update m cell (some value), .silent)
  | .derive source target f, m =>
    (m source).map (fun v => (Function.update m target (some (f v (m target))), .silent))
  | .erase cell, m => some (Function.update m cell none, .silent)
  | .emit source event, m => (m source).map (fun v => (m, .published event v))
  | .give _ message, m => some (m, .given message)
  | .fail, _ => none

def run : List (Op P V E G) → Store P V → Option (Store P V)
  | [], m => some m
  | op :: ops, m => (op.exec m).bind (fun r => run ops r.1)

theorem run_append (ops ops' : List (Op P V E G)) (m : Store P V) :
    run (ops ++ ops') m = (run ops m).bind (run ops') := by
  induction ops generalizing m with
  | nil => rfl
  | cons op ops ih =>
    rw [List.cons_append, run, run, Option.bind_assoc]
    exact congrArg (Option.bind (op.exec m)) (funext fun r => ih r.1)

/-- A step changes no cell that it does not touch. -/
theorem Op.exec_frame {op : Op P V E G} {m m' : Store P V} {out : Output V E G}
    (h : op.exec m = some (m', out)) {cell : P} (hc : cell ∉ op.touches) : m' cell = m cell := by
  cases op with
  | put target value =>
    cases h
    exact Function.update_of_ne (by simpa [Op.touches] using hc) _ _
  | derive source target f =>
    simp only [Op.exec, Option.map_eq_some_iff] at h
    obtain ⟨v, _, hv⟩ := h
    cases hv
    simp only [Op.touches, List.mem_cons, List.not_mem_nil, or_false, not_or] at hc
    exact Function.update_of_ne hc.2 _ _
  | erase target =>
    cases h
    exact Function.update_of_ne (by simpa [Op.touches] using hc) _ _
  | emit source event =>
    simp only [Op.exec, Option.map_eq_some_iff] at h
    obtain ⟨v, _, hv⟩ := h
    cases hv
    rfl
  | give target message =>
    cases h
    rfl
  | fail => cases h

/-- An operation that others see nothing of. -/
def Op.Silent : Op P V E G → Prop
  | .put _ _ => True
  | .derive _ _ _ => True
  | .erase _ => True
  | _ => False

theorem Op.exec_shows {op : Op P V E G} {m m' : Store P V} {out : Output V E G}
    (h : op.exec m = some (m', out)) : (op.Silent ∧ out = .silent) ∨
      (∃ source event value, op = .emit source event ∧ out = .published event value) ∨
      ∃ cell message, op = .give cell message ∧ out = .given message := by
  cases op with
  | put =>
    cases h
    exact Or.inl ⟨trivial, rfl⟩
  | derive source target f =>
    obtain ⟨v, -, hv⟩ := Option.map_eq_some_iff.mp h
    cases hv
    exact Or.inl ⟨trivial, rfl⟩
  | erase =>
    cases h
    exact Or.inl ⟨trivial, rfl⟩
  | emit source event =>
    obtain ⟨v, -, hv⟩ := Option.map_eq_some_iff.mp h
    cases hv
    exact Or.inr (Or.inl ⟨source, event, v, rfl, rfl⟩)
  | give cell message =>
    cases h
    exact Or.inr (Or.inr ⟨cell, message, rfl, rfl⟩)
  | fail => cases h

theorem Op.exec_given {op : Op P V E G} {m m' : Store P V} {message : G}
    (h : op.exec m = some (m', .given message)) : ∃ cell, op = .give cell message := by
  rcases Op.exec_shows h with ⟨-, hout⟩ | ⟨source, event, value, -, hout⟩ |
    ⟨cell, message', hop, hout⟩
  · cases hout
  · cases hout
  · cases hout
    exact ⟨cell, hop⟩

theorem update_agree {m n : Store P V} {target cell : P} {v w : Option V} (hvw : v = w)
    (h : m cell = n cell) : Function.update m target v cell = Function.update n target w cell := by
  by_cases hc : cell = target
  · rw [hc, Function.update_self, Function.update_self, hvw]
  · rw [Function.update_of_ne hc, Function.update_of_ne hc, h]

/-- Stores that agree on the touched cells take the same step, and keep agreeing. -/
theorem Op.exec_congr {op : Op P V E G} {m n m' : Store P V} {out : Output V E G}
    (h : op.exec m = some (m', out)) (hagree : ∀ cell ∈ op.touches, m cell = n cell) :
    ∃ n', op.exec n = some (n', out) ∧ ∀ cell, m cell = n cell → m' cell = n' cell := by
  cases op with
  | put target value =>
    cases h
    exact ⟨_, rfl, fun _ hc => update_agree rfl hc⟩
  | derive source target f =>
    simp only [Op.exec, Option.map_eq_some_iff] at h
    obtain ⟨v, hs, hv⟩ := h
    cases hv
    have hsource : n source = some v := by rw [← hagree source (by simp [Op.touches]), hs]
    have htarget : m target = n target := hagree target (by simp [Op.touches])
    refine ⟨Function.update n target (some (f v (n target))), ?_, fun _ hc => ?_⟩
    · rw [Op.exec, hsource]
      rfl
    · exact update_agree (by rw [htarget]) hc
  | erase target =>
    cases h
    exact ⟨_, rfl, fun _ hc => update_agree rfl hc⟩
  | emit source event =>
    simp only [Op.exec, Option.map_eq_some_iff] at h
    obtain ⟨v, hs, hv⟩ := h
    cases hv
    refine ⟨n, ?_, fun _ hc => hc⟩
    rw [Op.exec, ← hagree source (by simp [Op.touches]), hs]
    rfl
  | give target message =>
    cases h
    exact ⟨n, rfl, fun _ hc => hc⟩
  | fail => cases h

/-- A specification of what a program may publish, and of what the cells that it
hands over must contain. -/
structure Spec (V E G : Type) where
  published : E → V → Prop
  given : G → V → Prop

/-- The program neither fails nor breaks the specification, and touches a cell that
it has handed over never again. -/
def Safe (spec : Spec V E G) : List (Op P V E G) → Store P V → Prop
  | [], _ => True
  | op :: ops, m => ∃ m' out, op.exec m = some (m', out) ∧
      (∀ event value, out = .published event value → spec.published event value) ∧
      (∀ cell message, op = .give cell message →
        cell ∉ touches ops ∧ ∃ value, m cell = some value ∧ spec.given message value) ∧
      Safe spec ops m'

theorem Safe.congr {spec : Spec V E G} {ops : List (Op P V E G)} {m n : Store P V}
    (h : Safe spec ops m) (hagree : ∀ cell ∈ touches ops, m cell = n cell) : Safe spec ops n := by
  induction ops generalizing m n with
  | nil => trivial
  | cons op ops ih =>
    obtain ⟨m', out, hexec, hpub, hgive, hrest⟩ := h
    have hop : ∀ cell ∈ op.touches, m cell = n cell :=
      fun cell hc => hagree cell (List.mem_append_left _ hc)
    obtain ⟨n', hexec', hkeep⟩ := Op.exec_congr hexec hop
    refine ⟨n', out, hexec', hpub, ?_, ih hrest (fun cell hc => hkeep cell ?_)⟩
    · intro cell message hm
      obtain ⟨hfree, value, hv, hs⟩ := hgive cell message hm
      have hcell : m cell = n cell := hop cell (by rw [hm]; simp [Op.touches])
      exact ⟨hfree, value, by rw [← hcell, hv], hs⟩
    · exact hagree cell (List.mem_append_right _ hc)

section Rules
variable {spec : Spec V E G} {ops : List (Op P V E G)} {m : Store P V}

theorem safe_put {cell : P} {value : V} (h : Safe spec ops (Function.update m cell (some value))) :
    Safe spec (.put cell value :: ops) m :=
  ⟨_, _, rfl, by simp, by simp, h⟩

theorem safe_derive {source target : P} {f : V → Option V → V} {v : V} (hs : m source = some v)
    (h : Safe spec ops (Function.update m target (some (f v (m target))))) :
    Safe spec (.derive source target f :: ops) m :=
  ⟨_, .silent, by rw [Op.exec, hs]; rfl, by simp, by simp, h⟩

theorem safe_erase {cell : P} (h : Safe spec ops (Function.update m cell none)) :
    Safe spec (.erase cell :: ops) m :=
  ⟨_, _, rfl, by simp, by simp, h⟩

theorem safe_emit {source : P} {event : E} {v : V} (hs : m source = some v)
    (hp : spec.published event v) (h : Safe spec ops m) :
    Safe spec (.emit source event :: ops) m := by
  refine ⟨m, .published event v, by rw [Op.exec, hs]; rfl, ?_, by simp, h⟩
  intro event' value' he
  cases he
  exact hp

theorem safe_give {cell : P} {message : G} {v : V} (hs : m cell = some v)
    (hg : spec.given message v) (hfree : cell ∉ touches ops) (h : Safe spec ops m) :
    Safe spec (.give cell message :: ops) m := by
  refine ⟨m, .given message, rfl, by simp, ?_, h⟩
  intro cell' message' he
  cases he
  exact ⟨hfree, v, hs, hg⟩

theorem safe_silent {prefixOps : List (Op P V E G)} {m' : Store P V}
    (hsilent : ∀ op ∈ prefixOps, op.Silent) (hrun : run prefixOps m = some m')
    (h : Safe spec ops m') : Safe spec (prefixOps ++ ops) m := by
  induction prefixOps generalizing m with
  | nil =>
    cases hrun
    exact h
  | cons op rest ih =>
    have hrest : ∀ op ∈ rest, op.Silent := fun op hop => hsilent op (List.mem_cons_of_mem _ hop)
    have hop := hsilent op List.mem_cons_self
    obtain ⟨⟨m₁, out⟩, hexec, hrun⟩ := Option.bind_eq_some_iff.mp hrun
    have htail := ih hrest hrun
    cases op with
    | put cell value =>
      cases hexec
      exact safe_put htail
    | derive source target f =>
      simp only [Op.exec, Option.map_eq_some_iff] at hexec
      obtain ⟨v, hs, hv⟩ := hexec
      cases hv
      exact safe_derive hs htail
    | erase cell =>
      cases hexec
      exact safe_erase htail
    | emit source event => exact hop.elim
    | give cell message => exact hop.elim
    | fail => exact hop.elim

/-- What a step of a safe program shows, and that the rest is safe. -/
theorem Safe.step {op : Op P V E G} (h : Safe spec (op :: ops) m) {m' : Store P V}
    {out : Output V E G} (hexec : op.exec m = some (m', out)) :
    (∀ event value, out = .published event value → spec.published event value) ∧
      (∀ cell message, op = .give cell message →
        cell ∉ touches ops ∧ ∃ value, m cell = some value ∧ spec.given message value) ∧
      Safe spec ops m' := by
  obtain ⟨m₁, out₁, hexec₁, hpub, hgive, hrest⟩ := h
  rw [hexec] at hexec₁
  cases hexec₁
  exact ⟨hpub, hgive, hrest⟩

theorem Safe.runs {op : Op P V E G} (h : Safe spec (op :: ops) m) : op.exec m ≠ none := by
  obtain ⟨m₁, out₁, hexec₁, -⟩ := h
  rw [hexec₁]
  exact Option.some_ne_none _

end Rules

/-! ## Writes from left to right -/

def writeAll (m : Store P V) (writes : List (P × V)) : Store P V :=
  writes.foldl (fun m w => Function.update m w.1 (some w.2)) m

section Writes
variable {m : Store P V} {cell : P}

theorem writeAll_append (m : Store P V) (before after : List (P × V)) :
    writeAll m (before ++ after) = writeAll (writeAll m before) after :=
  List.foldl_append

theorem writeAll_other {writes : List (P × V)} (h : cell ∉ writes.map Prod.fst) :
    writeAll m writes cell = m cell := by
  induction writes generalizing m with
  | nil => rfl
  | cons w writes ih =>
    rw [List.map_cons, List.mem_cons, not_or] at h
    exact (ih h.2).trans (Function.update_of_ne h.1 _ _)

theorem writeAll_last {before after : List (P × V)} {v : V} (h : cell ∉ after.map Prod.fst) :
    writeAll m (before ++ (cell, v) :: after) cell = some v := by
  rw [writeAll_append]
  exact (writeAll_other h).trans (Function.update_self _ _ _)

end Writes

end Execution
end SensorDataNormalization.StoreProgram
