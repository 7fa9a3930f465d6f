import O2k.FraudDetector
import Mathlib.Logic.Function.Basic

set_option autoImplicit false

namespace O2k.FraudDetector
open MealyRun

variable {κ : Type} [DecidableEq κ]

structure Task (κ : Type) where
  clock : ℤ
  keys : κ → KeyState

/-- An event is for one key, and leaves the others alone; a function that has thrown ends the
    task for all of them. -/
def taskStep : Option (Task κ) → κ × Event → Option (Task κ) × List (κ × Handled)
  | none, (k, ev) => (none, (step none ev).2.map (Prod.mk k))
  | some task, (k, ev) =>
    let r := step (some ⟨task.clock, task.keys k⟩) ev
    (r.1.map fun op => ⟨op.clock, Function.update task.keys k op.key⟩, r.2.map (Prod.mk k))

def Task.start (clock : ℤ) : Option (Task κ) := some ⟨clock, fun _ => .empty⟩

structure Timed (st : KeyState) : Prop where
  paired : st.flagState.isSome = true ↔ st.timerState.isSome = true
  registered : ∀ timer, st.timerState = some timer → timer ∈ st.timers

theorem Timed.cleared (timers : Finset ℤ) : Timed ⟨none, none, timers⟩ where
  paired := by simp
  registered := by simp

theorem processElement_timed (now : ℤ) (transaction : Option Transaction) {st : KeyState}
    (h : Timed st) : ∃ st', (processElement now transaction st).1 = some st' ∧ Timed st' := by
  rcases processElement_cases now transaction st h.paired.mp with
    ⟨tx, timer, _, _, _, _, heq⟩ | ⟨tx, _, _, heq⟩ | ⟨_, heq⟩
  · exact ⟨_, by rw [heq], .cleared _⟩
  · refine ⟨_, by rw [heq], ⟨by simp, ?_⟩⟩
    intro timer htimer
    obtain rfl := Option.some.inj htimer
    exact Finset.mem_insert_self _ _
  · exact ⟨st, by rw [heq], h⟩

theorem step_timed (op : Operator) (h : Timed op.key) (ev : Event) :
    ∃ op', (step (some op) ev).1 = some op' ∧ Timed op'.key := by
  cases ev with
  | timer d => exact ⟨_, rfl, .cleared _⟩
  | element t transaction =>
    obtain ⟨st', heq, hst'⟩ := processElement_timed t transaction h
    refine ⟨⟨t, st'⟩, ?_, hst'⟩
    simp only [step, heq, Option.map_some]

def TimedTask (st : Option (Task κ)) : Prop :=
  ∃ task, st = some task ∧ ∀ k, Timed (task.keys k)

theorem taskStep_timed {st : Option (Task κ)} (h : TimedTask st) (ev : κ × Event) :
    TimedTask (taskStep st ev).1 := by
  obtain ⟨task, rfl, hkeys⟩ := h
  obtain ⟨k, ev⟩ := ev
  obtain ⟨op', heq, hop'⟩ := step_timed ⟨task.clock, task.keys k⟩ (hkeys k) ev
  refine ⟨⟨op'.clock, Function.update task.keys k op'.key⟩, by simp only [taskStep, heq,
    Option.map_some], ?_⟩
  intro k'
  by_cases hk : k' = k
  · subst hk
    simpa using hop'
  · simpa [Function.update_of_ne hk] using hkeys k'

theorem run_timed {st : Option (Task κ)} (h : TimedTask st) (evs : List (κ × Event)) :
    TimedTask (run taskStep st evs).1 := by
  induction evs generalizing st with
  | nil => exact h
  | cons ev evs ih => exact ih (taskStep_timed h ev)

/-- No run throws, and behind every set flag stands a registered timer. -/
theorem flags_timed (clock : ℤ) (evs : List (κ × Event)) :
    ∃ task : Task κ, (run taskStep (Task.start clock) evs).1 = some task ∧
      ∀ k, ((task.keys k).flagState.isSome = true ↔ (task.keys k).timerState.isSome = true) ∧
        ∀ timer, (task.keys k).timerState = some timer → timer ∈ (task.keys k).timers := by
  have hstart : TimedTask (Task.start clock : Option (Task κ)) :=
    ⟨_, rfl, fun _ => .cleared ∅⟩
  obtain ⟨task, heq, hkeys⟩ := run_timed hstart evs
  exact ⟨task, heq, fun k => ⟨(hkeys k).paired, (hkeys k).registered⟩⟩

end O2k.FraudDetector
