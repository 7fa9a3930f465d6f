import O2k.FraudTimers
import O2k.RunRefinement

set_option autoImplicit false

namespace O2k.FraudDetector
open JavaValues MealyRun RunRefinement

section Part

variable {κ α β : Type} [DecidableEq κ]

def part (k : κ) (xs : List (κ × α)) : List α :=
  xs.filterMap fun x => if x.1 = k then some x.2 else none

theorem part_map (f : α → β) (k : κ) (xs : List (κ × α)) :
    part k (xs.map fun x => (x.1, f x.2)) = (part k xs).map f := by
  unfold part
  rw [List.filterMap_map, List.map_filterMap]
  refine List.filterMap_congr fun x _ => ?_
  by_cases hk : x.1 = k
  · simp [hk]
  · simp [hk]

theorem part_pairs_self (k : κ) (xs : List α) : part k (xs.map (Prod.mk k)) = xs := by
  unfold part
  rw [List.filterMap_map]
  simp

theorem part_pairs_of_ne {k k' : κ} (h : k' ≠ k) (xs : List α) :
    part k (xs.map (Prod.mk k')) = [] := by
  unfold part
  rw [List.filterMap_map]
  simp [h]

end Part

theorem step_event (st : Option Operator) (ev : Event) :
    (step st ev).2.map Handled.event = [ev] := by
  cases st with
  | none => rfl
  | some op => cases ev <;> rfl

theorem run_events (st : Option Operator) (evs : List Event) :
    (run step st evs).2.map Handled.event = evs := by
  induction evs generalizing st with
  | nil => rfl
  | cons ev evs ih => rw [run_cons, List.map_append, step_event, ih, List.singleton_append]

theorem step_clock (c c' : ℤ) (st : KeyState) (ev : Event) :
    (step (some ⟨c, st⟩) ev).2 = (step (some ⟨c', st⟩) ev).2 ∧
      (step (some ⟨c, st⟩) ev).1.map Operator.key = (step (some ⟨c', st⟩) ev).1.map Operator.key := by
  cases ev with
  | element t transaction => exact ⟨rfl, rfl⟩
  | timer d => exact ⟨rfl, rfl⟩

theorem step_clock_mono {c c' : ℤ} (h : c ≤ c') {st : KeyState} {ev : Event} {op op' : Operator}
    (hop : (step (some ⟨c, st⟩) ev).1 = some op) (hop' : (step (some ⟨c', st⟩) ev).1 = some op') :
    op.clock ≤ op'.clock := by
  cases ev with
  | element t transaction =>
    obtain ⟨_, _, rfl⟩ := Option.map_eq_some_iff.mp hop
    obtain ⟨_, _, rfl⟩ := Option.map_eq_some_iff.mp hop'
    exact le_rfl
  | timer d =>
    cases hop
    cases hop'
    exact max_le_max_right d h

variable {κ : Type} [DecidableEq κ]

theorem taskStep_event (st : Option (Task κ)) (ev : κ × Event) :
    (taskStep st ev).2.map (fun x => (x.1, x.2.event)) = [ev] := by
  obtain ⟨k, ev⟩ := ev
  have hmap : ∀ hs : List Handled,
      (hs.map (Prod.mk k)).map (fun x => (x.1, x.2.event)) = (hs.map Handled.event).map (Prod.mk k) := by
    intro hs
    rw [List.map_map, List.map_map]
    rfl
  cases st with
  | none => exact (hmap _).trans (by rw [step_event]; rfl)
  | some task => exact (hmap _).trans (by rw [step_event]; rfl)

theorem taskRun_events (st : Option (Task κ)) (evs : List (κ × Event)) :
    (run taskStep st evs).2.map (fun x => (x.1, x.2.event)) = evs := by
  induction evs generalizing st with
  | nil => rfl
  | cons ev evs ih => rw [run_cons, List.map_append, taskStep_event, ih, List.singleton_append]

def TaskScheduled (st : Option (Task κ)) (ev : κ × Event) : Prop :=
  Scheduled (st.map fun task => ⟨task.clock, task.keys ev.1⟩) ev.2

instance (st : Option (Task κ)) (ev : κ × Event) : Decidable (TaskScheduled st ev) :=
  inferInstanceAs (Decidable (Scheduled _ _))

def Serves (k : κ) (st : Option (Task κ)) (op : Option Operator) : Prop :=
  ∃ task c, st = some task ∧ op = some ⟨c, task.keys k⟩ ∧ c ≤ task.clock ∧
    ∀ k', Timed (task.keys k')

omit [DecidableEq κ] in
theorem serves_start (k : κ) (clock : ℤ) : Serves k (Task.start clock) (start clock) :=
  ⟨_, clock, rfl, rfl, le_rfl, fun _ => .cleared ∅⟩

theorem Scheduled.earlier {c c' : ℤ} (h : c ≤ c') {st : KeyState} {ev : Event}
    (hsched : Scheduled (some ⟨c', st⟩) ev) : Scheduled (some ⟨c, st⟩) ev := by
  cases ev with
  | element t transaction => exact ⟨h.trans hsched.1, hsched.2⟩
  | timer d => exact hsched

theorem Scheduled.clock_le {op op' : Operator} {ev : Event} (h : Scheduled (some op) ev)
    (hop' : (step (some op) ev).1 = some op') : op.clock ≤ op'.clock := by
  cases ev with
  | element t transaction =>
    obtain ⟨_, _, rfl⟩ := Option.map_eq_some_iff.mp hop'
    exact h.1
  | timer d =>
    cases hop'
    exact le_max_left _ _

/-- An event of the account is one step of its machine, and an event of another is none. -/
theorem task_refines (k : κ) :
    Refines taskStep TaskScheduled step Scheduled (Serves k)
      fun x => if x.1 = k then some x.2 else none := by
  rintro _ _ ⟨k', ev⟩ ⟨task, c, rfl, rfl, hclock, hkeys⟩ hsched
  obtain ⟨op', hop', _⟩ := step_timed ⟨task.clock, task.keys k'⟩ (hkeys k') ev
  have htask : (taskStep (some task) (k', ev)).1 =
      some ⟨op'.clock, Function.update task.keys k' op'.key⟩ := by
    simp only [taskStep, hop', Option.map_some]
  have htimed : ∀ k'', Timed ((Function.update task.keys k' op'.key) k'') := by
    obtain ⟨_, heq, hkeys'⟩ := taskStep_timed ⟨task, rfl, hkeys⟩ (k', ev)
    cases htask.symm.trans heq
    exact hkeys'
  have hlater : task.clock ≤ op'.clock := hsched.clock_le hop'
  by_cases hk : k' = k
  · subst hk
    obtain ⟨hout, hkey⟩ := step_clock c task.clock (task.keys k') ev
    obtain ⟨opc, hopc, _⟩ := step_timed ⟨c, task.keys k'⟩ (hkeys k') ev
    have hsame : opc.key = op'.key := by
      rw [hopc, hop'] at hkey
      exact Option.some.inj hkey
    refine ⟨[ev], (along_singleton _ _).mpr (hsched.earlier hclock), ?_, ?_⟩
    · rw [run_singleton, htask, hopc]
      refine ⟨_, opc.clock, rfl, ?_, step_clock_mono hclock hopc hop', htimed⟩
      change some opc = some ⟨opc.clock, Function.update task.keys k' op'.key k'⟩
      rw [Function.update_self, ← hsame]
    · rw [run_singleton, hout]
      exact part_pairs_self k' _
  · refine ⟨[], trivial, ?_, part_pairs_of_ne hk _⟩
    rw [htask]
    refine ⟨_, c, rfl, ?_, hclock.trans hlater, htimed⟩
    change some _ = some (⟨c, Function.update task.keys k' op'.key k⟩ : Operator)
    rw [Function.update_of_ne (Ne.symm hk)]

theorem account_run (clock : ℤ) (evs : List (κ × Event))
    (hsched : Along taskStep TaskScheduled (Task.start clock) evs) (k : κ) :
    Along step Scheduled (start clock) (part k evs) ∧
      Serves k (run taskStep (Task.start clock) evs).1 (run step (start clock) (part k evs)).1 ∧
      part k (run taskStep (Task.start clock) evs).2 = handled clock (part k evs) := by
  obtain ⟨js, hjs, hserves, hout⟩ := (task_refines k).run (serves_start k clock) hsched
  have hevents : js = part k evs := by
    calc
      js = ((run step (start clock) js).2).map Handled.event := (run_events _ js).symm
      _ = (part k (run taskStep (Task.start clock) evs).2).map Handled.event := by
        rw [← hout]
        rfl
      _ = part k ((run taskStep (Task.start clock) evs).2.map fun x => (x.1, x.2.event)) :=
        (part_map Handled.event k _).symm
      _ = part k evs := by rw [taskRun_events]
  subst hevents
  exact ⟨hjs, hserves, hout⟩

/-- An account in a task lives as if it were alone: Flink's order of all events is one of its own,
    and what comes of them is what its machine makes of them. -/
theorem accounts_apart (clock : ℤ) (evs : List (κ × Event))
    (hsched : Along taskStep TaskScheduled (Task.start clock) evs) (k : κ) :
    Along step Scheduled (start clock) (part k evs) ∧
      part k (run taskStep (Task.start clock) evs).2 = handled clock (part k evs) ∧
      ((run taskStep (Task.start clock) evs).1.map fun task => task.keys k) =
        (run step (start clock) (part k evs)).1.map Operator.key := by
  obtain ⟨halong, ⟨task, c, htask, hop, _⟩, hout⟩ := account_run clock evs hsched k
  refine ⟨halong, hout, ?_⟩
  rw [htask, hop]
  rfl

def twoAccounts : List (Bool × Event) :=
  [(true, .element 0 (some ⟨1, 0, .finite (1 / 10)⟩)),
    (false, .element 5 (some ⟨2, 0, .finite (2 / 10)⟩)), (true, .timer 60000),
    (false, .element 60001 (some ⟨2, 0, .finite 501⟩)),
    (true, .element 60002 (some ⟨1, 0, .finite 501⟩))]

theorem accounts_apart_twoAccounts :
    Along step Scheduled (start 0) (part false twoAccounts) ∧
      part false (run taskStep (Task.start 0) twoAccounts).2 =
        handled 0 (part false twoAccounts) ∧
      ((run taskStep (Task.start 0) twoAccounts).1.map fun task => task.keys false) =
        (run step (start 0) (part false twoAccounts)).1.map Operator.key :=
  accounts_apart 0 twoAccounts (by decide +kernel) false

end O2k.FraudDetector
