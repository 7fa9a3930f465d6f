import O2k.FraudDetector

set_option autoImplicit false

namespace O2k.FraudDetector
open GatedTrace JavaValues MealyRun

def SmallSince (us : List Handled) (s : ℤ) : Prop :=
  ∃ xs tx ys, us = xs ++ ⟨.element s (some tx), []⟩ :: ys ∧ Small tx ∧ ∀ e ∈ ys, e.alerts = []

def FraudPair (us : List Handled) (t : ℤ) : Prop :=
  ∃ s, SmallSince us s ∧ s ≤ t ∧ t < s + ONE_MINUTE

theorem smallSince_concat {us : List Handled} {e : Handled} {s : ℤ} :
    SmallSince (us ++ [e]) s ↔
      (∃ tx, e = ⟨.element s (some tx), []⟩ ∧ Small tx) ∨ (e.alerts = [] ∧ SmallSince us s) := by
  constructor
  · rintro ⟨xs, tx, ys, heq, hsmall, hquiet⟩
    rcases split_append heq with ⟨ws, rfl, rfl⟩ | ⟨ws, rfl, hws⟩
    · exact .inr ⟨hquiet e (by simp), xs, tx, ws, rfl, hsmall, fun x hx => hquiet x (by simp [hx])⟩
    · cases ws with
      | nil =>
        obtain ⟨rfl, _⟩ := List.cons.inj hws
        exact .inl ⟨tx, rfl, hsmall⟩
      | cons w ws => simp at hws
  · rintro (⟨tx, rfl, hsmall⟩ | ⟨hquiet, xs, tx, ys, rfl, hsmall, hys⟩)
    · exact ⟨us, tx, [], rfl, hsmall, by simp⟩
    · refine ⟨xs, tx, ys ++ [e], by simp, hsmall, ?_⟩
      intro x hx
      rcases List.mem_append.mp hx with hx | hx
      · exact hys x hx
      · rw [List.mem_singleton.mp hx]
        exact hquiet

/-- The flag stands for a small transaction that no alert has used, and its timer is registered. -/
def Watched (us : List Handled) (op : Operator) : Prop :=
  op.key.flagState.isSome = true → ∃ s, SmallSince us s ∧ s ≤ op.clock ∧
    op.key.timerState = some (s + ONE_MINUTE) ∧ s + ONE_MINUTE ∈ op.key.timers

inductive StepCase (op : Operator) : Event → Option Operator × List Handled → Prop where
  | alert (t : ℤ) (tx : Transaction) (timer : ℤ) (hlarge : Large tx)
      (hflag : op.key.flagState.isSome = true) (htimer : op.key.timerState = some timer) :
      StepCase op (.element t (some tx)) (some ⟨t, none, none, op.key.timers.erase timer⟩,
        [⟨.element t (some tx), [⟨tx.accountId⟩]⟩])
  | small (t : ℤ) (tx : Transaction) (hsmall : Small tx) :
      StepCase op (.element t (some tx))
        (some ⟨t, some true, some (t + ONE_MINUTE), insert (t + ONE_MINUTE) op.key.timers⟩,
          [⟨.element t (some tx), []⟩])
  | pass (t : ℤ) (transaction : Option Transaction)
      (hpass : ∀ tx, transaction = some tx →
        ¬ Small tx ∧ (Large tx → op.key.flagState = none)) :
      StepCase op (.element t transaction) (some ⟨t, op.key⟩, [⟨.element t transaction, []⟩])
  | timer (d : ℤ) :
      StepCase op (.timer d) (some ⟨max op.clock d, none, none, op.key.timers.erase d⟩,
        [⟨.timer d, []⟩])

theorem step_case {us : List Handled} {op : Operator} (hwatched : Watched us op) (ev : Event) :
    StepCase op ev (step (some op) ev) := by
  have hnull : op.key.flagState.isSome = true → op.key.timerState.isSome = true := by
    intro hflag
    obtain ⟨s, _, _, htimer, _⟩ := hwatched hflag
    rw [htimer]
    rfl
  cases ev with
  | timer d => exact .timer d
  | element t transaction =>
    rcases processElement_cases t transaction op.key hnull with
      ⟨tx, timer, rfl, hlarge, hflag, htimer, heq⟩ | ⟨tx, rfl, hsmall, heq⟩ | ⟨hpass, heq⟩
    · simp only [step, heq, Option.map_some]
      exact .alert t tx timer hlarge hflag htimer
    · simp only [step, heq, Option.map_some]
      exact .small t tx hsmall
    · simp only [step, heq, Option.map_some]
      exact .pass t transaction hpass

def TrueAlert (us : List Handled) (e : Handled) : Prop :=
  e.alerts ≠ [] → ∃ t tx, e.event = .element t (some tx) ∧ Large tx ∧
    e.alerts = [⟨tx.accountId⟩] ∧ FraudPair us t

def WatchedTask (us : List Handled) (st : Option Operator) : Prop :=
  ∃ op, st = some op ∧ Watched us op

theorem step_watched : KeepsHistory step Scheduled WatchedTask TrueAlert := by
  rintro us st ev ⟨op, rfl, hwatched⟩ hsched
  have hcase := step_case hwatched ev
  generalize step (some op) ev = r at hcase ⊢
  cases hcase with
  | alert t tx timer hlarge hflag htimer =>
    obtain ⟨s, hsince, hs, _, hmem⟩ := hwatched hflag
    obtain ⟨hclock, hdue⟩ := hsched
    refine ⟨⟨_, rfl, by simp [Watched]⟩, atEach_singleton.mpr ?_⟩
    intro _
    refine ⟨t, tx, rfl, hlarge, rfl, s, ?_, hs.trans hclock, hdue _ hmem⟩
    simpa using hsince
  | small t tx hsmall =>
    refine ⟨⟨_, rfl, ?_⟩, atEach_singleton.mpr (fun h => absurd rfl h)⟩
    intro _
    exact ⟨t, smallSince_concat.mpr (.inl ⟨tx, rfl, hsmall⟩), le_rfl, rfl, by simp⟩
  | pass t transaction hpass =>
    refine ⟨⟨_, rfl, ?_⟩, atEach_singleton.mpr (fun h => absurd rfl h)⟩
    intro hflag
    obtain ⟨s, hsince, hs, htimer, hmem⟩ := hwatched hflag
    exact ⟨s, smallSince_concat.mpr (.inr ⟨rfl, hsince⟩), hs.trans hsched.1, htimer, hmem⟩
  | timer d => exact ⟨⟨_, rfl, by simp [Watched]⟩, atEach_singleton.mpr (fun h => absurd rfl h)⟩

theorem start_watched (clock : ℤ) : WatchedTask [] (start clock) :=
  ⟨_, rfl, by simp [Watched, KeyState.empty]⟩

/-- No false alert, and no small transaction is used for two alerts. -/
theorem alerts_true (clock : ℤ) (evs : List Event)
    (hsched : Along step Scheduled (start clock) evs) :
    AtEach (fun us e _ => TrueAlert us e) (handled clock evs) :=
  step_watched.run (start clock) evs (start_watched clock) hsched

def transaction (amount : Double) : Transaction := ⟨1, 0, amount⟩

def smallThenLarge : List Event :=
  [.element 0 (some (transaction (.finite (1 / 10)))), .element 10 none,
    .element 59999 (some (transaction (.finite 501)))]

theorem alerts_true_smallThenLarge :
    AtEach (fun us e _ => TrueAlert us e) (handled 0 smallThenLarge) :=
  alerts_true 0 smallThenLarge (by decide +kernel)

/-- While the flag is set, only the timer that is remembered fires. -/
def OwnTimer : Option Operator → Event → Prop
  | some op, .timer d => op.key.flagState.isSome = true → op.key.timerState = some d
  | _, _ => True

instance : ∀ st ev, Decidable (OwnTimer st ev)
  | some _, .timer _ => inferInstanceAs (Decidable (_ → _))
  | some _, .element _ _ => .isTrue trivial
  | none, _ => .isTrue trivial

def Reported (us : List Handled) (e : Handled) : Prop :=
  ∀ t tx, e.event = .element t (some tx) → Large tx → FraudPair us t → e.alerts ≠ []

structure Guarded (us : List Handled) (op : Operator) : Prop where
  watched : Watched us op
  past : ∀ s, SmallSince us s → s ≤ op.clock
  live : ∀ s, SmallSince us s → op.clock < s + ONE_MINUTE →
    op.key.flagState.isSome = true ∧ ∃ d, op.key.timerState = some d ∧ s + ONE_MINUTE ≤ d

def GuardedTask (us : List Handled) (st : Option Operator) : Prop :=
  ∃ op, st = some op ∧ Guarded us op

theorem step_guarded :
    KeepsHistory step (fun st ev => Scheduled st ev ∧ OwnTimer st ev) GuardedTask Reported := by
  rintro us st ev ⟨op, rfl, hguard⟩ ⟨hsched, hown⟩
  have hnext := step_watched us (some op) ev ⟨op, rfl, hguard.watched⟩ hsched
  have hcase := step_case hguard.watched ev
  generalize step (some op) ev = r at hcase hnext ⊢
  obtain ⟨⟨op', hop', hwatched'⟩, _⟩ := hnext
  cases hcase with
  | alert t tx timer hlarge hflag htimer =>
    obtain rfl := Option.some.inj hop'
    have hnone : ∀ s, ¬ SmallSince (us ++ [⟨.element t (some tx), [⟨tx.accountId⟩]⟩]) s := by
      intro s hs
      rcases smallSince_concat.mp hs with ⟨_, heq, _⟩ | ⟨hquiet, _⟩
      · cases heq
      · cases hquiet
    refine ⟨⟨_, rfl, hwatched', ?_, ?_⟩, atEach_singleton.mpr ?_⟩
    · intro s hs
      exact absurd hs (hnone s)
    · intro s hs
      exact absurd hs (hnone s)
    · intro _ _ _ _ _
      exact List.cons_ne_nil _ _
  | small t tx hsmall =>
    obtain rfl := Option.some.inj hop'
    obtain ⟨hclock, _⟩ := hsched
    have hpast : ∀ s, SmallSince (us ++ [⟨.element t (some tx), []⟩]) s → s ≤ t := by
      intro s hs
      rcases smallSince_concat.mp hs with ⟨_, heq, _⟩ | ⟨_, hsince⟩
      · cases heq
        exact le_rfl
      · exact (hguard.past s hsince).trans hclock
    refine ⟨⟨_, rfl, hwatched', hpast, ?_⟩, atEach_singleton.mpr ?_⟩
    · intro s hs _
      have hle := hpast s hs
      exact ⟨rfl, t + ONE_MINUTE, rfl, by omega⟩
    · rintro _ _ ⟨⟩ hlarge _
      exact absurd hsmall hlarge.not_small
  | pass t transaction hpass =>
    obtain rfl := Option.some.inj hop'
    obtain ⟨hclock, _⟩ := hsched
    have hsince : ∀ s, SmallSince (us ++ [⟨.element t transaction, []⟩]) s → SmallSince us s := by
      intro s hs
      rcases smallSince_concat.mp hs with ⟨tx, heq, hsmall⟩ | ⟨_, hsince⟩
      · cases heq
        exact absurd hsmall (hpass tx rfl).1
      · exact hsince
    refine ⟨⟨_, rfl, hwatched', ?_, ?_⟩, atEach_singleton.mpr ?_⟩
    · intro s hs
      exact (hguard.past s (hsince s hs)).trans hclock
    · intro s hs hlive
      exact hguard.live s (hsince s hs) (lt_of_le_of_lt hclock hlive)
    · rintro t' tx heq hlarge ⟨s, hs, _, hlive⟩
      cases heq
      rw [List.append_nil] at hs
      have hflag := (hguard.live s hs (lt_of_le_of_lt hclock hlive)).1
      rw [(hpass tx rfl).2 hlarge] at hflag
      cases hflag
  | timer d =>
    obtain rfl := Option.some.inj hop'
    have hsince : ∀ s, SmallSince (us ++ [⟨.timer d, []⟩]) s → SmallSince us s := by
      intro s hs
      rcases smallSince_concat.mp hs with ⟨_, heq, _⟩ | ⟨_, hsince⟩
      · cases heq
      · exact hsince
    refine ⟨⟨_, rfl, hwatched', ?_, ?_⟩, atEach_singleton.mpr ?_⟩
    · intro s hs
      exact (hguard.past s (hsince s hs)).trans (le_max_left _ _)
    · -- the timer that clears the flag ends the minute of every small transaction in play
      intro s hs hlive
      dsimp only at hlive
      obtain ⟨hflag, d', htimer, hle⟩ := hguard.live s (hsince s hs) (by omega)
      obtain rfl := Option.some.inj (htimer.symm.trans (hown hflag))
      omega
    · intro t tx heq
      cases heq

theorem start_guarded (clock : ℤ) : GuardedTask [] (start clock) := by
  have hempty : ∀ s, ¬ SmallSince [] s := by
    rintro s ⟨xs, tx, ys, heq, _⟩
    simp at heq
  exact ⟨_, rfl, by simp [Watched, KeyState.empty], fun s hs => absurd hs (hempty s),
    fun s hs => absurd hs (hempty s)⟩

/-- No fraud pair is missed in a run in which no timer but the remembered one fires while the flag
    is set. -/
theorem pairs_reported (clock : ℤ) (evs : List Event)
    (hsched : Along step Scheduled (start clock) evs)
    (hown : Along step OwnTimer (start clock) evs) :
    AtEach (fun us e _ => Reported us e) (handled clock evs) :=
  step_guarded.run (start clock) evs (start_guarded clock) (hsched.and hown)

theorem pairs_reported_smallThenLarge :
    AtEach (fun us e _ => Reported us e) (handled 0 smallThenLarge) :=
  pairs_reported 0 smallThenLarge (by decide +kernel) (by decide +kernel)

def twoSmallThenLarge : List Event :=
  [.element 0 (some (transaction (.finite (1 / 10)))),
    .element 30000 (some (transaction (.finite (2 / 10)))), .timer 60000,
    .element 70000 (some (transaction (.finite 501)))]

theorem twoSmallThenLarge_missed :
    Along step Scheduled (start 0) twoSmallThenLarge ∧
      ¬ AtEach (fun us e _ => Reported us e) (handled 0 twoSmallThenLarge) := by
  refine ⟨by decide +kernel, ?_⟩
  intro h
  have hmissed : (⟨.element 70000 (some (transaction (.finite 501))), []⟩ : Handled).alerts ≠ [] := by
    refine h [⟨.element 0 (some (transaction (.finite (1 / 10)))), []⟩,
      ⟨.element 30000 (some (transaction (.finite (2 / 10)))), []⟩, ⟨.timer 60000, []⟩] _ []
      (by decide +kernel) 70000 (transaction (.finite 501)) rfl (by decide +kernel) ?_
    refine ⟨30000, ⟨[⟨.element 0 (some (transaction (.finite (1 / 10)))), []⟩],
      transaction (.finite (2 / 10)), [⟨.timer 60000, []⟩], rfl, by decide +kernel, ?_⟩,
      by decide, by decide⟩
    simp
  exact hmissed rfl

end O2k.FraudDetector
