import O2k.FraudAccounts
import Mathlib.Data.Finset.Filter

set_option autoImplicit false

namespace O2k.FraudDetector
open JavaValues MealyRun RunRefinement

structure Watch where
  armed : Option ℤ
  pending : Finset ℤ
  deriving DecidableEq

def Watch.off : Watch := ⟨none, ∅⟩

/-- Any deadline that has come disarms the watch, also one that it does not go by. -/
def Watch.expire (t : ℤ) (w : Watch) : Watch :=
  if ∃ d ∈ w.pending, d ≤ t then ⟨none, w.pending.filter (t < ·)⟩ else w

/-- A large transaction ends an armed watch, and only the deadline that it goes by. -/
def Watch.take (t : ℤ) (tx : Transaction) (w : Watch) : Watch :=
  if Large tx then
    match w.armed with
    | some d => ⟨none, w.pending.erase d⟩
    | none => w
  else if Small tx then ⟨some (t + ONE_MINUTE), insert (t + ONE_MINUTE) w.pending⟩
  else w

def Watch.alerts (tx : Transaction) (w : Watch) : List Alert :=
  if w.armed.isSome ∧ Large tx then [⟨tx.accountId⟩] else []

def watchStep (w : Watch) : ℤ × Option Transaction → Watch × List Handled
  | (t, none) => (w, [⟨.element t none, []⟩])
  | (t, some tx) =>
    ((w.expire t).take t tx, [⟨.element t (some tx), (w.expire t).alerts tx⟩])

def watchOf (st : KeyState) : Watch := ⟨st.timerState, st.timers⟩

def elementOf (h : Handled) : Option Handled :=
  match h.event with
  | .element _ _ => some h
  | .timer _ => none

def elements (evs : List Event) : List (ℤ × Option Transaction) :=
  evs.filterMap fun
    | .element t transaction => some (t, transaction)
    | .timer _ => none

theorem Watch.expire_of_later {t : ℤ} {w : Watch} (h : ∀ d ∈ w.pending, t < d) :
    w.expire t = w := by
  have hnone : ¬ ∃ d ∈ w.pending, d ≤ t := by
    rintro ⟨d, hd, hle⟩
    exact absurd (h d hd) (not_lt.mpr hle)
  exact if_neg hnone

/-- Nothing that comes later shows whether a deadline was called back or found. -/
theorem Watch.expire_fired {t d : ℤ} {w : Watch} (hd : d ∈ w.pending) (ht : d ≤ t) :
    (Watch.mk none (w.pending.erase d)).expire t = w.expire t := by
  have hcome : w.expire t = ⟨none, w.pending.filter (t < ·)⟩ := if_pos ⟨d, hd, ht⟩
  have hfilter : (w.pending.erase d).filter (t < ·) = w.pending.filter (t < ·) := by
    ext e
    simp only [Finset.mem_filter, Finset.mem_erase]
    constructor
    · rintro ⟨⟨_, he⟩, hlt⟩
      exact ⟨he, hlt⟩
    · rintro ⟨he, hlt⟩
      exact ⟨⟨by omega, he⟩, hlt⟩
  rw [hcome, ← hfilter]
  by_cases hmore : ∃ e ∈ w.pending.erase d, e ≤ t
  · exact if_pos hmore
  · have hall : ∀ e ∈ w.pending.erase d, t < e := fun e he => not_le.mp fun hle => hmore ⟨e, he, hle⟩
    rw [Finset.filter_true_of_mem hall]
    exact if_neg hmore

def Stands (st : Option Operator) (w : Watch) : Prop :=
  ∃ op, st = some op ∧ Timed op.key ∧
    ∀ t, op.clock ≤ t → w.expire t = (watchOf op.key).expire t

theorem stands_start (clock : ℤ) : Stands (start clock) Watch.off :=
  ⟨_, rfl, .cleared ∅, fun _ _ => rfl⟩

theorem processElement_take (t : ℤ) (tx : Transaction) {st : KeyState} (h : Timed st) :
    ∃ st', processElement t (some tx) st = (some st', (watchOf st).alerts tx) ∧ Timed st' ∧
      watchOf st' = (watchOf st).take t tx := by
  obtain ⟨st', heq, htimed⟩ := processElement_timed t (some tx) h
  rcases processElement_cases t (some tx) st h.paired.mp with
    ⟨_, timer, ⟨⟩, hlarge, hflag, htimer, hcase⟩ | ⟨_, ⟨⟩, hsmall, hcase⟩ | ⟨hpass, hcase⟩
  · refine ⟨st', ?_, htimed, ?_⟩
    · rw [hcase] at heq ⊢
      cases heq
      simp [watchOf, Watch.alerts, htimer, hlarge]
    · rw [hcase] at heq
      cases heq
      simp [watchOf, Watch.take, htimer, hlarge]
  · have hlarge : ¬ Large tx := fun hlarge => hlarge.not_small hsmall
    refine ⟨st', ?_, htimed, ?_⟩
    · rw [hcase] at heq ⊢
      cases heq
      simp [Watch.alerts, hlarge]
    · rw [hcase] at heq
      cases heq
      simp [watchOf, Watch.take, hlarge, hsmall]
  · obtain ⟨hsmall, hunflagged⟩ := hpass tx rfl
    have hunarmed : Large tx → st.timerState = none := by
      intro hlarge
      have hnot : ¬ st.timerState.isSome = true := by
        rw [← h.paired, hunflagged hlarge]
        simp
      simpa using hnot
    refine ⟨st', ?_, htimed, ?_⟩
    · rw [hcase] at heq ⊢
      cases heq
      by_cases hlarge : Large tx
      · simp [watchOf, Watch.alerts, hunarmed hlarge]
      · simp [Watch.alerts, hlarge]
    · rw [hcase] at heq
      cases heq
      by_cases hlarge : Large tx
      · simp [watchOf, Watch.take, hlarge, hunarmed hlarge]
      · simp [Watch.take, hlarge, hsmall]

theorem step_refines_watch :
    Refines step Scheduled watchStep (fun _ _ => True) Stands elementOf := by
  rintro _ w ev ⟨op, rfl, htimed, hlook⟩ hsched
  cases ev with
  | element t transaction =>
    obtain ⟨hclock, hdue⟩ := hsched
    refine ⟨[(t, transaction)], (along_singleton _ _).mpr trivial, ?_⟩
    rw [run_singleton]
    cases transaction with
    | none =>
      exact ⟨⟨⟨t, op.key⟩, rfl, htimed, fun t' ht' => hlook t' (hclock.trans ht')⟩, rfl⟩
    | some tx =>
      have hnow : w.expire t = watchOf op.key :=
        (hlook t hclock).trans (Watch.expire_of_later hdue)
      obtain ⟨st', heq, htimed', hwatch⟩ := processElement_take t tx htimed
      simp only [step, heq, Option.map_some, watchStep, hnow, ← hwatch]
      exact ⟨⟨_, rfl, htimed', fun _ _ => rfl⟩, rfl⟩
  | timer d =>
    refine ⟨[], trivial, ⟨_, rfl, .cleared _, ?_⟩, rfl⟩
    intro t ht
    have hwatch : (watchOf op.key).expire t = (watchOf (onTimer d op.key)).expire t :=
      (Watch.expire_fired (w := watchOf op.key) hsched ((le_max_right _ _).trans ht)).symm
    exact (hlook t ((le_max_left _ _).trans ht)).trans hwatch

theorem watchRun_elements (w : Watch) (es : List (ℤ × Option Transaction)) :
    elements ((run watchStep w es).2.map Handled.event) = es := by
  induction es generalizing w with
  | nil => rfl
  | cons e es ih =>
    obtain ⟨t, transaction⟩ := e
    rw [run_cons]
    cases transaction with
    | none => exact congrArg _ (ih _)
    | some tx => exact congrArg _ (ih _)

theorem elements_view (hs : List Handled) :
    elements ((hs.filterMap elementOf).map Handled.event) = elements (hs.map Handled.event) := by
  unfold elements
  rw [List.map_filterMap, List.filterMap_filterMap, List.filterMap_map]
  refine List.filterMap_congr fun h _ => ?_
  obtain ⟨ev, alerts⟩ := h
  cases ev with
  | element t transaction => rfl
  | timer d => rfl

def watched (es : List (ℤ × Option Transaction)) : List Handled := (run watchStep Watch.off es).2

theorem handled_watched (clock : ℤ) (evs : List Event)
    (hsched : Along step Scheduled (start clock) evs) :
    (handled clock evs).filterMap elementOf = watched (elements evs) := by
  obtain ⟨es, _, _, hout⟩ := step_refines_watch.run (stands_start clock) hsched
  have helements : es = elements evs := by
    rw [← watchRun_elements Watch.off es, ← hout, elements_view, run_events]
  rw [handled, hout, helements]
  rfl

variable {κ : Type} [DecidableEq κ]

/-- The alerts of every account follow from its transactions and their times alone. -/
theorem alerts_watched (clock : ℤ) (evs : List (κ × Event))
    (hsched : Along taskStep TaskScheduled (Task.start clock) evs) (k : κ) :
    (part k (run taskStep (Task.start clock) evs).2).filterMap elementOf =
      watched (elements (part k evs)) := by
  obtain ⟨halong, _, hout⟩ := account_run clock evs hsched k
  rw [hout, handled_watched clock _ halong]

theorem alerts_watched_twoAccounts :
    (part false (run taskStep (Task.start 0) twoAccounts).2).filterMap elementOf =
      watched (elements (part false twoAccounts)) :=
  alerts_watched 0 twoAccounts (by decide +kernel) false

end O2k.FraudDetector
