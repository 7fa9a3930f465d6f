import O2k.JavaValues
import O2k.MealyRun
import Mathlib.Data.Finset.Insert
import Mathlib.Data.Finset.Erase

set_option autoImplicit false

/-!
# FraudDetector: one account key under Flink

Flink keeps the state of the function and its timers for every key apart, so
the account of one key is a machine of its own: it processes the transactions
of the key and is called back when its timers fire.
-/
namespace O2k.FraudDetector
open JavaValues MealyRun

structure Transaction where
  accountId : ℤ
  timestamp : ℤ
  amount : Double
  deriving DecidableEq

structure Alert where
  id : ℤ
  deriving DecidableEq

def SMALL_AMOUNT : Double := .finite 1
def LARGE_AMOUNT : Double := .finite 500
def ONE_MINUTE : ℤ := 60 * 1000

/-- What Flink keeps for a key: the two value states, and the processing-time timers that are
    registered, each timestamp once. -/
structure KeyState where
  flagState : Option Bool
  timerState : Option ℤ
  timers : Finset ℤ
  deriving DecidableEq

def KeyState.empty : KeyState := ⟨none, none, ∅⟩

/-- Deleting a timer unboxes the `Long`; none is the `NullPointerException` of a null one. -/
def cleanUp (st : KeyState) : Option KeyState :=
  st.timerState.map fun timer =>
    { flagState := none, timerState := none, timers := st.timers.erase timer }

/-- The alerts collected, and the state that is left unless the function has thrown. -/
def processElement (now : ℤ) (transaction : Option Transaction) (st : KeyState) :
    Option KeyState × List Alert :=
  match transaction with
  | none => (some st, [])
  | some tx =>
    let lastTransactionWasSmall := st.flagState
    let alerted := lastTransactionWasSmall.isSome && LARGE_AMOUNT.lt tx.amount
    let checked := if alerted then cleanUp st else some st
    (checked.map fun st =>
      if tx.amount.lt SMALL_AMOUNT then
        { flagState := some true
          timerState := some (now + ONE_MINUTE)
          timers := insert (now + ONE_MINUTE) st.timers }
      else st,
    if alerted then [⟨tx.accountId⟩] else [])

def onTimer (timestamp : ℤ) (st : KeyState) : KeyState :=
  { flagState := none, timerState := none, timers := st.timers.erase timestamp }

inductive Event where
  | element (time : ℤ) (transaction : Option Transaction)
  | timer (timestamp : ℤ)
  deriving DecidableEq

structure Operator where
  clock : ℤ
  key : KeyState
  deriving DecidableEq

structure Handled where
  event : Event
  alerts : List Alert
  deriving DecidableEq

def step : Option Operator → Event → Option Operator × List Handled
  | none, ev => (none, [⟨ev, []⟩])
  | some op, .element t transaction =>
    let r := processElement t transaction op.key
    (r.1.map fun key => ⟨t, key⟩, [⟨.element t transaction, r.2⟩])
  | some op, .timer d => (some ⟨max op.clock d, onTimer d op.key⟩, [⟨.timer d, []⟩])

def start (clock : ℤ) : Option Operator := some ⟨clock, .empty⟩

/-- What Flink does next: elements come in the order of the clock, and none before a timer whose
    deadline its time has reached; only a registered timer fires. -/
def Scheduled : Option Operator → Event → Prop
  | none, _ => True
  | some op, .element t _ => op.clock ≤ t ∧ ∀ d ∈ op.key.timers, t < d
  | some op, .timer d => d ∈ op.key.timers

instance : ∀ st ev, Decidable (Scheduled st ev)
  | none, _ => .isTrue trivial
  | some _, .element _ _ => inferInstanceAs (Decidable (_ ∧ _))
  | some _, .timer _ => inferInstanceAs (Decidable (_ ∈ _))

def handled (clock : ℤ) (evs : List Event) : List Handled := (run step (start clock) evs).2

def Small (tx : Transaction) : Prop := tx.amount.lt SMALL_AMOUNT = true

def Large (tx : Transaction) : Prop := LARGE_AMOUNT.lt tx.amount = true

instance (tx : Transaction) : Decidable (Small tx) := inferInstanceAs (Decidable (_ = _))

instance (tx : Transaction) : Decidable (Large tx) := inferInstanceAs (Decidable (_ = _))

theorem Large.not_small {tx : Transaction} (h : Large tx) : ¬ Small tx := by
  unfold Large Small at *
  cases hamount : tx.amount with
  | nan => simp [hamount, LARGE_AMOUNT, Double.lt] at h
  | infinite negative =>
    cases negative with
    | false => simp [SMALL_AMOUNT, Double.lt]
    | true => simp [hamount, LARGE_AMOUNT, Double.lt] at h
  | finite value =>
    simp only [hamount, LARGE_AMOUNT, SMALL_AMOUNT, Double.lt, decide_eq_true_eq] at h ⊢
    intro hsmall
    have hlt : (500 : ℚ) < 1 := h.trans hsmall
    exact absurd hlt (by decide)

theorem processElement_cases (now : ℤ) (transaction : Option Transaction) (st : KeyState)
    (hnull : st.flagState.isSome = true → st.timerState.isSome = true) :
    (∃ tx timer, transaction = some tx ∧ Large tx ∧ st.flagState.isSome = true ∧
      st.timerState = some timer ∧
      processElement now transaction st =
        (some ⟨none, none, st.timers.erase timer⟩, [⟨tx.accountId⟩])) ∨
    (∃ tx, transaction = some tx ∧ Small tx ∧
      processElement now transaction st =
        (some ⟨some true, some (now + ONE_MINUTE), insert (now + ONE_MINUTE) st.timers⟩, [])) ∨
    ((∀ tx, transaction = some tx → ¬ Small tx ∧ (Large tx → st.flagState = none)) ∧
      processElement now transaction st = (some st, [])) := by
  cases transaction with
  | none => exact .inr (.inr ⟨by simp, rfl⟩)
  | some tx =>
    by_cases hlarge : Large tx
    · have hsmall : tx.amount.lt SMALL_AMOUNT = false := by simpa [Small] using hlarge.not_small
      by_cases hflag : st.flagState.isSome = true
      · obtain ⟨timer, htimer⟩ := Option.isSome_iff_exists.mp (hnull hflag)
        refine .inl ⟨tx, timer, rfl, hlarge, hflag, htimer, ?_⟩
        have halert : LARGE_AMOUNT.lt tx.amount = true := hlarge
        simp [processElement, hflag, halert, cleanUp, htimer, hsmall]
      · refine .inr (.inr ⟨?_, ?_⟩)
        · rintro _ ⟨⟩
          exact ⟨hlarge.not_small, fun _ => by simpa using hflag⟩
        · simp [processElement, hflag, hsmall]
    · have halert : LARGE_AMOUNT.lt tx.amount = false := by simpa [Large] using hlarge
      by_cases hsmall : Small tx
      · refine .inr (.inl ⟨tx, rfl, hsmall, ?_⟩)
        have hlt : tx.amount.lt SMALL_AMOUNT = true := hsmall
        simp [processElement, halert, hlt]
      · refine .inr (.inr ⟨?_, ?_⟩)
        · rintro _ ⟨⟩
          exact ⟨hsmall, fun h => absurd h hlarge⟩
        · have hge : tx.amount.lt SMALL_AMOUNT = false := by simpa [Small] using hsmall
          simp [processElement, halert, hge]

end O2k.FraudDetector
