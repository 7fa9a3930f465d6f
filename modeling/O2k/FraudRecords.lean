import O2k.FraudJob

set_option autoImplicit false

namespace O2k.FraudDetector
open ByteOrder SocketTransfer JavaValues BinlogEntry GatedTrace MealyRun RunRefinement
  TransactionSchema

variable {π σ : Type} [DecidableEq σ]

omit [DecidableEq σ] in
instance (owner : ℤ → σ) : ∀ st ev, Decidable (JobScheduled (π := π) owner st ev)
  | none, _ => .isTrue trivial
  | some _, .poll _ _ => .isTrue trivial
  | some job, .deliver i time =>
    match h : job.made[i]? with
    | none => .isFalse (by simp [JobScheduled, h])
    | some tx =>
      decidable_of_iff
        (TaskScheduled (some (job.tasks (owner tx.accountId)))
          (tx.accountId, .element time (some tx)))
        (by simp [JobScheduled, h])
  | some _, .timer _ _ => inferInstanceAs (Decidable (TaskScheduled _ _))

def JobOutput.handled (a : ℤ) : JobOutput π → Option Handled
  | .polled _ _ => none
  | .processed time tx alerts =>
    if tx.accountId = a then some ⟨.element time (some tx), alerts⟩ else none
  | .fired account timestamp alerts =>
    if account = a then some ⟨.timer timestamp, alerts⟩ else none

def history (a : ℤ) (out : List (JobOutput π)) : List Handled := out.filterMap (JobOutput.handled a)

theorem taskStep_outputs (task : Task ℤ) (a : ℤ) (ev : Event) :
    (taskStep (some task) (a, ev)).2 = [(a, ⟨ev, alertsOf (taskStep (some task) (a, ev)).2⟩)] := by
  cases ev with
  | element t transaction => simp [taskStep, step, alertsOf]
  | timer d => simp [taskStep, step, alertsOf]

def JobServes (owner : ℤ → σ) (a : ℤ) (st : Option (Job σ)) (op : Option Operator) : Prop :=
  ∀ job, st = some job → Serves a (some (job.tasks (owner a))) op

theorem resume_serves {owner : ℤ → σ} {a b : ℤ} {ev : Event} {op : Option Operator} (job : Job σ)
    (hserves : Serves a (some (job.tasks (owner a))) op)
    (hsched : TaskScheduled (some (job.tasks (owner b))) (b, ev)) :
    ∃ js, Along step Scheduled op js ∧
      JobServes owner a ((taskStep (some (job.tasks (owner b))) (b, ev)).1.map
        (job.resume owner b)) (run step op js).1 ∧
      (if b = a then [⟨ev, alertsOf (taskStep (some (job.tasks (owner b))) (b, ev)).2⟩]
        else []) = (run step op js).2 := by
  by_cases howner : owner b = owner a
  · rw [← howner] at hserves
    obtain ⟨js, hjs, hnext, hout⟩ := task_refines a _ _ (b, ev) hserves hsched
    refine ⟨js, hjs, ?_, ?_⟩
    · intro job' hjob'
      obtain ⟨task, htask, rfl⟩ := Option.map_eq_some_iff.mp hjob'
      rw [htask] at hnext
      simpa [Job.resume, howner] using hnext
    · rw [← hout, taskStep_outputs]
      by_cases hb : b = a
      · simp [hb, alertsOf]
      · simp [hb]
  · have hb : b ≠ a := fun h => howner (congrArg owner h)
    refine ⟨[], trivial, ?_, by simp [hb]⟩
    intro job' hjob'
    obtain ⟨task, _, rfl⟩ := Option.map_eq_some_iff.mp hjob'
    simpa [Job.resume, Function.update_of_ne (Ne.symm howner)] using hserves

theorem job_refines (P : Parsers) (owner : ℤ → σ) (a : ℤ) :
    Refines (jobStep (π := π) P owner) (JobScheduled owner) step Scheduled (JobServes owner a)
      (JobOutput.handled a) := by
  intro st op ev hserves hsched
  cases st with
  | none => exact ⟨[], trivial, hserves, rfl⟩
  | some job =>
    have hjob := hserves job rfl
    cases ev with
    | poll p value =>
      refine ⟨[], trivial, ?_, rfl⟩
      intro job' hjob'
      simp only [jobStep] at hjob'
      split at hjob'
      · cases hjob'
      · cases hjob'
        exact hjob
    | timer b d =>
      obtain ⟨js, hjs, hnext, hout⟩ := resume_serves job hjob hsched
      refine ⟨js, hjs, hnext, ?_⟩
      rw [← hout]
      by_cases hb : b = a
      · simp [jobStep, JobOutput.handled, hb]
      · simp [jobStep, JobOutput.handled, hb]
    | deliver i t =>
      cases hmade : job.made[i]? with
      | none => simp only [JobScheduled, hmade] at hsched
      | some tx =>
        simp only [JobScheduled, hmade] at hsched
        obtain ⟨js, hjs, hnext, hout⟩ := resume_serves job hjob hsched
        refine ⟨js, hjs, ?_, ?_⟩
        · simpa only [jobStep, hmade] using hnext
        · rw [← hout]
          simp only [jobStep, hmade]
          by_cases hb : tx.accountId = a
          · simp [JobOutput.handled, hb]
          · simp [JobOutput.handled, hb]

theorem job_history (P : Parsers) (owner : ℤ → σ) (clock : ℤ) (evs : List (JobEvent π))
    (hsched : Along (jobStep P owner) (JobScheduled owner) (Job.start clock) evs) (a : ℤ) :
    ∃ js, Along step Scheduled (start clock) js ∧
      history a (run (jobStep P owner) (Job.start clock) evs).2 = handled clock js := by
  have hstart : JobServes owner a (Job.start clock : Option (Job σ)) (start clock) := by
    intro job hjob
    cases hjob
    exact serves_start a clock
  obtain ⟨js, hjs, _, hout⟩ := (job_refines P owner a).run hstart hsched
  exact ⟨js, hjs, hout⟩

/-- The record says the transaction: the first row of an update has the balance of the account go
    from `old` to `new`. -/
def Says (P : Parsers) (value : Option Bytes) (old new : Double) (tx : Transaction) : Prop :=
  ∃ bytes entry rowChange row rows, value = some bytes ∧ Update P bytes entry rowChange ∧
    rowChange.rowDatas = row :: rows ∧ Readable row ∧ Passes .nearest row ∧
    balanceOf .nearest row.beforeColumns = some old ∧
    balanceOf .nearest row.afterColumns = some new ∧
    tx = transactionOf .nearest row entry.header.executeTime

section Amounts

variable {P : Parsers} {value : Option Bytes} {old new : Double} {tx : Transaction}

theorem Says.amount (h : Says P value old new tx) : tx.amount = (new.sub .nearest old).abs := by
  obtain ⟨_, _, _, _, _, _, _, _, _, _, hold, hnew, rfl⟩ := h
  simp [transactionOf, rowOf, hold, hnew]

theorem has_one : binary64.Has 1 := ⟨2 ^ 52, by decide +kernel⟩

theorem has_fiveHundred : binary64.Has 500 := ⟨500 * 2 ^ 44, by decide +kernel⟩

/-- Behind a small amount there are two balances that differ by less than one. -/
theorem Says.small_change (h : Says P value old new tx) (hsmall : Small tx) :
    ∃ a b, old = .finite a ∧ new = .finite b ∧ |b - a| < 1 := by
  rw [Small, h.amount] at hsmall
  cases new with
  | nan => cases old <;> cases hsmall
  | infinite negative =>
    cases old with
    | nan => cases hsmall
    | finite a => cases hsmall
    | infinite negative' =>
      rw [Double.sub] at hsmall
      split at hsmall <;> cases hsmall
  | finite b =>
    cases old with
    | nan => cases hsmall
    | infinite negative => cases hsmall
    | finite a => exact ⟨a, b, rfl, rfl, of_nearest_lt has_one one_pos hsmall⟩

/-- Behind a large amount, two that differ by more than five hundred, unless one is infinite. -/
theorem Says.large_change {a b : ℚ} (h : Says P value (.finite a) (.finite b) tx)
    (hlarge : Large tx) : 500 < |b - a| := by
  rw [Large, h.amount] at hlarge
  exact of_lt_nearest has_fiveHundred (by decide +kernel) hlarge

end Amounts

theorem rowData2Transaction_some {row : RowData} {t : ℤ} {tx : Transaction}
    (h : rowData2Transaction .nearest row t = .ok (some tx)) :
    Readable row ∧ Passes .nearest row ∧ tx = transactionOf .nearest row t := by
  by_cases hreadable : Readable row
  · by_cases hpasses : Passes .nearest row
    · rw [rowData2Transaction_passes .nearest t hreadable hpasses] at h
      cases h
      exact ⟨hreadable, hpasses, rfl⟩
    · cases (rowData2Transaction_fails .nearest t hreadable hpasses).symm.trans h
  · cases (rowData2Transaction_unreadable .nearest t hreadable).symm.trans h

theorem deserialize_some {P : Parsers} {value : Option Bytes} {tx : Transaction}
    (h : deserialize .nearest P value = .ok (some tx)) : ∃ old new, Says P value old new tx := by
  cases value with
  | none => cases h
  | some bytes =>
    cases hentry : P.Entry bytes with
    | none =>
      rw [deserialize_bytes, hentry] at h
      cases h
    | some entry =>
      cases hrow : P.RowChange entry.storeValue with
      | none =>
        rw [deserialize_bytes, hentry] at h
        simp only [entryTransaction, hrow] at h
        split at h
        · cases h
        · split at h
          · cases h
          · cases h
      | some rowChange =>
        have hupdate : Update P bytes entry rowChange := by
          by_contra hother
          cases (deserialize_other .nearest hentry hrow hother).symm.trans h
        rw [deserialize_update .nearest hupdate] at h
        cases hrows : rowChange.rowDatas with
        | nil =>
          rw [hrows] at h
          cases h
        | cons row rows =>
          rw [hrows] at h
          obtain ⟨hreadable, hpasses, htx⟩ := rowData2Transaction_some h
          have hbalances := hpasses.2
          obtain ⟨⟨new, hnew, _⟩, old, hold, _⟩ := hbalances
          exact ⟨old, new, bytes, entry, rowChange, row, rows, rfl, hupdate, hrows, hreadable,
            hpasses, hold, hnew, htx⟩

theorem sent_recorded {P : Parsers} {us : List (JobOutput π)} {tx : Transaction}
    (h : tx ∈ sent P us) : ∃ p value old new, .polled p value ∈ us ∧ Says P value old new tx := by
  obtain ⟨p, value, hpolled, hvalue⟩ := mem_sent.mp h
  obtain ⟨old, new, hsays⟩ := deserialize_some hvalue
  exact ⟨p, value, old, new, hpolled, hsays⟩

def RecordedSmall (P : Parsers) (us : List (JobOutput π)) (tx : Transaction) : Prop :=
  Small tx ∧ ∃ p value a b, .polled p value ∈ us ∧ Says P value (.finite a) (.finite b) tx ∧
    |b - a| < 1

def RecordedLarge (P : Parsers) (us : List (JobOutput π)) (tx : Transaction) : Prop :=
  Large tx ∧ ∃ p value old new, .polled p value ∈ us ∧ Says P value old new tx ∧
    ∀ a b, old = .finite a → new = .finite b → 500 < |b - a|

theorem sent_recordedSmall {P : Parsers} {us : List (JobOutput π)} {tx : Transaction}
    (h : Small tx ∧ tx ∈ sent P us) : RecordedSmall P us tx := by
  obtain ⟨p, value, old, new, hpolled, hsays⟩ := sent_recorded h.2
  obtain ⟨a, b, rfl, rfl, hchange⟩ := hsays.small_change h.1
  exact ⟨h.1, p, value, a, b, hpolled, hsays, hchange⟩

theorem sent_recordedLarge {P : Parsers} {us : List (JobOutput π)} {tx : Transaction}
    (h : Large tx ∧ tx ∈ sent P us) : RecordedLarge P us tx := by
  obtain ⟨p, value, old, new, hpolled, hsays⟩ := sent_recorded h.2
  refine ⟨h.1, p, value, old, new, hpolled, hsays, ?_⟩
  rintro a b rfl rfl
  exact hsays.large_change h.1

theorem element_processed {us : List (JobOutput π)} {a s : ℤ} {tx : Transaction}
    {alerts : List Alert} (h : ⟨.element s (some tx), alerts⟩ ∈ history a us) :
    .processed s tx alerts ∈ us ∧ tx.accountId = a := by
  obtain ⟨o, ho, heq⟩ := List.mem_filterMap.mp h
  cases o with
  | polled p value => cases heq
  | fired b d alerts =>
    simp only [JobOutput.handled] at heq
    split at heq
    · cases heq
    · cases heq
  | processed t tx' alerts' =>
    simp only [JobOutput.handled] at heq
    split at heq
    · rename_i hb
      cases heq
      exact ⟨ho, hb⟩
    · cases heq

/-- What stands behind an alert: a large transaction of the account and a small one before it, with
    no other alert between. -/
def Evidence (small large : Transaction → Prop) (us : List (JobOutput π)) (t : ℤ)
    (tx : Transaction) : Prop :=
  large tx ∧ ∃ s tx' xs ys, history tx.accountId us = xs ++ ⟨.element s (some tx'), []⟩ :: ys ∧
    small tx' ∧ tx'.accountId = tx.accountId ∧ (∀ e ∈ ys, e.alerts = []) ∧
    s ≤ t ∧ t < s + ONE_MINUTE

def Evident (small large : Transaction → Prop) (us : List (JobOutput π)) : JobOutput π → Prop
  | .polled _ _ => True
  | .processed t tx alerts =>
    alerts ≠ [] → alerts = [⟨tx.accountId⟩] ∧ Evidence small large us t tx
  | .fired _ _ alerts => alerts = []

theorem Evident.mono {small large small' large' : Transaction → Prop}
    (hsmall : ∀ tx, small tx → small' tx) (hlarge : ∀ tx, large tx → large' tx)
    {us : List (JobOutput π)} {o : JobOutput π} (h : Evident small large us o) :
    Evident small' large' us o := by
  cases o with
  | polled p value => trivial
  | fired a d alerts => exact h
  | processed t tx alerts =>
    intro hne
    obtain ⟨halerts, htx, s, tx', xs, ys, hxs, htx', hrest⟩ := h hne
    exact ⟨halerts, hlarge tx htx, s, tx', xs, ys, hxs, hsmall tx' htx', hrest⟩

theorem processed_sent {P : Parsers} {us vs : List (JobOutput π)} {s : ℤ} {tx : Transaction}
    {alerts : List Alert} (hfrom : AtEach (fun us o _ => FromRecord P us o) (us ++ vs))
    (h : .processed s tx alerts ∈ us) : tx ∈ sent P us := by
  obtain ⟨xs, ys, rfl⟩ := List.append_of_mem h
  have hsent : tx ∈ sent P xs := by
    have hat := hfrom xs (.processed s tx alerts) (ys ++ vs) (by simp)
    exact hat
  rw [sent_append]
  exact List.mem_append_left _ hsent

theorem job_alerts_stand (P : Parsers) (owner : ℤ → σ) (clock : ℤ) (evs : List (JobEvent π))
    (hsched : Along (jobStep P owner) (JobScheduled owner) (Job.start clock) evs) :
    AtEach (fun us o _ =>
        Evident (fun tx => Small tx ∧ tx ∈ sent P us) (fun tx => Large tx ∧ tx ∈ sent P us) us o)
      (run (jobStep P owner) (Job.start clock) evs).2 := by
  have hfrom : AtEach (fun us o _ => FromRecord P us o)
      (run (jobStep P owner) (Job.start clock) evs).2 :=
    (jobStep_keeps P owner).run (Job.start clock) evs (start_keeps P clock)
      (Along.of_forall (fun _ _ => trivial) _ _)
  intro us o vs hout
  have htrue : ∀ a h, JobOutput.handled a o = some h → TrueAlert (history a us) h := by
    intro a h hh
    obtain ⟨js, hjs, hhistory⟩ := job_history P owner clock evs hsched a
    have halerts := step_watched.run (start clock) js (start_watched clock) hjs
    refine halerts (history a us) h (history a vs) ?_
    change handled clock js = _
    rw [← hhistory, hout]
    simp [history, List.filterMap_append, hh]
  cases o with
  | polled p value => trivial
  | fired a d alerts =>
    by_contra hne
    obtain ⟨t, tx, heq, _⟩ := htrue a ⟨.timer d, alerts⟩ (by simp [JobOutput.handled]) hne
    cases heq
  | processed t tx alerts =>
    intro hne
    obtain ⟨_, _, ⟨⟩, hlarge, hid, s, ⟨xs, tx', ys, hxs, hsmall, hquiet⟩, hs, hlt⟩ :=
      htrue tx.accountId ⟨.element t (some tx), alerts⟩ (by simp [JobOutput.handled]) hne
    have hmade : tx ∈ sent P us := hfrom us _ vs hout
    obtain ⟨hprocessed, haccount⟩ :=
      element_processed (hxs ▸ List.mem_append_right xs List.mem_cons_self :
        ⟨.element s (some tx'), []⟩ ∈ history tx.accountId us)
    have hbefore : tx' ∈ sent P us := by
      rw [hout] at hfrom
      exact processed_sent hfrom hprocessed
    exact ⟨hid, ⟨hlarge, hmade⟩, s, tx', xs, ys, hxs, ⟨hsmall, hbefore⟩, haccount, hquiet, hs, hlt⟩

/-- Every alert of the job has its two records, in whatever order the sources, the ways to the tasks,
    the tasks and the timers take their turns. -/
theorem job_alerts_evident (P : Parsers) (owner : ℤ → σ) (clock : ℤ) (evs : List (JobEvent π))
    (hsched : Along (jobStep P owner) (JobScheduled owner) (Job.start clock) evs) :
    AtEach (fun us o _ => Evident (RecordedSmall P us) (RecordedLarge P us) us o)
      (run (jobStep P owner) (Job.start clock) evs).2 := by
  intro us o vs hout
  exact (job_alerts_stand P owner clock evs hsched us o vs hout).mono
    (fun _ => sent_recordedSmall) fun _ => sent_recordedLarge

def balanceRecord (old new : String) : Option Bytes :=
  some (putEntry 1000 (ascii "ACCOUNT") 2
    (putRowChange 2 [putRow (accountBytes "1" old) (accountBytes "1" new)]))

def smallThenLargeRecords : List (JobEvent Bool) :=
  [.poll true (balanceRecord "100.5" "700"), .poll false (balanceRecord "100" "100.5"),
    .poll true none, .deliver 1 10, .deliver 0 60009]

theorem job_alerts_evident_smallThenLarge :
    AtEach (fun us o _ => Evident (RecordedSmall (tableParsers ⟨false⟩) us)
        (RecordedLarge (tableParsers ⟨false⟩) us) us o)
      (run (jobStep (tableParsers ⟨false⟩) fun _ => ()) (Job.start 0) smallThenLargeRecords).2 :=
  job_alerts_evident (tableParsers ⟨false⟩) (fun _ => ()) 0 smallThenLargeRecords (by decide +kernel)

end O2k.FraudDetector
