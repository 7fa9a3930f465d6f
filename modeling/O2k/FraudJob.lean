import O2k.FraudWatch
import O2k.FraudAlerts
import O2k.BalanceChanges

set_option autoImplicit false

/-!
# FraudDetectionJob

The job reads the records of a Kafka topic with any number of sources, makes
transactions of them, and sends each to the task that owns its account. Nothing
is asked of the way in between: a transaction that was made may be handed over
at any time after, in any order, more than once or not at all.
-/
namespace O2k.FraudDetector
open ByteOrder BinlogEntry GatedTrace MealyRun RunRefinement TransactionSchema

variable {π σ : Type} [DecidableEq σ]

inductive JobEvent (π : Type) where
  | poll (source : π) (value : Option Bytes)
  | deliver (i : ℕ) (time : ℤ)
  | timer (account : ℤ) (timestamp : ℤ)
  deriving DecidableEq

inductive JobOutput (π : Type) where
  | polled (source : π) (value : Option Bytes)
  | processed (time : ℤ) (transaction : Transaction) (alerts : List Alert)
  | fired (account timestamp : ℤ) (alerts : List Alert)

/-- The transactions made so far, and the parallel tasks of the detector. -/
structure Job (σ : Type) where
  made : List Transaction
  tasks : σ → Task ℤ

def Job.resume (owner : ℤ → σ) (account : ℤ) (job : Job σ) (task : Task ℤ) : Job σ :=
  { job with tasks := Function.update job.tasks (owner account) task }

def alertsOf (hs : List (ℤ × Handled)) : List Alert := hs.flatMap fun h => h.2.alerts

/-- A record of which no transaction is made goes no further. Any exception ends the job. -/
def jobStep (P : Parsers) (owner : ℤ → σ) :
    Option (Job σ) → JobEvent π → Option (Job σ) × List (JobOutput π)
  | none, _ => (none, [])
  | some job, .poll source value =>
    (match deserialize .nearest P value with
      | .error _ => none
      | .ok transaction => some { job with made := job.made ++ transaction.toList },
    [.polled source value])
  | some job, .deliver i time =>
    match job.made[i]? with
    | none => (some job, [])
    | some tx =>
      let r := taskStep (some (job.tasks (owner tx.accountId)))
        (tx.accountId, .element time (some tx))
      (r.1.map (job.resume owner tx.accountId), [.processed time tx (alertsOf r.2)])
  | some job, .timer account timestamp =>
    let r := taskStep (some (job.tasks (owner account))) (account, .timer timestamp)
    (r.1.map (job.resume owner account), [.fired account timestamp (alertsOf r.2)])

def Job.start (clock : ℤ) : Option (Job σ) := some ⟨[], fun _ => ⟨clock, fun _ => .empty⟩⟩

/-- The tasks go by Flink's order, and only what was made is handed over. -/
def JobScheduled (owner : ℤ → σ) : Option (Job σ) → JobEvent π → Prop
  | none, _ => True
  | some _, .poll _ _ => True
  | some job, .deliver i time =>
    match job.made[i]? with
    | none => False
    | some tx =>
      TaskScheduled (some (job.tasks (owner tx.accountId)))
        (tx.accountId, .element time (some tx))
  | some job, .timer account timestamp =>
    TaskScheduled (some (job.tasks (owner account))) (account, .timer timestamp)

def JobOutput.sent (P : Parsers) : JobOutput π → List Transaction
  | .polled _ value => produced (deserialize .nearest P value)
  | _ => []

def sent (P : Parsers) (out : List (JobOutput π)) : List Transaction :=
  written (JobOutput.sent P) out

theorem mem_sent {P : Parsers} {out : List (JobOutput π)} {tx : Transaction} :
    tx ∈ sent P out ↔
      ∃ p value, .polled p value ∈ out ∧ deserialize .nearest P value = .ok (some tx) := by
  have hproduced : ∀ value, tx ∈ produced (deserialize .nearest P value) ↔
      deserialize .nearest P value = .ok (some tx) := by
    intro value
    cases deserialize .nearest P value with
    | error thrown => simp [produced]
    | ok result => simp [produced, Option.mem_toList]
  constructor
  · intro h
    obtain ⟨o, ho, htx⟩ := List.mem_flatMap.mp h
    cases o with
    | polled p value => exact ⟨p, value, ho, (hproduced value).mp htx⟩
    | processed t tx' alerts => cases htx
    | fired a d alerts => cases htx
  · rintro ⟨p, value, ho, hvalue⟩
    exact List.mem_flatMap.mpr ⟨_, ho, (hproduced value).mpr hvalue⟩

def Threw (P : Parsers) (out : List (JobOutput π)) : Prop :=
  ∃ p value thrown, .polled p value ∈ out ∧ deserialize .nearest P value = .error thrown

theorem sent_append (P : Parsers) (us vs : List (JobOutput π)) :
    sent P (us ++ vs) = sent P us ++ sent P vs := written_append _ us vs

theorem sent_singleton (P : Parsers) (o : JobOutput π) : sent P [o] = o.sent P :=
  List.append_nil _

theorem threw_append {P : Parsers} {us vs : List (JobOutput π)} :
    Threw P (us ++ vs) ↔ Threw P us ∨ Threw P vs := by
  simp only [Threw, List.mem_append]
  constructor
  · rintro ⟨p, value, thrown, h | h, heq⟩
    · exact .inl ⟨p, value, thrown, h, heq⟩
    · exact .inr ⟨p, value, thrown, h, heq⟩
  · rintro (⟨p, value, thrown, h, heq⟩ | ⟨p, value, thrown, h, heq⟩)
    · exact ⟨p, value, thrown, .inl h, heq⟩
    · exact ⟨p, value, thrown, .inr h, heq⟩

theorem threw_singleton {P : Parsers} {o : JobOutput π} :
    Threw P [o] ↔ ∃ p value thrown, o = .polled p value ∧
      deserialize .nearest P value = .error thrown := by
  simp only [Threw, List.mem_singleton, eq_comm]

structure Running (P : Parsers) (us : List (JobOutput π)) (job : Job σ) : Prop where
  made : job.made = sent P us
  timed : ∀ s k, Timed ((job.tasks s).keys k)
  calm : ¬ Threw P us

def JobKeeps (P : Parsers) (us : List (JobOutput π)) (st : Option (Job σ)) : Prop :=
  (∃ job, st = some job ∧ Running P us job) ∨ (st = none ∧ Threw P us)

def FromRecord (P : Parsers) (us : List (JobOutput π)) : JobOutput π → Prop
  | .processed _ tx _ => tx ∈ sent P us
  | _ => True

theorem taskStep_resumes (job : Job σ) (owner : ℤ → σ) (a : ℤ) (ev : Event)
    (htimed : ∀ s k, Timed ((job.tasks s).keys k)) :
    ∃ task, (taskStep (some (job.tasks (owner a))) (a, ev)).1 = some task ∧
      ∀ s k, Timed (((job.resume owner a task).tasks s).keys k) := by
  obtain ⟨task, heq, hkeys⟩ := taskStep_timed ⟨_, rfl, htimed (owner a)⟩ (a, ev)
  refine ⟨task, heq, ?_⟩
  intro s k
  by_cases hs : s = owner a
  · subst hs
    simpa [Job.resume] using hkeys k
  · simpa [Job.resume, Function.update_of_ne hs] using htimed s k

theorem Running.resume {P : Parsers} {us : List (JobOutput π)} {job : Job σ} (h : Running P us job)
    {owner : ℤ → σ} {a : ℤ} {task : Task ℤ} {o : JobOutput π}
    (htimed : ∀ s k, Timed (((job.resume owner a task).tasks s).keys k))
    (ho : ∀ p value, o ≠ .polled p value) : Running P (us ++ [o]) (job.resume owner a task) where
  made := by
    have hquiet : o.sent P = [] := by
      cases o with
      | polled p value => exact absurd rfl (ho p value)
      | processed t tx alerts => rfl
      | fired a d alerts => rfl
    rw [sent_append, sent_singleton, hquiet, List.append_nil]
    exact h.made
  timed := htimed
  calm := by
    rw [threw_append, threw_singleton, not_or]
    refine ⟨h.calm, ?_⟩
    rintro ⟨p, value, _, heq, _⟩
    exact ho p value heq

theorem poll_keeps {P : Parsers} {us : List (JobOutput π)} {job : Job σ} (h : Running P us job)
    (owner : ℤ → σ) (p : π) (value : Option Bytes) :
    JobKeeps P (us ++ [.polled p value]) (jobStep P owner (some job) (.poll p value)).1 := by
  cases hvalue : deserialize .nearest P value with
  | error thrown =>
    refine .inr ⟨by simp [jobStep, hvalue], ?_⟩
    exact threw_append.mpr (.inr (threw_singleton.mpr ⟨p, value, thrown, rfl, hvalue⟩))
  | ok transaction =>
    refine .inl ⟨{ job with made := job.made ++ transaction.toList }, by simp only [jobStep, hvalue],
      ?_, h.timed, ?_⟩
    · rw [sent_append, sent_singleton, JobOutput.sent, hvalue, ← h.made]
      rfl
    · rw [threw_append, threw_singleton, not_or]
      refine ⟨h.calm, ?_⟩
      rintro ⟨_, _, thrown, ⟨⟩, herror⟩
      cases hvalue.symm.trans herror

theorem jobStep_keeps (P : Parsers) (owner : ℤ → σ) :
    KeepsHistory (jobStep (π := π) P owner) (fun _ _ => True) (JobKeeps P) (FromRecord P) := by
  rintro us st ev (⟨job, rfl, hrunning⟩ | ⟨rfl, hthrew⟩) _
  · cases ev with
    | poll p value => exact ⟨poll_keeps hrunning owner p value, atEach_singleton.mpr trivial⟩
    | timer a d =>
      obtain ⟨task, htask, htimed⟩ := taskStep_resumes job owner a (.timer d) hrunning.timed
      refine ⟨.inl ⟨job.resume owner a task, ?_, hrunning.resume htimed (by simp)⟩,
        atEach_singleton.mpr trivial⟩
      simp only [jobStep, htask, Option.map_some]
    | deliver i t =>
      cases hmade : job.made[i]? with
      | none =>
        simp only [jobStep, hmade, List.append_nil]
        exact ⟨.inl ⟨job, rfl, hrunning⟩, atEach_nil⟩
      | some tx =>
        obtain ⟨task, htask, htimed⟩ :=
          taskStep_resumes job owner tx.accountId (.element t (some tx)) hrunning.timed
        simp only [jobStep, hmade, htask, Option.map_some]
        refine ⟨.inl ⟨_, rfl, hrunning.resume htimed (by simp)⟩, atEach_singleton.mpr ?_⟩
        rw [FromRecord, List.append_nil, ← hrunning.made]
        exact List.mem_of_getElem? hmade
  · simp only [jobStep, List.append_nil]
    exact ⟨.inr ⟨rfl, hthrew⟩, atEach_nil⟩

omit [DecidableEq σ] in
theorem start_keeps (P : Parsers) (clock : ℤ) :
    JobKeeps (π := π) P [] (Job.start clock : Option (Job σ)) := by
  refine .inl ⟨_, rfl, rfl, fun _ _ => .cleared ∅, ?_⟩
  rintro ⟨p, value, thrown, hmem, _⟩
  cases hmem

theorem job_keeps (P : Parsers) (owner : ℤ → σ) (clock : ℤ) (evs : List (JobEvent π)) :
    JobKeeps P (run (jobStep P owner) (Job.start clock) evs).2
      (run (jobStep P owner) (Job.start clock) evs).1 := by
  have hkeeps := ((jobStep_keeps P owner).run_from [] (Job.start clock) evs (start_keeps P clock)
    (Along.of_forall (fun _ _ => trivial) _ _)).1
  rwa [List.nil_append] at hkeeps

/-- Nothing but a record that the schema throws on ends the job. -/
theorem job_fails_iff (P : Parsers) (owner : ℤ → σ) (clock : ℤ) (evs : List (JobEvent π)) :
    (run (jobStep P owner) (Job.start clock) evs).1 = none ↔
      Threw P (run (jobStep P owner) (Job.start clock) evs).2 := by
  rcases job_keeps P owner clock evs with ⟨job, hjob, hrunning⟩ | ⟨hnone, hthrew⟩
  · rw [hjob]
    exact ⟨fun h => absurd h (by simp), fun h => absurd h hrunning.calm⟩
  · exact ⟨fun _ => hthrew, fun _ => hnone⟩

end O2k.FraudDetector
