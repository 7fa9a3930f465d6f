import O2k.FraudRecords
import O2k.PublishedEntries

set_option autoImplicit false

namespace O2k.FraudDetector
open ByteOrder WireFormat JavaValues GatedTrace MealyRun TransactionSchema EntryMessages
open BinlogEntry (Parsers tableParsers)

variable {π σ : Type} [DecidableEq π] [DecidableEq σ]

def JobEvent.polls (p : π) : JobEvent π → List (Option Bytes)
  | .poll source value => if source = p then [value] else []
  | _ => []

def polls (p : π) (evs : List (JobEvent π)) : List (Option Bytes) := written (JobEvent.polls p) evs

def JobOutput.polls (p : π) : JobOutput π → List (Option Bytes)
  | .polled source value => if source = p then [value] else []
  | _ => []

def polled (p : π) (out : List (JobOutput π)) : List (Option Bytes) :=
  written (JobOutput.polls p) out

theorem mem_polled {p : π} {value : Option Bytes} {out : List (JobOutput π)} :
    value ∈ polled p out ↔ .polled p value ∈ out := by
  constructor
  · intro h
    obtain ⟨o, ho, hpolls⟩ := List.mem_flatMap.mp h
    cases o with
    | polled q value' =>
      simp only [JobOutput.polls] at hpolls
      split at hpolls
      · rename_i hq
        cases List.mem_singleton.mp hpolls
        rwa [← hq]
      · cases hpolls
    | processed t tx alerts => cases hpolls
    | fired b d alerts => cases hpolls
  · intro h
    exact List.mem_flatMap.mpr ⟨_, h, by simp [JobOutput.polls]⟩

theorem jobStep_polled (P : Parsers) (owner : ℤ → σ) (job : Job σ) (ev : JobEvent π) (p : π) :
    polled p (jobStep P owner (some job) ev).2 = ev.polls p := by
  cases ev with
  | poll q value => exact List.append_nil _
  | timer b d => rfl
  | deliver i t =>
    cases hmade : job.made[i]? with
    | none =>
      simp only [jobStep, hmade]
      rfl
    | some tx =>
      simp only [jobStep, hmade]
      rfl

omit [DecidableEq π] in
theorem run_failed (P : Parsers) (owner : ℤ → σ) (evs : List (JobEvent π)) :
    run (jobStep P owner) none evs = (none, []) := by
  induction evs with
  | nil => rfl
  | cons ev evs ih =>
    rw [run_cons]
    simp only [jobStep, ih, List.append_nil]

theorem run_polled (P : Parsers) (owner : ℤ → σ) (st : Option (Job σ)) (evs : List (JobEvent π))
    (p : π) :
    polled p (run (jobStep P owner) st evs).2 <+: polls p evs ∧
      ∀ job, (run (jobStep P owner) st evs).1 = some job →
        polled p (run (jobStep P owner) st evs).2 = polls p evs := by
  induction evs generalizing st with
  | nil => exact ⟨List.prefix_rfl, fun _ _ => rfl⟩
  | cons ev evs ih =>
    cases st with
    | none =>
      rw [run_failed]
      exact ⟨List.nil_prefix, fun _ h => by cases h⟩
    | some job =>
      obtain ⟨hcut, hrunning⟩ := ih (jobStep P owner (some job) ev).1
      have hstep : polled p (run (jobStep P owner) (some job) (ev :: evs)).2 =
          ev.polls p ++
            polled p (run (jobStep P owner) (jobStep P owner (some job) ev).1 evs).2 := by
        rw [run_cons, ← jobStep_polled P owner job ev p]
        exact written_append _ _ _
      rw [hstep]
      refine ⟨(List.prefix_append_right_inj _).mpr hcut, fun job' hjob' => ?_⟩
      exact congrArg (ev.polls p ++ ·) (hrunning job' hjob')

omit [DecidableEq σ] in
theorem threw_iff (P : Parsers) (out : List (JobOutput π)) :
    Threw P out ↔
      ∃ p, ∃ value ∈ polled p out, ∃ thrown, deserialize .nearest P value = .error thrown := by
  constructor
  · rintro ⟨p, value, thrown, hmem, herror⟩
    exact ⟨p, value, mem_polled.mpr hmem, thrown, herror⟩
  · rintro ⟨p, value, hvalue, thrown, herror⟩
    exact ⟨p, value, thrown, mem_polled.mp hvalue, herror⟩

/-- An entry with a text that is not UTF-8; or a row change of the account table with one, or an
    update of this table whose first row holds a text that is no number. -/
def Unreadable (e : Published) : Prop :=
  Entry.codec.utf8 e.entry = false ∨
    ∃ row, e.body = .rowChange row ∧
      equalsIgnoreCase e.entry.view.header.tableName "account" = true ∧
      (RowChange.codec.utf8 row = false ∨
        row.view.eventType = .UPDATE ∧ ∃ first ∈ row.view.rowDatas.head?, ¬ Readable first)

theorem firstRow_throws_iff (rows : List BinlogEntry.RowData) (t : ℤ) :
    (∃ thrown, firstRow .nearest rows t = .error thrown) ↔ ∃ first ∈ rows.head?, ¬ Readable first := by
  have hreturns := firstRow_returns_iff .nearest rows t
  cases hfirst : firstRow .nearest rows t with
  | error thrown =>
    have hunreadable : ¬ ∀ first ∈ rows.head?, Readable first := by
      rw [← hreturns, hfirst]
      simp
    simpa using hunreadable
  | ok result =>
    have hreadable := hreturns.mp ⟨result, hfirst⟩
    simpa using hreadable

theorem transaction_throws_iff (e : Published) :
    (∃ thrown, e.transaction = .error thrown) ↔ Unreadable e := by
  unfold Published.transaction Unreadable
  cases Entry.codec.utf8 e.entry with
  | false => simp
  | true =>
    cases e.body with
    | rowChange row =>
      cases htable : equalsIgnoreCase e.entry.view.header.tableName "account" with
      | false => simp
      | true =>
        cases hutf : RowChange.codec.utf8 row with
        | false => simp [hutf]
        | true =>
          by_cases hupdate : row.view.eventType = .UPDATE
          · simpa [hutf, hupdate] using
              firstRow_throws_iff row.view.rowDatas e.entry.view.header.executeTime
          · simp [hutf, hupdate]
    | transactionBegin start => simp
    | transactionEnd finish => simp
    | unknown storeValue => simp

def records (partition : List Published) : List (Option Bytes) :=
  partition.map fun e => some e.bytes

theorem eq_records_of_prefix {values : List (Option Bytes)} {partition : List Published}
    (h : values <+: records partition) : values = records (partition.take values.length) := by
  rw [records, List.map_take]
  exact List.prefix_iff_eq_take.mp h

theorem throws_iff_unreadable (rt : Runtime) (partition : List Published) :
    (∃ value ∈ records partition, ∃ thrown,
        deserialize .nearest (tableParsers rt) value = .error thrown) ↔
      ∃ e ∈ partition, Unreadable e := by
  constructor
  · rintro ⟨value, hvalue, hthrown⟩
    obtain ⟨e, he, rfl⟩ := List.mem_map.mp hvalue
    rw [deserialize_published, transaction_throws_iff] at hthrown
    exact ⟨e, he, hthrown⟩
  · rintro ⟨e, he, hunreadable⟩
    refine ⟨some e.bytes, List.mem_map_of_mem he, ?_⟩
    rw [deserialize_published, transaction_throws_iff]
    exact hunreadable

def PublishedAs (topic : π → List Published) (tx : Transaction) : Prop :=
  ∃ p, ∃ e ∈ topic p, e.transaction = .ok (some tx)

omit [DecidableEq σ] in
theorem sent_published (rt : Runtime) {topic : π → List Published} {out : List (JobOutput π)}
    (hreads : ∀ p, polled p out <+: records (topic p)) {tx : Transaction}
    (h : tx ∈ sent (tableParsers rt) out) : PublishedAs topic tx := by
  obtain ⟨p, value, hpolled, hvalue⟩ := mem_sent.mp h
  obtain ⟨e, he, rfl⟩ := List.mem_map.mp ((hreads p).subset (mem_polled.mpr hpolled))
  rw [deserialize_published] at hvalue
  exact ⟨p, e, he, hvalue⟩

/-- The job over a topic fails on an unreadable entry that its sources are offered and on nothing
    else; and behind every alert there are two published updates of the account. -/
theorem topic_alerts (rt : Runtime) (owner : ℤ → σ) (clock : ℤ) (topic : π → List Published)
    (evs : List (JobEvent π)) (hreads : ∀ p, polls p evs <+: records (topic p)) :
    ((run (jobStep (tableParsers rt) owner) (Job.start clock) evs).1 = none ↔
        ∃ p, ∃ e ∈ (topic p).take (polls p evs).length, Unreadable e) ∧
      (Along (jobStep (tableParsers rt) owner) (JobScheduled owner) (Job.start clock) evs →
        AtEach (fun us o _ => Evident (fun tx => Small tx ∧ PublishedAs topic tx)
            (fun tx => Large tx ∧ PublishedAs topic tx) us o)
          (run (jobStep (tableParsers rt) owner) (Job.start clock) evs).2) := by
  have hpolled := run_polled (tableParsers rt) owner (Job.start clock) evs
  constructor
  · have hkeeps := job_keeps (tableParsers rt) owner clock evs
    generalize run (jobStep (tableParsers rt) owner) (Job.start clock) evs = r at hpolled hkeeps ⊢
    -- What a source is offered throws just when an unreadable entry is among it.
    have hoffered : (∃ p, ∃ value ∈ polls p evs, ∃ thrown,
        deserialize .nearest (tableParsers rt) value = .error thrown) ↔
          ∃ p, ∃ e ∈ (topic p).take (polls p evs).length, Unreadable e := by
      refine exists_congr fun p => ?_
      rw [← throws_iff_unreadable rt, ← eq_records_of_prefix (hreads p)]
    rcases hkeeps with ⟨job, hjob, hrunning⟩ | ⟨hnone, hthrew⟩
    · refine ⟨fun hnone => absurd (hjob.symm.trans hnone) (by simp), fun hunreadable => ?_⟩
      obtain ⟨p, value, hvalue, hthrown⟩ := hoffered.mpr hunreadable
      rw [← (hpolled p).2 job hjob] at hvalue
      exact absurd ((threw_iff _ _).mpr ⟨p, value, hvalue, hthrown⟩) hrunning.calm
    · refine ⟨fun _ => hoffered.mp ?_, fun _ => hnone⟩
      obtain ⟨p, value, hvalue, hthrown⟩ := (threw_iff _ _).mp hthrew
      exact ⟨p, value, (hpolled p).1.subset hvalue, hthrown⟩
  · intro hsched us o vs hout
    have hread : ∀ p, polled p us <+: records (topic p) := by
      intro p
      have happend : polled p (us ++ o :: vs) = polled p us ++ polled p (o :: vs) :=
        written_append _ _ _
      have hcut : polled p us <+: polled p (us ++ o :: vs) := happend ▸ List.prefix_append _ _
      rw [← hout] at hcut
      exact (hcut.trans (hpolled p).1).trans (hreads p)
    exact (job_alerts_stand _ owner clock evs hsched us o vs hout).mono
      (fun _ h => ⟨h.1, sent_published rt hread h.2⟩) fun _ h => ⟨h.1, sent_published rt hread h.2⟩

def smallThenLargeTopic : Bool → List Published
  | false => [smallUpdate]
  | true => [largeUpdate]

def smallThenLargeReads : List (JobEvent Bool) :=
  [.poll true (some largeUpdate.bytes), .poll false (some smallUpdate.bytes), .deliver 1 10,
    .deliver 0 60009]

theorem topic_alerts_smallThenLarge :
    let r := run (jobStep (tableParsers ⟨false⟩) fun _ => ()) (Job.start 0) smallThenLargeReads
    (r.1 = none ↔ ∃ p, ∃ e ∈ (smallThenLargeTopic p).take (polls p smallThenLargeReads).length,
        Unreadable e) ∧
      AtEach (fun us o _ => Evident (fun tx => Small tx ∧ PublishedAs smallThenLargeTopic tx)
        (fun tx => Large tx ∧ PublishedAs smallThenLargeTopic tx) us o) r.2 := by
  have hreads : ∀ p, polls p smallThenLargeReads <+: records (smallThenLargeTopic p) := by
    intro p
    cases p with
    | false => exact List.prefix_rfl
    | true => exact List.prefix_rfl
  obtain ⟨hfails, halerts⟩ := topic_alerts ⟨false⟩ (fun _ => ()) 0 smallThenLargeTopic
    smallThenLargeReads hreads
  exact ⟨hfails, halerts (by decide +kernel)⟩

end O2k.FraudDetector
