import O2k.KafkaRuns
import O2k.LogDelivery
import Mathlib.Data.List.Forall2

set_option autoImplicit false

namespace O2k.KafkaReader
open ByteOrder GatedTrace LogDelivery

abbrev Topic := Log Message.place Message.offset

abbrev nextOffset (ms : List Message) (p : Place) : Option ℤ :=
  next Message.place Message.offset ms p

def deliveries (ms : List Message) : List Message := ms.filter fun m => m.err = .ERR_NO_ERROR

variable {σ : Type}

def delivered (evs : List (Event σ)) : List Message := deliveries (messagesConsumed evs)

/-- `seen` is what the library has delivered, and `position` goes by it. -/
structure Tracks (K : KafkaConsumer σ) (seen : σ → List Message) : Prop where
  consume : ∀ s m, seen (K.consume s m) = seen s ++ deliveries [m]
  assignment : ∀ s, seen (K.assignment s).2.2 = seen s
  query : ∀ s p, seen (K.query_watermark_offsets s p).2.2 = seen s
  position_lib : ∀ s, seen (K.position s).2.2 = seen s
  position : ∀ s p, (K.position s).1 = .ERR_NO_ERROR →
    (K.position s).2.1 p = (nextOffset (seen s) p).getD OFFSET_INVALID

def Reports (K : KafkaConsumer σ) (assigned : σ → List Place) : Prop :=
  ∀ s, (K.assignment s).1 = .ERR_NO_ERROR →
    (K.assignment s).2.1.map TopicPartition.place = assigned s

def StaysAssigned (K : KafkaConsumer σ) (parts : List Place) : Prop := Reports K fun _ => parts

def Drained (T : Topic) (start : Place → ℤ) (log : List TopicPartition) (ms : List Message) : Prop :=
  ∀ l ∈ log, ∀ x ∈ T.items, x.place = l.place → start x.place ≤ x.offset → x.offset < l.offset → x ∈ ms

/-- `Read` returns `ERR__TIMED_OUT` only after a poll that finds everything delivered. -/
def TimesOutDrained (T : Topic) (start : Place → ℤ) (evs : List (Event σ)) : Prop :=
  AtEach (fun us ev _ => ev = .returned (.ret .ERR__TIMED_OUT) →
    ∃ us' s log read, us = us' ++ [.polled s log read] ∧ Drained T start log (delivered us)) evs

/-- Some partition still lags, or there is nothing in those that have delivered nothing. -/
def Informed (T : Topic) (start : Place → ℤ) (log : List TopicPartition) (ms : List Message) : Prop :=
  (∃ l ∈ log, ∃ o, nextOffset ms l.place = some o ∧ o < l.offset) ∨
    ∀ l ∈ log, nextOffset ms l.place = none → ∀ x ∈ T.items, x.place = l.place →
      start x.place ≤ x.offset → l.offset ≤ x.offset

def PollsInformed (T : Topic) (start : Place → ℤ) (evs : List (Event σ)) : Prop :=
  AtEach (fun us ev _ => ∀ s log read, ev = .polled s log read →
    Informed T start log (delivered us)) evs

@[simp] theorem deliveries_append (xs ys : List Message) :
    deliveries (xs ++ ys) = deliveries xs ++ deliveries ys := by
  simp [deliveries]

@[simp] theorem delivered_append (xs ys : List (Event σ)) :
    delivered (xs ++ ys) = delivered xs ++ delivered ys := by
  simp [delivered]

def Positioned (ms : List Message) (l r : TopicPartition) : Prop :=
  r.place = l.place ∧ r.offset = (nextOffset ms l.place).getD OFFSET_INVALID

theorem checkReadOver_positioned {ms : List Message} (hpos : ∀ p o, nextOffset ms p = some o → 0 < o)
    {log read : List TopicPartition} (h : List.Forall₂ (Positioned ms) log read) :
    (checkReadOver log read = some true ∧
        ∀ l ∈ log, ∀ o, nextOffset ms l.place = some o → l.offset ≤ o) ∨
      (checkReadOver log read = some false ∧
        ∃ l ∈ log, ∃ o, nextOffset ms l.place = some o ∧ o < l.offset) := by
  induction h with
  | nil => exact .inl ⟨rfl, by simp⟩
  | @cons l r log read hlr _ ih =>
    unfold checkReadOver
    cases hnext : nextOffset ms l.place with
    | none =>
      have hr : r.offset ≤ OFFSET_INVALID := by rw [hlr.2, hnext]; exact Int.le_refl _
      simpa [hr, hnext] using ih
    | some o =>
      have hr : r.offset = o := by rw [hlr.2, hnext]; rfl
      have hinv : ¬ o ≤ OFFSET_INVALID := by
        have := hpos l.place o hnext
        unfold OFFSET_INVALID
        omega
      by_cases hlt : o < l.offset
      · exact .inr ⟨by simp [hr, hinv, hlt], l, by simp, o, hnext, hlt⟩
      · have hle : l.offset ≤ o := by omega
        simpa [hr, hinv, hlt, hnext, hle] using ih

structure PollAt (us : List (Event σ)) (ev : Event σ) (vs : List (Event σ)) : Prop where
  tracked : ∀ s log read, ev = .polled s log read →
    List.Forall₂ (Positioned (delivered us)) log read
  followed : ∀ s log read, ev = .polled s log read → checkReadOver log read = some true →
    ∃ ws, vs = .returned (.ret .ERR__TIMED_OUT) :: ws
  behind : ev = .returned (.ret .ERR__TIMED_OUT) →
    ∃ us' s log read, us = us' ++ [.polled s log read] ∧ checkReadOver log read = some true

theorem PollAt.later {us vs ws : List (Event σ)} {ev : Event σ} (h : PollAt us ev vs) :
    PollAt us ev (vs ++ ws) := by
  refine ⟨h.tracked, ?_, h.behind⟩
  intro s log read hev hover
  obtain ⟨ws', rfl⟩ := h.followed s log read hev hover
  exact ⟨ws' ++ ws, rfl⟩

theorem PollAt.of_other {us vs : List (Event σ)} {ev : Event σ}
    (hpoll : ∀ s log read, ev ≠ .polled s log read)
    (hret : ev ≠ .returned (.ret .ERR__TIMED_OUT)) : PollAt us ev vs :=
  ⟨fun s log read h => absurd h (hpoll s log read), fun s log read h => absurd h (hpoll s log read),
    fun h => absurd h hret⟩

structure Timely (seen : σ → List Message) (past : List (Event σ)) (r : CBinlogKafkaReader) (s : σ) :
    Prop where
  seen : seen s = delivered past
  paired : r.m_logOffset = [] ∨ List.Forall₂ (fun l tp => tp.place = l.place) r.m_logOffset r.m_readOffSet
  polls : AtEach PollAt past

theorem Timely.concat {seen : σ → List Message} {past : List (Event σ)} {r : CBinlogKafkaReader}
    {s : σ} {ev : Event σ} (h : Timely seen past r s) (hd : delivered [ev] = [])
    (hpoll : ∀ s log read, ev ≠ .polled s log read)
    (hret : ev ≠ .returned (.ret .ERR__TIMED_OUT)) : Timely seen (past ++ [ev]) r s where
  seen := by rw [delivered_append, hd, List.append_nil, h.seen]
  paired := h.paired
  polls := h.polls.append (fun _ _ _ => PollAt.later)
    (atEach_singleton.mpr (.of_other hpoll hret))

theorem forall₂_of_map_eq {log read : List TopicPartition}
    (h : log.map TopicPartition.place = read.map TopicPartition.place) :
    List.Forall₂ (fun l tp => tp.place = l.place) log read := by
  rw [← List.forall₂_eq_eq_eq, List.forall₂_map_left_iff, List.forall₂_map_right_iff] at h
  exact h.imp fun _ _ => Eq.symm

theorem delivered_pollEvents (s : σ) (log read : List TopicPartition) :
    delivered (pollEvents s log read) = [] := by
  unfold pollEvents
  split <;> rfl

theorem pollEvents_pollAt {past : List (Event σ)} {log read : List TopicPartition} (s : σ)
    (h : List.Forall₂ (Positioned (delivered past)) log read) :
    AtEach (fun us ev vs => PollAt (past ++ us) ev vs) (pollEvents s log read) := by
  unfold pollEvents
  refine atEach_cons.mpr ⟨⟨?_, ?_, nofun⟩, ?_⟩
  · rintro _ _ _ ⟨rfl, rfl, rfl⟩
    simpa using h
  · rintro _ _ _ ⟨rfl, rfl, rfl⟩ hover
    exact ⟨[], by simp [hover]⟩
  · split
    · rename_i hover
      exact atEach_singleton.mpr ⟨nofun, nofun, fun _ => ⟨past, s, _, read, rfl, hover⟩⟩
    · exact atEach_nil

theorem timely_keeps {K : KafkaConsumer σ} {seen : σ → List Message} {parts : List Place}
    (hK : Tracks K seen) (hA : StaysAssigned K parts) : Keeps K (Timely seen) where
  consumed past r s m h := by
    refine ⟨?_, h.paired, ?_⟩
    · rw [hK.consume, h.seen, delivered_append]
      rfl
    · exact h.polls.append (fun _ _ _ => PollAt.later)
        (atEach_singleton.mpr (.of_other nofun nofun))
  filled past r s h := by
    have hlib : seen (fillOffset K r s).lib = delivered past :=
      fillOffset_lib (P := fun s => seen s = delivered past) K r s
        (fun s hs => (hK.assignment s).trans hs) (fun s p hs => (hK.query s p).trans hs) h.seen
    rcases fillOffset_case K r s with ⟨hevs, hsame⟩ | ⟨hread, hlog, hevs, hreads, hlogs⟩
    · rw [hevs, List.append_nil]
      refine ⟨hlib, ?_, h.polls⟩
      rcases hsame with hsame | hempty
      · rw [hsame]
        exact h.paired
      · exact .inl hempty
    · rw [hevs]
      have hc : Timely seen (past ++ [.captured s (K.assignment s).2.2]) r s :=
        h.concat rfl nofun nofun
      refine ⟨hlib.trans (h.seen.symm.trans hc.seen), .inr ?_, hc.polls⟩
      have hmaps := hlogs.trans ((hA _ hlog).trans (hA s hread).symm)
      rw [← hreads] at hmaps
      exact forall₂_of_map_eq hmaps
  polled past r s offsets s' h hlog hpos read hread := by
    have hlib := hK.position_lib s
    rw [hpos] at hlib
    have htracked : List.Forall₂ (Positioned (delivered past)) r.m_logOffset read := by
      subst hread
      rw [List.forall₂_map_right_iff]
      refine (h.paired.resolve_left hlog).imp ?_
      intro l tp htp
      have hoff := hK.position s tp.place (by rw [hpos])
      rw [hpos, h.seen] at hoff
      exact ⟨htp, hoff.trans (by rw [htp])⟩
    refine ⟨?_, ?_, ?_⟩
    · rw [delivered_append, delivered_pollEvents, List.append_nil, hlib, h.seen]
    · refine .inr ?_
      exact htracked.imp fun _ _ h => h.1
    · exact h.polls.append (fun _ _ _ => PollAt.later) (pollEvents_pollAt s htracked)
  unpolled past r s h _ := ⟨(hK.position_lib s).trans h.seen, h.paired, h.polls⟩
  returned past r s o ho h := h.concat rfl nofun (by simpa using ho)
  printed past r s m h := h.concat rfl nofun nofun

theorem RunAccounts.gapless {filterKeys : List Bytes} {script : List Message} {run : Run σ}
    {T : Topic} {start : Place → ℤ} (h : RunAccounts filterKeys script run)
    (hgap : Gapless T start (deliveries script)) {us vs : List (Event σ)}
    (hevs : run.events = us ++ vs) : Gapless T start (delivered us) := by
  have hsplit : deliveries script = delivered us ++ (delivered vs ++ deliveries run.rest) := by
    rw [← h.consumed, hevs, deliveries_append, ← List.append_assoc, ← delivered_append]
    rfl
  exact (hsplit ▸ hgap).of_append

theorem informed_iff {T : Topic} {start : Place → ℤ} {ms : List Message}
    (hgap : Gapless T start ms) {log read : List TopicPartition}
    (h : List.Forall₂ (Positioned ms) log read) :
    Informed T start log ms ↔ (checkReadOver log read = some true → Drained T start log ms) := by
  rcases checkReadOver_positioned (fun _ _ => hgap.next_pos) h with ⟨hover, hread⟩ | ⟨hover, hlag⟩
  · simp only [hover, forall_const]
    constructor
    · rintro (⟨l, hl, o, hnext, hlt⟩ | hnone) l' hl' x hx hplace hstart hbelow
      · have := hread l hl o hnext
        omega
      · cases hnext : nextOffset ms l'.place with
        | none =>
          have := hnone l' hl' hnext x hx hplace hstart
          omega
        | some o =>
          have := hread l' hl' o hnext
          exact hgap.covers hnext hx hplace (hplace ▸ hstart) (by omega)
    · intro hdrained
      refine .inr fun l hl hnext x hx hplace hstart => ?_
      by_contra hbelow
      have hmem := hdrained l hl x hx hplace hstart (by omega)
      exact next_eq_none_iff.mp hnext x hmem hplace
  · simp [hover, Informed, hlag]

/-- As long as the assignment stays, and up to the offsets `script` leaves open: a timeout is
    returned only with everything delivered exactly when each poll finds a partition that lags, or
    nothing in the partitions that have delivered nothing yet. -/
theorem mainLoop_timesOutDrained_iff {K : KafkaConsumer σ} {seen : σ → List Message}
    {parts : List Place} (hK : Tracks K seen) (hA : StaysAssigned K parts) (T : Topic)
    (start : Place → ℤ) (filterKeys : List Bytes) (waitMode : Bool) (n : ℕ) (s : σ)
    (script : List Message) (hs : seen s = []) (hgap : Gapless T start (deliveries script)) :
    TimesOutDrained T start (mainLoop K filterKeys waitMode n {} s script).events ↔
      PollsInformed T start (mainLoop K filterKeys waitMode n {} s script).events := by
  have hfresh : Timely seen [] {} s := ⟨hs, .inl rfl, atEach_nil⟩
  have htimely := ((timely_keeps hK hA).mainLoop filterKeys waitMode n script hfresh).polls
  have hacc := mainLoop_accounts K filterKeys waitMode n {} s script
  rw [List.nil_append] at htimely
  generalize mainLoop K filterKeys waitMode n {} s script = run at htimely hacc ⊢
  have hgapless (us vs : List (Event σ)) (h : run.events = us ++ vs) := hacc.gapless hgap h
  constructor
  · rintro hdrained us _ vs hevs s log read rfl
    have hpoll := htimely us _ vs hevs
    refine (informed_iff (hgapless _ _ hevs) (hpoll.tracked s log read rfl)).mpr fun hover => ?_
    obtain ⟨ws, rfl⟩ := hpoll.followed s log read rfl hover
    obtain ⟨us', s', log', read', hus, hd⟩ := hdrained (us ++ [.polled s log read]) _ ws
      (by simp [hevs]) rfl
    obtain ⟨rfl, hev⟩ := List.append_inj' hus rfl
    cases hev
    rw [delivered_append] at hd
    simpa [delivered, deliveries, messagesConsumed, written, Event.messageConsumed] using hd
  · rintro hinformed us _ vs hevs rfl
    obtain ⟨us', s, log, read, rfl, hover⟩ := (htimely us _ vs hevs).behind rfl
    have hevs' : run.events = us' ++ .polled s log read :: (.returned (.ret .ERR__TIMED_OUT) :: vs) := by
      simp [hevs]
    have hpoll := htimely us' _ _ hevs'
    have hd := (informed_iff (hgapless _ _ hevs') (hpoll.tracked s log read rfl)).mp
      (hinformed us' _ _ hevs' s log read rfl) hover
    refine ⟨us', s, log, read, rfl, ?_⟩
    rw [delivered_append]
    simpa [delivered, deliveries, messagesConsumed, written, Event.messageConsumed] using hd

def timedOut : Message := ⟨.ERR__TIMED_OUT, [], 0, 0, none, []⟩

def record (partition : ℤ) : Message := ⟨.ERR_NO_ERROR, [113], partition, 0, some [97], [1]⟩

def twoRecords : Topic where
  items := {record 0, record 1}
  offset_nonneg := by rintro x (rfl | rfl) <;> decide
  unique := by rintro x (rfl | rfl) y (rfl | rfl) <;> decide

def twoPartitions : KafkaConsumer (List Message) where
  consume s m := s ++ deliveries [m]
  assignment s := (.ERR_NO_ERROR, [⟨[113], 0, OFFSET_INVALID⟩, ⟨[113], 1, OFFSET_INVALID⟩], s)
  query_watermark_offsets s _ := (.ERR_NO_ERROR, 1, s)
  position s := (.ERR_NO_ERROR, fun p => (nextOffset s p).getD OFFSET_INVALID, s)
  commitSync s := (.ERR_NO_ERROR, s)

theorem twoPartitions_tracks : Tracks twoPartitions id :=
  ⟨fun _ _ => rfl, fun _ => rfl, fun _ _ => rfl, fun _ => rfl, fun _ _ _ => rfl⟩

theorem twoPartitions_stays : StaysAssigned twoPartitions [([113], 0), ([113], 1)] :=
  fun _ _ => rfl

theorem twoRecords_gapless (xs : List Message) (h : ∀ x ∈ xs, x = record 0 ∨ x = record 1) :
    Gapless twoRecords (fun _ => 0) xs := by
  rintro us x vs rfl
  have hx := h x (by simp)
  refine ⟨hx, ?_, ?_⟩
  · rcases hx with rfl | rfl <;> decide
  · intro y hy _ hstart hlt
    exfalso
    rcases hx with rfl | rfl <;> rcases hy with rfl | rfl <;> exact absurd hlt (by decide)

theorem mainLoop_timesOutDrained_twoRecords :
    TimesOutDrained twoRecords (fun _ => 0)
      (mainLoop twoPartitions [] false 3 {} [] [record 0, record 1, timedOut]).events := by
  refine (mainLoop_timesOutDrained_iff twoPartitions_tracks twoPartitions_stays twoRecords
    (fun _ => 0) [] false 3 [] [record 0, record 1, timedOut] rfl
    (twoRecords_gapless _ (by decide))).mpr ?_
  change PollsInformed twoRecords _ [.captured [] [], .consumed (record 0),
    .returned (.message (record 0)), .printed (record 0), .consumed (record 1),
    .returned (.message (record 1)), .printed (record 1), .consumed timedOut,
    .polled [record 0, record 1] [⟨[113], 0, 1⟩, ⟨[113], 1, 1⟩] [⟨[113], 0, 1⟩, ⟨[113], 1, 1⟩],
    .returned (.ret .ERR__TIMED_OUT)]
  simp only [PollsInformed, atEach_cons, atEach_nil, reduceCtorEq, false_implies, implies_true, true_and, and_true]
  rintro s log read ⟨rfl, rfl, rfl⟩
  refine .inr fun l hl hnone => ?_
  rcases List.mem_pair.mp hl with rfl | rfl
  · exact absurd hnone (by decide)
  · exact absurd hnone (by decide)

theorem untouchedPartition_timesOut :
    Tracks twoPartitions id ∧ StaysAssigned twoPartitions [([113], 0), ([113], 1)] ∧
      Gapless twoRecords (fun _ => 0) (deliveries [record 0, timedOut]) ∧
      ¬ TimesOutDrained twoRecords (fun _ => 0)
        (mainLoop twoPartitions [] false 2 {} [] [record 0, timedOut]).events := by
  refine ⟨twoPartitions_tracks, twoPartitions_stays, twoRecords_gapless _ (by decide), ?_⟩
  intro h
  obtain ⟨us, s, log, read, hus, hdrained⟩ := h
    [.captured [] [], .consumed (record 0), .returned (.message (record 0)), .printed (record 0),
      .consumed timedOut, .polled [record 0] [⟨[113], 0, 1⟩, ⟨[113], 1, 1⟩]
        [⟨[113], 0, 1⟩, ⟨[113], 1, OFFSET_INVALID⟩]] _ [] rfl rfl
  have hlast := (congrArg List.getLast? hus).trans List.getLast?_concat
  cases hlast
  have := hdrained ⟨[113], 1, 1⟩ (by decide) (record 1) (.inr rfl) rfl (by decide) (by decide)
  revert this
  decide

end O2k.KafkaReader
