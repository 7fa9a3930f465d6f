import O2k.KafkaTimeout

set_option autoImplicit false

namespace O2k.KafkaReader
open ByteOrder GatedTrace

variable {σ : Type}

/-- The entries that `checkReadOver` looks at, up to where it stops. -/
def compared : List TopicPartition → List TopicPartition → List (TopicPartition × Option TopicPartition)
  | [], _ => []
  | l :: _, [] => [(l, none)]
  | l :: log, r :: read =>
    (l, some r) ::
      if r.offset ≤ OFFSET_INVALID then compared log read
      else if r.offset < l.offset then []
      else compared log read

theorem checkReadOver_eq_none_iff (log read : List TopicPartition) :
    checkReadOver log read = none ↔ ∃ l, (l, none) ∈ compared log read := by
  induction log generalizing read with
  | nil => simp [checkReadOver, compared]
  | cons l log ih =>
    cases read with
    | nil => simp [checkReadOver, compared]
    | cons r read =>
      simp only [checkReadOver, compared]
      split
      · simpa using ih read
      · split
        · simp
        · simpa using ih read

def ComparesPaired (assigned : σ → List Place) (evs : List (Event σ)) : Prop :=
  AtEach (fun _ ev _ => ∀ s log read, ev = .polled s log read →
    ∀ c ∈ compared log read, ∃ r, c.2 = some r ∧ r.place = c.1.place ∧ c.1.place ∈ assigned s) evs

def Event.capture : Event σ → List (σ × σ)
  | .captured s₁ s₂ => [(s₁, s₂)]
  | _ => []

def lastCapture (evs : List (Event σ)) : Option (σ × σ) := (written Event.capture evs).getLast?

/-- What the second call found begins what the first one found, and is still assigned at each
    later poll. -/
def Undisturbed (assigned : σ → List Place) (evs : List (Event σ)) : Prop :=
  AtEach (fun us ev _ => ∀ s log read, ev = .polled s log read →
    ∀ s₁ s₂, lastCapture us = some (s₁, s₂) → assigned s₂ <+: assigned s₁ ∧ assigned s₂ ⊆ assigned s) evs

def Snapshot (assigned : σ → List Place) (past : List (Event σ)) (log read : List TopicPartition) :
    Prop :=
  ∃ s₁ s₂, lastCapture past = some (s₁, s₂) ∧ read.map TopicPartition.place = assigned s₁ ∧
    log.map TopicPartition.place = assigned s₂

structure Snapshots (assigned : σ → List Place) (past : List (Event σ)) (r : CBinlogKafkaReader) :
    Prop where
  reader : r.m_logOffset = [] ∨ Snapshot assigned past r.m_logOffset r.m_readOffSet
  polls : AtEach (fun us ev _ => ∀ s log read, ev = .polled s log read →
    Snapshot assigned us log read) past

theorem lastCapture_append {past evs : List (Event σ)} (h : written Event.capture evs = []) :
    lastCapture (past ++ evs) = lastCapture past := by
  rw [lastCapture, written_append, h, List.append_nil, lastCapture]

theorem Snapshot.append {assigned : σ → List Place} {past evs : List (Event σ)}
    {log read : List TopicPartition} (h : Snapshot assigned past log read)
    (hevs : written Event.capture evs = []) : Snapshot assigned (past ++ evs) log read := by
  unfold Snapshot
  rw [lastCapture_append hevs]
  exact h

theorem capture_pollEvents (s : σ) (log read : List TopicPartition) :
    written Event.capture (pollEvents s log read) = [] := by
  unfold pollEvents
  split <;> rfl

section Polls

variable {P : List (Event σ) → List TopicPartition → List TopicPartition → Prop}
  {past : List (Event σ)}

theorem polls_concat {ev : Event σ}
    (h : AtEach (fun us ev _ => ∀ s log read, ev = .polled s log read → P us log read) past)
    (hpoll : ∀ s log read, ev ≠ .polled s log read) :
    AtEach (fun us ev _ => ∀ s log read, ev = .polled s log read → P us log read) (past ++ [ev]) :=
  h.append (fun _ _ _ hp => hp)
    (atEach_singleton.mpr fun s log read he => absurd he (hpoll s log read))

theorem polls_pollEvents {s : σ} {log read : List TopicPartition}
    (h : AtEach (fun us ev _ => ∀ s log read, ev = .polled s log read → P us log read) past)
    (hp : P past log read) :
    AtEach (fun us ev _ => ∀ s log read, ev = .polled s log read → P us log read)
      (past ++ pollEvents s log read) := by
  refine h.append (fun _ _ _ hp => hp) ?_
  unfold pollEvents
  refine atEach_cons.mpr ⟨?_, ?_⟩
  · rintro _ _ _ ⟨rfl, rfl, rfl⟩
    simpa using hp
  · split
    · exact atEach_singleton.mpr fun _ _ _ he => by cases he
    · exact atEach_nil

end Polls

theorem Snapshots.concat {assigned : σ → List Place} {past : List (Event σ)} {r : CBinlogKafkaReader}
    {ev : Event σ} (h : Snapshots assigned past r) (hev : Event.capture ev = [])
    (hpoll : ∀ s log read, ev ≠ .polled s log read) : Snapshots assigned (past ++ [ev]) r where
  reader := h.reader.imp_right fun hr => hr.append (by rw [written_cons, hev]; rfl)
  polls := polls_concat h.polls hpoll

theorem snapshots_keeps {K : KafkaConsumer σ} {assigned : σ → List Place} (hK : Reports K assigned) :
    Keeps K (fun past r _ => Snapshots assigned past r) where
  consumed past r s m h := h.concat rfl nofun
  filled past r s h := by
    rcases fillOffset_case K r s with ⟨hevs, hsame⟩ | ⟨hread, hlog, hevs, hreads, hlogs⟩
    · rw [hevs, List.append_nil]
      refine ⟨?_, h.polls⟩
      rcases hsame with hsame | hempty
      · rw [hsame]
        exact h.reader
      · exact .inl hempty
    · rw [hevs]
      refine ⟨.inr ⟨s, (K.assignment s).2.2, ?_, ?_, ?_⟩, ?_⟩
      · rw [lastCapture, written_append]
        exact List.getLast?_concat
      · rw [hreads, hK s hread]
      · rw [hlogs, hK _ hlog]
      · exact polls_concat h.polls nofun
  polled past r s offsets s' h hlog hpos read hread := by
    have hsnap : Snapshot assigned past r.m_logOffset read := by
      obtain ⟨s₁, s₂, hcap, hreads, hlogs⟩ := h.reader.resolve_left hlog
      refine ⟨s₁, s₂, hcap, ?_, hlogs⟩
      rw [← hreads, hread, List.map_map]
      rfl
    exact ⟨.inr (hsnap.append (capture_pollEvents _ _ _)), polls_pollEvents h.polls hsnap⟩
  unpolled past r s h _ := h
  returned past r s o _ h := h.concat rfl nofun
  printed past r s m h := h.concat rfl nofun

theorem compared_paired {log read : List TopicPartition}
    (h : log.map TopicPartition.place <+: read.map TopicPartition.place)
    {c : TopicPartition × Option TopicPartition} (hc : c ∈ compared log read) :
    ∃ r, c.2 = some r ∧ r.place = c.1.place ∧ c.1 ∈ log := by
  induction log generalizing read with
  | nil => simp [compared] at hc
  | cons l log ih =>
    cases read with
    | nil => simp at h
    | cons r read =>
      simp only [List.map_cons, List.cons_prefix_cons] at h
      have hrest (hc : c ∈ compared log read) :
          ∃ r, c.2 = some r ∧ r.place = c.1.place ∧ c.1 ∈ l :: log := by
        obtain ⟨r', hr', hplace, hmem⟩ := ih h.2 hc
        exact ⟨r', hr', hplace, List.mem_cons_of_mem l hmem⟩
      simp only [compared, List.mem_cons] at hc
      rcases hc with rfl | hc
      · exact ⟨r, rfl, h.1.symm, by simp⟩
      · split at hc
        · exact hrest hc
        · split at hc
          · simp at hc
          · exact hrest hc

/-- However assignment changes fall between the library calls of a run: as long as each captured
    pair fits and stays assigned, only entries of one assigned partition are compared. -/
theorem mainLoop_comparesPaired {K : KafkaConsumer σ} {assigned : σ → List Place}
    (hK : Reports K assigned) (filterKeys : List Bytes) (waitMode : Bool) (n : ℕ) (s : σ)
    (script : List Message)
    (h : Undisturbed assigned (mainLoop K filterKeys waitMode n {} s script).events) :
    ComparesPaired assigned (mainLoop K filterKeys waitMode n {} s script).events := by
  have hfresh : Snapshots assigned ([] : List (Event σ)) {} := ⟨.inl rfl, atEach_nil⟩
  have hpolls := ((snapshots_keeps hK).mainLoop filterKeys waitMode n (s := s) script hfresh).polls
  rw [List.nil_append] at hpolls
  rintro us _ vs hevs s' log read rfl c hc
  obtain ⟨s₁, s₂, hcap, hreads, hlogs⟩ := hpolls us _ vs hevs s' log read rfl
  obtain ⟨hfits, hstays⟩ := h us _ vs hevs s' log read rfl s₁ s₂ hcap
  rw [← hreads, ← hlogs] at hfits
  obtain ⟨r, hr, hplace, hmem⟩ := compared_paired hfits hc
  refine ⟨r, hr, hplace, hstays ?_⟩
  rw [← hlogs]
  exact List.mem_map_of_mem hmem

theorem mainLoop_comparesPaired_twoPartitions :
    ComparesPaired (fun _ => [([113], 0), ([113], 1)])
      (mainLoop twoPartitions [] false 1 {} [] [timedOut]).events :=
  mainLoop_comparesPaired twoPartitions_stays [] false 1 [] [timedOut]
    fun _ _ _ _ _ _ _ _ _ _ _ => ⟨List.prefix_refl _, fun _ hp => hp⟩

def joining : KafkaConsumer Bool where
  consume s _ := s
  assignment s := (.ERR_NO_ERROR, if s then [⟨[113], 0, OFFSET_INVALID⟩] else [], true)
  query_watermark_offsets s _ := (.ERR_NO_ERROR, 1, s)
  position s := (.ERR_NO_ERROR, fun _ => OFFSET_INVALID, s)
  commitSync s := (.ERR_NO_ERROR, s)

def joiningAssigned (s : Bool) : List Place := if s then [([113], 0)] else []

theorem joining_outOfBounds :
    Reports joining joiningAssigned ∧
      (Read joining [] {} false [timedOut]).outcome = .undefined ∧
      ¬ ComparesPaired joiningAssigned (mainLoop joining [] false 1 {} false [timedOut]).events := by
  refine ⟨?_, rfl, fun h => ?_⟩
  · intro s _
    cases s <;> rfl
  · obtain ⟨r, hr, _⟩ := h [.captured false true, .consumed timedOut]
      (.polled true [⟨[113], 0, 1⟩] []) [] rfl true [⟨[113], 0, 1⟩] [] rfl (⟨[113], 0, 1⟩, none)
      (List.mem_singleton.mpr rfl)
    cases hr

end O2k.KafkaReader
