import O2k.KafkaAssignment

set_option autoImplicit false

namespace O2k.KafkaReader
open ByteOrder GatedTrace

variable {σ : Type}

def highs (K : KafkaConsumer σ) : σ → List TopicPartition → List ℤ
  | _, [] => []
  | s, tp :: tps =>
    match K.query_watermark_offsets s tp.place with
    | (.ERR_NO_ERROR, high, s) => high :: highs K s tps
    | _ => []

/-- What `fillOffset` makes of `m_logOffset` when its second call of `assignment` meets `s`. -/
def snapshot (K : KafkaConsumer σ) (s : σ) : Bool × List TopicPartition × σ :=
  fillHigh K (K.assignment s).2.2 (K.assignment s).2.1

def snapshotHighs (K : KafkaConsumer σ) (s : σ) : List ℤ :=
  highs K (K.assignment s).2.2 (K.assignment s).2.1

def watermarks (K : KafkaConsumer σ) (evs : List (Event σ)) : List ℤ :=
  match lastCapture evs with
  | some (_, s) => snapshotHighs K s
  | none => []

def passed : List TopicPartition → List TopicPartition → ℕ
  | [], _ => 0
  | _ :: _, [] => 0
  | l :: log, r :: read =>
    if r.offset ≤ OFFSET_INVALID then passed log read + 1
    else if r.offset < l.offset then 0
    else passed log read + 1

def readSeq (K : KafkaConsumer σ) :
    CBinlogKafkaReader → σ → List (List Bytes × List Message) → List (Event σ)
  | _, _, [] => []
  | r, s, (filterKeys, script) :: calls =>
    let c := Read K filterKeys r s script
    match c.outcome with
    | .undefined | .blocked => c.events
    | _ => c.events ++ readSeq K c.reader c.lib calls

def afterFill (K : KafkaConsumer σ) (r : CBinlogKafkaReader) (s : σ)
    (calls : List (List Bytes × List Message)) : List (Event σ) :=
  (fillOffset K r s).events ++ readSeq K (fillOffset K r s).reader (fillOffset K r s).lib calls

/-- A call of `fillOffset` and the run behind it: wherever a call failed, `m_logOffset` is empty or
    holds a watermark in every entry, and the check takes no partition for read that has none. -/
structure FailsSafe (K : KafkaConsumer σ) (r : CBinlogKafkaReader) (s : σ)
    (calls : List (List Bytes × List Message)) : Prop where
  left : (fillOffset K r s).reader.m_logOffset = [] ∨
    (fillOffset K r s).reader.m_logOffset.map TopicPartition.offset =
      watermarks K (fillOffset K r s).events
  later : AtEach (fun _ ev _ => ∀ s₁ s₂, ev = .captured s₁ s₂ → (snapshot K s₂).1 = false →
    (snapshot K s₂).2.1 = [] ∨
      (snapshot K s₂).2.1.map TopicPartition.offset = snapshotHighs K s₂) (afterFill K r s calls)
  read : AtEach (fun us ev _ => ∀ s log read, ev = .polled s log read →
    passed log read ≤ (watermarks K us).length) (afterFill K r s calls)

def AllAnswered (K : KafkaConsumer σ) (evs : List (Event σ)) : Prop :=
  AtEach (fun _ ev _ => ∀ s₁ s₂, ev = .captured s₁ s₂ → (snapshot K s₂).1 = true) evs

theorem passed_le (log read : List TopicPartition) : passed log read ≤ log.length := by
  induction log generalizing read with
  | nil => exact le_rfl
  | cons l log ih =>
    cases read with
    | nil => exact Nat.zero_le _
    | cons r read =>
      have hrest := ih read
      simp only [passed, List.length_cons]
      split
      · omega
      · split <;> omega

theorem fillHigh_offsets (K : KafkaConsumer σ) (s : σ) (log : List TopicPartition) :
    (fillHigh K s log).2.1.map TopicPartition.offset =
        highs K s log ++ (log.drop (highs K s log).length).map TopicPartition.offset ∧
      ((fillHigh K s log).1 = true ↔ (highs K s log).length = log.length) ∧
      (highs K s log).length ≤ log.length := by
  induction log generalizing s with
  | nil => simp [fillHigh, highs]
  | cons tp tps ih =>
    unfold fillHigh highs
    rcases hq : K.query_watermark_offsets s tp.place with ⟨e, high, s'⟩
    cases e with
    | ERR_NO_ERROR =>
      obtain ⟨hoffs, hall, hle⟩ := ih s'
      refine ⟨?_, ?_, ?_⟩
      · simpa using hoffs
      · simpa using hall
      · simpa using hle
    | _ => simp

theorem snapshot_length (K : KafkaConsumer σ) (s : σ) :
    (snapshot K s).2.1.length = (K.assignment s).2.1.length := by
  have h := congrArg List.length
    (fillHigh_places K (K.assignment s).2.2 (K.assignment s).2.1)
  simpa [snapshot] using h

theorem snapshot_answered {K : KafkaConsumer σ} {s : σ} :
    (snapshot K s).1 = true ↔ (snapshotHighs K s).length = (snapshot K s).2.1.length := by
  rw [snapshot_length]
  exact (fillHigh_offsets K _ _).2.1

theorem snapshot_holds {K : KafkaConsumer σ} {s : σ}
    (h : (snapshot K s).2.1 = [] ∨
      (snapshot K s).2.1.map TopicPartition.offset = snapshotHighs K s) :
    (snapshot K s).1 = true := by
  rw [snapshot_answered]
  rcases h with hnil | hsame
  · have hle := (fillHigh_offsets K (K.assignment s).2.2 (K.assignment s).2.1).2.2
    rw [← snapshot_length, hnil] at hle
    rw [hnil]
    exact Nat.le_zero.mp hle
  · rw [← hsame, List.length_map]

def FromSnapshot (K : KafkaConsumer σ) (past : List (Event σ)) (log : List TopicPartition) : Prop :=
  ∃ s₁ s₂, lastCapture past = some (s₁, s₂) ∧ log = (snapshot K s₂).2.1

structure Kept (K : KafkaConsumer σ) (past : List (Event σ)) (r : CBinlogKafkaReader) : Prop where
  reader : r.m_logOffset = [] ∨ FromSnapshot K past r.m_logOffset
  polls : AtEach (fun us ev _ => ∀ s log read, ev = .polled s log read →
    FromSnapshot K us log) past

theorem FromSnapshot.append {K : KafkaConsumer σ} {past evs : List (Event σ)}
    {log : List TopicPartition} (h : FromSnapshot K past log)
    (hevs : written Event.capture evs = []) : FromSnapshot K (past ++ evs) log := by
  unfold FromSnapshot
  rw [lastCapture_append hevs]
  exact h

theorem Kept.concat {K : KafkaConsumer σ} {past : List (Event σ)} {r : CBinlogKafkaReader}
    {ev : Event σ} (h : Kept K past r) (hev : Event.capture ev = [])
    (hpoll : ∀ s log read, ev ≠ .polled s log read) : Kept K (past ++ [ev]) r where
  reader := h.reader.imp_right fun hr => hr.append (by rw [written_cons, hev]; rfl)
  polls := polls_concat h.polls hpoll

theorem fillOffset_leaves (K : KafkaConsumer σ) (r : CBinlogKafkaReader) (s : σ) :
    ((fillOffset K r s).events = [] ∧ (fillOffset K r s).reader.m_logOffset = r.m_logOffset ∧
      ((fillOffset K r s).ret = -1 → r.m_logOffset = [])) ∨
    ∃ s₂, (fillOffset K r s).events = [.captured s s₂] ∧
      (fillOffset K r s).reader.m_logOffset = (snapshot K s₂).2.1 ∧
      ((fillOffset K r s).ret = -1 → (snapshot K s₂).1 = false) := by
  by_cases hlog : r.m_logOffset = []
  · unfold fillOffset
    simp only [hlog, List.isEmpty_nil, ↓reduceIte]
    split
    · rename_i read s₁ hread
      split
      · rename_i log s₂ hlog'
        refine .inr ⟨s₁, rfl, ?_, ?_⟩
        · simp only [snapshot, hlog']
        · simp only [snapshot, hlog']
          intro hret
          by_contra hok
          simp [hok] at hret
      · exact .inl ⟨rfl, rfl, fun _ => trivial⟩
    · exact .inl ⟨rfl, hlog, fun _ => trivial⟩
  · refine .inl ⟨?_, ?_, ?_⟩
    · simp [fillOffset, hlog]
    · simp [fillOffset, hlog]
    · simp [fillOffset, hlog]

theorem kept_keeps (K : KafkaConsumer σ) : Keeps K (fun past r _ => Kept K past r) where
  consumed past r s m h := h.concat rfl fun _ _ _ he => by cases he
  filled past r s h := by
    rcases fillOffset_leaves K r s with ⟨hevs, hsame, _⟩ | ⟨s₂, hevs, hlog, _⟩
    · rw [hevs, List.append_nil]
      refine ⟨?_, h.polls⟩
      rw [hsame]
      exact h.reader
    · rw [hevs]
      refine ⟨.inr ⟨s, s₂, ?_, hlog⟩, ?_⟩
      · rw [lastCapture, written_append]
        exact List.getLast?_concat
      · exact polls_concat h.polls fun _ _ _ he => by cases he
  polled past r s offsets s' h hlog _ read _ := by
    have hsnap := h.reader.resolve_left hlog
    exact ⟨.inr (hsnap.append (capture_pollEvents _ _ _)), polls_pollEvents h.polls hsnap⟩
  unpolled past r s h _ := h
  returned past r s o _ h := h.concat rfl fun _ _ _ he => by cases he
  printed past r s m h := h.concat rfl fun _ _ _ he => by cases he

theorem Keeps.readSeq {K : KafkaConsumer σ} {Inv : List (Event σ) → CBinlogKafkaReader → σ → Prop}
    (h : Keeps K Inv) {past : List (Event σ)} {r : CBinlogKafkaReader} {s : σ}
    (calls : List (List Bytes × List Message)) (hI : Inv past r s) :
    ∃ r' s', Inv (past ++ readSeq K r s calls) r' s' := by
  induction calls generalizing past r s with
  | nil => exact ⟨r, s, by simpa [KafkaReader.readSeq] using hI⟩
  | cons call calls ih =>
    obtain ⟨filterKeys, script⟩ := call
    have hr := h.Read filterKeys script hI
    have hnext := ih hr
    rw [List.append_assoc] at hnext
    simp only [KafkaReader.readSeq]
    cases (KafkaReader.Read K filterKeys r s script).outcome with
    | message m => exact hnext
    | ret code => exact hnext
    | undefined => exact ⟨_, _, hr⟩
    | blocked => exact ⟨_, _, hr⟩

/-- After a `fillOffset` that failed, wherever it did, and whatever `Read` calls follow: the object
    is safe exactly when the failures, now and later, are of `assignment` and not of a query. -/
theorem fillOffset_failsSafe_iff (K : KafkaConsumer σ) (r : CBinlogKafkaReader) (s : σ)
    (calls : List (List Bytes × List Message)) (hfail : (fillOffset K r s).ret = -1) :
    FailsSafe K r s calls ↔ AllAnswered K (afterFill K r s calls) := by
  constructor
  · intro h us ev vs hevs s₁ s₂ hev
    cases hanswered : (snapshot K s₂).1 with
    | true => rfl
    | false =>
      have hholds := snapshot_holds (h.later us ev vs hevs s₁ s₂ hev hanswered)
      rw [hanswered] at hholds
      exact hholds
  · intro hall
    have hkept : Kept K (fillOffset K r s).events (fillOffset K r s).reader := by
      have hempty : r.m_logOffset = [] := by
        by_contra hlog
        simp [fillOffset, hlog] at hfail
      simpa using (kept_keeps K).filled [] r s ⟨.inl hempty, atEach_nil⟩
    obtain ⟨r', s', hrun⟩ := (kept_keeps K).readSeq (s := (fillOffset K r s).lib) calls hkept
    refine ⟨?_, ?_, ?_⟩
    · rcases fillOffset_leaves K r s with ⟨_, hsame, hret⟩ | ⟨s₂, hevs, _, hret⟩
      · exact .inl (hsame.trans (hret hfail))
      · have hanswered := hall [] (.captured s s₂) (readSeq K _ _ calls)
          (by rw [afterFill, hevs]; rfl) s s₂ rfl
        rw [hret hfail] at hanswered
        cases hanswered
    · intro us ev vs hevs s₁ s₂ hev hfailed
      rw [hall us ev vs hevs s₁ s₂ hev] at hfailed
      cases hfailed
    · intro us ev vs hevs s₀ log read hev
      obtain ⟨s₁, s₂, hcap, hlog⟩ := hrun.polls us ev vs hevs s₀ log read hev
      obtain ⟨xs, ys, hus⟩ : ∃ xs ys, us = xs ++ .captured s₁ s₂ :: ys := by
        have hmem : (s₁, s₂) ∈ written Event.capture us := List.mem_of_getLast? hcap
        obtain ⟨e, he, hc⟩ := List.mem_flatMap.mp hmem
        cases e with
        | captured a b =>
          obtain ⟨rfl, rfl⟩ : s₁ = a ∧ s₂ = b := by simpa [Event.capture] using hc
          exact List.append_of_mem he
        | _ => simp [Event.capture] at hc
      have hanswered := hall xs (.captured s₁ s₂) (ys ++ ev :: vs)
        (by rw [hevs, hus, List.append_assoc]; rfl) s₁ s₂ rfl
      have hle := passed_le log read
      rw [watermarks, hcap]
      dsimp only
      rw [snapshot_answered.mp hanswered, ← hlog]
      exact hle

def unanswered : KafkaConsumer Unit where
  consume s _ := s
  assignment s := (.ERR_NO_ERROR, [⟨[113], 0, OFFSET_INVALID⟩], s)
  query_watermark_offsets s _ := (.ERR__TIMED_OUT, 0, s)
  position s := (.ERR_NO_ERROR, fun _ => OFFSET_INVALID, s)
  commitSync s := (.ERR_NO_ERROR, s)

theorem unanswered_failsUnsafe :
    (fillOffset unanswered {} ()).ret = -1 ∧
      (Read unanswered [] (fillOffset unanswered {} ()).reader () [timedOut]).outcome =
        .ret .ERR__TIMED_OUT ∧
      ¬ FailsSafe unanswered {} () [([], [timedOut])] := by
  refine ⟨rfl, rfl, fun h => ?_⟩
  have hle := h.read [.captured () (), .consumed timedOut]
    (.polled () [⟨[113], 0, OFFSET_INVALID⟩] [⟨[113], 0, OFFSET_INVALID⟩])
    [.returned (.ret .ERR__TIMED_OUT)] rfl () _ _ rfl
  revert hle
  decide

def unassigned : KafkaConsumer Bool where
  consume s _ := s
  assignment s := (if s then .ERR_NO_ERROR else .ERR__FAIL, [⟨[113], 0, OFFSET_INVALID⟩], true)
  query_watermark_offsets s _ := (.ERR_NO_ERROR, 1, s)
  position s := (.ERR_NO_ERROR, fun _ => OFFSET_INVALID, s)
  commitSync s := (.ERR_NO_ERROR, s)

theorem fillOffset_failsSafe_unassigned :
    FailsSafe unassigned {} false [([], [record 0])] := by
  refine (fillOffset_failsSafe_iff unassigned {} false [([], [record 0])] rfl).mpr ?_
  change AllAnswered unassigned [.captured true true, .consumed (record 0),
    .returned (.message (record 0))]
  simp only [AllAnswered, atEach_cons, atEach_nil, reduceCtorEq, false_implies, implies_true,
    and_true]
  rintro s₁ s₂ ⟨rfl, rfl⟩
  rfl

end O2k.KafkaReader
