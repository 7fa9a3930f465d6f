import O2k.KafkaReader

set_option autoImplicit false

namespace O2k.KafkaReader
open ByteOrder GatedTrace

variable {σ : Type}

def Event.messageConsumed : Event σ → List Message
  | .consumed m => [m]
  | _ => []

def Event.messageReturned : Event σ → List Message
  | .returned (.message m) => [m]
  | _ => []

def Event.payloadReturned : Event σ → List Bytes
  | .returned (.message m) => [m.payload]
  | _ => []

def Event.messagePrinted : Event σ → List Message
  | .printed m => [m]
  | _ => []

def messagesConsumed (evs : List (Event σ)) : List Message := written Event.messageConsumed evs

def messagesReturned (evs : List (Event σ)) : List Message := written Event.messageReturned evs

def payloadsReturned (evs : List (Event σ)) : List Bytes := written Event.payloadReturned evs

def messagesPrinted (evs : List (Event σ)) : List Message := written Event.messagePrinted evs

@[simp] theorem messagesConsumed_append (xs ys : List (Event σ)) :
    messagesConsumed (xs ++ ys) = messagesConsumed xs ++ messagesConsumed ys := written_append _ xs ys

@[simp] theorem messagesReturned_append (xs ys : List (Event σ)) :
    messagesReturned (xs ++ ys) = messagesReturned xs ++ messagesReturned ys := written_append _ xs ys

@[simp] theorem messagesPrinted_append (xs ys : List (Event σ)) :
    messagesPrinted (xs ++ ys) = messagesPrinted xs ++ messagesPrinted ys := written_append _ xs ys

theorem payloadsReturned_eq (evs : List (Event σ)) :
    payloadsReturned evs = (messagesReturned evs).map Message.payload := by
  rw [payloadsReturned, messagesReturned, written, written, List.map_flatMap]
  congr 1
  funext ev
  cases ev with
  | returned o => cases o <;> rfl
  | _ => rfl

def Wanted (filterKeys : List Bytes) (m : Message) : Prop :=
  m.err = .ERR_NO_ERROR ∧ ∃ key ∈ m.key, filterKeys = [] ∨ key ∈ filterKeys

instance (filterKeys : List Bytes) : DecidablePred (Wanted filterKeys) :=
  fun m => inferInstanceAs (Decidable (m.err = .ERR_NO_ERROR ∧ ∃ key ∈ m.key, _))

def pollEvents (s : σ) (log read : List TopicPartition) : List (Event σ) :=
  .polled s log read ::
    if checkReadOver log read = some true then [.returned (.ret .ERR__TIMED_OUT)] else []

section fillOffset

variable (K : KafkaConsumer σ) (r : CBinlogKafkaReader) (s : σ)

theorem fillHigh_places (log : List TopicPartition) :
    (fillHigh K s log).2.1.map TopicPartition.place = log.map TopicPartition.place := by
  induction log generalizing s with
  | nil => rfl
  | cons tp tps ih =>
    unfold fillHigh
    split
    · rename_i high s' _
      simpa using ih s'
    · rfl

/-- Either both calls of `assignment` succeed and their lists are taken over, or `m_logOffset`
    is as it was. -/
theorem fillOffset_case :
    ((fillOffset K r s).events = [] ∧
      ((fillOffset K r s).reader = r ∨ (fillOffset K r s).reader.m_logOffset = [])) ∨
    ((K.assignment s).1 = .ERR_NO_ERROR ∧
      (K.assignment (K.assignment s).2.2).1 = .ERR_NO_ERROR ∧
      (fillOffset K r s).events = [.captured s (K.assignment s).2.2] ∧
      (fillOffset K r s).reader.m_readOffSet = (K.assignment s).2.1 ∧
      (fillOffset K r s).reader.m_logOffset.map TopicPartition.place =
        (K.assignment (K.assignment s).2.2).2.1.map TopicPartition.place) := by
  by_cases hlog : r.m_logOffset = []
  · unfold fillOffset
    simp only [hlog, List.isEmpty_nil, ↓reduceIte]
    split
    · rename_i read s₁ hread
      split
      · rename_i log s₂ hlog'
        rw [hread]
        exact .inr ⟨rfl, by rw [hlog'], rfl, rfl, by rw [hlog']; exact fillHigh_places K s₂ log⟩
      · exact .inl ⟨rfl, .inr rfl⟩
    · exact .inl ⟨rfl, .inl rfl⟩
  · refine .inl ⟨?_, .inl ?_⟩
    · simp [fillOffset, hlog]
    · simp [fillOffset, hlog]

theorem fillOffset_lib {P : σ → Prop} (hassign : ∀ s, P s → P (K.assignment s).2.2)
    (hquery : ∀ s p, P s → P (K.query_watermark_offsets s p).2.2) (hs : P s) :
    P (fillOffset K r s).lib := by
  have hhigh (log : List TopicPartition) (s : σ) (hs : P s) : P (fillHigh K s log).2.2 := by
    induction log generalizing s with
    | nil => exact hs
    | cons tp tps ih =>
      have hq := hquery s tp.place hs
      unfold fillHigh
      split
      · rename_i high s' hq'
        rw [hq'] at hq
        exact ih s' hq
      · rename_i hq'
        rw [hq'] at hq
        exact hq
  have h₁ := hassign s hs
  have h₂ := hassign _ h₁
  unfold fillOffset
  split
  · split
    · rename_i hread
      rw [hread] at h₁ h₂
      split
      · rename_i hlog
        rw [hlog] at h₂
        exact hhigh _ _ h₂
      · rename_i hlog
        rw [hlog] at h₂
        exact h₂
    · rename_i hread
      rw [hread] at h₁
      exact h₁
  · exact hs

end fillOffset

def pollOutcome (log read : List TopicPartition) : Option Outcome :=
  match checkReadOver log read with
  | none => some .undefined
  | some false => none
  | some true => some (.ret .ERR__TIMED_OUT)

inductive TurnCase (K : KafkaConsumer σ) (filterKeys : List Bytes) (r : CBinlogKafkaReader) (s : σ)
    (m : Message) : Turn σ → Prop where
  | refill (f : Filled σ) : m.err = .ERR__TIMED_OUT → f = fillOffset K r (K.consume s m) →
      TurnCase K filterKeys r s m ⟨f.reader, f.lib, .consumed m :: f.events, none⟩
  | poll (offsets : Place → ℤ) (s' : σ) (read : List TopicPartition) : m.err = .ERR__TIMED_OUT →
      r.m_logOffset ≠ [] → K.position (K.consume s m) = (.ERR_NO_ERROR, offsets, s') →
      read = r.m_readOffSet.map (fun tp => tp.set_offset (offsets tp.place)) →
      TurnCase K filterKeys r s m
        ⟨{ r with m_readOffSet := read }, s',
          .consumed m :: pollEvents (K.consume s m) r.m_logOffset read,
          pollOutcome r.m_logOffset read⟩
  | unpolled : m.err = .ERR__TIMED_OUT → (K.position (K.consume s m)).1 ≠ .ERR_NO_ERROR →
      TurnCase K filterKeys r s m
        (.back r (K.position (K.consume s m)).2.2 [.consumed m] (.ret .ERR__FAIL))
  | keyless (f : Filled σ) : m.err = .ERR_NO_ERROR → m.key = none →
      f = fillOffset K r (K.consume s m) →
      TurnCase K filterKeys r s m (.back f.reader f.lib (.consumed m :: f.events) (.ret .ERR__FAIL))
  | filtered (f : Filled σ) (key : Bytes) : m.err = .ERR_NO_ERROR → m.key = some key →
      filterKeys ≠ [] → key ∉ filterKeys → f = fillOffset K r (K.consume s m) →
      TurnCase K filterKeys r s m ⟨f.reader, f.lib, .consumed m :: f.events, none⟩
  | wanted (f : Filled σ) : Wanted filterKeys m → f = fillOffset K r (K.consume s m) →
      TurnCase K filterKeys r s m (.back f.reader f.lib (.consumed m :: f.events) (.message m))
  | stopped (code : ErrorCode) : m.err ≠ .ERR_NO_ERROR → code ≠ .ERR__TIMED_OUT →
      TurnCase K filterKeys r s m (.back r (K.consume s m) [.consumed m] (.ret code))

theorem readTurn_case (K : KafkaConsumer σ) (filterKeys : List Bytes) (r : CBinlogKafkaReader)
    (s : σ) (m : Message) : TurnCase K filterKeys r s m (readTurn K filterKeys r s m) := by
  unfold readTurn
  dsimp only
  cases herr : m.err with
  | ERR__TIMED_OUT =>
    by_cases hlog : r.m_logOffset = []
    · simp only [List.isEmpty_iff, hlog, ↓reduceIte]
      exact .refill _ herr rfl
    · simp only [List.isEmpty_iff, hlog, ↓reduceIte]
      rcases hpos : K.position (K.consume s m) with ⟨e, offsets, s'⟩
      by_cases he : e = .ERR_NO_ERROR
      · subst he
        have hpoll : TurnCase K filterKeys r s m _ := .poll offsets s' _ herr hlog hpos rfl
        unfold pollEvents pollOutcome at hpoll
        dsimp only
        split <;> rename_i hover <;> simpa [Turn.back, hover] using hpoll
      · have hun : TurnCase K filterKeys r s m _ := .unpolled herr (by rw [hpos]; exact he)
        rw [hpos] at hun
        cases e <;> first | exact absurd rfl he | exact hun
  | ERR_NO_ERROR =>
    cases hkey : m.key with
    | none => exact .keyless _ herr hkey rfl
    | some key =>
      dsimp only
      split
      · rename_i hout
        exact .filtered _ key herr hkey hout.1 hout.2 rfl
      · rename_i hin
        exact .wanted _ ⟨herr, key, hkey, by tauto⟩ rfl
  | _ => exact .stopped _ (by simp [herr]) (by simp)

/-- `Inv past r s` goes over each library call, each return and each print. -/
structure Keeps (K : KafkaConsumer σ)
    (Inv : List (Event σ) → CBinlogKafkaReader → σ → Prop) : Prop where
  consumed : ∀ past r s m, Inv past r s → Inv (past ++ [.consumed m]) r (K.consume s m)
  filled : ∀ past r s, Inv past r s →
    Inv (past ++ (fillOffset K r s).events) (fillOffset K r s).reader (fillOffset K r s).lib
  polled : ∀ past r s offsets s', Inv past r s → r.m_logOffset ≠ [] →
    K.position s = (.ERR_NO_ERROR, offsets, s') →
    ∀ read, read = r.m_readOffSet.map (fun tp => tp.set_offset (offsets tp.place)) →
      Inv (past ++ pollEvents s r.m_logOffset read) { r with m_readOffSet := read } s'
  unpolled : ∀ past r s, Inv past r s → (K.position s).1 ≠ .ERR_NO_ERROR →
    Inv past r (K.position s).2.2
  returned : ∀ past r s o, o ≠ .ret .ERR__TIMED_OUT → Inv past r s → Inv (past ++ [.returned o]) r s
  printed : ∀ past r s m, Inv past r s → Inv (past ++ [.printed m]) r s

section Keeps

variable {K : KafkaConsumer σ} {Inv : List (Event σ) → CBinlogKafkaReader → σ → Prop}

theorem Keeps.readTurn (h : Keeps K Inv) (filterKeys : List Bytes) {past : List (Event σ)}
    {r : CBinlogKafkaReader} {s : σ} (m : Message) (hI : Inv past r s) :
    Inv (past ++ (readTurn K filterKeys r s m).events) (readTurn K filterKeys r s m).reader
      (readTurn K filterKeys r s m).lib := by
  have hc := h.consumed past r s m hI
  have hf := h.filled _ _ _ hc
  have ht := readTurn_case K filterKeys r s m
  generalize KafkaReader.readTurn K filterKeys r s m = t at ht ⊢
  cases ht with
  | refill f _ hfill => simpa [hfill] using hf
  | poll offsets s' read _ hlog hpos hread => simpa using h.polled _ _ _ offsets s' hc hlog hpos _ hread
  | unpolled _ hpos => simpa [Turn.back] using h.returned _ _ _ _ (by simp) (h.unpolled _ _ _ hc hpos)
  | keyless f _ _ hfill => simpa [Turn.back, hfill] using h.returned _ _ _ _ (by simp) hf
  | filtered f key _ _ _ _ hfill => simpa [hfill] using hf
  | wanted f _ hfill => simpa [Turn.back, hfill] using h.returned _ _ _ _ (by simp) hf
  | stopped code _ hcode => simpa [Turn.back] using h.returned _ _ _ _ (by simpa using hcode) hc

theorem Keeps.readLoop (h : Keeps K Inv) (filterKeys : List Bytes) {past : List (Event σ)}
    {r : CBinlogKafkaReader} {s : σ} (script : List Message) (hI : Inv past r s) :
    Inv (past ++ (readLoop K filterKeys r s script).events) (readLoop K filterKeys r s script).reader
      (readLoop K filterKeys r s script).lib := by
  induction script generalizing past r s with
  | nil => simpa [KafkaReader.readLoop] using hI
  | cons m script ih =>
    have ht := h.readTurn filterKeys m hI
    simp only [KafkaReader.readLoop]
    cases (KafkaReader.readTurn K filterKeys r s m).outcome with
    | some o => exact ht
    | none => simpa [List.append_assoc] using ih ht

theorem Keeps.Read (h : Keeps K Inv) (filterKeys : List Bytes) {past : List (Event σ)}
    {r : CBinlogKafkaReader} {s : σ} (script : List Message) (hI : Inv past r s) :
    Inv (past ++ (Read K filterKeys r s script).events) (Read K filterKeys r s script).reader
      (Read K filterKeys r s script).lib := by
  simpa [KafkaReader.Read, List.append_assoc] using
    h.readLoop filterKeys script (h.filled past r s hI)

theorem Keeps.mainLoop (h : Keeps K Inv) (filterKeys : List Bytes) (waitMode : Bool) (n : ℕ)
    {past : List (Event σ)} {r : CBinlogKafkaReader} {s : σ} (script : List Message)
    (hI : Inv past r s) :
    Inv (past ++ (mainLoop K filterKeys waitMode n r s script).events)
      (mainLoop K filterKeys waitMode n r s script).reader
      (mainLoop K filterKeys waitMode n r s script).lib := by
  induction n generalizing past r s script with
  | zero => simpa [KafkaReader.mainLoop] using hI
  | succ n ih =>
    have hr := h.Read filterKeys script hI
    simp only [KafkaReader.mainLoop]
    cases (KafkaReader.Read K filterKeys r s script).outcome with
    | message m => simpa [List.append_assoc] using ih _ (h.printed _ _ _ m hr)
    | ret code =>
      dsimp only
      split
      · simpa [List.append_assoc] using ih _ hr
      · exact hr
    | undefined => exact hr
    | blocked => exact hr

end Keeps

def Outcome.delivers : Outcome → List Message
  | .message m => [m]
  | _ => []

structure Accounts (filterKeys : List Bytes) (evs : List (Event σ)) (ms : List Message)
    (o : Option Outcome) : Prop where
  consumed : messagesConsumed evs = ms
  returned : messagesReturned evs = ms.filter (Wanted filterKeys)
  delivers : messagesReturned evs = o.elim [] Outcome.delivers
  printed : messagesPrinted evs = []

theorem Accounts.append {filterKeys : List Bytes} {evs evs' : List (Event σ)} {ms ms' : List Message}
    {o : Option Outcome} (h : Accounts filterKeys evs ms none) (h' : Accounts filterKeys evs' ms' o) :
    Accounts filterKeys (evs ++ evs') (ms ++ ms') o where
  consumed := by rw [messagesConsumed_append, h.consumed, h'.consumed]
  returned := by rw [messagesReturned_append, h.returned, h'.returned, List.filter_append]
  delivers := by rw [messagesReturned_append, h.delivers, h'.delivers]; rfl
  printed := by rw [messagesPrinted_append, h.printed, h'.printed]; rfl

section Accounts

variable (K : KafkaConsumer σ) (filterKeys : List Bytes)

theorem fillOffset_accounts (r : CBinlogKafkaReader) (s : σ) :
    Accounts filterKeys (fillOffset K r s).events [] none := by
  rcases fillOffset_case K r s with ⟨h, _⟩ | ⟨_, _, h, _⟩
  · rw [h]
    exact ⟨rfl, rfl, rfl, rfl⟩
  · rw [h]
    exact ⟨rfl, rfl, rfl, rfl⟩

theorem not_wanted_of_err {filterKeys : List Bytes} {m : Message} (h : m.err ≠ .ERR_NO_ERROR) :
    ¬ Wanted filterKeys m := fun hw => h hw.1

theorem consumed_accounts {filterKeys : List Bytes} {m : Message} (hm : ¬ Wanted filterKeys m) :
    Accounts filterKeys ([.consumed m] : List (Event σ)) [m] none :=
  ⟨rfl, by simp [hm, messagesReturned, written, Event.messageReturned], rfl, rfl⟩

theorem returned_accounts {filterKeys : List Bytes} {o : Outcome} (ho : o.delivers = []) :
    Accounts filterKeys ([.returned o] : List (Event σ)) [] (some o) := by
  cases o with
  | message m => cases ho
  | _ => exact ⟨rfl, rfl, rfl, rfl⟩

theorem wanted_accounts {filterKeys : List Bytes} {m : Message} {evs : List (Event σ)}
    (hm : Wanted filterKeys m) (h : Accounts filterKeys evs [] none) :
    Accounts filterKeys (.consumed m :: evs ++ [.returned (.message m)]) [m]
      (some (.message m)) := by
  have hreturned : messagesReturned (.consumed m :: evs ++ [.returned (.message m)]) = [m] := by
    rw [messagesReturned_append]
    exact congrArg (fun ms => ms ++ [m]) h.returned
  refine ⟨?_, ?_, hreturned, ?_⟩
  · rw [messagesConsumed_append]
    exact congrArg (fun ms => m :: ms ++ []) h.consumed
  · rw [hreturned, List.filter_cons_of_pos (by simpa using hm), List.filter_nil]
  · rw [messagesPrinted_append]
    exact congrArg (fun ms => ms ++ []) h.printed

theorem poll_accounts (s : σ) (log read : List TopicPartition) :
    Accounts filterKeys (pollEvents s log read) [] (pollOutcome log read) := by
  unfold pollEvents pollOutcome
  cases checkReadOver log read with
  | none => exact ⟨rfl, rfl, rfl, rfl⟩
  | some readEnd => cases readEnd <;> exact ⟨rfl, rfl, rfl, rfl⟩

theorem readTurn_accounts (r : CBinlogKafkaReader) (s : σ) (m : Message) :
    Accounts filterKeys (readTurn K filterKeys r s m).events [m]
      (readTurn K filterKeys r s m).outcome := by
  have hfill := fillOffset_accounts K filterKeys r (K.consume s m)
  have ht := readTurn_case K filterKeys r s m
  generalize readTurn K filterKeys r s m = t at ht ⊢
  cases ht with
  | refill f herr hf =>
    subst hf
    exact (consumed_accounts (not_wanted_of_err (by simp [herr]))).append hfill
  | poll offsets s' read herr _ _ _ =>
    exact (consumed_accounts (not_wanted_of_err (by simp [herr]))).append (poll_accounts _ _ _ _)
  | unpolled herr _ =>
    exact (consumed_accounts (not_wanted_of_err (by simp [herr]))).append (returned_accounts rfl)
  | keyless f _ hkey hf =>
    subst hf
    have hm : ¬ Wanted filterKeys m := by simp [Wanted, hkey]
    exact ((consumed_accounts hm).append hfill).append (returned_accounts rfl)
  | filtered f key _ hkey hne hmem hf =>
    subst hf
    have hm : ¬ Wanted filterKeys m := by simp [Wanted, hkey, hne, hmem]
    exact (consumed_accounts hm).append hfill
  | wanted f hm hf =>
    subst hf
    exact wanted_accounts hm hfill
  | stopped code herr _ =>
    exact (consumed_accounts (not_wanted_of_err herr)).append (returned_accounts rfl)

theorem readLoop_accounts (r : CBinlogKafkaReader) (s : σ) (script : List Message) :
    ∃ ms, ms ++ (readLoop K filterKeys r s script).rest = script ∧
      Accounts filterKeys (readLoop K filterKeys r s script).events ms
        (some (readLoop K filterKeys r s script).outcome) := by
  induction script generalizing r s with
  | nil => exact ⟨[], rfl, rfl, rfl, rfl, rfl⟩
  | cons m script ih =>
    have ht := readTurn_accounts K filterKeys r s m
    simp only [readLoop]
    generalize readTurn K filterKeys r s m = t at ht ⊢
    obtain ⟨r', s', evs, o⟩ := t
    cases o with
    | some o => exact ⟨[m], rfl, ht⟩
    | none =>
      obtain ⟨ms, hms, hrest⟩ := ih r' s'
      exact ⟨m :: ms, congrArg (m :: ·) hms, ht.append hrest⟩

theorem Read_accounts (r : CBinlogKafkaReader) (s : σ) (script : List Message) :
    ∃ ms, ms ++ (Read K filterKeys r s script).rest = script ∧
      Accounts filterKeys (Read K filterKeys r s script).events ms
        (some (Read K filterKeys r s script).outcome) := by
  obtain ⟨ms, hms, hloop⟩ :=
    readLoop_accounts K filterKeys (fillOffset K r s).reader (fillOffset K r s).lib script
  exact ⟨ms, hms, (fillOffset_accounts K filterKeys r s).append hloop⟩

structure RunAccounts (filterKeys : List Bytes) (script : List Message) (run : Run σ) : Prop where
  consumed : messagesConsumed run.events ++ run.rest = script
  returned : messagesReturned run.events = (messagesConsumed run.events).filter (Wanted filterKeys)
  printed : messagesPrinted run.events = messagesReturned run.events

theorem RunAccounts.stop {filterKeys : List Bytes} {script ms rest : List Message} {o : Outcome}
    {evs : List (Event σ)} {r : CBinlogKafkaReader} {s : σ} {exited : Bool}
    (hms : ms ++ rest = script) (hcall : Accounts filterKeys evs ms (some o)) (ho : o.delivers = []) :
    RunAccounts filterKeys script ⟨r, s, rest, evs, exited⟩ where
  consumed := by rw [hcall.consumed, hms]
  returned := by rw [hcall.consumed, hcall.returned]
  printed := by rw [hcall.printed, hcall.delivers]; exact ho.symm

theorem RunAccounts.after {filterKeys : List Bytes} {script ms rest : List Message} {o : Outcome}
    {evs : List (Event σ)} {run : Run σ} (hrun : RunAccounts filterKeys rest run)
    (prints : List (Event σ)) (hms : ms ++ rest = script)
    (hcall : Accounts filterKeys evs ms (some o)) (hc : messagesConsumed prints = [])
    (hr : messagesReturned prints = []) (hp : messagesPrinted prints = o.delivers) :
    RunAccounts filterKeys script { run with events := evs ++ (prints ++ run.events) } where
  consumed := by
    rw [messagesConsumed_append, messagesConsumed_append, hc, List.nil_append, hcall.consumed,
      List.append_assoc, hrun.consumed, hms]
  returned := by
    rw [messagesConsumed_append, messagesConsumed_append, hc, List.nil_append, List.filter_append,
      hcall.consumed, ← hcall.returned, ← hrun.returned, messagesReturned_append,
      messagesReturned_append, hr, List.nil_append]
  printed := by
    rw [messagesPrinted_append, messagesPrinted_append, messagesReturned_append,
      messagesReturned_append, hcall.printed, hp, hr, hcall.delivers, hrun.printed]
    rfl

theorem mainLoop_accounts (waitMode : Bool) (n : ℕ) (r : CBinlogKafkaReader) (s : σ)
    (script : List Message) :
    RunAccounts filterKeys script (mainLoop K filterKeys waitMode n r s script) := by
  induction n generalizing r s script with
  | zero => exact ⟨rfl, rfl, rfl⟩
  | succ n ih =>
    obtain ⟨ms, hms, hcall⟩ := Read_accounts K filterKeys r s script
    simp only [mainLoop]
    generalize Read K filterKeys r s script = c at hms hcall ⊢
    obtain ⟨o, r', s', rest, evs⟩ := c
    cases o with
    | message m => exact (ih r' s' rest).after [.printed m] hms hcall rfl rfl rfl
    | ret code =>
      dsimp only
      split
      · exact (ih r' s' rest).after [] hms hcall rfl rfl rfl
      · exact RunAccounts.stop hms hcall rfl
    | undefined => exact RunAccounts.stop hms hcall rfl
    | blocked => exact RunAccounts.stop hms hcall rfl

end Accounts

/-- Whatever the table filter and the results of `consume`: the calls of `Read` return with zero,
    in order, the payloads of the messages consumed so far that the filter lets through. -/
theorem mainLoop_returns_wanted (K : KafkaConsumer σ) (filterKeys : List Bytes) (waitMode : Bool)
    (n : ℕ) (r : CBinlogKafkaReader) (s : σ) (script : List Message) :
    payloadsReturned (mainLoop K filterKeys waitMode n r s script).events =
        ((messagesConsumed (mainLoop K filterKeys waitMode n r s script).events).filter
          (Wanted filterKeys)).map Message.payload ∧
      messagesConsumed (mainLoop K filterKeys waitMode n r s script).events ++
        (mainLoop K filterKeys waitMode n r s script).rest = script := by
  have h := mainLoop_accounts K filterKeys waitMode n r s script
  refine ⟨?_, h.consumed⟩
  rw [payloadsReturned_eq, h.returned]

end O2k.KafkaReader
