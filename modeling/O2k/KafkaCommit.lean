import O2k.KafkaTimeout

set_option autoImplicit false

namespace O2k.KafkaReader
open ByteOrder GatedTrace LogDelivery

variable {σ : Type}

/-- Each delivered message stores its offset plus one, a commit takes the stored offsets over. -/
structure Commits (K : KafkaConsumer σ) (stored committed : σ → Place → Option ℤ) : Prop where
  consume_stored : ∀ s m p, stored (K.consume s m) p =
    if m.err = .ERR_NO_ERROR ∧ m.place = p then some (m.offset + 1) else stored s p
  consume_committed : ∀ s m, committed (K.consume s m) = committed s
  assignment : ∀ s, stored (K.assignment s).2.2 = stored s ∧
    committed (K.assignment s).2.2 = committed s
  query : ∀ s p, stored (K.query_watermark_offsets s p).2.2 = stored s ∧
    committed (K.query_watermark_offsets s p).2.2 = committed s
  position : ∀ s, stored (K.position s).2.2 = stored s ∧
    committed (K.position s).2.2 = committed s
  commit_ok : ∀ s p, (K.commitSync s).1 = .ERR_NO_ERROR →
    committed (K.commitSync s).2 p = (stored s p).or (committed s p)
  commit_error : ∀ s, (K.commitSync s).1 ≠ .ERR_NO_ERROR →
    committed (K.commitSync s).2 = committed s

def Keyless (m : Message) : Prop := m.err = .ERR_NO_ERROR ∧ m.key = none

def Rejected (filterKeys : List Bytes) (m : Message) : Prop :=
  ∃ key ∈ m.key, filterKeys ≠ [] ∧ key ∉ filterKeys

def CommitsHandled (T : Topic) (start : Place → ℤ) (committed : σ → Place → Option ℤ)
    (filterKeys : List Bytes) (run : Run σ) : Prop :=
  run.exited = true → ∀ x ∈ T.items, ∀ o ∈ committed run.lib x.place,
    start x.place ≤ x.offset → x.offset < o → x ∈ messagesPrinted run.events ∨ Rejected filterKeys x

/-- No message without a key has been consumed when `main` goes from its loop to a commit that
    succeeds. -/
def KeyedAtCommit (K : KafkaConsumer σ) (run : Run σ) : Prop :=
  run.exited = true → (CommitOffset K run.lib).1 = .ERR_NO_ERROR →
    ∀ m ∈ messagesConsumed run.events, ¬ Keyless m

theorem wanted_or_rejected {filterKeys : List Bytes} {m : Message} (hok : m.err = .ERR_NO_ERROR)
    (hkey : ¬ Keyless m) : Wanted filterKeys m ∨ Rejected filterKeys m := by
  cases h : m.key with
  | none => exact absurd ⟨hok, h⟩ hkey
  | some key =>
    by_cases hin : filterKeys = [] ∨ key ∈ filterKeys
    · exact .inl ⟨hok, key, h, hin⟩
    · exact .inr ⟨key, h, not_or.mp hin⟩

section Keyless

variable (K : KafkaConsumer σ) (filterKeys : List Bytes)

theorem readTurn_keyless (r : CBinlogKafkaReader) (s : σ) {m : Message} (h : Keyless m) :
    (readTurn K filterKeys r s m).outcome = some (.ret .ERR__FAIL) := by
  simp [readTurn, h.1, h.2, Turn.back]

theorem singleton_split {us vs : List Message} {m kmsg : Message} (h : [kmsg] = us ++ m :: vs) :
    m = kmsg ∧ vs = [] := by
  cases us with
  | nil => exact ⟨(List.cons.inj h).1.symm, (List.cons.inj h).2.symm⟩
  | cons u us => simp at h

theorem readLoop_keyless (r : CBinlogKafkaReader) (s : σ) (script : List Message) :
    ∀ us m vs, messagesConsumed (readLoop K filterKeys r s script).events = us ++ m :: vs →
      Keyless m → vs = [] ∧ (readLoop K filterKeys r s script).outcome = .ret .ERR__FAIL := by
  induction script generalizing r s with
  | nil =>
    intro us m vs h
    simp [readLoop, messagesConsumed] at h
  | cons kmsg script ih =>
    intro us m vs h hm
    have hturn := (readTurn_accounts K filterKeys r s kmsg).consumed
    have hlast : m = kmsg → (readTurn K filterKeys r s kmsg).outcome = some (.ret .ERR__FAIL) := by
      rintro rfl
      exact readTurn_keyless K filterKeys r s hm
    simp only [readLoop] at h ⊢
    generalize readTurn K filterKeys r s kmsg = t at h hturn hlast ⊢
    obtain ⟨r', s', evs, o⟩ := t
    cases o with
    | some o =>
      obtain ⟨rfl, hvs⟩ := singleton_split (hturn.symm.trans h)
      exact ⟨hvs, Option.some.inj (hlast rfl)⟩
    | none =>
      rw [messagesConsumed_append, hturn] at h
      cases us with
      | nil => cases hlast (List.cons.inj h).1.symm
      | cons u us => exact ih r' s' us m vs (List.cons.inj h).2 hm

theorem Read_keyless (r : CBinlogKafkaReader) (s : σ) (script : List Message) :
    ∀ us m vs, messagesConsumed (Read K filterKeys r s script).events = us ++ m :: vs →
      Keyless m → vs = [] ∧ (Read K filterKeys r s script).outcome = .ret .ERR__FAIL := by
  intro us m vs h
  refine readLoop_keyless K filterKeys (fillOffset K r s).reader (fillOffset K r s).lib script us m vs ?_
  rw [← h, Read, messagesConsumed_append, (fillOffset_accounts K filterKeys r s).consumed]
  rfl

theorem mainLoop_keyless (waitMode : Bool) (n : ℕ) (r : CBinlogKafkaReader) (s : σ)
    (script : List Message) :
    ∀ us m vs,
      messagesConsumed (mainLoop K filterKeys waitMode n r s script).events = us ++ m :: vs →
      Keyless m → vs = [] := by
  induction n generalizing r s script with
  | zero =>
    intro us m vs h
    simp [mainLoop, messagesConsumed] at h
  | succ n ih =>
    intro us m vs h hm
    have hcall := Read_keyless K filterKeys r s script
    simp only [mainLoop] at h
    generalize Read K filterKeys r s script = c at h hcall
    obtain ⟨o, r', s', rest, evs⟩ := c
    -- A call that goes on has not met such a message.
    have hgo (hne : o ≠ .ret .ERR__FAIL) {xs : List Message}
        (hrest : ∀ us m vs, xs = us ++ m :: vs → Keyless m → vs = [])
        (h : messagesConsumed evs ++ xs = us ++ m :: vs) : vs = [] := by
      rcases split_append h with ⟨ws, hevs, _⟩ | ⟨ws, _, hxs⟩
      · exact absurd (hcall us m ws hevs hm).2 hne
      · exact hrest ws m vs hxs hm
    cases o with
    | message m' =>
      refine hgo (by simp) (ih r' s' rest) ?_
      simpa [messagesConsumed, written_cons, Event.messageConsumed] using h
    | ret code =>
      dsimp only at h
      split at h
      · rename_i hcode
        refine hgo (by simp [hcode.1]) (ih r' s' rest) ?_
        simpa using h
      · exact (hcall us m vs h hm).1
    | undefined => exact (hcall us m vs h hm).1
    | blocked => exact (hcall us m vs h hm).1

end Keyless

structure Ledger (stored committed : σ → Place → Option ℤ) (before : Place → Option ℤ)
    (past : List (Event σ)) (s : σ) : Prop where
  stored : ∀ p, stored s p = nextOffset (delivered past) p
  committed : committed s = before

theorem Ledger.same {stored committed : σ → Place → Option ℤ} {before : Place → Option ℤ}
    {past : List (Event σ)} {s s' : σ} (h : Ledger stored committed before past s)
    (evs : List (Event σ)) (hd : delivered evs = [])
    (hs : stored s' = stored s ∧ committed s' = committed s) :
    Ledger stored committed before (past ++ evs) s' where
  stored p := by rw [hs.1, h.stored, delivered_append, hd, List.append_nil]
  committed := hs.2.trans h.committed

theorem ledger_keeps {K : KafkaConsumer σ} {stored committed : σ → Place → Option ℤ}
    (hK : Commits K stored committed) (before : Place → Option ℤ) :
    Keeps K (fun past _ s => Ledger stored committed before past s) where
  consumed past r s m h := by
    refine ⟨fun p => ?_, (hK.consume_committed s m).trans h.committed⟩
    have hd : delivered [(.consumed m : Event σ)] = deliveries [m] := rfl
    rw [hK.consume_stored, h.stored, delivered_append, hd]
    by_cases hok : m.err = .ERR_NO_ERROR
    · simp [deliveries, hok, next_concat]
    · simp [deliveries, hok]
  filled past r s h := by
    have hlib : stored (fillOffset K r s).lib = stored s ∧
        committed (fillOffset K r s).lib = committed s :=
      fillOffset_lib (P := fun s' => stored s' = stored s ∧ committed s' = committed s) K r s
        (fun s' hs => ⟨(hK.assignment s').1.trans hs.1, (hK.assignment s').2.trans hs.2⟩)
        (fun s' p hs => ⟨(hK.query s' p).1.trans hs.1, (hK.query s' p).2.trans hs.2⟩) ⟨rfl, rfl⟩
    refine h.same _ ?_ hlib
    exact congrArg deliveries (fillOffset_accounts K [] r s).consumed
  polled past r s offsets s' h _ hpos read _ := by
    have hlib := hK.position s
    rw [hpos] at hlib
    exact h.same _ (delivered_pollEvents s _ _) hlib
  unpolled past r s h _ := by
    simpa using h.same [] rfl (hK.position s)
  returned past r s o _ h := h.same _ rfl ⟨rfl, rfl⟩
  printed past r s m h := h.same _ rfl ⟨rfl, rfl⟩

section main

variable (K : KafkaConsumer σ) (filterKeys : List Bytes) (waitMode : Bool) (n : ℕ) (s : σ)
  (script : List Message)

@[simp] theorem main_events : (main K filterKeys waitMode true n s script).events =
    (mainLoop K filterKeys waitMode n {} s script).events := by
  unfold main
  dsimp only
  split <;> rfl

@[simp] theorem main_exited : (main K filterKeys waitMode true n s script).exited =
    (mainLoop K filterKeys waitMode n {} s script).exited := by
  unfold main
  dsimp only
  split <;> rfl

theorem main_lib (h : (mainLoop K filterKeys waitMode n {} s script).exited = true) :
    (main K filterKeys waitMode true n s script).lib =
      (K.commitSync (mainLoop K filterKeys waitMode n {} s script).lib).2 := by
  simp [main, h, CommitOffset]

end main

theorem commit_handles {K : KafkaConsumer σ} {stored committed : σ → Place → Option ℤ}
    (hK : Commits K stored committed) {T : Topic} {start : Place → ℤ} {filterKeys : List Bytes}
    {script : List Message} {run : Run σ} {before : Place → Option ℤ}
    (hacc : RunAccounts filterKeys script run)
    (hledger : Ledger stored committed before run.events run.lib)
    (hgap : Gapless T start (delivered run.events)) (hbefore : ∀ p, ∀ o ∈ before p, o ≤ start p)
    (hkeyed : (K.commitSync run.lib).1 = .ERR_NO_ERROR →
      ∀ m ∈ messagesConsumed run.events, ¬ Keyless m)
    {x : Message} (hx : x ∈ T.items) {o : ℤ} (ho : o ∈ committed (K.commitSync run.lib).2 x.place)
    (hstart : start x.place ≤ x.offset) (hlt : x.offset < o) :
    x ∈ messagesPrinted run.events ∨ Rejected filterKeys x := by
  have hold (ho : o ∈ before x.place) : False := by
    have := hbefore x.place o ho
    omega
  by_cases hok : (K.commitSync run.lib).1 = .ERR_NO_ERROR
  · rw [hK.commit_ok _ _ hok, hledger.stored, hledger.committed] at ho
    cases hnext : nextOffset (delivered run.events) x.place with
    | none =>
      rw [hnext, Option.none_or] at ho
      exact (hold ho).elim
    | some o' =>
      rw [hnext] at ho
      obtain rfl := Option.some.inj ho
      have hmem := List.mem_filter.mp (hgap.covers hnext hx rfl hstart hlt)
      have hxok : x.err = .ERR_NO_ERROR := by simpa using hmem.2
      refine (wanted_or_rejected hxok (hkeyed hok x hmem.1)).imp_left fun hwanted => ?_
      rw [hacc.printed, hacc.returned]
      exact List.mem_filter.mpr ⟨hmem.1, by simpa using hwanted⟩
  · rw [hK.commit_error _ hok, hledger.committed] at ho
    exact (hold ho).elim

theorem keyless_unhandled {filterKeys : List Bytes} {script : List Message} {run : Run σ}
    (hacc : RunAccounts filterKeys script run) {m : Message} (hm : Keyless m) :
    ¬ (m ∈ messagesPrinted run.events ∨ Rejected filterKeys m) := by
  rintro (hprinted | ⟨key, hkey, _⟩)
  · rw [hacc.printed, hacc.returned, List.mem_filter, decide_eq_true_iff] at hprinted
    obtain ⟨_, _, key, hkey, _⟩ := hprinted
    cases hm.2.symm.trans hkey
  · cases hm.2.symm.trans hkey

/-- With `-C 1`: every message below an offset committed at exit is printed or filtered out
    exactly when no message without a key comes before the commit. -/
theorem main_commitsHandled_iff {K : KafkaConsumer σ} {stored committed : σ → Place → Option ℤ}
    (hK : Commits K stored committed) (T : Topic) (start : Place → ℤ) (filterKeys : List Bytes)
    (waitMode : Bool) (n : ℕ) (s : σ) (script : List Message) (hs : ∀ p, stored s p = none)
    (hc : ∀ p, ∀ o ∈ committed s p, o ≤ start p) (hgap : Gapless T start (deliveries script)) :
    CommitsHandled T start committed filterKeys (main K filterKeys waitMode true n s script) ↔
      KeyedAtCommit K (mainLoop K filterKeys waitMode n {} s script) := by
  have hfresh : Ledger stored committed (committed s) [] s := ⟨fun p => by rw [hs]; rfl, rfl⟩
  have hledger := (ledger_keeps hK (committed s)).mainLoop filterKeys waitMode n (r := {}) script hfresh
  have hacc := mainLoop_accounts K filterKeys waitMode n {} s script
  have hlast := mainLoop_keyless K filterKeys waitMode n {} s script
  have hlib := main_lib K filterKeys waitMode n s script
  rw [List.nil_append] at hledger
  unfold CommitsHandled KeyedAtCommit
  rw [main_exited, main_events]
  generalize mainLoop K filterKeys waitMode n {} s script = run at hledger hacc hlast hlib ⊢
  have hgapless : Gapless T start (delivered run.events) :=
    hacc.gapless hgap (List.append_nil _).symm
  constructor
  · intro hhandled hexit hok m hm hkeyless
    obtain ⟨us, vs, hms⟩ := List.append_of_mem hm
    obtain rfl := hlast us m vs hms hkeyless
    -- the last message of the run, so its offset is the one that is committed
    have hends : delivered run.events = deliveries us ++ [m] := by
      rw [delivered, hms, deliveries_append]
      simp [deliveries, hkeyless.1]
    have hmem : m ∈ delivered run.events := by simp [hends]
    have hcommitted : m.offset + 1 ∈ committed (K.commitSync run.lib).2 m.place := by
      rw [hK.commit_ok _ _ hok, hledger.stored, hends, nextOffset, next_concat, if_pos rfl]
      rfl
    rw [hlib hexit] at hhandled
    exact keyless_unhandled hacc hkeyless (hhandled hexit m (hgapless.mem_items hmem) _ hcommitted
      (hgapless.start_le hmem) (by omega))
  · intro hkeyed hexit x hx o ho hstart hlt
    rw [hlib hexit] at ho
    exact commit_handles hK hacc hledger hgapless hc (hkeyed hexit) hx ho hstart hlt

structure Member where
  stored : Place → Option ℤ
  committed : Place → Option ℤ

def Member.consume (s : Member) (m : Message) : Member :=
  { s with stored := fun p =>
      if m.err = .ERR_NO_ERROR ∧ m.place = p then some (m.offset + 1) else s.stored p }

def member : KafkaConsumer Member where
  consume := Member.consume
  assignment s := (.ERR_NO_ERROR, [⟨[113], 0, OFFSET_INVALID⟩], s)
  query_watermark_offsets s _ := (.ERR_NO_ERROR, 1, s)
  position s := (.ERR_NO_ERROR, fun p => (s.stored p).getD OFFSET_INVALID, s)
  commitSync s := (.ERR_NO_ERROR, { s with committed := fun p => (s.stored p).or (s.committed p) })

theorem member_commits : Commits member Member.stored Member.committed :=
  ⟨fun _ _ _ => rfl, fun _ _ => rfl, fun _ => ⟨rfl, rfl⟩, fun _ _ => ⟨rfl, rfl⟩,
    fun _ => ⟨rfl, rfl⟩, fun _ _ _ => rfl, fun _ h => absurd rfl h⟩

def newMember : Member := ⟨fun _ => none, fun _ => none⟩

def oneRecord (m : Message) (h : m.offset = 0) : Topic where
  items := {m}
  offset_nonneg := by rintro x rfl; omega
  unique := by rintro x rfl y rfl _ _; rfl

theorem oneRecord_gapless (m : Message) (h : m.offset = 0) :
    Gapless (oneRecord m h) (fun _ => 0) [m] := by
  intro us x vs hx
  obtain ⟨rfl, rfl⟩ := singleton_split hx
  refine ⟨rfl, Int.le_of_eq h.symm, fun y hy _ _ hlt => ?_⟩
  cases hy
  omega

theorem main_commitsHandled_record :
    CommitsHandled (oneRecord (record 0) rfl) (fun _ => 0) Member.committed []
      (main member [] false true 2 newMember [record 0, timedOut]) := by
  refine (main_commitsHandled_iff member_commits (oneRecord (record 0) rfl) (fun _ => 0) [] false 2
    newMember [record 0, timedOut] (fun _ => rfl) nofun (oneRecord_gapless _ rfl)).mpr ?_
  intro _ _ m hm hkeyless
  have hms : m ∈ [record 0, timedOut] := hm
  rcases List.mem_pair.mp hms with rfl | rfl
  · cases hkeyless.2
  · cases hkeyless.1

def keylessRecord : Message := { record 0 with key := none }

theorem keylessRecord_lost :
    Commits member Member.stored Member.committed ∧
      Gapless (oneRecord keylessRecord rfl) (fun _ => 0) (deliveries [keylessRecord]) ∧
      ¬ CommitsHandled (oneRecord keylessRecord rfl) (fun _ => 0) Member.committed []
        (main member [] false true 1 newMember [keylessRecord]) := by
  refine ⟨member_commits, oneRecord_gapless _ rfl, fun h => ?_⟩
  rcases h rfl keylessRecord rfl 1 rfl (by decide) (by decide) with hprinted | ⟨key, hkey, _⟩
  · cases hprinted
  · cases hkey

end O2k.KafkaReader
