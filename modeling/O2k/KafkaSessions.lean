import O2k.KafkaCommit
import O2k.LogSessions
import Mathlib.Data.List.Flatten

set_option autoImplicit false

namespace O2k.KafkaReader
open ByteOrder GatedTrace LogDelivery

variable {σ : Type}

structure Session where
  filterKeys : List Bytes
  waitMode : Bool
  commit : Bool
  rounds : ℕ
  script : List Message

def Session.run (K : KafkaConsumer σ) (ses : Session) (s : σ) : Run σ :=
  main K ses.filterKeys ses.waitMode ses.commit ses.rounds s ses.script

def Session.loop (K : KafkaConsumer σ) (ses : Session) (s : σ) : Run σ :=
  mainLoop K ses.filterKeys ses.waitMode ses.rounds {} s ses.script

def Session.commits (K : KafkaConsumer σ) (ses : Session) (s : σ) : Bool :=
  (ses.loop K s).exited && ses.commit && (CommitOffset K (ses.loop K s).lib).1 = .ERR_NO_ERROR

/-- The place to go on from: what the group has committed, or else the first offset there is. -/
def resumed (first : Place → ℤ) (c : Place → Option ℤ) (p : Place) : ℤ := (c p).getD (first p)

/-- Runs of a group one after the other, each with the state of the library that it starts from.
    The broker hands out what comes after the committed offsets. -/
inductive Sessions (K : KafkaConsumer σ) (stored committed : σ → Place → Option ℤ) (T : Topic)
    (first : Place → ℤ) : (Place → Option ℤ) → List (Session × σ) → (Place → Option ℤ) → Prop where
  | nil (c : Place → Option ℤ) : Sessions K stored committed T first c [] c
  | cons {c' : Place → Option ℤ} {ses : Session} {s : σ} {rest : List (Session × σ)}
      (hfresh : ∀ p, stored s p = none)
      (hresumed : InOrder T (resumed first (committed s)) (deliveries ses.script))
      (hrest : Sessions K stored committed T first (committed (ses.run K s).lib) rest c') :
      Sessions K stored committed T first (committed s) ((ses, s) :: rest) c'

def kept (K : KafkaConsumer σ) (runs : List (Session × σ)) : List (Session × σ) :=
  runs.filter fun r => r.1.commits K r.2

def runDelivered (K : KafkaConsumer σ) (r : Session × σ) : List Message :=
  delivered (r.1.run K r.2).events

def runPrinted (K : KafkaConsumer σ) (r : Session × σ) : List Message :=
  messagesPrinted (r.1.run K r.2).events

theorem run_events (K : KafkaConsumer σ) (ses : Session) (s : σ) :
    (ses.run K s).events = (ses.loop K s).events := by
  unfold Session.run main
  dsimp only
  split <;> rfl

theorem run_committed {K : KafkaConsumer σ} {stored committed : σ → Place → Option ℤ}
    (hK : Commits K stored committed) (ses : Session) {s : σ} (hfresh : ∀ p, stored s p = none)
    (p : Place) : committed (ses.run K s).lib p =
      if ses.commits K s then (nextOffset (runDelivered K (ses, s)) p).or (committed s p)
      else committed s p := by
  have hstart : Ledger stored committed (committed s) [] s := ⟨fun p => by rw [hfresh]; rfl, rfl⟩
  have hledger := (ledger_keeps hK (committed s)).mainLoop ses.filterKeys ses.waitMode ses.rounds
    (r := {}) ses.script hstart
  rw [List.nil_append] at hledger
  have hdelivered : runDelivered K (ses, s) = delivered (ses.loop K s).events :=
    congrArg delivered (run_events K ses s)
  rw [hdelivered]
  change Ledger _ _ _ (ses.loop K s).events (ses.loop K s).lib at hledger
  have hlib : (ses.run K s).lib = if (ses.loop K s).exited && ses.commit then
      (CommitOffset K (ses.loop K s).lib).2 else (ses.loop K s).lib :=
    apply_ite Run.lib _ _ _
  unfold Session.commits
  rw [hlib]
  cases hgoes : (ses.loop K s).exited && ses.commit with
  | false => simp [hledger.committed]
  | true =>
    by_cases hok : (CommitOffset K (ses.loop K s).lib).1 = .ERR_NO_ERROR
    · simp only [if_true, hok, decide_true, Bool.and_self]
      rw [CommitOffset, hK.commit_ok _ _ hok, hledger.stored, hledger.committed]
    · simp only [if_true, hok, decide_false, Bool.and_false, Bool.false_eq_true, if_false]
      rw [CommitOffset, hK.commit_error _ hok, hledger.committed]

theorem resumed_or (first : Place → ℤ) (c : Place → Option ℤ) (ms : List Message) :
    (resumed first fun p => (nextOffset ms p).or (c p)) =
      position Message.place Message.offset (resumed first c) ms := by
  funext p
  exact Option.getD_or

theorem run_accounts (K : KafkaConsumer σ) (ses : Session) (s : σ) :
    RunAccounts ses.filterKeys ses.script (ses.loop K s) :=
  mainLoop_accounts K ses.filterKeys ses.waitMode ses.rounds {} s ses.script

theorem runDelivered_inOrder {T : Topic} {start : Place → ℤ} (K : KafkaConsumer σ) {ses : Session}
    {s : σ} (h : InOrder T start (deliveries ses.script)) :
    InOrder T start (runDelivered K (ses, s)) := by
  have hscript := (run_accounts K ses s).consumed
  rw [← hscript, deliveries_append] at h
  rw [runDelivered, run_events]
  exact h.of_append

theorem deliveries_wanted (filterKeys : List Bytes) (ms : List Message) :
    ms.filter (Wanted filterKeys) = (deliveries ms).filter (Wanted filterKeys) := by
  rw [deliveries, List.filter_filter]
  refine List.filter_congr fun m _ => ?_
  by_cases hm : Wanted filterKeys m
  · simp [hm, hm.1]
  · simp [hm]

theorem runPrinted_eq (K : KafkaConsumer σ) (r : Session × σ) :
    runPrinted K r = (runDelivered K r).filter (Wanted r.1.filterKeys) := by
  have hacc := run_accounts K r.1 r.2
  rw [runPrinted, runDelivered, run_events, hacc.printed, hacc.returned, deliveries_wanted]
  rfl

theorem Sessions.inOrder {K : KafkaConsumer σ} {stored committed : σ → Place → Option ℤ}
    (hK : Commits K stored committed) {T : Topic} {first : Place → ℤ} {c c' : Place → Option ℤ}
    {runs : List (Session × σ)} (h : Sessions K stored committed T first c runs c') :
    InOrder T (resumed first c) ((kept K runs).flatMap (runDelivered K)) ∧
      c' = fun p => (nextOffset ((kept K runs).flatMap (runDelivered K)) p).or (c p) := by
  induction h with
  | nil c => exact ⟨inOrder_nil, rfl⟩
  | @cons c' ses s rest hfresh hresumed hrest ih =>
    obtain ⟨hlater, hend⟩ := ih
    have hrun := runDelivered_inOrder K hresumed (s := s)
    have hleft := funext (run_committed hK ses hfresh)
    cases hcommits : ses.commits K s with
    | false =>
      simp only [hcommits, Bool.false_eq_true, if_false] at hleft
      rw [kept, List.filter_cons_of_neg (by simp [hcommits])]
      rw [hleft] at hlater hend
      exact ⟨hlater, hend⟩
    | true =>
      simp only [hcommits, if_true] at hleft
      rw [kept, List.filter_cons_of_pos (by simpa using hcommits), List.flatMap_cons]
      rw [hleft] at hlater hend
      rw [resumed_or] at hlater
      refine ⟨hrun.append hlater, hend.trans (funext fun p => ?_)⟩
      dsimp only
      unfold nextOffset
      rw [next_append, Option.or_assoc]
      rfl

/-- Whatever the runs of a group did: those that committed have not printed a message twice between
    them, and what lies below the committed offsets has been printed by one of them, is of a table
    that it was not asked for, or has no key. -/
theorem sessions_print_once {K : KafkaConsumer σ} {stored committed : σ → Place → Option ℤ}
    (hK : Commits K stored committed) {T : Topic} {first : Place → ℤ} {c c' : Place → Option ℤ}
    {runs : List (Session × σ)} (h : Sessions K stored committed T first c runs c')
    (hnew : ∀ p, c p = none) :
    ((kept K runs).flatMap (runPrinted K)).Nodup ∧
      ∀ x ∈ T.items, ∀ o ∈ c' x.place, first x.place ≤ x.offset → x.offset < o →
        ∃ r ∈ kept K runs, x ∈ runPrinted K r ∨ Rejected r.1.filterKeys x ∨ Keyless x := by
  obtain ⟨horder, hend⟩ := h.inOrder hK
  constructor
  · refine List.Nodup.sublist ?_ horder.nodup
    have hprinted : runPrinted K = fun r => (runDelivered K r).filter (Wanted r.1.filterKeys) :=
      funext (runPrinted_eq K)
    rw [hprinted]
    exact List.Sublist.flatMap_right _ fun r _ => List.filter_sublist
  · intro x hx o ho hstart hlt
    have hnext : nextOffset ((kept K runs).flatMap (runDelivered K)) x.place = some o := by
      rw [hend] at ho
      simpa [hnew] using ho
    have hfirst : resumed first c x.place = first x.place := by rw [resumed, hnew]; rfl
    have hmem : x ∈ (kept K runs).flatMap (runDelivered K) :=
      horder.gapless.covers hnext hx rfl (hfirst ▸ hstart) hlt
    obtain ⟨r, hr, hxr⟩ := List.mem_flatMap.mp hmem
    refine ⟨r, hr, ?_⟩
    have hxok : x.err = .ERR_NO_ERROR := by
      simpa using (List.mem_filter.mp hxr).2
    by_cases hkey : Keyless x
    · exact .inr (.inr hkey)
    · rcases wanted_or_rejected hxok hkey with hwanted | hrejected
      · refine .inl ?_
        rw [runPrinted_eq]
        exact List.mem_filter.mpr ⟨hxr, by simpa using hwanted⟩
      · exact .inr (.inl hrejected)

def readsRecord : Session := ⟨[], false, true, 2, [record 0, timedOut]⟩

def readsNothing : Session := ⟨[], false, true, 1, [timedOut]⟩

def nextMember : Member := ⟨fun _ => none, Member.committed (readsRecord.run member newMember).lib⟩

theorem readsRecord_sessions :
    Sessions member Member.stored Member.committed (oneRecord (record 0) rfl) (fun _ => 0)
      (Member.committed newMember) [(readsRecord, newMember), (readsNothing, nextMember)]
      (Member.committed (readsNothing.run member nextMember).lib) := by
  refine .cons (fun _ => rfl) (atEach_singleton.mpr ⟨rfl, le_rfl, ?_⟩)
    (.cons (s := nextMember) (fun _ => rfl) inOrder_nil (.nil _))
  rintro y rfl _ _
  exact le_rfl

theorem sessions_print_once_readsRecord :
    ((kept member [(readsRecord, newMember), (readsNothing, nextMember)]).flatMap
        (runPrinted member)).Nodup ∧
      ∀ x ∈ (oneRecord (record 0) rfl).items,
        ∀ o ∈ Member.committed (readsNothing.run member nextMember).lib x.place,
          0 ≤ x.offset → x.offset < o →
            ∃ r ∈ kept member [(readsRecord, newMember), (readsNothing, nextMember)],
              x ∈ runPrinted member r ∨ Rejected r.1.filterKeys x ∨ Keyless x :=
  sessions_print_once member_commits readsRecord_sessions fun _ => rfl

end O2k.KafkaReader
