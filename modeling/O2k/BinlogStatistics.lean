import O2k.BinlogEntry
import O2k.SocketTransfer
import Mathlib.Algebra.Order.BigOperators.Group.List
import Mathlib.Algebra.Order.Group.Nat
import Mathlib.Algebra.Order.Pi

set_option autoImplicit false

/-!
# The statistics of the two dump programs

`PrintSql` of binlogdumpK and `PrintBinlog` of JBinlogOut count the row
changes among the payloads they are given. What they print is left out: of a
begin and an end of a transaction nothing else is done. The C++ runtime says
whether it could parse a payload, and leaves a message behind when it could not.
-/
namespace O2k.BinlogStatistics
open ByteOrder SocketTransfer WireFormat BinlogEntry

structure CppRuntime where
  Entry : Bytes → Bool × Entry
  RowChange : Bytes → Bool × RowChange

/-- The two runtimes accept the same bytes, and read the same messages there. -/
structure Runtimes where
  java : Parsers
  cpp : CppRuntime
  Entry_same : ∀ bs, java.Entry bs = if (cpp.Entry bs).1 then some (cpp.Entry bs).2 else none
  RowChange_same : ∀ bs,
    java.RowChange bs = if (cpp.RowChange bs).1 then some (cpp.RowChange bs).2 else none

structure Statistics where
  TotalRows : ℕ := 0
  InsertCnt : ℕ := 0
  UpdateCnt : ℕ := 0
  DeleteCnt : ℕ := 0
  deriving DecidableEq

structure JBinlogOut.Statistics where
  TotalCount : ℕ := 0
  InsertCount : ℕ := 0
  UpdateCount : ℕ := 0
  DeleteCount : ℕ := 0
  DMLCount : ℕ := 0
  DDLCount : ℕ := 0
  deriving DecidableEq

def PrintSql (cpp : CppRuntime) (printRaw : Bool) (gbStat : Statistics) :
    Option Bytes → ℤ × Statistics
  | none => (-1, gbStat)
  | some [] => (-1, gbStat)
  | some data =>
    -- whether the entry could be parsed is not looked at
    let row_entry := (cpp.Entry data).2
    let _storevalue := if printRaw then [] else row_entry.storeValue
    let row_entry := if printRaw then row_entry else { row_entry with storeValue := [] }
    let storevalue := if printRaw then row_entry.storeValue else _storevalue
    if row_entry.entryType = .TRANSACTIONEND then (0, gbStat)
    else if row_entry.entryType = .TRANSACTIONBEGIN then (0, gbStat)
    else if row_entry.entryType = .ROWDATA then
      let row_change := (cpp.RowChange storevalue).2
      let gbStat := { gbStat with TotalRows := gbStat.TotalRows + 1 }
      (0, match row_change.eventType with
        | .INSERT => { gbStat with InsertCnt := gbStat.InsertCnt + 1 }
        | .UPDATE => { gbStat with UpdateCnt := gbStat.UpdateCnt + 1 }
        | .DELETE => { gbStat with DeleteCnt := gbStat.DeleteCnt + 1 }
        | _ => gbStat)
    else (0, gbStat)

/-- An exception of a parser is caught, and its message printed. -/
def JBinlogOut.PrintBinlog (P : Parsers) (Stat : Statistics) (binlog : Bytes) : Statistics :=
  match P.Entry binlog with
  | none => Stat
  | some entry =>
    if entry.entryType = .ROWDATA then
      match P.RowChange entry.storeValue with
      | none => Stat
      | some row =>
        let Stat := { Stat with TotalCount := Stat.TotalCount + 1 }
        if row.isDdl then { Stat with DDLCount := Stat.DDLCount + 1 }
        else
          let Stat := { Stat with DMLCount := Stat.DMLCount + 1 }
          match row.eventType with
          | .INSERT => { Stat with InsertCount := Stat.InsertCount + 1 }
          | .UPDATE => { Stat with UpdateCount := Stat.UpdateCount + 1 }
          | .DELETE => { Stat with DeleteCount := Stat.DeleteCount + 1 }
          | _ => Stat
    else Stat

def sqlStatistics (rt : Runtimes) (printRaw : Bool) (payloads : List Bytes) : Statistics :=
  payloads.foldl (fun gbStat p => (PrintSql rt.cpp printRaw gbStat (some p)).2) {}

def javaStatistics (rt : Runtimes) (payloads : List Bytes) : JBinlogOut.Statistics :=
  payloads.foldl (JBinlogOut.PrintBinlog rt.java) {}

inductive Count where
  | total
  | insert
  | update
  | delete

def Statistics.counts (s : Statistics) : Count → ℕ
  | .total => s.TotalRows
  | .insert => s.InsertCnt
  | .update => s.UpdateCnt
  | .delete => s.DeleteCnt

def JBinlogOut.Statistics.counts (s : Statistics) : Count → ℕ
  | .total => s.TotalCount
  | .insert => s.InsertCount
  | .update => s.UpdateCount
  | .delete => s.DeleteCount

def Counted (e : EventType) : Prop := e ∈ [.INSERT, .UPDATE, .DELETE]

instance : DecidablePred Counted := fun _ => inferInstanceAs (Decidable (_ ∈ _))

def CppRuntime.row (cpp : CppRuntime) (p : Bytes) : Bool × BinlogEntry.RowChange :=
  cpp.RowChange (cpp.Entry p).2.storeValue

/-- A payload of which both programs count the same: where the C++ program sees a row change, the
    entry and the row change can be parsed, and a DDL is of no event type that is counted. -/
def Agrees (rt : Runtimes) (p : Bytes) : Prop :=
  (rt.cpp.Entry p).2.entryType = .ROWDATA →
    (rt.cpp.Entry p).1 = true ∧ (rt.cpp.row p).1 = true ∧
      ((rt.cpp.row p).2.isDdl = true → ¬ Counted (rt.cpp.row p).2.eventType)

def tally (event : Option EventType) : Count → ℕ
  | .total => 1
  | .insert => if event = some .INSERT then 1 else 0
  | .update => if event = some .UPDATE then 1 else 0
  | .delete => if event = some .DELETE then 1 else 0

theorem tally_none_le (e : EventType) : tally none ≤ tally (some e) := by
  intro c
  cases c <;> simp [tally]

theorem tally_none_eq_iff (e : EventType) : tally none = tally (some e) ↔ ¬ Counted e := by
  constructor
  · intro h hcounted
    simp only [Counted, List.mem_cons, List.not_mem_nil, or_false] at hcounted
    rcases hcounted with rfl | rfl | rfl
    · exact absurd (congrFun h .insert) (by decide)
    · exact absurd (congrFun h .update) (by decide)
    · exact absurd (congrFun h .delete) (by decide)
  · intro h
    simp only [Counted, List.mem_cons, List.not_mem_nil, or_false, not_or] at h
    funext c
    cases c <;> simp [tally, h]

def sqlTally (rt : Runtimes) (p : Bytes) : Count → ℕ :=
  if (rt.cpp.Entry p).2.entryType = .ROWDATA then tally (some (rt.cpp.row p).2.eventType) else 0

def javaTally (rt : Runtimes) (p : Bytes) : Count → ℕ :=
  if (rt.cpp.Entry p).2.entryType = .ROWDATA ∧ (rt.cpp.Entry p).1 = true ∧
      (rt.cpp.row p).1 = true then
    if (rt.cpp.row p).2.isDdl then tally none else tally (some (rt.cpp.row p).2.eventType)
  else 0

theorem tally_ne_zero (event : Option EventType) : tally event ≠ 0 :=
  fun h => absurd (congrFun h .total) one_ne_zero

theorem javaTally_le (rt : Runtimes) (p : Bytes) : javaTally rt p ≤ sqlTally rt p := by
  unfold javaTally sqlTally
  by_cases hrow : (rt.cpp.Entry p).2.entryType = .ROWDATA
  · rw [if_pos hrow]
    split
    · split
      · exact tally_none_le _
      · exact le_rfl
    · exact fun _ => Nat.zero_le _
  · rw [if_neg fun h => hrow h.1]
    exact fun _ => Nat.zero_le _

theorem javaTally_eq_iff (rt : Runtimes) (p : Bytes) :
    javaTally rt p = sqlTally rt p ↔ Agrees rt p := by
  unfold javaTally sqlTally Agrees
  by_cases hrow : (rt.cpp.Entry p).2.entryType = .ROWDATA
  · rw [if_pos hrow]
    by_cases hok : (rt.cpp.Entry p).1 = true ∧ (rt.cpp.row p).1 = true
    · rw [if_pos ⟨hrow, hok⟩]
      by_cases hddl : (rt.cpp.row p).2.isDdl = true
      · rw [if_pos hddl, tally_none_eq_iff]
        exact ⟨fun h _ => ⟨hok.1, hok.2, fun _ => h⟩, fun h => (h hrow).2.2 hddl⟩
      · rw [if_neg hddl]
        exact ⟨fun _ _ => ⟨hok.1, hok.2, fun h => absurd h hddl⟩, fun _ => rfl⟩
    · rw [if_neg fun h => hok h.2]
      constructor
      · intro h
        exact absurd h.symm (tally_ne_zero _)
      · intro h
        exact absurd ⟨(h hrow).1, (h hrow).2.1⟩ hok
  · rw [if_neg hrow, if_neg fun h => hrow h.1]
    exact ⟨fun _ h => absurd h hrow, fun _ => rfl⟩

theorem Runtimes.nil (rt : Runtimes) : (rt.cpp.Entry []).2 = {} := by
  have h := (rt.Entry_same []).symm.trans rt.java.Entry_nil
  split at h
  · exact Option.some.inj h
  · cases h

theorem PrintSql_counts (rt : Runtimes) (printRaw : Bool) (s : Statistics) (p : Bytes) :
    (PrintSql rt.cpp printRaw s (some p)).2.counts = s.counts + sqlTally rt p := by
  cases p with
  | nil => simp [PrintSql, sqlTally, rt.nil]
  | cons b bs =>
    have hraw : PrintSql rt.cpp printRaw s (some (b :: bs)) =
        PrintSql rt.cpp true s (some (b :: bs)) := by
      cases printRaw <;> rfl
    rw [hraw]
    simp only [PrintSql, sqlTally, CppRuntime.row, if_true]
    generalize (rt.cpp.Entry (b :: bs)).2 = entry
    cases htype : entry.entryType with
    | ROWDATA =>
      simp only [reduceCtorEq, if_false, if_true]
      generalize (rt.cpp.RowChange entry.storeValue).2.eventType = e
      funext c
      cases e <;> cases c <;> rfl
    | _ => simp

theorem PrintBinlog_counts (rt : Runtimes) (j : JBinlogOut.Statistics) (p : Bytes) :
    (JBinlogOut.PrintBinlog rt.java j p).counts = j.counts + javaTally rt p := by
  unfold JBinlogOut.PrintBinlog javaTally CppRuntime.row
  rw [rt.Entry_same]
  generalize rt.cpp.Entry p = parsed
  obtain ⟨ok, entry⟩ := parsed
  cases ok with
  | false => simp
  | true =>
    by_cases htype : entry.entryType = .ROWDATA
    · simp only [if_true, htype, true_and]
      rw [rt.RowChange_same]
      generalize rt.cpp.RowChange entry.storeValue = row
      obtain ⟨ok, row⟩ := row
      cases ok with
      | false => simp
      | true =>
        cases hddl : row.isDdl with
        | true =>
          simp only [if_true, hddl]
          funext c
          cases c <;> rfl
        | false =>
          simp only [if_true, hddl, Bool.false_eq_true, if_false]
          generalize row.eventType = e
          funext c
          cases e <;> cases c <;> rfl
    · simp [htype]

section Sums

variable {α M : Type} [AddCommMonoid M] [PartialOrder M] [IsOrderedCancelAddMonoid M] {f g : α → M}

theorem sum_map_eq_iff (hle : ∀ a, g a ≤ f a) (as : List α) :
    (as.map g).sum = (as.map f).sum ↔ ∀ a ∈ as, g a = f a := by
  induction as with
  | nil => simp
  | cons a as ih =>
    have hsum : (as.map g).sum ≤ (as.map f).sum := List.sum_le_sum fun b _ => hle b
    rw [List.map_cons, List.map_cons, List.sum_cons, List.sum_cons,
      add_eq_add_iff_eq_and_eq (hle a) hsum, ih, List.forall_mem_cons]

end Sums

theorem foldl_counts {σ : Type} {step : σ → Bytes → σ} {counts : σ → Count → ℕ}
    {tallied : Bytes → Count → ℕ} (hstep : ∀ s p, counts (step s p) = counts s + tallied p)
    (payloads : List Bytes) (s : σ) :
    counts (payloads.foldl step s) = counts s + (payloads.map tallied).sum := by
  induction payloads generalizing s with
  | nil => simp
  | cons p payloads ih => rw [List.foldl_cons, ih, hstep, List.map_cons, List.sum_cons, add_assoc]

theorem sqlStatistics_counts (rt : Runtimes) (printRaw : Bool) (payloads : List Bytes) :
    (sqlStatistics rt printRaw payloads).counts = (payloads.map (sqlTally rt)).sum := by
  have hzero : Statistics.counts {} = 0 := by
    funext c
    cases c <;> rfl
  unfold sqlStatistics
  rw [foldl_counts (PrintSql_counts rt printRaw), hzero, zero_add]

theorem javaStatistics_counts (rt : Runtimes) (payloads : List Bytes) :
    (javaStatistics rt payloads).counts = (payloads.map (javaTally rt)).sum := by
  have hzero : JBinlogOut.Statistics.counts {} = 0 := by
    funext c
    cases c <;> rfl
  unfold javaStatistics
  rw [foldl_counts (PrintBinlog_counts rt), hzero, zero_add]

/-- The two programs end with the same counts just when they count the same of each payload. -/
theorem counts_agree_iff (rt : Runtimes) (printRaw : Bool) (payloads : List Bytes) :
    (sqlStatistics rt printRaw payloads).counts = (javaStatistics rt payloads).counts ↔
      ∀ p ∈ payloads, Agrees rt p := by
  rw [sqlStatistics_counts, javaStatistics_counts, eq_comm,
    sum_map_eq_iff (javaTally_le rt) payloads]
  exact forall₂_congr fun p _ => javaTally_eq_iff rt p

def leaving {α : Type} (left : α) (parsed : Option α) : Bool × α :=
  (parsed.isSome, parsed.getD left)

theorem leaving_same {α : Type} (left : α) (parsed : Option α) :
    parsed = if (leaving left parsed).1 then some (leaving left parsed).2 else none := by
  cases parsed <;> rfl

def tableRuntimes : Runtimes where
  java := tableParsers ⟨false⟩
  cpp :=
    { Entry := fun bs => leaving {} ((tableParsers ⟨false⟩).Entry bs)
      RowChange := fun bs => leaving {} ((tableParsers ⟨false⟩).RowChange bs) }
  Entry_same _ := leaving_same _ _
  RowChange_same _ := leaving_same _ _

def brokenRow : Bytes := putEntry 1000 (ascii "ACCOUNT") 2 [0]

theorem brokenRow_counted :
    ¬ ∀ payloads, (sqlStatistics tableRuntimes false payloads).counts =
      (javaStatistics tableRuntimes payloads).counts := by
  intro h
  have htotal := congrFun (h [brokenRow]) .total
  revert htotal
  decide +kernel

end O2k.BinlogStatistics
