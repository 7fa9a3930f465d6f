import O2k.BinlogStatistics
import O2k.GatedTrace

set_option autoImplicit false

namespace O2k.PollLoop
open ByteOrder GatedTrace BinlogEntry BinlogStatistics JavaValues

abbrev Record := Option Bytes

abbrev Poll := List Record

def fgWait (w : Option JavaString) : Bool :=
  match w with
  | none => true
  | some value => value = ['1']

/-- A null value makes the parser throw, which is caught. -/
def printRecord (P : Parsers) (Stat : JBinlogOut.Statistics) : Record → JBinlogOut.Statistics
  | none => Stat
  | some binlog => JBinlogOut.PrintBinlog P Stat binlog

structure Looped where
  made : List Poll
  ended : Bool
  Stat : JBinlogOut.Statistics

def pollLoop (P : Parsers) (fgWait : Bool) : ℕ → JBinlogOut.Statistics → List Poll → Looped
  | _, Stat, [] => ⟨[], false, Stat⟩
  | nTimeO, Stat, records :: polls =>
    let nTimeO := if records.length ≤ 0 then nTimeO + 1 else nTimeO
    if records.length ≤ 0 ∧ !fgWait ∧ nTimeO > 5 then ⟨[records], true, Stat⟩
    else
      let rest := pollLoop P fgWait nTimeO (records.foldl (printRecord P) Stat) polls
      { rest with made := records :: rest.made }

def main (P : Parsers) (w : Option JavaString) (polls : List Poll) : Looped :=
  pollLoop P (fgWait w) 0 {} polls

def noWait : Option JavaString := some ['0']

def EndsIdle (r : Looped) : Prop := r.ended = true → ∃ us, r.made = us ++ List.replicate 6 []

section Loop

variable {P : Parsers} {nTimeO : ℕ} {Stat : JBinlogOut.Statistics} {polls : List Poll}

theorem pollLoop_records (w : Bool) {records : Poll} (h : records ≠ []) :
    pollLoop P w nTimeO Stat (records :: polls) =
      { pollLoop P w nTimeO (records.foldl (printRecord P) Stat) polls with
        made := records ::
          (pollLoop P w nTimeO (records.foldl (printRecord P) Stat) polls).made } := by
  have hsome : ¬ records.length ≤ 0 := by simpa using h
  simp only [pollLoop, hsome, false_and, if_false]

theorem pollLoop_nil (w : Bool) :
    pollLoop P w nTimeO Stat ([] :: polls) =
      if w = false ∧ nTimeO + 1 > 5 then ⟨[[]], true, Stat⟩
      else
        { pollLoop P w (nTimeO + 1) Stat polls with
          made := [] :: (pollLoop P w (nTimeO + 1) Stat polls).made } := by
  simp only [pollLoop, List.length_nil, Nat.le_refl, true_and, if_true, Bool.not_eq_true',
    List.foldl_nil]

theorem pollLoop_empty (h : nTimeO < 5) :
    pollLoop P false nTimeO Stat ([] :: polls) =
      { pollLoop P false (nTimeO + 1) Stat polls with
        made := [] :: (pollLoop P false (nTimeO + 1) Stat polls).made } := by
  rw [pollLoop_nil, if_neg]
  omega

theorem pollLoop_ends (h : nTimeO ≤ 5) :
    (nTimeO + polls.count [] ≤ 5 ∧ (pollLoop P false nTimeO Stat polls).ended = false) ∨
    ((pollLoop P false nTimeO Stat polls).ended = true ∧
      ∃ us vs, polls = us ++ [] :: vs ∧ nTimeO + us.count [] = 5 ∧
        (pollLoop P false nTimeO Stat polls).made = us ++ [[]]) := by
  induction polls generalizing nTimeO Stat with
  | nil => exact .inl ⟨by simpa using h, rfl⟩
  | cons records polls ih =>
    cases records with
    | nil =>
      rcases h.lt_or_eq with hlt | rfl
      · rw [pollLoop_empty hlt]
        rcases @ih _ Stat (Nat.succ_le_of_lt hlt) with
          ⟨hcount, hended⟩ | ⟨hended, us, vs, rfl, hcount, hmade⟩
        · refine .inl ⟨?_, hended⟩
          rw [List.count_cons_self]
          omega
        · refine .inr ⟨hended, [] :: us, vs, rfl, ?_, by rw [hmade]; rfl⟩
          rw [List.count_cons_self]
          omega
      · rw [pollLoop_nil, if_pos ⟨rfl, by decide⟩]
        exact .inr ⟨rfl, [], polls, rfl, rfl, rfl⟩
    | cons record records =>
      rw [pollLoop_records false (by simp)]
      rcases @ih _ ((record :: records).foldl (printRecord P) Stat) h with
        ⟨hcount, hended⟩ | ⟨hended, us, vs, rfl, hcount, hmade⟩
      · refine .inl ⟨?_, hended⟩
        rwa [List.count_cons_of_ne (by simp)]
      · refine .inr ⟨hended, (record :: records) :: us, vs, rfl, ?_, by rw [hmade]; rfl⟩
        rwa [List.count_cons_of_ne (by simp)]

end Loop

/-- No poll with records comes after the first empty poll of a run and before its sixth. -/
def Unbroken (polls : List Poll) : Prop :=
  ∀ us records vs, polls = us ++ records :: vs → records ≠ [] →
    us.count [] = 0 ∨ 6 ≤ us.count []

theorem pollLoop_waits (P : Parsers) (nTimeO : ℕ) (Stat : JBinlogOut.Statistics)
    (polls : List Poll) : (pollLoop P true nTimeO Stat polls).ended = false := by
  induction polls generalizing nTimeO Stat with
  | nil => rfl
  | cons records polls ih => simpa [pollLoop] using ih _ _

theorem endsIdle_of_unbroken {us vs : List Poll} (hcount : us.count [] = 5)
    (h : Unbroken (us ++ [] :: vs)) : ∃ ws, us ++ [[]] = ws ++ List.replicate 6 [] := by
  have hmem : [] ∈ us := List.count_pos_iff.mp (by omega)
  obtain ⟨ws, xs, rfl, hfirst⟩ := List.eq_append_cons_of_mem hmem
  rw [List.count_append, List.count_cons_self, List.count_eq_zero.mpr hfirst] at hcount
  have hempty : ∀ records ∈ xs, records = [] := by
    intro records hrecords
    by_contra hne
    obtain ⟨ys, zs, rfl⟩ := List.append_of_mem hrecords
    rw [List.count_append] at hcount
    have hsplit := h (ws ++ [] :: ys) records (zs ++ [] :: vs) (by simp) hne
    rw [List.count_append, List.count_cons_self, List.count_eq_zero.mpr hfirst] at hsplit
    omega
  obtain ⟨n, rfl⟩ : ∃ n, xs = List.replicate n [] := ⟨_, List.eq_replicate_of_mem hempty⟩
  rw [List.count_replicate_self] at hcount
  obtain rfl : n = 4 := by omega
  exact ⟨ws, by simp [List.replicate]⟩

theorem unbroken_of_endsIdle {us vs ws : List Poll} (hcount : us.count [] = 5)
    (h : us ++ [[]] = ws ++ List.replicate 6 []) : Unbroken (us ++ [] :: vs) := by
  have hfirst : ws.count [] = 0 := by
    have htotal := congrArg (List.count []) h
    simp only [List.count_append, List.count_replicate_self, List.count_singleton_self] at htotal
    omega
  intro xs records ys heq hne
  have hwhole : ws ++ (List.replicate 6 [] ++ vs) = xs ++ records :: ys := by
    rw [← heq, ← List.append_assoc, ← h, List.append_assoc]
    rfl
  rcases split_append hwhole with ⟨zs, rfl, _⟩ | ⟨zs, rfl, hrest⟩
  · rw [List.count_append] at hfirst
    exact .inl (Nat.add_eq_zero_iff.mp hfirst).1
  · rcases split_append hrest with ⟨zs', hsix, _⟩ | ⟨zs', rfl, _⟩
    · have hmem : records ∈ List.replicate 6 [] := by simp [hsix]
      exact absurd (List.eq_of_mem_replicate hmem) hne
    · rw [List.count_append, List.count_append, List.count_replicate_self]
      omega

/-- Told not to wait, the tool ends after six empty polls in a row just when the first six empty
    polls of the run are in a row. -/
theorem main_endsIdle_iff (P : Parsers) (polls : List Poll) :
    EndsIdle (main P noWait polls) ↔ polls.count [] < 6 ∨ Unbroken polls := by
  have hmain : main P noWait polls = pollLoop P false 0 {} polls := rfl
  rw [hmain, EndsIdle]
  rcases @pollLoop_ends P 0 {} polls (Nat.zero_le 5) with
    ⟨hcount, hended⟩ | ⟨hended, us, vs, rfl, hcount, hmade⟩
  · rw [hended]
    exact iff_of_true (fun h => by cases h) (.inl (by omega))
  · rw [Nat.zero_add] at hcount
    rw [hmade]
    constructor
    · intro h
      obtain ⟨ws, hws⟩ := h hended
      exact .inr (unbroken_of_endsIdle hcount hws)
    · rintro (hfew | hunbroken) _
      · rw [List.count_append, List.count_cons_self] at hfew
        omega
      · exact endsIdle_of_unbroken hcount hunbroken

def pauses : List Poll := (List.replicate 5 [[], [some []]]).flatten ++ [[]]

theorem pauses_end : ¬ ∀ P polls, EndsIdle (main P noWait polls) := by
  intro h
  obtain ⟨us, hus⟩ := h (tableParsers ⟨false⟩) pauses rfl
  have hmade : (main (tableParsers ⟨false⟩) noWait pauses).made = pauses := by decide
  have hmem : [some []] ∈ pauses.reverse.take 6 := by decide
  have hlast : pauses.reverse.take 6 = List.replicate 6 [] := by
    rw [← hmade, hus, List.reverse_append]
    simp
  rw [hlast] at hmem
  exact absurd hmem (by decide)

end O2k.PollLoop
