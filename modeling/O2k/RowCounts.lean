import O2k.BinlogStatistics

set_option autoImplicit false

namespace O2k.BinlogStatistics
open ByteOrder SocketTransfer WireFormat BinlogEntry

def carried (P : Parsers) (p : Bytes) : Option RowChange :=
  (P.Entry p).bind fun entry =>
    if entry.entryType = .ROWDATA then P.RowChange entry.storeValue else none

def changes (P : Parsers) (payloads : List Bytes) : List RowChange := payloads.filterMap (carried P)

/-- An entry that can be parsed, and when it holds a row change, one that can be parsed too and is
    no DDL. -/
def WellFormed (P : Parsers) (p : Bytes) : Prop :=
  ∃ entry, P.Entry p = some entry ∧
    (entry.entryType = .ROWDATA → ∃ row, P.RowChange entry.storeValue = some row ∧ row.isDdl = false)

def Count.takes : Count → RowChange → Bool
  | .total, _ => true
  | .insert, row => row.eventType = .INSERT
  | .update, row => row.eventType = .UPDATE
  | .delete, row => row.eventType = .DELETE

def changesOf (rows : List RowChange) (c : Count) : ℕ := (rows.filter c.takes).length

def rowsOf (rows : List RowChange) (c : Count) : ℕ :=
  ((rows.filter c.takes).map fun row => row.rowDatas.length).sum

def CountsRows (rt : Runtimes) (printRaw : Bool) (payloads : List Bytes) : Prop :=
  (sqlStatistics rt printRaw payloads).counts = rowsOf (changes rt.java payloads) ∧
    (javaStatistics rt payloads).counts = rowsOf (changes rt.java payloads)

theorem changesOf_append (xs ys : List RowChange) (c : Count) :
    changesOf (xs ++ ys) c = changesOf xs c + changesOf ys c := by
  simp [changesOf]

theorem rowsOf_append (xs ys : List RowChange) (c : Count) :
    rowsOf (xs ++ ys) c = rowsOf xs c + rowsOf ys c := by
  simp [rowsOf]

theorem changes_append (P : Parsers) (ps qs : List Bytes) :
    changes P (ps ++ qs) = changes P ps ++ changes P qs :=
  List.filterMap_append

theorem tally_eq_changesOf (row : RowChange) : tally (some row.eventType) = changesOf [row] := by
  funext c
  cases c <;> simp [tally, changesOf, Count.takes, List.filter_cons, apply_ite List.length]

theorem tallies_wellFormed (rt : Runtimes) {p : Bytes} (h : WellFormed rt.java p) :
    sqlTally rt p = changesOf (changes rt.java [p]) ∧ javaTally rt p = sqlTally rt p := by
  obtain ⟨entry, hentry, hrow⟩ := h
  have hcpp := (rt.Entry_same p).symm.trans hentry
  have hok : (rt.cpp.Entry p).1 = true ∧ (rt.cpp.Entry p).2 = entry := by
    split at hcpp
    · exact ⟨‹_›, Option.some.inj hcpp⟩
    · cases hcpp
  by_cases htype : entry.entryType = .ROWDATA
  · obtain ⟨row, hparsed, hddl⟩ := hrow htype
    have hcpp := (rt.RowChange_same entry.storeValue).symm.trans hparsed
    have hchange : (rt.cpp.row p).1 = true ∧ (rt.cpp.row p).2 = row := by
      unfold CppRuntime.row
      rw [hok.2]
      split at hcpp
      · exact ⟨‹_›, Option.some.inj hcpp⟩
      · cases hcpp
    constructor
    · have hcarried : carried rt.java p = some row := by simp [carried, hentry, htype, hparsed]
      rw [sqlTally, hok.2, if_pos htype, hchange.2, tally_eq_changesOf]
      simp [changes, hcarried]
    · rw [javaTally_eq_iff]
      intro _
      exact ⟨hok.1, hchange.1, by simp [hchange.2, hddl]⟩
  · constructor
    · have hcarried : carried rt.java p = none := by simp [carried, hentry, htype]
      rw [sqlTally, hok.2, if_neg htype]
      funext c
      simp [changes, hcarried, changesOf]
    · rw [javaTally_eq_iff]
      intro h
      exact absurd (hok.2 ▸ h) htype

theorem counts_changes (rt : Runtimes) (printRaw : Bool) {payloads : List Bytes}
    (h : ∀ p ∈ payloads, WellFormed rt.java p) :
    (sqlStatistics rt printRaw payloads).counts = changesOf (changes rt.java payloads) ∧
      (javaStatistics rt payloads).counts = changesOf (changes rt.java payloads) := by
  have hsql : (payloads.map (sqlTally rt)).sum = changesOf (changes rt.java payloads) := by
    induction payloads with
    | nil => rfl
    | cons p payloads ih =>
      obtain ⟨hp, hrest⟩ := List.forall_mem_cons.mp h
      have hsplit := changes_append rt.java [p] payloads
      rw [List.singleton_append] at hsplit
      rw [List.map_cons, List.sum_cons, ih hrest, (tallies_wellFormed rt hp).1, hsplit]
      funext c
      exact (changesOf_append _ _ c).symm
  have hjava : payloads.map (javaTally rt) = payloads.map (sqlTally rt) :=
    List.map_congr_left fun p hp => (tallies_wellFormed rt (h p hp)).2
  rw [sqlStatistics_counts, javaStatistics_counts, hjava]
  exact ⟨hsql, hsql⟩

theorem countsRows_iff_balanced (rt : Runtimes) (printRaw : Bool) {payloads : List Bytes}
    (h : ∀ p ∈ payloads, WellFormed rt.java p) :
    CountsRows rt printRaw payloads ↔
      changesOf (changes rt.java payloads) = rowsOf (changes rt.java payloads) := by
  obtain ⟨hsql, hjava⟩ := counts_changes rt printRaw h
  rw [CountsRows, hsql, hjava, and_self]

theorem rowsOf_single {rows : List RowChange} (h : ∀ row ∈ rows, row.rowDatas.length = 1) :
    changesOf rows = rowsOf rows := by
  funext c
  have hones : (rows.filter c.takes).map (fun row => row.rowDatas.length) =
      (rows.filter c.takes).map fun _ => 1 :=
    List.map_congr_left fun row hrow => h row (List.mem_filter.mp hrow).1
  rw [rowsOf, hones, List.map_const', List.sum_replicate_nat, Nat.mul_one]
  rfl

theorem prefixes_balanced_iff (P : Parsers) (payloads : List Bytes) :
    (∀ us, us <+: payloads → changesOf (changes P us) = rowsOf (changes P us)) ↔
      ∀ row ∈ changes P payloads, row.rowDatas.length = 1 := by
  constructor
  · intro h row hrow
    obtain ⟨p, hp, hcarried⟩ := List.mem_filterMap.mp hrow
    obtain ⟨us, vs, rfl⟩ := List.append_of_mem hp
    have hbefore := congrFun (h us ⟨_, rfl⟩) .total
    have hafter := congrFun (h (us ++ [p]) ⟨vs, by simp⟩) .total
    rw [changes_append, changesOf_append, rowsOf_append, hbefore, Nat.add_left_cancel_iff] at hafter
    simpa [changes, hcarried, changesOf, rowsOf, Count.takes, List.filter_cons] using hafter.symm
  · rintro h us ⟨vs, rfl⟩
    refine rowsOf_single fun row hrow => h row ?_
    rw [changes_append]
    exact List.mem_append_left _ hrow

/-- The figures are numbers of rows when the changes carry as many rows as there are changes, of
    each kind that is counted; all along a stream, when each change carries one. -/
theorem countsRows_iff (rt : Runtimes) (printRaw : Bool) (payloads : List Bytes)
    (h : ∀ p ∈ payloads, WellFormed rt.java p) :
    (CountsRows rt printRaw payloads ↔
      ∀ c, changesOf (changes rt.java payloads) c = rowsOf (changes rt.java payloads) c) ∧
    ((∀ us, us <+: payloads → CountsRows rt printRaw us) ↔
      ∀ row ∈ changes rt.java payloads, row.rowDatas.length = 1) := by
  refine ⟨(countsRows_iff_balanced rt printRaw h).trans funext_iff, ?_⟩
  rw [← prefixes_balanced_iff]
  refine forall₂_congr fun us hus => countsRows_iff_balanced rt printRaw ?_
  intro p hp
  exact h p (hus.subset hp)

def twoRows : Bytes := putEntry 1000 (ascii "ACCOUNT") 2 (putRowChange 1 [putRow [] [], putRow [] []])

theorem twoRows_wellFormed : WellFormed tableRuntimes.java twoRows :=
  ⟨⟨⟨1000, decodeUtf8 (ascii "ACCOUNT")⟩, .ROWDATA, putRowChange 1 [putRow [] [], putRow [] []]⟩,
    by decide +kernel, fun _ => ⟨⟨.INSERT, false, [{}, {}]⟩, by decide +kernel, rfl⟩⟩

theorem countsRows_twoRows : ¬ CountsRows tableRuntimes false [twoRows] := by
  rw [(countsRows_iff tableRuntimes false [twoRows] (by simpa using twoRows_wellFormed)).1]
  intro h
  have htotal := h .total
  revert htotal
  decide +kernel

theorem twoRows_counted_once :
    ¬ ∀ payloads, (∀ p ∈ payloads, WellFormed tableRuntimes.java p) →
      CountsRows tableRuntimes false payloads := by
  intro h
  have htotal := congrFun (h [twoRows] (by simpa using twoRows_wellFormed)).1 .total
  revert htotal
  decide +kernel

end O2k.BinlogStatistics
