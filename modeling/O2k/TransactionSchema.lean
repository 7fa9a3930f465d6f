import O2k.BinlogEntry
import O2k.FraudDetector
import O2k.SocketTransfer

set_option autoImplicit false

/-!
# BinlogTransactionSchema

The schema makes a transaction of an update of the account table. It reads the
first row of the update, and minus one for a column that is missing; a text
that is no number ends the call with the exception of the Java parser. `rnd` is
the rounding of its doubles.
-/
namespace O2k.TransactionSchema
open ByteOrder SocketTransfer JavaValues WireFormat BinlogEntry FraudDetector

inductive Thrown where
  | InvalidProtocolBufferException
  | NumberFormatException
  deriving DecidableEq

structure MyRow where
  accountId : ℤ := -1
  balance : Double := .finite (-1)
  deriving DecidableEq

section Schema

variable (rnd : ℚ → Double)

def MyRow.take (row : MyRow) (col : Column) : Except Thrown MyRow :=
  if equalsIgnoreCase col.name "accountid" then
    match parseLong col.value with
    | none => .error .NumberFormatException
    | some accountId => .ok { row with accountId }
  else if equalsIgnoreCase col.name "balance" then
    match parseDouble rnd col.value with
    | none => .error .NumberFormatException
    | some balance => .ok { row with balance }
  else .ok row

def Double.zero : Double := .finite 0

def rowData2Transaction (rowData : RowData) (executeTimeMs : ℤ) :
    Except Thrown (Option Transaction) := do
  let oldRow ← rowData.beforeColumns.foldlM (MyRow.take rnd) {}
  let newRow ← rowData.afterColumns.foldlM (MyRow.take rnd) {}
  if newRow.accountId < 0 ∨ newRow.balance.lt Double.zero ∨ oldRow.balance.lt Double.zero then
    return none
  else
    return some ⟨newRow.accountId, executeTimeMs, (newRow.balance.sub rnd oldRow.balance).abs⟩

def deserialize (P : Parsers) : Option Bytes → Except Thrown (Option Transaction)
  | none => .ok none
  | some [] => .ok none
  | some bytes =>
    match P.Entry bytes with
    | none => .error .InvalidProtocolBufferException
    | some entry =>
      if entry.entryType ≠ .ROWDATA then .ok none
      else if !equalsIgnoreCase entry.header.tableName "account" then .ok none
      else
        match P.RowChange entry.storeValue with
        | none => .error .InvalidProtocolBufferException
        | some rowChange =>
          if rowChange.eventType ≠ .UPDATE then .ok none
          else
            match rowChange.rowDatas with
            | [] => .ok none
            | rowData :: _ => rowData2Transaction rnd rowData entry.header.executeTime

def held (name : String) (columns : List Column) : Option JavaString :=
  ((columns.filter fun col => equalsIgnoreCase col.name name).getLast?).map Column.value

def accountIdOf (columns : List Column) : Option ℤ := (held "accountid" columns).bind parseInteger

def balanceOf (columns : List Column) : Option Double :=
  (held "balance" columns).bind (parseDouble rnd)

theorem held_concat (name : String) (columns : List Column) (col : Column) :
    held name (columns ++ [col]) =
      if equalsIgnoreCase col.name name then some col.value else held name columns := by
  unfold held
  split
  · rename_i hname
    simp [List.filter_append, hname]
  · rename_i hname
    simp [List.filter_append, hname]

theorem equalsIgnoreCase_unique {s : JavaString} {name name' : String}
    (h : equalsIgnoreCase s name = true) (h' : equalsIgnoreCase s name' = true) : name = name' := by
  simp only [equalsIgnoreCase, decide_eq_true_eq] at h h'
  exact String.toList_inj.mp (h.symm.trans h')

theorem not_balance {col : Column} (h : equalsIgnoreCase col.name "accountid" = true) :
    ¬ equalsIgnoreCase col.name "balance" = true :=
  fun hbalance => absurd (equalsIgnoreCase_unique h hbalance) (by decide)

def readable (col : Column) : Prop :=
  (equalsIgnoreCase col.name "accountid" → (parseLong col.value).isSome) ∧
    (equalsIgnoreCase col.name "balance" → (readDouble col.value).isSome)

instance : DecidablePred readable := fun _ => inferInstanceAs (Decidable (_ ∧ _))

def rowOf (columns : List Column) : MyRow :=
  ⟨(accountIdOf columns).getD (-1), (balanceOf rnd columns).getD (.finite (-1))⟩

theorem rowOf_take (columns : List Column) {col : Column} (h : readable col) :
    (rowOf rnd columns).take rnd col = .ok (rowOf rnd (columns ++ [col])) := by
  unfold MyRow.take rowOf accountIdOf balanceOf
  rw [held_concat, held_concat]
  by_cases hid : equalsIgnoreCase col.name "accountid" = true
  · have hbalance := not_balance hid
    obtain ⟨n, hn⟩ := Option.isSome_iff_exists.mp (h.1 hid)
    simp [hid, hbalance, hn, parseInteger_of_parseLong hn]
  · by_cases hbalance : equalsIgnoreCase col.name "balance" = true
    · have hread := h.2 hbalance
      rw [← isSome_parseDouble rnd] at hread
      obtain ⟨d, hd⟩ := Option.isSome_iff_exists.mp hread
      simp [hid, hbalance, hd]
    · simp [hid, hbalance]

theorem take_unreadable (row : MyRow) {col : Column} (h : ¬ readable col) :
    row.take rnd col = .error .NumberFormatException := by
  unfold MyRow.take
  by_cases hid : equalsIgnoreCase col.name "accountid" = true
  · have hbalance := not_balance hid
    have hnone : parseLong col.value = none := by
      simpa [readable, hid, hbalance] using h
    simp [hid, hnone]
  · have hnone : equalsIgnoreCase col.name "balance" = true ∧ parseDouble rnd col.value = none := by
      rw [← Option.isNone_iff_eq_none, ← Option.not_isSome, isSome_parseDouble]
      simpa [readable, hid] using h
    simp [hid, hnone]

theorem foldlM_take (columns : List Column) :
    columns.foldlM (MyRow.take rnd) {} =
      if ∀ col ∈ columns, readable col then .ok (rowOf rnd columns)
      else .error .NumberFormatException := by
  induction columns using List.reverseRecOn with
  | nil => rfl
  | append_singleton columns col ih =>
    rw [List.foldlM_append, ih]
    by_cases hcolumns : ∀ c ∈ columns, readable c
    · rw [if_pos hcolumns]
      change ([col].foldlM (MyRow.take rnd) (rowOf rnd columns)) = _
      by_cases hcol : readable col
      · have hall : ∀ c ∈ columns ++ [col], readable c :=
          List.forall_mem_append.mpr ⟨hcolumns, List.forall_mem_singleton.mpr hcol⟩
        rw [if_pos hall, List.foldlM_cons, rowOf_take rnd columns hcol]
        rfl
      · have hall : ¬ ∀ c ∈ columns ++ [col], readable c :=
          fun h => hcol (h col (by simp))
        rw [if_neg hall, List.foldlM_cons, take_unreadable rnd _ hcol]
        rfl
    · have hall : ¬ ∀ c ∈ columns ++ [col], readable c :=
        fun h => hcolumns fun c hc => h c (by simp [hc])
      rw [if_neg hcolumns, if_neg hall]
      rfl

def Readable (row : RowData) : Prop :=
  (∀ col ∈ row.beforeColumns, readable col) ∧ ∀ col ∈ row.afterColumns, readable col

instance : DecidablePred Readable := fun _ => inferInstanceAs (Decidable (_ ∧ _))

/-- The check of the schema lets the row through. -/
def Passes (row : RowData) : Prop :=
  (∃ accountId, accountIdOf row.afterColumns = some accountId ∧ 0 ≤ accountId) ∧
    (∃ new, balanceOf rnd row.afterColumns = some new ∧ ¬ new.lt Double.zero) ∧
    ∃ old, balanceOf rnd row.beforeColumns = some old ∧ ¬ old.lt Double.zero

theorem getD_not_neg {o : Option ℤ} :
    ¬ o.getD (-1) < 0 ↔ ∃ n, o = some n ∧ 0 ≤ n := by
  cases o with
  | none => simp
  | some n => simp

theorem getD_not_belowZero {o : Option Double} :
    ¬ (o.getD (.finite (-1))).lt Double.zero = true ↔
      ∃ d, o = some d ∧ ¬ d.lt Double.zero = true := by
  have hmissing : (Double.finite (-1)).lt Double.zero = true := by decide +kernel
  cases o with
  | none => simp [hmissing]
  | some d => simp

theorem passes_iff (row : RowData) :
    Passes rnd row ↔ ¬ ((rowOf rnd row.afterColumns).accountId < 0 ∨
      (rowOf rnd row.afterColumns).balance.lt Double.zero = true ∨
      (rowOf rnd row.beforeColumns).balance.lt Double.zero = true) := by
  rw [not_or, not_or]
  exact and_congr getD_not_neg.symm (and_congr getD_not_belowZero.symm getD_not_belowZero.symm)

theorem rowData2Transaction_unreadable {row : RowData} (t : ℤ) (h : ¬ Readable row) :
    rowData2Transaction rnd row t = .error .NumberFormatException := by
  unfold rowData2Transaction
  rw [foldlM_take, foldlM_take]
  by_cases hbefore : ∀ col ∈ row.beforeColumns, readable col
  · have hafter : ¬ ∀ col ∈ row.afterColumns, readable col := fun hafter => h ⟨hbefore, hafter⟩
    rw [if_pos hbefore, if_neg hafter]
    rfl
  · rw [if_neg hbefore]
    rfl

def transactionOf (row : RowData) (t : ℤ) : Transaction :=
  ⟨(rowOf rnd row.afterColumns).accountId, t,
    ((rowOf rnd row.afterColumns).balance.sub rnd (rowOf rnd row.beforeColumns).balance).abs⟩

theorem rowData2Transaction_passes {row : RowData} (t : ℤ) (h : Readable row)
    (hpasses : Passes rnd row) :
    rowData2Transaction rnd row t = .ok (some (transactionOf rnd row t)) := by
  unfold rowData2Transaction
  rw [foldlM_take, foldlM_take, if_pos h.1, if_pos h.2]
  exact if_neg ((passes_iff rnd row).mp hpasses)

theorem rowData2Transaction_fails {row : RowData} (t : ℤ) (h : Readable row)
    (hpasses : ¬ Passes rnd row) : rowData2Transaction rnd row t = .ok none := by
  unfold rowData2Transaction
  rw [foldlM_take, foldlM_take, if_pos h.1, if_pos h.2]
  exact if_pos (not_not.mp fun hcheck => hpasses ((passes_iff rnd row).mpr hcheck))

/-- The payload decodes as an update of the account table. -/
structure Update (P : Parsers) (bytes : Bytes) (entry : Entry) (rowChange : RowChange) : Prop where
  entry_eq : P.Entry bytes = some entry
  rowdata : entry.entryType = .ROWDATA
  account : equalsIgnoreCase entry.header.tableName "account" = true
  rowChange_eq : P.RowChange entry.storeValue = some rowChange
  update : rowChange.eventType = .UPDATE

def firstRow (rows : List RowData) (t : ℤ) : Except Thrown (Option Transaction) :=
  match rows with
  | [] => .ok none
  | rowData :: _ => rowData2Transaction rnd rowData t

/-- What is made of an entry once it is parsed. -/
def entryTransaction (P : Parsers) (entry : Entry) : Except Thrown (Option Transaction) :=
  if entry.entryType ≠ .ROWDATA then .ok none
  else if !equalsIgnoreCase entry.header.tableName "account" then .ok none
  else
    match P.RowChange entry.storeValue with
    | none => .error .InvalidProtocolBufferException
    | some rowChange =>
      if rowChange.eventType ≠ .UPDATE then .ok none
      else firstRow rnd rowChange.rowDatas entry.header.executeTime

/-- The check for a message of no byte makes no difference: it is the entry without any field. -/
theorem deserialize_bytes (P : Parsers) (bytes : Bytes) :
    deserialize rnd P (some bytes) =
      match P.Entry bytes with
      | none => .error .InvalidProtocolBufferException
      | some entry => entryTransaction rnd P entry := by
  cases bytes with
  | nil =>
    rw [P.Entry_nil]
    rfl
  | cons b bs => rfl

theorem deserialize_update {P : Parsers} {bytes : Bytes} {entry : Entry} {rowChange : RowChange}
    (h : Update P bytes entry rowChange) :
    deserialize rnd P (some bytes) =
      firstRow rnd rowChange.rowDatas entry.header.executeTime := by
  rw [deserialize_bytes, h.entry_eq]
  simp [entryTransaction, h.rowdata, h.account, h.rowChange_eq, h.update]

theorem deserialize_other {P : Parsers} {bytes : Bytes} {entry : Entry} {rowChange : RowChange}
    (hentry : P.Entry bytes = some entry) (hrow : P.RowChange entry.storeValue = some rowChange)
    (h : ¬ Update P bytes entry rowChange) : deserialize rnd P (some bytes) = .ok none := by
  rw [deserialize_bytes, hentry]
  simp only [entryTransaction, hrow]
  split
  · rfl
  · rename_i htype
    split
    · rfl
    · rename_i htable
      split
      · rfl
      · rename_i hevent
        exact absurd ⟨hentry, not_not.mp htype, by simpa using htable, hrow, not_not.mp hevent⟩ h

theorem firstRow_returns_iff (rows : List RowData) (t : ℤ) :
    (∃ result, firstRow rnd rows t = .ok result) ↔ ∀ row ∈ rows.head?, Readable row := by
  cases rows with
  | nil => simp [firstRow]
  | cons row rows =>
    simp only [List.head?_cons, Option.mem_some_iff, forall_eq', firstRow]
    constructor
    · rintro ⟨result, hok⟩
      by_contra hunreadable
      cases (rowData2Transaction_unreadable rnd t hunreadable).symm.trans hok
    · intro hreadable
      by_cases hpasses : Passes rnd row
      · exact ⟨_, rowData2Transaction_passes rnd t hreadable hpasses⟩
      · exact ⟨_, rowData2Transaction_fails rnd t hreadable hpasses⟩

/-- The schema returns, a transaction or a null, just when it does not come upon an update whose
    first row holds a text that is no number. -/
theorem deserialize_returns_iff {P : Parsers} {bytes : Bytes} {entry : Entry}
    {rowChange : RowChange} (hentry : P.Entry bytes = some entry)
    (hrow : P.RowChange entry.storeValue = some rowChange) :
    (∃ result, deserialize rnd P (some bytes) = .ok result) ↔
      (Update P bytes entry rowChange → ∀ row ∈ rowChange.rowDatas.head?, Readable row) := by
  by_cases h : Update P bytes entry rowChange
  · rw [deserialize_update rnd h, firstRow_returns_iff]
    exact ⟨fun hreadable _ => hreadable, fun hreadable => hreadable h⟩
  · have hnull := deserialize_other rnd hentry hrow h
    exact ⟨fun _ hupdate => absurd hupdate h, fun _ => ⟨none, hnull⟩⟩

end Schema

def accountBytes (accountId balance : String) : List Bytes :=
  [putColumn (ascii "ACCOUNTID") (ascii accountId), putColumn (ascii "BALANCE") (ascii balance)]

def nullColumn (name : String) : Bytes := putDelimited 3 (ascii name) ++ putVarintField 6 1

def account (accountId balance : String) : List Column :=
  [{ name := "ACCOUNTID".toList, value := accountId.toList },
    { name := "BALANCE".toList, value := balance.toList }]

def accountEntry (storeValue : Bytes) : Entry where
  header := { executeTime := 1000, tableName := "ACCOUNT".toList }
  entryType := .ROWDATA
  storeValue := storeValue

def accountUpdate (rows : List RowData) : RowChange := { eventType := .UPDATE, rowDatas := rows }

def nullBalance : Bytes :=
  putRowChange 2 [putRow [putColumn (ascii "ACCOUNTID") (ascii "1"), nullColumn "BALANCE"]
    (accountBytes "1" "100")]

def nullBalanceRow : RowData where
  beforeColumns :=
    [{ name := "ACCOUNTID".toList, value := "1".toList },
      { name := "BALANCE".toList, isNull := true }]
  afterColumns := account "1" "100"

theorem nullBalance_entry :
    (tableParsers ⟨false⟩).Entry (putEntry 1000 (ascii "ACCOUNT") 2 nullBalance) =
      some (accountEntry nullBalance) := by
  decide +kernel

theorem nullBalance_rowChange :
    (tableParsers ⟨false⟩).RowChange (accountEntry nullBalance).storeValue =
      some (accountUpdate [nullBalanceRow]) := by
  decide +kernel

theorem deserialize_returns_iff_nullBalance :
    (∃ result, deserialize .nearest (tableParsers ⟨false⟩)
        (some (putEntry 1000 (ascii "ACCOUNT") 2 nullBalance)) = .ok result) ↔
      (Update (tableParsers ⟨false⟩) (putEntry 1000 (ascii "ACCOUNT") 2 nullBalance)
          (accountEntry nullBalance) (accountUpdate [nullBalanceRow]) →
        ∀ row ∈ (accountUpdate [nullBalanceRow]).rowDatas.head?, Readable row) :=
  deserialize_returns_iff .nearest nullBalance_entry nullBalance_rowChange

theorem nullBalance_throws :
    ¬ ∀ bytes entry rowChange, (tableParsers ⟨false⟩).Entry bytes = some entry →
      (tableParsers ⟨false⟩).RowChange entry.storeValue = some rowChange →
        ∃ result, deserialize .nearest (tableParsers ⟨false⟩) (some bytes) = .ok result := by
  intro h
  obtain ⟨result, hok⟩ := h _ _ _ nullBalance_entry nullBalance_rowChange
  have hthrown : deserialize .nearest (tableParsers ⟨false⟩)
      (some (putEntry 1000 (ascii "ACCOUNT") 2 nullBalance)) =
        .error .NumberFormatException := by
    decide +kernel
  cases hthrown.symm.trans hok

end O2k.TransactionSchema
