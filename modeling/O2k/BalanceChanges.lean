import O2k.TransactionSchema

set_option autoImplicit false

namespace O2k.TransactionSchema
open ByteOrder SocketTransfer JavaValues WireFormat BinlogEntry FraudDetector

/-- What goes down the stream: nothing for a null, and nothing when the call throws. -/
def produced : Except Thrown (Option Transaction) → List Transaction
  | .ok transaction => transaction.toList
  | .error _ => []

def numberOf : Double → Option ℚ
  | .finite q => some q
  | _ => none

/-- The change of balance that a row of an update holds, if it holds one, in exact decimals. -/
def balanceChange (executeTime : ℤ) (row : RowData) : Option Transaction :=
  (accountIdOf row.afterColumns).bind fun accountId =>
    if accountId < 0 then none
    else
      ((balanceOf .finite row.beforeColumns).bind numberOf).bind fun old =>
        ((balanceOf .finite row.afterColumns).bind numberOf).map fun new =>
          ⟨accountId, executeTime, .finite |new - old|⟩

def balanceChanges (executeTime : ℤ) (rows : List RowData) : List Transaction :=
  rows.filterMap (balanceChange executeTime)

def Wanted (row : RowData) : Prop :=
  (∃ accountId, accountIdOf row.afterColumns = some accountId ∧ 0 ≤ accountId) ∧
    (∃ new, balanceOf .finite row.afterColumns = some (.finite new)) ∧
    ∃ old, balanceOf .finite row.beforeColumns = some (.finite old)

theorem balanceChange_wanted {row : RowData} (t : ℤ) (h : Wanted row) :
    balanceChange t row = some (transactionOf .finite row t) := by
  obtain ⟨⟨n, hid, hn⟩, ⟨new, hnew⟩, old, hold⟩ := h
  simp [balanceChange, transactionOf, rowOf, hid, hnew, hold, numberOf, Double.sub, Double.abs,
    not_lt.mpr hn]

theorem numberOf_eq_some {d : Double} {q : ℚ} (h : numberOf d = some q) : d = .finite q := by
  cases d with
  | nan => cases h
  | infinite negative => cases h
  | finite value =>
    cases h
    rfl

theorem balanceChange_unwanted {row : RowData} (t : ℤ) (h : ¬ Wanted row) :
    balanceChange t row = none := by
  by_contra hsome
  obtain ⟨tx, htx⟩ := Option.ne_none_iff_exists'.mp hsome
  apply h
  unfold balanceChange at htx
  obtain ⟨accountId, hid, htx⟩ := Option.bind_eq_some_iff.mp htx
  split at htx
  · cases htx
  · rename_i hn
    obtain ⟨old, hold, htx⟩ := Option.bind_eq_some_iff.mp htx
    obtain ⟨new, hnew, _⟩ := Option.map_eq_some_iff.mp htx
    obtain ⟨d, hd, hold⟩ := Option.bind_eq_some_iff.mp hold
    obtain ⟨d', hd', hnew⟩ := Option.bind_eq_some_iff.mp hnew
    exact ⟨⟨accountId, hid, not_lt.mp hn⟩, ⟨new, hd'.trans (congrArg some (numberOf_eq_some hnew))⟩,
      old, hd.trans (congrArg some (numberOf_eq_some hold))⟩

def BelowZero (columns : List Column) : Prop :=
  ∃ q, balanceOf .finite columns = some (.finite q) ∧ q < 0

def NotANumber (columns : List Column) : Prop :=
  ∃ d, balanceOf .finite columns = some d ∧ numberOf d = none

/-- A change of balance that the schema drops, with its message or without. -/
def Lost (row : RowData) : Prop :=
  Wanted row ∧ (¬ Readable row ∨ BelowZero row.beforeColumns ∨ BelowZero row.afterColumns)

/-- A row that holds no change and of which the schema makes a transaction all the same. -/
def Invented (row : RowData) : Prop :=
  Readable row ∧ Passes .finite row ∧
    (NotANumber row.beforeColumns ∨ NotANumber row.afterColumns)

theorem wanted_or_notANumber {row : RowData} (h : Passes .finite row) :
    Wanted row ∨ NotANumber row.beforeColumns ∨ NotANumber row.afterColumns := by
  obtain ⟨hid, ⟨new, hnew, _⟩, old, hold, _⟩ := h
  cases hold' : numberOf old with
  | none => exact .inr (.inl ⟨old, hold, hold'⟩)
  | some q =>
    cases hnew' : numberOf new with
    | none => exact .inr (.inr ⟨new, hnew, hnew'⟩)
    | some q' =>
      rw [numberOf_eq_some hold'] at hold
      rw [numberOf_eq_some hnew'] at hnew
      exact .inl ⟨hid, ⟨q', hnew⟩, q, hold⟩

theorem finite_belowZero {q : ℚ} : (Double.finite q).lt Double.zero = true ↔ q < 0 := by
  simp [Double.lt, Double.zero]

theorem Wanted.passes_or_belowZero {row : RowData} (h : Wanted row) :
    Passes .finite row ∨ BelowZero row.beforeColumns ∨ BelowZero row.afterColumns := by
  obtain ⟨hid, ⟨new, hnew⟩, old, hold⟩ := h
  by_cases hnew0 : new < 0
  · exact .inr (.inr ⟨new, hnew, hnew0⟩)
  · by_cases hold0 : old < 0
    · exact .inr (.inl ⟨old, hold, hold0⟩)
    · exact .inl ⟨hid, ⟨_, hnew, fun h => hnew0 (finite_belowZero.mp h)⟩,
        _, hold, fun h => hold0 (finite_belowZero.mp h)⟩

theorem numberOf_abs_sub {a b : Double} :
    numberOf (a.sub .finite b).abs = none ↔ numberOf a = none ∨ numberOf b = none := by
  cases a with
  | nan => cases b <;> simp [Double.sub, Double.abs, numberOf]
  | finite _ => cases b <;> simp [Double.sub, Double.abs, numberOf]
  | infinite negative =>
    cases b with
    | nan => simp [Double.sub, Double.abs, numberOf]
    | finite _ => simp [Double.sub, Double.abs, numberOf]
    | infinite negative' =>
      by_cases hsign : negative = negative'
      · simp [Double.sub, Double.abs, numberOf, hsign]
      · simp [Double.sub, Double.abs, numberOf, hsign]

theorem Wanted.numbers {row : RowData} (h : Wanted row) :
    ¬ (NotANumber row.beforeColumns ∨ NotANumber row.afterColumns) := by
  obtain ⟨_, ⟨new, hnew⟩, old, hold⟩ := h
  rintro (⟨d, hd, hnone⟩ | ⟨d, hd, hnone⟩)
  · cases hold.symm.trans hd
    cases hnone
  · cases hnew.symm.trans hd
    cases hnone

theorem Invented.not_wanted {row : RowData} (h : Invented row) : ¬ Wanted row :=
  fun hwanted => hwanted.numbers h.2.2

theorem Invented.amount {row : RowData} (t : ℤ) (h : Invented row) :
    numberOf (transactionOf .finite row t).amount = none := by
  refine numberOf_abs_sub.mpr ?_
  rcases h.2.2 with ⟨d, hd, hnone⟩ | ⟨d, hd, hnone⟩
  · exact .inr (by simpa [rowOf, hd] using hnone)
  · exact .inl (by simpa [rowOf, hd] using hnone)

theorem Wanted.amount {row : RowData} (t : ℤ) (h : Wanted row) :
    numberOf (transactionOf .finite row t).amount ≠ none := by
  obtain ⟨_, ⟨new, hnew⟩, old, hold⟩ := h
  simp [transactionOf, rowOf, hnew, hold, numberOf, Double.sub, Double.abs]

theorem mem_balanceChanges {t : ℤ} {rows : List RowData} {tx : Transaction}
    (h : tx ∈ balanceChanges t rows) : numberOf tx.amount ≠ none := by
  obtain ⟨row, _, hrow⟩ := List.mem_filterMap.mp h
  by_cases hwanted : Wanted row
  · cases (balanceChange_wanted t hwanted).symm.trans hrow
    exact hwanted.amount t
  · cases (balanceChange_unwanted t hwanted).symm.trans hrow

theorem balanceChanges_eq_nil {t : ℤ} {rows : List RowData} :
    balanceChanges t rows = [] ↔ ∀ row ∈ rows, ¬ Wanted row := by
  refine List.filterMap_eq_nil_iff.trans ⟨fun h row hrow hwanted => ?_, fun h row hrow => ?_⟩
  · cases (balanceChange_wanted t hwanted).symm.trans (h row hrow)
  · exact balanceChange_unwanted t (h row hrow)

inductive RowCase (row : RowData) (t : ℤ) : List Transaction → Prop where
  | read : Wanted row → ¬ Lost row → RowCase row t [transactionOf .finite row t]
  | lost : Lost row → RowCase row t []
  | invented : Invented row → RowCase row t [transactionOf .finite row t]
  | skipped : ¬ Wanted row → ¬ Invented row → RowCase row t []

theorem rowData2Transaction_cases (row : RowData) (t : ℤ) :
    RowCase row t (produced (rowData2Transaction .finite row t)) := by
  by_cases hreadable : Readable row
  · by_cases hpasses : Passes .finite row
    · rw [rowData2Transaction_passes .finite t hreadable hpasses]
      rcases wanted_or_notANumber hpasses with hwanted | hnumber
      · refine .read hwanted ?_
        rintro ⟨_, hunreadable | ⟨q, hq, hneg⟩ | ⟨q, hq, hneg⟩⟩
        · exact hunreadable hreadable
        · obtain ⟨_, _, old, hold, hold0⟩ := hpasses
          cases hold.symm.trans hq
          exact hold0 (finite_belowZero.mpr hneg)
        · obtain ⟨_, ⟨new, hnew, hnew0⟩, _⟩ := hpasses
          cases hnew.symm.trans hq
          exact hnew0 (finite_belowZero.mpr hneg)
      · exact .invented ⟨hreadable, hpasses, hnumber⟩
    · rw [rowData2Transaction_fails .finite t hreadable hpasses]
      by_cases hwanted : Wanted row
      · exact .lost ⟨hwanted, .inr (hwanted.passes_or_belowZero.resolve_left hpasses)⟩
      · exact .skipped hwanted fun hinvented => hpasses hinvented.2.1
  · rw [rowData2Transaction_unreadable .finite t hreadable]
    by_cases hwanted : Wanted row
    · exact .lost ⟨hwanted, .inl hreadable⟩
    · exact .skipped hwanted fun hinvented => hreadable hinvented.1

theorem deserialize_loses_nothing_iff {P : Parsers} {bytes : Bytes} {entry : Entry}
    {rowChange : RowChange} (h : Update P bytes entry rowChange) :
    produced (deserialize .finite P (some bytes)) =
        balanceChanges entry.header.executeTime rowChange.rowDatas ↔
      (∀ row ∈ rowChange.rowDatas.tail, ¬ Wanted row) ∧
        ∀ row ∈ rowChange.rowDatas.head?, ¬ Lost row ∧ ¬ Invented row := by
  rw [deserialize_update .finite h]
  generalize entry.header.executeTime = t
  cases rowChange.rowDatas with
  | nil => simp [firstRow, produced, balanceChanges]
  | cons row rows =>
    have hrow := rowData2Transaction_cases row t
    change produced (rowData2Transaction .finite row t) = _ ↔ (∀ r ∈ rows, ¬ Wanted r) ∧ _
    generalize produced (rowData2Transaction .finite row t) = txs at hrow ⊢
    simp only [List.head?_cons, Option.mem_some_iff, forall_eq']
    rw [← balanceChanges_eq_nil (t := t)]
    cases hrow with
    | read hwanted hnot =>
      have hchange := balanceChange_wanted t hwanted
      have hinvented : ¬ Invented row := fun h => h.not_wanted hwanted
      rw [balanceChanges, List.filterMap_cons_some hchange]
      constructor
      · intro heq
        exact ⟨(List.cons.inj heq).2.symm, hnot, hinvented⟩
      · rintro ⟨hnil, _⟩
        exact congrArg _ hnil.symm
    | lost hlost =>
      have hchange := balanceChange_wanted t hlost.1
      simp [balanceChanges, hchange, hlost]
    | invented hinvented =>
      have hchange := balanceChange_unwanted t hinvented.not_wanted
      have hne : [transactionOf .finite row t] ≠ balanceChanges t rows := by
        intro heq
        exact mem_balanceChanges (heq ▸ List.mem_singleton_self _) (hinvented.amount t)
      simpa [balanceChanges, hchange, hinvented] using hne
    | skipped hwanted hinvented =>
      have hchange := balanceChange_unwanted t hwanted
      have hlost : ¬ Lost row := fun h => hwanted h.1
      rw [balanceChanges, List.filterMap_cons_none hchange]
      constructor
      · intro heq
        exact ⟨heq.symm, hlost, hinvented⟩
      · rintro ⟨hnil, _⟩
        exact hnil.symm

def twoRows : Bytes :=
  putRowChange 2
    [putRow (accountBytes "1" "10000") (accountBytes "1" "9999.9"),
      putRow (accountBytes "2" "20000") (accountBytes "2" "19000")]

theorem twoRows_update :
    Update (tableParsers ⟨false⟩) (putEntry 1000 (ascii "ACCOUNT") 2 twoRows)
      (accountEntry twoRows)
      (accountUpdate [⟨account "1" "10000", account "1" "9999.9"⟩,
        ⟨account "2" "20000", account "2" "19000"⟩]) where
  entry_eq := by decide +kernel
  rowdata := rfl
  account := by decide
  rowChange_eq := by decide +kernel
  update := rfl

theorem deserialize_loses_nothing_iff_twoRows :
    produced (deserialize .finite (tableParsers ⟨false⟩)
        (some (putEntry 1000 (ascii "ACCOUNT") 2 twoRows))) =
        balanceChanges 1000 [⟨account "1" "10000", account "1" "9999.9"⟩,
          ⟨account "2" "20000", account "2" "19000"⟩] ↔
      (∀ row ∈ [(⟨account "2" "20000", account "2" "19000"⟩ : RowData)], ¬ Wanted row) ∧
        ∀ row ∈ some (⟨account "1" "10000", account "1" "9999.9"⟩ : RowData),
          ¬ Lost row ∧ ¬ Invented row :=
  deserialize_loses_nothing_iff twoRows_update

theorem twoRows_secondLost :
    ¬ ∀ bytes entry rowChange, Update (tableParsers ⟨false⟩) bytes entry rowChange →
      produced (deserialize .finite (tableParsers ⟨false⟩) (some bytes)) =
        balanceChanges entry.header.executeTime rowChange.rowDatas := by
  intro h
  have hfirst : produced (deserialize .finite (tableParsers ⟨false⟩)
      (some (putEntry 1000 (ascii "ACCOUNT") 2 twoRows))) = [⟨1, 1000, .finite (1 / 10)⟩] := by
    decide +kernel
  have hboth : balanceChanges 1000 [⟨account "1" "10000", account "1" "9999.9"⟩,
      ⟨account "2" "20000", account "2" "19000"⟩] =
        [⟨1, 1000, .finite (1 / 10)⟩, ⟨2, 1000, .finite 1000⟩] := by
    decide +kernel
  cases (hfirst.symm.trans (h _ _ _ twoRows_update)).trans hboth

end O2k.TransactionSchema
