import O2k.EntryMessages
import O2k.BalanceChanges
import O2k.RowCounts

set_option autoImplicit false

namespace O2k.EntryMessages
open ByteOrder SocketTransfer WireFormat

def Column.view (c : Column) : BinlogEntry.Column where
  name := BinlogEntry.decodeUtf8 c.name
  isNull := c.isNull.getD false
  value := BinlogEntry.decodeUtf8 c.value

def RowData.view (r : RowData) : BinlogEntry.RowData where
  beforeColumns := r.beforeColumns.map Column.view
  afterColumns := r.afterColumns.map Column.view

def RowChange.view (r : RowChange) : BinlogEntry.RowChange where
  eventType := .ofNumber (r.eventType.getD 0).toNat
  isDdl := r.isDdl.getD false
  rowDatas := r.rowDatas.map RowData.view

def Header.view (h : Header) : BinlogEntry.Header where
  executeTime := BinlogEntry.int64 h.executeTime.toNat
  tableName := BinlogEntry.decodeUtf8 h.tableName

def Entry.view (e : Entry) : BinlogEntry.Entry where
  header := (e.header.map Header.view).getD {}
  entryType := .ofNumber (e.entryType.getD 0).toNat
  storeValue := e.storeValue

theorem decodeUtf8_nil : BinlogEntry.decodeUtf8 [] = [] := by
  have hnone : ∀ c ∈ ([] : List Char), c.toNat < 128 := by simp
  exact BinlogEntry.decodeUtf8_ascii hnone

theorem Column.view_new : Column.view {} = {} := by
  rw [Column.view, decodeUtf8_nil]
  rfl

theorem Header.view_new : Header.view {} = {} := by
  rw [Header.view, decodeUtf8_nil]
  rfl

section Views

variable (rt : Runtime)

theorem pair_views : List.Forall₂ (FieldView fun _ : Pair => ()) (Pair.codec.table rt)
    BinlogEntry.Pair.fields :=
  .cons ⟨rfl, fun _ _ _ => rfl⟩ (.cons ⟨rfl, fun _ _ _ => rfl⟩ .nil)

theorem props_view {σ τ : Type} {view : σ → τ} {put : Pair → σ → σ}
    (h : ∀ p s, view (put p s) = view s) :
    KindView view
      (.message fun budget bs s =>
        (mergeFrom rt (Pair.codec.table rt) budget bs Pair.codec.new).map fun p => put p s)
      (.message fun budget bs s =>
        (mergeFrom rt BinlogEntry.Pair.fields budget bs ()).map fun _ => s) :=
  KindView.submessage (pair_views rt) (fun _ => rfl) h

theorem column_views : List.Forall₂ (FieldView Column.view) (Column.codec.table rt)
    (BinlogEntry.Column.fields rt) :=
  .cons ⟨rfl, fun _ _ _ => rfl⟩ <| .cons ⟨rfl, fun _ _ _ => rfl⟩ <|
    .cons ⟨rfl, fun _ _ _ => rfl⟩ <| .cons ⟨rfl, fun _ _ _ => rfl⟩ <|
    .cons ⟨rfl, fun _ _ _ => rfl⟩ <| .cons ⟨rfl, fun _ _ _ => rfl⟩ <|
    .cons ⟨rfl, props_view rt fun _ _ => rfl⟩ <| .cons ⟨rfl, fun _ _ _ => rfl⟩ <|
    .cons ⟨rfl, fun _ _ _ => rfl⟩ <| .cons ⟨rfl, fun _ _ _ => rfl⟩ .nil

theorem rowData_views : List.Forall₂ (FieldView RowData.view) (RowData.codec.table rt)
    (BinlogEntry.RowData.fields rt) := by
  refine .cons ⟨rfl, ?_⟩ <| .cons ⟨rfl, ?_⟩ <| .cons ⟨rfl, props_view rt fun _ _ => rfl⟩ .nil
  · refine KindView.submessage (column_views rt) (fun _ => Column.view_new) fun c s => ?_
    simp [RowData.view]
  · refine KindView.submessage (column_views rt) (fun _ => Column.view_new) fun c s => ?_
    simp [RowData.view]

theorem rowChange_views : List.Forall₂ (FieldView RowChange.view) (RowChange.codec.table rt)
    (BinlogEntry.RowChange.fields rt) := by
  refine .cons ⟨rfl, fun _ _ _ => rfl⟩ <| .cons ⟨rfl, fun n _ s => ?_⟩ <|
    .cons ⟨rfl, fun _ _ _ => rfl⟩ <| .cons ⟨rfl, fun _ _ _ => rfl⟩ <| .cons ⟨rfl, ?_⟩ <|
    .cons ⟨rfl, props_view rt fun _ _ => rfl⟩ <| .cons ⟨rfl, fun _ _ _ => rfl⟩ .nil
  · simp [RowChange.view, UInt32.toNat_ofNat']
  · refine KindView.submessage (rowData_views rt) (fun _ => rfl) fun r s => ?_
    simp [RowChange.view]

theorem header_views : List.Forall₂ (FieldView Header.view) (Header.codec.table rt)
    (BinlogEntry.Header.fields rt) := by
  refine .cons ⟨rfl, fun _ _ _ => rfl⟩ <| .cons ⟨rfl, fun _ _ _ => rfl⟩ <|
    .cons ⟨rfl, fun _ _ _ => rfl⟩ <| .cons ⟨rfl, fun _ _ _ => rfl⟩ <|
    .cons ⟨rfl, fun _ _ _ => rfl⟩ <| .cons ⟨rfl, fun n hn s => ?_⟩ <|
    .cons ⟨rfl, fun _ _ _ => rfl⟩ <| .cons ⟨rfl, fun _ _ _ => rfl⟩ <|
    .cons ⟨rfl, fun _ _ _ => rfl⟩ <| .cons ⟨rfl, fun _ _ _ => rfl⟩ <|
    .cons ⟨rfl, fun _ _ _ => rfl⟩ <| .cons ⟨rfl, props_view rt fun _ _ => rfl⟩ <|
    .cons ⟨rfl, fun _ _ _ => rfl⟩ .nil
  have htime : (UInt64.ofNat n).toNat = n := by
    rw [UInt64.toNat_ofNat', Nat.mod_eq_of_lt hn]
  simp [Header.view, htime]

theorem entry_views : List.Forall₂ (FieldView Entry.view) (Entry.codec.table rt)
    (BinlogEntry.Entry.fields rt) := by
  refine .cons ⟨rfl, ?_⟩ <| .cons ⟨rfl, fun n _ s => ?_⟩ <| .cons ⟨rfl, fun _ _ => rfl⟩ .nil
  · refine KindView.submessage (header_views rt) (fun e => ?_) fun _ _ => rfl
    cases h : e.header with
    | none => simp [Entry.view, h, Header.codec, Header.view_new]
    | some header => simp [Entry.view, h]
  · simp [Entry.view, UInt32.toNat_ofNat']

/-- On any input, the parsers of the consumers keep the views of the whole messages. -/
theorem parsers_view (bs : Bytes) :
    (BinlogEntry.tableParsers rt).Entry bs = (Entry.codec.parse rt bs).map Entry.view ∧
      (BinlogEntry.tableParsers rt).RowChange bs =
        (RowChange.codec.parse rt bs).map RowChange.view :=
  ⟨mergeFrom_view (entry_views rt) DEFAULT_RECURSION_LIMIT bs {},
    mergeFrom_view (rowChange_views rt) DEFAULT_RECURSION_LIMIT bs {}⟩

end Views

inductive Body where
  | rowChange (row : RowChange)
  | transactionBegin (start : TransactionBegin)
  | transactionEnd (finish : TransactionEnd)
  | unknown (storeValue : Bytes)
  deriving DecidableEq

namespace Body

/-- The type of the entry says what to parse, in both programs. -/
def parse (rt : Runtime) (type : BinlogEntry.EntryType) (storeValue : Bytes) : Option Body :=
  if type = .TRANSACTIONEND then
    (TransactionEnd.codec.parse rt storeValue).map .transactionEnd
  else if type = .TRANSACTIONBEGIN then
    (TransactionBegin.codec.parse rt storeValue).map .transactionBegin
  else if type = .ROWDATA then
    (RowChange.codec.parse rt storeValue).map .rowChange
  else some (.unknown storeValue)

def serialize : Body → Bytes
  | .rowChange row => RowChange.codec.serialize row
  | .transactionBegin start => TransactionBegin.codec.serialize start
  | .transactionEnd finish => TransactionEnd.codec.serialize finish
  | .unknown storeValue => storeValue

def utf8 : Body → Bool
  | .rowChange row => RowChange.codec.utf8 row
  | .transactionBegin start => TransactionBegin.codec.utf8 start
  | .transactionEnd finish => TransactionEnd.codec.utf8 finish
  | .unknown _ => true

def HasType : Body → BinlogEntry.EntryType → Prop
  | .rowChange _, type => type = .ROWDATA
  | .transactionBegin _, type => type = .TRANSACTIONBEGIN
  | .transactionEnd _, type => type = .TRANSACTIONEND
  | .unknown _, type => type ≠ .TRANSACTIONEND ∧ type ≠ .TRANSACTIONBEGIN ∧ type ≠ .ROWDATA

end Body

/-- An entry and its body as a server publishes them; what is longer cannot be serialised. -/
@[ext]
structure Published where
  entry : Entry
  body : Body
  serializable : (Entry.codec.serialize entry).length < 2 ^ 31
  hasType : body.HasType entry.view.entryType
  storeValue_eq : entry.storeValue = body.serialize

namespace Published

def bytes (p : Published) : Bytes := Entry.codec.serialize p.entry

def utf8 (p : Published) : Bool := Entry.codec.utf8 p.entry && p.body.utf8

theorem utf8_iff (p : Published) :
    p.utf8 = true ↔ Entry.codec.utf8 p.entry = true ∧ p.body.utf8 = true :=
  Bool.and_eq_true_iff

theorem storeValue_length (p : Published) : p.entry.storeValue.length < 2 ^ 31 := by
  have hserialize : ∃ front, Entry.codec.serialize p.entry =
      front ++ (putString 3 p.entry.storeValue ++ []) := ⟨_ ++ _, (List.append_assoc _ _ _).symm⟩
  obtain ⟨front, heq⟩ := hserialize
  have hlen := p.serializable
  have hput := putString_length 3 p.entry.storeValue
  rw [heq, List.length_append, List.length_append] at hlen
  omega

theorem parse_bytes (rt : Runtime) (p : Published) :
    Entry.codec.parse rt p.bytes = if Entry.codec.utf8 p.entry = true then some p.entry else none :=
  Entry.codec.parse_serialize rt (by decide) p.serializable

theorem parse_storeValue (rt : Runtime) (p : Published) :
    Body.parse rt p.entry.view.entryType p.entry.storeValue =
      if p.body.utf8 = true then some p.body else none := by
  have htype := p.hasType
  have hstore := p.storeValue_eq
  have hlen := p.storeValue_length
  rw [hstore] at hlen ⊢
  generalize p.entry.view.entryType = type at htype
  generalize p.body = body at htype hlen
  cases body with
  | rowChange row =>
    have hparse := RowChange.codec.parse_serialize rt (by decide) hlen
    obtain rfl : type = .ROWDATA := htype
    simp only [Body.parse, Body.serialize, Body.utf8, hparse, reduceCtorEq, ↓reduceIte]
    by_cases hutf : RowChange.codec.utf8 row = true <;> simp [hutf]
  | transactionBegin start =>
    have hparse := TransactionBegin.codec.parse_serialize rt (by decide) hlen
    obtain rfl : type = .TRANSACTIONBEGIN := htype
    simp only [Body.parse, Body.serialize, Body.utf8, hparse, reduceCtorEq, ↓reduceIte]
    by_cases hutf : TransactionBegin.codec.utf8 start = true <;> simp [hutf]
  | transactionEnd finish =>
    have hparse := TransactionEnd.codec.parse_serialize rt (by decide) hlen
    obtain rfl : type = .TRANSACTIONEND := htype
    simp only [Body.parse, Body.serialize, Body.utf8, hparse, ↓reduceIte]
    by_cases hutf : TransactionEnd.codec.utf8 finish = true <;> simp [hutf]
  | unknown storeValue =>
    obtain ⟨hend, hbegin, hrow⟩ := htype
    simp [Body.parse, Body.serialize, Body.utf8, hend, hbegin, hrow]

theorem parse_utf8 (rt : Runtime) (p : Published) (h : p.utf8 = true) :
    Entry.codec.parse rt p.bytes = some p.entry ∧
      Body.parse rt p.entry.view.entryType p.entry.storeValue = some p.body := by
  obtain ⟨hentry, hbody⟩ := p.utf8_iff.mp h
  rw [p.parse_bytes, p.parse_storeValue, if_pos hentry, if_pos hbody]
  exact ⟨rfl, rfl⟩

def change (p : Published) : Option BinlogEntry.RowChange :=
  match p.body with
  | .rowChange row => some row.view
  | _ => none

theorem change_isSome (p : Published) :
    p.change.isSome = true ↔ p.entry.view.entryType = .ROWDATA := by
  have htype := p.hasType
  unfold change
  generalize p.body = body at htype
  generalize p.entry.view.entryType = type at htype
  cases body with
  | rowChange row => simpa [Body.HasType] using htype
  | transactionBegin start =>
    cases htype
    simp
  | transactionEnd finish =>
    cases htype
    simp
  | unknown storeValue => simpa using htype.2.2

theorem entry_eq (rt : Runtime) (p : Published) :
    (BinlogEntry.tableParsers rt).Entry p.bytes =
      if Entry.codec.utf8 p.entry = true then some p.entry.view else none := by
  rw [(parsers_view rt _).1, p.parse_bytes]
  split <;> rfl

theorem rowChange_eq (rt : Runtime) (p : Published) {row : RowChange}
    (h : p.body = .rowChange row) :
    (BinlogEntry.tableParsers rt).RowChange p.entry.view.storeValue =
      if RowChange.codec.utf8 row = true then some row.view else none := by
  have hlen := p.storeValue_length
  rw [p.storeValue_eq, h] at hlen
  change (BinlogEntry.tableParsers rt).RowChange p.entry.storeValue = _
  rw [(parsers_view rt _).2, p.storeValue_eq, h, Body.serialize,
    RowChange.codec.parse_serialize rt (by decide) hlen]
  split <;> rfl

theorem read_utf8 (rt : Runtime) (p : Published) (h : p.utf8 = true) :
    (BinlogEntry.tableParsers rt).Entry p.bytes = some p.entry.view ∧
      ∀ row, p.change = some row →
        (BinlogEntry.tableParsers rt).RowChange p.entry.view.storeValue = some row := by
  obtain ⟨hentry, hbody⟩ := p.utf8_iff.mp h
  refine ⟨by rw [p.entry_eq, if_pos hentry], fun row hrow => ?_⟩
  cases hp : p.body with
  | rowChange row' =>
    rw [hp] at hbody
    change RowChange.codec.utf8 row' = true at hbody
    have hrow' : row'.view = row := by simpa [change, hp] using hrow
    rw [p.rowChange_eq rt hp, if_pos hbody, hrow']
  | _ => simp [change, hp] at hrow

end Published

def readPublished (rt : Runtime) (bs : Bytes) : Option (Entry × Body) :=
  (Entry.codec.parse rt bs).bind fun entry =>
    (Body.parse rt entry.view.entryType entry.storeValue).map fun body => (entry, body)

theorem readPublished_bytes (rt : Runtime) (p : Published) :
    readPublished rt p.bytes = if p.utf8 = true then some (p.entry, p.body) else none := by
  rw [readPublished, p.parse_bytes]
  by_cases hentry : Entry.codec.utf8 p.entry = true
  · rw [if_pos hentry, Option.bind_some, p.parse_storeValue]
    by_cases hbody : p.body.utf8 = true
    · rw [if_pos hbody, if_pos (p.utf8_iff.mpr ⟨hentry, hbody⟩)]
      rfl
    · rw [if_neg hbody, if_neg fun h => hbody (p.utf8_iff.mp h).2]
      rfl
  · rw [if_neg hentry, if_neg fun h => hentry (p.utf8_iff.mp h).1]
    rfl

/-- What is published is read back whole if all its texts are UTF-8, and is not read otherwise. No
    two publications share their bytes if one of them is UTF-8. -/
theorem published_read_back (rt : Runtime) (p : Published) :
    readPublished rt p.bytes = (if p.utf8 = true then some (p.entry, p.body) else none) ∧
      (p.utf8 = true → ∀ q : Published, q.bytes = p.bytes → q = p) := by
  refine ⟨readPublished_bytes rt p, fun hutf q hbytes => ?_⟩
  have hboth := readPublished_bytes rt q
  rw [hbytes, readPublished_bytes rt p, if_pos hutf] at hboth
  split at hboth
  · obtain ⟨hentry, hbody⟩ := Prod.mk.inj (Option.some.inj hboth)
    exact Published.ext hentry.symm hbody.symm
  · cases hboth

section Counts

open BinlogStatistics

/-- The row changes that a count of `JBinlogOut` is about: all of them, or those of an event type
    that are no DDL. -/
def Count.takesDml : Count → BinlogEntry.RowChange → Bool
  | .total, _ => true
  | c, row => !row.isDdl && c.takes row

def counted (takes : Count → BinlogEntry.RowChange → Bool) (rows : List BinlogEntry.RowChange)
    (c : Count) : ℕ :=
  (rows.filter (takes c)).length

def changes (ps : List Published) : List BinlogEntry.RowChange := ps.filterMap Published.change

theorem counted_append (takes : Count → BinlogEntry.RowChange → Bool)
    (xs ys : List BinlogEntry.RowChange) :
    counted takes (xs ++ ys) = counted takes xs + counted takes ys := by
  funext c
  simp [counted]

theorem changes_cons (p : Published) (ps : List Published) :
    changes (p :: ps) = p.change.toList ++ changes ps := by
  unfold changes
  rw [List.filterMap_cons]
  cases p.change <;> rfl

theorem sum_counted (takes : Count → BinlogEntry.RowChange → Bool) (ps : List Published) :
    (ps.map fun p => counted takes p.change.toList).sum = counted takes (changes ps) := by
  induction ps with
  | nil => rfl
  | cons p ps ih => rw [List.map_cons, List.sum_cons, ih, changes_cons, counted_append]

variable {rt : Runtimes} {r : Runtime}

theorem cpp_published (hjava : rt.java = BinlogEntry.tableParsers r) {p : Published}
    (hutf : p.utf8 = true) :
    rt.cpp.Entry p.bytes = (true, p.entry.view) ∧
      ∀ row, p.change = some row → rt.cpp.row p.bytes = (true, row) := by
  obtain ⟨hread, hreadRow⟩ := p.read_utf8 r hutf
  have hentry := rt.Entry_same p.bytes
  rw [hjava, hread] at hentry
  have hparsed : rt.cpp.Entry p.bytes = (true, p.entry.view) := by
    split at hentry
    · exact Prod.ext ‹_› (Option.some.inj hentry).symm
    · cases hentry
  refine ⟨hparsed, fun row hrow => ?_⟩
  have hchange := rt.RowChange_same p.entry.view.storeValue
  rw [hjava, hreadRow row hrow] at hchange
  rw [CppRuntime.row, hparsed]
  split at hchange
  · exact Prod.ext ‹_› (Option.some.inj hchange).symm
  · cases hchange

theorem tallies_published (hjava : rt.java = BinlogEntry.tableParsers r) {p : Published}
    (hutf : p.utf8 = true) :
    sqlTally rt p.bytes = counted Count.takes p.change.toList ∧
      javaTally rt p.bytes = counted Count.takesDml p.change.toList := by
  obtain ⟨hentry, hrow⟩ := cpp_published hjava hutf
  cases hchange : p.change with
  | none =>
    have htype : p.entry.view.entryType ≠ .ROWDATA := by
      intro htype
      simpa [hchange] using p.change_isSome.mpr htype
    rw [sqlTally, javaTally, hentry, if_neg htype, if_neg (by simp [htype])]
    exact ⟨rfl, rfl⟩
  | some row =>
    have htype : p.entry.view.entryType = .ROWDATA := p.change_isSome.mp (by rw [hchange]; rfl)
    rw [sqlTally, javaTally, hentry, hrow row hchange, if_pos htype, if_pos ⟨htype, rfl, rfl⟩]
    refine ⟨tally_eq_changesOf row, ?_⟩
    funext c
    cases hddl : row.isDdl <;> cases c <;>
      simp [tally, counted, Count.takesDml, Count.takes, hddl, List.filter_cons,
        apply_ite List.length]

theorem PrintBinlog_kinds (r : Runtime) (j : JBinlogOut.Statistics) {p : Published}
    (hutf : p.utf8 = true) :
    (JBinlogOut.PrintBinlog (BinlogEntry.tableParsers r) j p.bytes).DDLCount =
        j.DDLCount + p.change.toList.countP (fun row => row.isDdl) ∧
      (JBinlogOut.PrintBinlog (BinlogEntry.tableParsers r) j p.bytes).DMLCount =
        j.DMLCount + p.change.toList.countP (fun row => !row.isDdl) := by
  obtain ⟨hentry, hrow⟩ := p.read_utf8 r hutf
  unfold JBinlogOut.PrintBinlog
  rw [hentry]
  dsimp only
  cases hchange : p.change with
  | none =>
    have htype : p.entry.view.entryType ≠ .ROWDATA := by
      intro htype
      simpa [hchange] using p.change_isSome.mpr htype
    rw [if_neg htype]
    exact ⟨rfl, rfl⟩
  | some row =>
    have htype : p.entry.view.entryType = .ROWDATA := p.change_isSome.mp (by rw [hchange]; rfl)
    rw [if_pos htype, hrow row hchange]
    dsimp only
    cases hddl : row.isDdl with
    | true => simp [hddl]
    | false =>
      simp only [Bool.false_eq_true, if_false]
      cases row.eventType <;> simp [hddl]

theorem foldl_kinds (r : Runtime) {ps : List Published} (hutf : ∀ p ∈ ps, p.utf8 = true)
    (j : JBinlogOut.Statistics) :
    let out := (ps.map Published.bytes).foldl (JBinlogOut.PrintBinlog (BinlogEntry.tableParsers r)) j
    out.DDLCount = j.DDLCount + (changes ps).countP (fun row => row.isDdl) ∧
      out.DMLCount = j.DMLCount + (changes ps).countP (fun row => !row.isDdl) := by
  induction ps generalizing j with
  | nil => exact ⟨rfl, rfl⟩
  | cons p ps ih =>
    obtain ⟨hp, hps⟩ := List.forall_mem_cons.mp hutf
    obtain ⟨hddl, hdml⟩ := PrintBinlog_kinds r j hp
    rw [List.map_cons, List.foldl_cons, changes_cons, List.countP_append, List.countP_append,
      ← Nat.add_assoc, ← Nat.add_assoc, ← hddl, ← hdml]
    exact ih hps _

/-- The figures of both programs are those of the row changes that were published, as long as all
    texts are UTF-8. -/
theorem published_counts (hjava : rt.java = BinlogEntry.tableParsers r) (printRaw : Bool)
    {ps : List Published} (hutf : ∀ p ∈ ps, p.utf8 = true) :
    (sqlStatistics rt printRaw (ps.map Published.bytes)).counts = counted Count.takes (changes ps) ∧
      (javaStatistics rt (ps.map Published.bytes)).counts = counted Count.takesDml (changes ps) ∧
      (javaStatistics rt (ps.map Published.bytes)).DDLCount =
        (changes ps).countP (fun row => row.isDdl) ∧
      (javaStatistics rt (ps.map Published.bytes)).DMLCount =
        (changes ps).countP (fun row => !row.isDdl) := by
  have hsql : (sqlStatistics rt printRaw (ps.map Published.bytes)).counts =
      counted Count.takes (changes ps) := by
    rw [sqlStatistics_counts, List.map_map, ← sum_counted]
    exact congrArg List.sum (List.map_congr_left fun p hp => (tallies_published hjava (hutf p hp)).1)
  have hcounts : (javaStatistics rt (ps.map Published.bytes)).counts =
      counted Count.takesDml (changes ps) := by
    rw [javaStatistics_counts, List.map_map, ← sum_counted]
    exact congrArg List.sum (List.map_congr_left fun p hp => (tallies_published hjava (hutf p hp)).2)
  obtain ⟨hddl, hdml⟩ := foldl_kinds r hutf {}
  rw [Nat.zero_add] at hddl hdml
  refine ⟨hsql, hcounts, ?_, ?_⟩
  · rw [javaStatistics, hjava, hddl]
  · rw [javaStatistics, hjava, hdml]

def balanceRow (old new : String) : RowChange where
  eventType := some 2
  rowDatas :=
    [{ beforeColumns := [{ name := ascii "ACCOUNTID", value := ascii "1" },
        { name := ascii "BALANCE", value := ascii old }]
       afterColumns := [{ name := ascii "ACCOUNTID", value := ascii "1" },
        { name := ascii "BALANCE", value := ascii new }] }]

def balanceEntry (old new : String) : Entry where
  header := some { executeTime := 1000, tableName := ascii "ACCOUNT" }
  entryType := some 2
  storeValue := RowChange.codec.serialize (balanceRow old new)

def deposit : Published :=
  ⟨balanceEntry "100" "250", .rowChange (balanceRow "100" "250"), by decide +kernel, rfl, rfl⟩

def smallUpdate : Published :=
  ⟨balanceEntry "100" "100.5", .rowChange (balanceRow "100" "100.5"), by decide +kernel, rfl, rfl⟩

def largeUpdate : Published :=
  ⟨balanceEntry "100.5" "700", .rowChange (balanceRow "100.5" "700"), by decide +kernel, rfl, rfl⟩

theorem deposit_utf8 : ∀ p ∈ [deposit], p.utf8 = true := by decide +kernel

theorem published_counts_deposit :
    (sqlStatistics tableRuntimes true [deposit.bytes]).counts =
        counted Count.takes (changes [deposit]) ∧
      (javaStatistics tableRuntimes [deposit.bytes]).counts =
        counted Count.takesDml (changes [deposit]) ∧
      (javaStatistics tableRuntimes [deposit.bytes]).DDLCount =
        (changes [deposit]).countP (fun row => row.isDdl) ∧
      (javaStatistics tableRuntimes [deposit.bytes]).DMLCount =
        (changes [deposit]).countP (fun row => !row.isDdl) :=
  @published_counts tableRuntimes ⟨false⟩ rfl true [deposit] deposit_utf8

end Counts

section Transactions

open JavaValues TransactionSchema FraudDetector

def Published.transaction (p : Published) : Except Thrown (Option Transaction) :=
  if Entry.codec.utf8 p.entry = false then .error .InvalidProtocolBufferException
  else
    match p.body with
    | .rowChange row =>
      if equalsIgnoreCase p.entry.view.header.tableName "account" = false then .ok none
      else if RowChange.codec.utf8 row = false then .error .InvalidProtocolBufferException
      else if row.view.eventType = .UPDATE then
        firstRow .nearest row.view.rowDatas p.entry.view.header.executeTime
      else .ok none
    | _ => .ok none

theorem deserialize_published (rt : Runtime) (p : Published) :
    deserialize .nearest (BinlogEntry.tableParsers rt) (some p.bytes) = p.transaction := by
  rw [deserialize_bytes, p.entry_eq rt]
  unfold Published.transaction
  cases Entry.codec.utf8 p.entry with
  | false => rfl
  | true =>
    change entryTransaction .nearest (BinlogEntry.tableParsers rt) p.entry.view = _
    have htype := p.hasType
    rw [if_neg Bool.noConfusion]
    cases hbody : p.body with
    | rowChange row =>
      rw [hbody] at htype
      have hdata : p.entry.view.entryType = .ROWDATA := htype
      simp only [entryTransaction, hdata, p.rowChange_eq rt hbody]
      cases equalsIgnoreCase p.entry.view.header.tableName "account" with
      | false => rfl
      | true =>
        cases RowChange.codec.utf8 row with
        | false => rfl
        | true =>
          by_cases hupdate : row.view.eventType = .UPDATE
          · simp [hupdate]
          · simp [hupdate]
    | _ =>
      rw [hbody] at htype
      have hother : p.entry.view.entryType ≠ .ROWDATA := by
        intro hdata
        rw [hdata] at htype
        simp [Body.HasType] at htype
      rw [entryTransaction, if_pos hother]

/-- What the schema makes of what is published, with parsers for this format: it reads the first row
    of an update of the account table, and returns null for anything else. It throws on an entry
    with a text that is not UTF-8, and on a row change of the account table with one. -/
theorem published_transaction {P : BinlogEntry.Parsers} {rt : Runtime}
    (hparsers : P = BinlogEntry.tableParsers rt) (p : Published) :
    deserialize .nearest P (some p.bytes) =
      if Entry.codec.utf8 p.entry = false then .error .InvalidProtocolBufferException
      else
        match p.body with
        | .rowChange row =>
          if equalsIgnoreCase p.entry.view.header.tableName "account" = false then .ok none
          else if RowChange.codec.utf8 row = false then .error .InvalidProtocolBufferException
          else if row.view.eventType = .UPDATE then
            firstRow .nearest row.view.rowDatas p.entry.view.header.executeTime
          else .ok none
        | _ => .ok none := by
  subst hparsers
  exact deserialize_published rt p

theorem published_transaction_deposit :
    deserialize .nearest (BinlogEntry.tableParsers ⟨false⟩) (some deposit.bytes) =
      .ok (some ⟨1, 1000, .finite 150⟩) := by
  rw [published_transaction rfl deposit]
  decide +kernel

end Transactions

end O2k.EntryMessages
