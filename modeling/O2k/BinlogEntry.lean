import O2k.JavaValues
import O2k.WireSegments

set_option autoImplicit false

/-!
# The messages of a binlog entry

What the consumers of the topic read of `BinlogEntry.proto`, and the tables of
its messages; a field that nobody looks at is still checked by the parser. The
generated classes are not in the repository, so the consumers are given their
parsers, and the parsers from the tables are one choice.
-/
namespace O2k.BinlogEntry
open ByteOrder JavaValues WireFormat

def decodeUtf8 (bs : Bytes) : JavaString :=
  ((String.fromUTF8? ⟨bs.toArray⟩).map String.toList).getD []

theorem decodeUtf8_ascii {cs : List Char} (h : ∀ c ∈ cs, c.toNat < 128) :
    decodeUtf8 (cs.map fun c => UInt8.ofNat c.toNat) = cs := by
  rw [decodeUtf8, ← utf8Encode_ascii h, String.fromUTF8?, dif_pos ByteArray.isValidUTF8_utf8Encode]
  exact String.toList_ofList

inductive EntryType where
  | ENTRYTYPECOMPATIBLEPROTO2
  | TRANSACTIONBEGIN
  | ROWDATA
  | TRANSACTIONEND
  | HEARTBEAT
  | GTIDLOG
  | UNRECOGNIZED (number : ℕ)
  deriving DecidableEq

def EntryType.named : List EntryType :=
  [.ENTRYTYPECOMPATIBLEPROTO2, .TRANSACTIONBEGIN, .ROWDATA, .TRANSACTIONEND, .HEARTBEAT, .GTIDLOG]

def EntryType.ofNumber (n : ℕ) : EntryType := (named[n]?).getD (.UNRECOGNIZED n)

inductive EventType where
  | EVENTTYPECOMPATIBLEPROTO2
  | INSERT
  | UPDATE
  | DELETE
  | CREATE
  | ALTER
  | ERASE
  | QUERY
  | TRUNCATE
  | RENAME
  | CINDEX
  | DINDEX
  | GTID
  | XACOMMIT
  | XAROLLBACK
  | MHEARTBEAT
  | UNRECOGNIZED (number : ℕ)
  deriving DecidableEq

def EventType.named : List EventType :=
  [.EVENTTYPECOMPATIBLEPROTO2, .INSERT, .UPDATE, .DELETE, .CREATE, .ALTER, .ERASE, .QUERY,
    .TRUNCATE, .RENAME, .CINDEX, .DINDEX, .GTID, .XACOMMIT, .XAROLLBACK, .MHEARTBEAT]

def EventType.ofNumber (n : ℕ) : EventType := (named[n]?).getD (.UNRECOGNIZED n)

structure Column where
  name : JavaString := []
  isNull : Bool := false
  value : JavaString := []
  deriving DecidableEq

structure RowData where
  beforeColumns : List Column := []
  afterColumns : List Column := []
  deriving DecidableEq

structure RowChange where
  eventType : EventType := .EVENTTYPECOMPATIBLEPROTO2
  isDdl : Bool := false
  rowDatas : List RowData := []
  deriving DecidableEq

structure Header where
  executeTime : ℤ := 0
  tableName : JavaString := []
  deriving DecidableEq

/-- An entry without a header has the default one. -/
structure Entry where
  header : Header := {}
  entryType : EntryType := .ENTRYTYPECOMPATIBLEPROTO2
  storeValue : Bytes := []
  deriving DecidableEq

def int64 (n : ℕ) : ℤ := if n < 2 ^ 63 then n else n - 2 ^ 64

section Tables

variable {σ : Type} (rt : Runtime)

def numberField (number : ℕ) : FieldCase σ := ⟨number, .varint fun _ m => m⟩

def textField (number : ℕ) : FieldCase σ := ⟨number, .string fun _ m => m⟩

def Pair.fields : List (FieldCase Unit) := [textField 1, textField 2]

def propsField (number : ℕ) : FieldCase σ :=
  ⟨number, .message fun budget bs m => (mergeFrom rt Pair.fields budget bs ()).map fun _ => m⟩

def Column.fields : List (FieldCase Column) :=
  [numberField 1, numberField 2, ⟨3, .string fun v c => { c with name := decodeUtf8 v }⟩,
    numberField 4, numberField 5, ⟨6, .varint fun n c => { c with isNull := n ≠ 0 }⟩,
    propsField rt 7, ⟨8, .string fun v c => { c with value := decodeUtf8 v }⟩, numberField 9,
    textField 10]

def RowData.fields : List (FieldCase RowData) :=
  [⟨1, .message fun budget bs r => (mergeFrom rt (Column.fields rt) budget bs {}).map fun c =>
      { r with beforeColumns := r.beforeColumns ++ [c] }⟩,
    ⟨2, .message fun budget bs r => (mergeFrom rt (Column.fields rt) budget bs {}).map fun c =>
      { r with afterColumns := r.afterColumns ++ [c] }⟩,
    propsField rt 3]

def RowChange.fields : List (FieldCase RowChange) :=
  [numberField 1, ⟨2, .varint fun n r => { r with eventType := .ofNumber (n % 2 ^ 32) }⟩,
    ⟨10, .varint fun n r => { r with isDdl := n ≠ 0 }⟩, textField 11,
    ⟨12, .message fun budget bs r => (mergeFrom rt (RowData.fields rt) budget bs {}).map fun d =>
      { r with rowDatas := r.rowDatas ++ [d] }⟩,
    propsField rt 13, textField 14]

def Header.fields : List (FieldCase Header) :=
  [numberField 1, textField 2, numberField 3, numberField 4, textField 5,
    ⟨6, .varint fun n h => { h with executeTime := int64 n }⟩, numberField 7, textField 8,
    ⟨9, .string fun v h => { h with tableName := decodeUtf8 v }⟩, numberField 10, numberField 11,
    propsField rt 12, textField 13]

def Entry.fields : List (FieldCase Entry) :=
  [⟨1, .message fun budget bs e => (mergeFrom rt (Header.fields rt) budget bs e.header).map fun h =>
      { e with header := h }⟩,
    ⟨2, .varint fun n e => { e with entryType := .ofNumber (n % 2 ^ 32) }⟩,
    ⟨3, .bytes fun v e => { e with storeValue := v }⟩]

end Tables

/-- `parseFrom` of the generated classes; `none` is an `InvalidProtocolBufferException`. The
    message without any field is encoded by no byte at all. -/
structure Parsers where
  Entry : Bytes → Option Entry
  RowChange : Bytes → Option RowChange
  Entry_nil : Entry [] = some {}

def tableParsers (rt : Runtime) : Parsers where
  Entry bs := mergeFrom rt (Entry.fields rt) DEFAULT_RECURSION_LIMIT bs {}
  RowChange bs := mergeFrom rt (RowChange.fields rt) DEFAULT_RECURSION_LIMIT bs {}
  Entry_nil := rfl

def putColumn (name value : Bytes) : Bytes := putDelimited 3 name ++ putDelimited 8 value

def putRow (before after : List Bytes) : Bytes :=
  before.flatMap (putDelimited 1) ++ after.flatMap (putDelimited 2)

def putRowChange (eventType : ℕ) (rows : List Bytes) : Bytes :=
  putVarintField 2 eventType ++ rows.flatMap (putDelimited 12)

def putEntry (executeTime : ℕ) (tableName : Bytes) (entryType : ℕ) (storeValue : Bytes) : Bytes :=
  putDelimited 1 (putVarintField 6 executeTime ++ putDelimited 9 tableName) ++
    putVarintField 2 entryType ++ putDelimited 3 storeValue

end O2k.BinlogEntry
