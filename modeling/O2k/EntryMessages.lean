import O2k.BinlogEntry
import O2k.WireCodec
import O2k.WireViews

set_option autoImplicit false

/-!
# The generated messages of a binlog entry

All fields of the messages of `BinlogEntry.proto`, as the generated C++ classes
of the repository write and read them. A text is its bytes, an `int32` or an
enumeration its 32 bits, an `int64` its 64 bits; a member of a oneof is there or
not.
-/
namespace O2k.EntryMessages
open ByteOrder WireFormat

structure Pair where
  key : Bytes := []
  value : Bytes := []
  deriving DecidableEq

structure Column where
  index : UInt32 := 0
  sqlType : UInt32 := 0
  name : Bytes := []
  isKey : Bool := false
  updated : Bool := false
  isNull : Option Bool := none
  props : List Pair := []
  value : Bytes := []
  length : UInt32 := 0
  mysqlType : Bytes := []
  deriving DecidableEq

structure RowData where
  beforeColumns : List Column := []
  afterColumns : List Column := []
  props : List Pair := []
  deriving DecidableEq

structure RowChange where
  tableId : UInt64 := 0
  eventType : Option UInt32 := none
  isDdl : Option Bool := none
  sql : Bytes := []
  rowDatas : List RowData := []
  props : List Pair := []
  ddlSchemaName : Bytes := []
  deriving DecidableEq

structure Header where
  version : Option UInt32 := none
  logfileName : Bytes := []
  logfileOffset : UInt64 := 0
  serverId : UInt64 := 0
  serverenCode : Bytes := []
  executeTime : UInt64 := 0
  sourceType : Option UInt32 := none
  schemaName : Bytes := []
  tableName : Bytes := []
  eventLength : UInt64 := 0
  eventType : Option UInt32 := none
  props : List Pair := []
  gtid : Bytes := []
  deriving DecidableEq

structure Entry where
  header : Option Header := none
  entryType : Option UInt32 := none
  storeValue : Bytes := []
  deriving DecidableEq

structure TransactionBegin where
  executeTime : UInt64 := 0
  transactionId : Bytes := []
  props : List Pair := []
  threadId : UInt64 := 0
  deriving DecidableEq

structure TransactionEnd where
  executeTime : UInt64 := 0
  transactionId : Bytes := []
  props : List Pair := []
  deriving DecidableEq

def Pair.codec : MessageCodec 0 Pair where
  new := {}
  fields :=
    [textField 1 (by decide) Pair.key (fun v m => { m with key := v }) fun _ => rfl,
      textField 2 (by decide) Pair.value (fun v m => { m with value := v }) fun _ => rfl]
  distinct := by decide
  assembles m := by simp

def Column.codec : MessageCodec 1 Column where
  new := {}
  fields :=
    [scalarField 1 (by decide) .int32 Column.index (fun v m => { m with index := v }) fun _ => rfl,
      scalarField 2 (by decide) .int32 Column.sqlType
        (fun v m => { m with sqlType := v }) fun _ => rfl,
      textField 3 (by decide) Column.name (fun v m => { m with name := v }) fun _ => rfl,
      scalarField 4 (by decide) .bool Column.isKey (fun v m => { m with isKey := v }) fun _ => rfl,
      scalarField 5 (by decide) .bool Column.updated
        (fun v m => { m with updated := v }) fun _ => rfl,
      oneofField 6 (by decide) .bool Column.isNull (fun v m => { m with isNull := v }) fun _ => rfl,
      messagesField 7 (by decide) Pair.codec (by decide) Column.props
        (fun v m => { m with props := v }) (fun _ => rfl) (fun _ _ => rfl) fun _ _ _ => rfl,
      textField 8 (by decide) Column.value (fun v m => { m with value := v }) fun _ => rfl,
      scalarField 9 (by decide) .int32 Column.length
        (fun v m => { m with length := v }) fun _ => rfl,
      textField 10 (by decide) Column.mysqlType (fun v m => { m with mysqlType := v }) fun _ => rfl]
  distinct := by decide
  assembles m := by simp

def RowData.codec : MessageCodec 2 RowData where
  new := {}
  fields :=
    [messagesField 1 (by decide) Column.codec (by decide) RowData.beforeColumns
        (fun v m => { m with beforeColumns := v }) (fun _ => rfl) (fun _ _ => rfl) fun _ _ _ => rfl,
      messagesField 2 (by decide) Column.codec (by decide) RowData.afterColumns
        (fun v m => { m with afterColumns := v }) (fun _ => rfl) (fun _ _ => rfl) fun _ _ _ => rfl,
      messagesField 3 (by decide) Pair.codec (by decide) RowData.props
        (fun v m => { m with props := v }) (fun _ => rfl) (fun _ _ => rfl) fun _ _ _ => rfl]
  distinct := by decide
  assembles m := by simp

def RowChange.codec : MessageCodec 3 RowChange where
  new := {}
  fields :=
    [scalarField 1 (by decide) .int64 RowChange.tableId
        (fun v m => { m with tableId := v }) fun _ => rfl,
      oneofField 2 (by decide) .int32 RowChange.eventType
        (fun v m => { m with eventType := v }) fun _ => rfl,
      oneofField 10 (by decide) .bool RowChange.isDdl
        (fun v m => { m with isDdl := v }) fun _ => rfl,
      textField 11 (by decide) RowChange.sql (fun v m => { m with sql := v }) fun _ => rfl,
      messagesField 12 (by decide) RowData.codec (by decide) RowChange.rowDatas
        (fun v m => { m with rowDatas := v }) (fun _ => rfl) (fun _ _ => rfl) fun _ _ _ => rfl,
      messagesField 13 (by decide) Pair.codec (by decide) RowChange.props
        (fun v m => { m with props := v }) (fun _ => rfl) (fun _ _ => rfl) fun _ _ _ => rfl,
      textField 14 (by decide) RowChange.ddlSchemaName
        (fun v m => { m with ddlSchemaName := v }) fun _ => rfl]
  distinct := by decide
  assembles m := by simp

def Header.codec : MessageCodec 1 Header where
  new := {}
  fields :=
    [oneofField 1 (by decide) .int32 Header.version
        (fun v m => { m with version := v }) fun _ => rfl,
      textField 2 (by decide) Header.logfileName
        (fun v m => { m with logfileName := v }) fun _ => rfl,
      scalarField 3 (by decide) .int64 Header.logfileOffset
        (fun v m => { m with logfileOffset := v }) fun _ => rfl,
      scalarField 4 (by decide) .int64 Header.serverId
        (fun v m => { m with serverId := v }) fun _ => rfl,
      textField 5 (by decide) Header.serverenCode
        (fun v m => { m with serverenCode := v }) fun _ => rfl,
      scalarField 6 (by decide) .int64 Header.executeTime
        (fun v m => { m with executeTime := v }) fun _ => rfl,
      oneofField 7 (by decide) .int32 Header.sourceType
        (fun v m => { m with sourceType := v }) fun _ => rfl,
      textField 8 (by decide) Header.schemaName
        (fun v m => { m with schemaName := v }) fun _ => rfl,
      textField 9 (by decide) Header.tableName (fun v m => { m with tableName := v }) fun _ => rfl,
      scalarField 10 (by decide) .int64 Header.eventLength
        (fun v m => { m with eventLength := v }) fun _ => rfl,
      oneofField 11 (by decide) .int32 Header.eventType
        (fun v m => { m with eventType := v }) fun _ => rfl,
      messagesField 12 (by decide) Pair.codec (by decide) Header.props
        (fun v m => { m with props := v }) (fun _ => rfl) (fun _ _ => rfl) fun _ _ _ => rfl,
      textField 13 (by decide) Header.gtid (fun v m => { m with gtid := v }) fun _ => rfl]
  distinct := by decide
  assembles m := by simp

def Entry.codec : MessageCodec 2 Entry where
  new := {}
  fields :=
    [messageField 1 (by decide) Header.codec (by decide) Entry.header
        (fun v m => { m with header := v }) fun _ => rfl,
      oneofField 2 (by decide) .int32 Entry.entryType
        (fun v m => { m with entryType := v }) fun _ => rfl,
      bytesField 3 (by decide) Entry.storeValue
        (fun v m => { m with storeValue := v }) fun _ => rfl]
  distinct := by decide
  assembles m := by simp

def TransactionBegin.codec : MessageCodec 1 TransactionBegin where
  new := {}
  fields :=
    [scalarField 1 (by decide) .int64 TransactionBegin.executeTime
        (fun v m => { m with executeTime := v }) fun _ => rfl,
      textField 2 (by decide) TransactionBegin.transactionId
        (fun v m => { m with transactionId := v }) fun _ => rfl,
      messagesField 3 (by decide) Pair.codec (by decide) TransactionBegin.props
        (fun v m => { m with props := v }) (fun _ => rfl) (fun _ _ => rfl) fun _ _ _ => rfl,
      scalarField 4 (by decide) .int64 TransactionBegin.threadId
        (fun v m => { m with threadId := v }) fun _ => rfl]
  distinct := by decide
  assembles m := by simp

def TransactionEnd.codec : MessageCodec 1 TransactionEnd where
  new := {}
  fields :=
    [scalarField 1 (by decide) .int64 TransactionEnd.executeTime
        (fun v m => { m with executeTime := v }) fun _ => rfl,
      textField 2 (by decide) TransactionEnd.transactionId
        (fun v m => { m with transactionId := v }) fun _ => rfl,
      messagesField 3 (by decide) Pair.codec (by decide) TransactionEnd.props
        (fun v m => { m with props := v }) (fun _ => rfl) (fun _ _ => rfl) fun _ _ _ => rfl]
  distinct := by decide
  assembles m := by simp

end O2k.EntryMessages
