import O2k.DumpOptions
import O2k.InputArgs
import O2k.KafkaRuns
import O2k.PollLoop
import Mathlib.Data.List.DropRight

set_option autoImplicit false

namespace O2k.DumpFromKafka
open ByteOrder SocketTransfer JavaValues BinlogEntry BinlogStatistics KafkaReader

section binlogdumpK

variable {σ : Type}

structure Dumped (σ : Type) where
  run : Run σ
  gbStat : Statistics

def topicName (topic : InputArgs.topic_info_t) : Bytes :=
  topic.nodeName ++ ascii "." ++ topic.schemaName ++ topic.suffix

def printAll (cpp : CppRuntime) (printRaw : Bool) (ms : List Message) : Statistics :=
  ms.foldl (fun gbStat m => (PrintSql cpp printRaw gbStat (some m.payload)).2) {}

/-- The consumer is that of the bootstrap servers, the topic and the group; `n` is the number of
    rounds before a SIGINT, `script` what `consume` yields. -/
def binlogdumpK (cpp : CppRuntime) (consumer : Bytes → Bytes → Bytes → KafkaConsumer σ × σ)
    (args : List Bytes) (n : ℕ) (script : List Message) : Except InputArgs.Ended (Dumped σ) :=
  (InputArgs.GetInputArg args ⟨InputArgs.topic_info, false⟩).bind fun parsed =>
    let topic_info := { parsed.topic with topicName := topicName parsed.topic }
    if parsed.topic.nodeName = [] ∨ parsed.topic.schemaName = [] then .error (.exit (-1))
    else
      let myTest := consumer topic_info.bootstrap topic_info.topicName topic_info.groupIdNum
      let run := KafkaReader.main myTest.1 topic_info.tableName topic_info.waitMode
        topic_info.commit n myTest.2 script
      .ok ⟨run, printAll cpp parsed.printRaw (messagesPrinted run.events)⟩

end binlogdumpK

section JBinlogDumpK

open DumpOptions PollLoop

structure Settings where
  topicSufix : JavaString
  appName : JavaString
  schemas : List JavaString
  kafkaServer : JavaString
  consumeGrouopId : JavaString
  autoCommit : Bool
  fgWait : Bool
  deriving DecidableEq

end JBinlogDumpK

section Counts

open DumpOptions PollLoop

variable {σ : Type} {rt : Runtimes}

theorem printAll_eq (rt : Runtimes) (printRaw : Bool) (ms : List Message) :
    printAll rt.cpp printRaw ms = sqlStatistics rt printRaw (ms.map Message.payload) := by
  rw [printAll, sqlStatistics, List.foldl_map]

theorem main_runAccounts (K : KafkaConsumer σ) (filterKeys : List Bytes) (waitMode commit : Bool)
    (n : ℕ) (s : σ) (script : List Message) :
    RunAccounts filterKeys script (KafkaReader.main K filterKeys waitMode commit n s script) := by
  have h := mainLoop_accounts K filterKeys waitMode n {} s script
  unfold KafkaReader.main
  dsimp only
  split
  · exact ⟨h.consumed, h.returned, h.printed⟩
  · exact h

theorem binlogdumpK_cases {cpp : CppRuntime} {consumer : Bytes → Bytes → Bytes → KafkaConsumer σ × σ}
    {args : List Bytes} {n : ℕ} {script : List Message} {d : Dumped σ}
    (h : binlogdumpK cpp consumer args n script = .ok d) :
    ∃ parsed, InputArgs.GetInputArg args ⟨InputArgs.topic_info, false⟩ = .ok parsed ∧
      parsed.topic.nodeName ≠ [] ∧ parsed.topic.schemaName ≠ [] ∧
      RunAccounts parsed.topic.tableName script d.run ∧
      d.gbStat = printAll cpp parsed.printRaw (messagesPrinted d.run.events) := by
  unfold binlogdumpK at h
  cases hargs : InputArgs.GetInputArg args ⟨InputArgs.topic_info, false⟩ with
  | error ended =>
    rw [hargs] at h
    cases h
  | ok parsed =>
    rw [hargs] at h
    change (if parsed.topic.nodeName = [] ∨ parsed.topic.schemaName = [] then _ else _) = _ at h
    split at h
    · cases h
    · rename_i hnames
      rw [not_or] at hnames
      cases h
      exact ⟨parsed, rfl, hnames.1, hnames.2, main_runAccounts _ _ _ _ _ _ _, rfl⟩

def asked (tableName : List Bytes) (run : Run σ) : List Message :=
  (messagesConsumed run.events).filter (Wanted tableName)

/-- A run that prints its statistics has counted each message that it was asked for once, and
    nothing else, whatever the command line, the cluster and the moment of a SIGINT. -/
theorem binlogdumpK_counts {consumer : Bytes → Bytes → Bytes → KafkaConsumer σ × σ}
    {args : List Bytes} {n : ℕ} {script : List Message} {d : Dumped σ}
    (h : binlogdumpK rt.cpp consumer args n script = .ok d) :
    ∃ parsed, InputArgs.GetInputArg args ⟨InputArgs.topic_info, false⟩ = .ok parsed ∧
      messagesConsumed d.run.events ++ d.run.rest = script ∧
      d.gbStat.counts =
        ((asked parsed.topic.tableName d.run).map fun m => sqlTally rt m.payload).sum := by
  obtain ⟨parsed, hargs, _, _, hacc, hstat⟩ := binlogdumpK_cases h
  refine ⟨parsed, hargs, hacc.consumed, ?_⟩
  rw [hstat, printAll_eq, sqlStatistics_counts, hacc.printed, hacc.returned, List.map_map]
  rfl

def unassigned : KafkaConsumer Unit where
  consume _ _ := ()
  assignment _ := (.ERR_NO_ERROR, [], ())
  query_watermark_offsets _ _ := (.ERR_NO_ERROR, 0, ())
  position _ := (.ERR_NO_ERROR, fun _ => OFFSET_INVALID, ())
  commitSync _ := (.ERR_NO_ERROR, ())

def message (err : ErrorCode) (key : String) (offset : ℤ) (payload : Bytes) : Message :=
  ⟨err, ascii "node.db.binlog", 0, offset, some (ascii key), payload⟩

def twoTables : List Message :=
  [message .ERR_NO_ERROR "a" 0 (putEntry 1000 (ascii "A") 2 (putRowChange 2 [putRow [] []])),
    message .ERR_NO_ERROR "b" 1 (putEntry 1000 (ascii "B") 2 (putRowChange 3 [putRow [] []])),
    message .ERR__PARTITION_EOF "" 2 []]

def oneTableArgs : List Bytes := ["-n", "node", "-s", "db", "-t", "a"].map ascii

def oneTable : InputArgs.Parsed where
  topic :=
    { InputArgs.topic_info with
      nodeName := ascii "node", schemaName := ascii "db", tableName := [ascii "a"] }

theorem oneTable_parsed :
    InputArgs.GetInputArg oneTableArgs ⟨InputArgs.topic_info, false⟩ = .ok oneTable := by
  decide +kernel

def oneTableDump : Dumped Unit where
  run := KafkaReader.main unassigned [ascii "a"] false false 5 () twoTables
  gbStat := { TotalRows := 1, UpdateCnt := 1 }

theorem oneTable_dumped :
    binlogdumpK tableRuntimes.cpp (fun _ _ _ => (unassigned, ())) oneTableArgs 5 twoTables =
      .ok oneTableDump := by
  have hstat : printAll tableRuntimes.cpp false (messagesPrinted oneTableDump.run.events) =
      { TotalRows := 1, UpdateCnt := 1 } := by
    decide +kernel
  unfold binlogdumpK
  rw [oneTable_parsed, oneTableDump, ← hstat]
  rfl

theorem binlogdumpK_counts_oneTable :
    ∃ parsed, InputArgs.GetInputArg oneTableArgs ⟨InputArgs.topic_info, false⟩ = .ok parsed ∧
      messagesConsumed oneTableDump.run.events ++ oneTableDump.run.rest = twoTables ∧
      oneTableDump.gbStat.counts =
        ((asked parsed.topic.tableName oneTableDump.run).map fun m =>
          sqlTally tableRuntimes m.payload).sum :=
  binlogdumpK_counts oneTable_dumped

end Counts

end O2k.DumpFromKafka
