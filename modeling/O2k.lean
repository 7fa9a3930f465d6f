import O2k.ByteOrder
import O2k.ChunkedSource
import O2k.GatedTrace
import O2k.MealyRun
import O2k.RunRefinement
import O2k.WireFormat
import O2k.WireNul
import O2k.WireSegments
import O2k.WireCodec
import O2k.WireViews
import O2k.BinaryRounding
import O2k.JavaValues
import O2k.SocketTransfer
import O2k.SocketTransferSpecs
import O2k.MsgBuffer
import O2k.MsgBufferBounds
import O2k.HeaderCut
import O2k.PacketDelivery
import O2k.PlainReader
import O2k.CStrings
import O2k.AdminMessage
import O2k.AdminReaders
import O2k.AdminParse
import O2k.MsgBufferRuns
import O2k.AdminClient
import O2k.AdminReply
import O2k.AdminClientSafety
import O2k.AdminParams
import O2k.ReadErrors
import O2k.AdminErrors
import O2k.AdminSessions
import O2k.AdminMain
import O2k.BinlogPacket
import O2k.BinlogClient
import O2k.BinlogDelivery
import O2k.BinlogHandshake
import O2k.BinlogOutcome
import O2k.BinlogConnections
import O2k.LogDelivery
import O2k.LogSessions
import O2k.TextSplit
import O2k.Getopt
import O2k.StrSplit
import O2k.InputArgs
import O2k.KafkaReader
import O2k.KafkaRuns
import O2k.KafkaTimeout
import O2k.KafkaCommit
import O2k.KafkaSessions
import O2k.KafkaAssignment
import O2k.KafkaSnapshot
import O2k.BinlogEntry
import O2k.DumpOptions
import O2k.EntryMessages
import O2k.BinlogStatistics
import O2k.RowCounts
import O2k.PollLoop
import O2k.DumpFromServer
import O2k.DumpFromKafka
import O2k.FraudDetector
import O2k.FraudTimers
import O2k.FraudAlerts
import O2k.FraudAccounts
import O2k.FraudWatch
import O2k.TransactionSchema
import O2k.BalanceChanges
import O2k.PublishedEntries
import O2k.FraudJob
import O2k.FraudRecords
import O2k.PublishedTopic
import O2k.DumpText
import O2k.MsgBufferOwnership
import O2k.SysErrorInfo
