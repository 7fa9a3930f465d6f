import O2k.ByteOrder
import O2k.GatedTrace

set_option autoImplicit false

/-!
# CBinlogKafkaReader and the loop of binlogdumpK

librdkafka is a parameter, a `KafkaConsumer` on a state of its own; whatever it
does in the background falls between two calls. The results of `consume` are a
script. What is printed to the terminal on the way is left out.
-/
namespace O2k.KafkaReader
open ByteOrder GatedTrace

inductive ErrorCode where
  | ERR_NO_ERROR
  | ERR__TIMED_OUT
  | ERR__PARTITION_EOF
  | ERR__UNKNOWN_TOPIC
  | ERR__UNKNOWN_PARTITION
  | ERR__FAIL
  | other (code : ℤ)
  deriving DecidableEq

abbrev Place := Bytes × ℤ

structure TopicPartition where
  topic : Bytes
  partition : ℤ
  offset : ℤ
  deriving DecidableEq

def TopicPartition.place (tp : TopicPartition) : Place := (tp.topic, tp.partition)

def TopicPartition.set_offset (tp : TopicPartition) (offset : ℤ) : TopicPartition :=
  { tp with offset := offset }

@[simp] theorem TopicPartition.set_offset_place (tp : TopicPartition) (offset : ℤ) :
    (tp.set_offset offset).place = tp.place := rfl

@[simp] theorem TopicPartition.set_offset_offset (tp : TopicPartition) (offset : ℤ) :
    (tp.set_offset offset).offset = offset := rfl

structure Message where
  err : ErrorCode
  topic : Bytes
  partition : ℤ
  offset : ℤ
  key : Option Bytes
  payload : Bytes
  deriving DecidableEq

def Message.place (m : Message) : Place := (m.topic, m.partition)

/-- The calls of `RdKafka::KafkaConsumer`. `assignment` and `position` leave the list they are
    given as it is when they fail, `position` else fills in the offset of each entry. -/
structure KafkaConsumer (σ : Type) where
  consume : σ → Message → σ
  assignment : σ → ErrorCode × List TopicPartition × σ
  /-- the high watermark; the low one is not used -/
  query_watermark_offsets : σ → Place → ErrorCode × ℤ × σ
  position : σ → ErrorCode × (Place → ℤ) × σ
  commitSync : σ → ErrorCode × σ

structure CBinlogKafkaReader where
  m_logOffset : List TopicPartition := []
  m_readOffSet : List TopicPartition := []
  deriving DecidableEq

/-- How a `Read` ends. `message m` is code zero with the payload of `m` in the buffer; `blocked`
    is a `consume` that has not come back. -/
inductive Outcome where
  | message (m : Message)
  | ret (code : ErrorCode)
  | undefined
  | blocked
  deriving DecidableEq

variable {σ : Type}

inductive Event (σ : Type) where
  | consumed (m : Message)
  | captured (read log : σ)
  | polled (s : σ) (log read : List TopicPartition)
  | returned (o : Outcome)
  | printed (m : Message)

structure Filled (σ : Type) where
  ret : ℤ
  reader : CBinlogKafkaReader
  lib : σ
  events : List (Event σ)

/-- The loop over `m_logOffset`. From a failed query on, the entries keep their offsets. -/
def fillHigh (K : KafkaConsumer σ) : σ → List TopicPartition → Bool × List TopicPartition × σ
  | s, [] => (true, [], s)
  | s, tp :: tps =>
    match K.query_watermark_offsets s tp.place with
    | (.ERR_NO_ERROR, high, s) =>
      let r := fillHigh K s tps
      (r.1, tp.set_offset high :: r.2.1, r.2.2)
    | (_, _, s) => (false, tp :: tps, s)

/-- `Read` tests `m_logOffset.empty()` before each call as well, which makes no difference. -/
def fillOffset (K : KafkaConsumer σ) (r : CBinlogKafkaReader) (s : σ) : Filled σ :=
  if r.m_logOffset.isEmpty then
    match K.assignment s with
    | (.ERR_NO_ERROR, read, s₁) =>
      match K.assignment s₁ with
      | (.ERR_NO_ERROR, log, s₂) =>
        let h := fillHigh K s₂ log
        { ret := if h.1 then 0 else -1
          reader := { m_logOffset := h.2.1, m_readOffSet := read }
          lib := h.2.2
          events := [.captured s s₁] }
      | (_, _, s₂) => ⟨-1, { r with m_readOffSet := read }, s₂, []⟩
    | (_, _, s₁) => ⟨-1, r, s₁, []⟩
  else ⟨0, r, s, []⟩

/-- `-1001` is `OFFSET_INVALID`; the source takes it for "no msg in this partition". -/
def OFFSET_INVALID : ℤ := -1001

def checkReadOver : List TopicPartition → List TopicPartition → Option Bool
  | [], _ => some true
  | _ :: _, [] => none
  | l :: log, r :: read =>
    if r.offset ≤ OFFSET_INVALID then checkReadOver log read
    else if r.offset < l.offset then some false
    else checkReadOver log read

structure Turn (σ : Type) where
  reader : CBinlogKafkaReader
  lib : σ
  events : List (Event σ)
  outcome : Option Outcome

def Turn.back (r : CBinlogKafkaReader) (s : σ) (events : List (Event σ)) (o : Outcome) : Turn σ :=
  ⟨r, s, events ++ [.returned o], some o⟩

def readTurn (K : KafkaConsumer σ) (filterKeys : List Bytes) (r : CBinlogKafkaReader) (s : σ)
    (kmsg : Message) : Turn σ :=
  let s := K.consume s kmsg
  match kmsg.err with
  | .ERR__TIMED_OUT =>
    if r.m_logOffset.isEmpty then
      let f := fillOffset K r s
      ⟨f.reader, f.lib, .consumed kmsg :: f.events, none⟩
    else
      match K.position s with
      | (.ERR_NO_ERROR, offsets, s') =>
        let read := r.m_readOffSet.map fun tp => tp.set_offset (offsets tp.place)
        let r := { r with m_readOffSet := read }
        let events := [.consumed kmsg, .polled s r.m_logOffset read]
        match checkReadOver r.m_logOffset read with
        | none => ⟨r, s', events, some .undefined⟩
        | some false => ⟨r, s', events, none⟩
        | some true => .back r s' events (.ret .ERR__TIMED_OUT)
      | (_, _, s') => .back r s' [.consumed kmsg] (.ret .ERR__FAIL)
  | .ERR_NO_ERROR =>
    let f := fillOffset K r s
    let events := .consumed kmsg :: f.events
    match kmsg.key with
    | none => .back f.reader f.lib events (.ret .ERR__FAIL)
    | some key =>
      if filterKeys ≠ [] ∧ key ∉ filterKeys then ⟨f.reader, f.lib, events, none⟩
      else .back f.reader f.lib events (.message kmsg)
  | .ERR__PARTITION_EOF => .back r s [.consumed kmsg] (.ret .ERR__PARTITION_EOF)
  | .ERR__UNKNOWN_TOPIC | .ERR__UNKNOWN_PARTITION =>
    .back r s [.consumed kmsg] (.ret .ERR__UNKNOWN_PARTITION)
  | _ => .back r s [.consumed kmsg] (.ret .ERR__FAIL)

structure Call (σ : Type) where
  outcome : Outcome
  reader : CBinlogKafkaReader
  lib : σ
  rest : List Message
  events : List (Event σ)

def readLoop (K : KafkaConsumer σ) (filterKeys : List Bytes) :
    CBinlogKafkaReader → σ → List Message → Call σ
  | r, s, [] => ⟨.blocked, r, s, [], []⟩
  | r, s, kmsg :: script =>
    let t := readTurn K filterKeys r s kmsg
    match t.outcome with
    | some o => ⟨o, t.reader, t.lib, script, t.events⟩
    | none =>
      let c := readLoop K filterKeys t.reader t.lib script
      { c with events := t.events ++ c.events }

def Read (K : KafkaConsumer σ) (filterKeys : List Bytes) (r : CBinlogKafkaReader) (s : σ)
    (script : List Message) : Call σ :=
  let f := fillOffset K r s
  let c := readLoop K filterKeys f.reader f.lib script
  { c with events := f.events ++ c.events }

structure Run (σ : Type) where
  reader : CBinlogKafkaReader
  lib : σ
  rest : List Message
  events : List (Event σ)
  exited : Bool

/-- `n` is the number of rounds before a SIGINT sets `bExit`. -/
def mainLoop (K : KafkaConsumer σ) (filterKeys : List Bytes) (waitMode : Bool) :
    ℕ → CBinlogKafkaReader → σ → List Message → Run σ
  | 0, r, s, script => ⟨r, s, script, [], true⟩
  | n + 1, r, s, script =>
    let c := Read K filterKeys r s script
    match c.outcome with
    | .message m =>
      let run := mainLoop K filterKeys waitMode n c.reader c.lib c.rest
      { run with events := c.events ++ .printed m :: run.events }
    | .ret code =>
      if code = .ERR__TIMED_OUT ∧ waitMode = true then
        let run := mainLoop K filterKeys waitMode n c.reader c.lib c.rest
        { run with events := c.events ++ run.events }
      else ⟨c.reader, c.lib, c.rest, c.events, true⟩
    | .undefined | .blocked => ⟨c.reader, c.lib, c.rest, c.events, false⟩

def CommitOffset (K : KafkaConsumer σ) (s : σ) : ErrorCode × σ := K.commitSync s

def main (K : KafkaConsumer σ) (filterKeys : List Bytes) (waitMode commit : Bool) (n : ℕ) (s : σ)
    (script : List Message) : Run σ :=
  let run := mainLoop K filterKeys waitMode n {} s script
  if run.exited && commit then { run with lib := (CommitOffset K run.lib).2 } else run

end O2k.KafkaReader
