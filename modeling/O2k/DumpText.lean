import O2k.PublishedEntries

set_option autoImplicit false

/-!
# What the dumps print

The texts that `PrintSql` and `JBinlogOut.PrintBinlog` make of a payload. The
text format of the runtimes and the messages of their exceptions are parameters.
The C++ program prints whatever its parsers leave behind; of what was published,
both print the entry and its body as they were.
-/
namespace O2k.DumpText
open ByteOrder SocketTransfer WireFormat EntryMessages

/-- `ParseFromString` of a generated class: whether it could parse, and the message it leaves. -/
structure ParseFromString {depth : ℕ} {σ : Type} (rt : Runtime) (M : MessageCodec depth σ) where
  run : Bytes → Bool × σ
  parses : ∀ bs, M.parse rt bs = if (run bs).1 then some (run bs).2 else none

theorem ParseFromString.run_eq {depth : ℕ} {σ : Type} {rt : Runtime} {M : MessageCodec depth σ}
    (P : ParseFromString rt M) {bs : Bytes} {m : σ} (h : M.parse rt bs = some m) :
    (P.run bs).2 = m := by
  rw [P.parses] at h
  split at h
  · exact Option.some.inj h
  · cases h

structure ParseFrom {depth : ℕ} {σ : Type} (rt : Runtime) (M : MessageCodec depth σ)
    (τ : Type) where
  run : Bytes → Except τ σ
  parses : ∀ bs, (run bs).toOption = M.parse rt bs

theorem ParseFrom.run_eq {depth : ℕ} {σ τ : Type} {rt : Runtime} {M : MessageCodec depth σ}
    (P : ParseFrom rt M τ) {bs : Bytes} {m : σ} (h : M.parse rt bs = some m) :
    P.run bs = .ok m := by
  rw [← P.parses] at h
  cases hrun : P.run bs with
  | error message =>
    rw [hrun] at h
    cases h
  | ok m' =>
    rw [hrun] at h
    exact congrArg _ (Option.some.inj h)

structure PrintToString (τ : Type) where
  Entry : Entry → τ
  TransactionBegin : TransactionBegin → τ
  TransactionEnd : TransactionEnd → τ
  RowChange : RowChange → τ

structure CppRuntime (rt : Runtime) where
  Entry : ParseFromString rt Entry.codec
  TransactionBegin : ParseFromString rt TransactionBegin.codec
  TransactionEnd : ParseFromString rt TransactionEnd.codec
  RowChange : ParseFromString rt RowChange.codec
  text : PrintToString Bytes

structure JavaRuntime (rt : Runtime) (τ : Type) where
  Entry : ParseFrom rt Entry.codec τ
  TransactionBegin : ParseFrom rt TransactionBegin.codec τ
  TransactionEnd : ParseFrom rt TransactionEnd.codec τ
  RowChange : ParseFrom rt RowChange.codec τ
  text : PrintToString τ
  literal : String → τ

section Programs

variable {rt : Runtime} {τ : Type}

/-- A `%s` prints a text up to its first NUL. -/
def PrintSql (cpp : CppRuntime rt) (printRaw : Bool) : Option Bytes → Bytes
  | none => []
  | some [] => []
  | some data =>
    let row_entry := (cpp.Entry.run data).2
    let _storevalue := if printRaw then [] else row_entry.storeValue
    let row_entry := if printRaw then row_entry else { row_entry with storeValue := [] }
    let binlog := ascii "\n-- binlog :" ++ cutNul (cpp.text.Entry row_entry)
    let storevalue := if printRaw then row_entry.storeValue else _storevalue
    let entrytype := row_entry.view.entryType
    if entrytype = .TRANSACTIONEND then
      let tran_end := (cpp.TransactionEnd.run storevalue).2
      binlog ++ ascii "-- storevalue:\n" ++ cutNul (cpp.text.TransactionEnd tran_end)
    else if entrytype = .TRANSACTIONBEGIN then
      let tran_begin := (cpp.TransactionBegin.run storevalue).2
      binlog ++ ascii "-- storevalue:\n" ++ cutNul (cpp.text.TransactionBegin tran_begin)
    else if entrytype = .ROWDATA then
      let row_change := (cpp.RowChange.run storevalue).2
      binlog ++ ascii "-- storevalue:\n" ++ cutNul (cpp.text.RowChange row_change)
    else binlog

def bodyText (java : JavaRuntime rt τ) (entry : Entry) : Except τ τ :=
  match entry.view.entryType with
  | .TRANSACTIONBEGIN => (java.TransactionBegin.run entry.storeValue).map java.text.TransactionBegin
  | .TRANSACTIONEND => (java.TransactionEnd.run entry.storeValue).map java.text.TransactionEnd
  | .ROWDATA => (java.RowChange.run entry.storeValue).map java.text.RowChange
  | _ => .ok (java.literal "{ !!! unknow binlog !!! }")

def JBinlogOut.PrintBinlog (java : JavaRuntime rt τ) (binlog : Bytes) : List τ :=
  match java.Entry.run binlog with
  | .error message => [message]
  | .ok entry =>
    [java.literal "--binlog:", java.text.Entry { entry with storeValue := [] },
      java.literal "--storevalue:"] ++
    match bodyText java entry with
    | .error message => [message]
    | .ok body => [body]

def PrintToString.body (text : PrintToString τ) : Body → Option τ
  | .rowChange row => some (text.RowChange row)
  | .transactionBegin start => some (text.TransactionBegin start)
  | .transactionEnd finish => some (text.TransactionEnd finish)
  | .unknown _ => none

/-- What each program prints of what was published. Of the empty entry, which no byte encodes, the
    C++ program prints nothing. -/
def sqlPrints (text : PrintToString Bytes) (printRaw : Bool) (p : Published) : Bytes :=
  if p.bytes = [] then []
  else
    ascii "\n-- binlog :" ++
      cutNul (text.Entry (if printRaw then p.entry else { p.entry with storeValue := [] })) ++
      ((text.body p.body).map fun body => ascii "-- storevalue:\n" ++ cutNul body).getD []

def javaPrints (text : PrintToString τ) (literal : String → τ) (p : Published) : List τ :=
  [literal "--binlog:", text.Entry { p.entry with storeValue := [] }, literal "--storevalue:",
    (text.body p.body).getD (literal "{ !!! unknow binlog !!! }")]

theorem PrintSql_cons (cpp : CppRuntime rt) (printRaw : Bool) {b : UInt8} {bs : Bytes}
    {entry : Entry} (hentry : (cpp.Entry.run (b :: bs)).2 = entry) :
    PrintSql cpp printRaw (some (b :: bs)) =
      let binlog := ascii "\n-- binlog :" ++
        cutNul (cpp.text.Entry (if printRaw then entry else { entry with storeValue := [] }))
      if entry.view.entryType = .TRANSACTIONEND then
        binlog ++ ascii "-- storevalue:\n" ++
          cutNul (cpp.text.TransactionEnd (cpp.TransactionEnd.run entry.storeValue).2)
      else if entry.view.entryType = .TRANSACTIONBEGIN then
        binlog ++ ascii "-- storevalue:\n" ++
          cutNul (cpp.text.TransactionBegin (cpp.TransactionBegin.run entry.storeValue).2)
      else if entry.view.entryType = .ROWDATA then
        binlog ++ ascii "-- storevalue:\n" ++
          cutNul (cpp.text.RowChange (cpp.RowChange.run entry.storeValue).2)
      else binlog := by
  subst hentry
  cases printRaw <;> rfl

def ParsedBy (rt : Runtime) (storeValue : Bytes) : Body → Prop
  | .rowChange row => RowChange.codec.parse rt storeValue = some row
  | .transactionBegin start => TransactionBegin.codec.parse rt storeValue = some start
  | .transactionEnd finish => TransactionEnd.codec.parse rt storeValue = some finish
  | .unknown _ => True

theorem parsedBy_of_parse {entry : Entry} {body : Body} (htype : body.HasType entry.view.entryType)
    (h : Body.parse rt entry.view.entryType entry.storeValue = some body) :
    ParsedBy rt entry.storeValue body := by
  generalize entry.view.entryType = type at htype h
  cases body with
  | rowChange row =>
    obtain rfl : type = .ROWDATA := htype
    simpa [Body.parse, ParsedBy] using h
  | transactionBegin start =>
    obtain rfl : type = .TRANSACTIONBEGIN := htype
    simpa [Body.parse, ParsedBy] using h
  | transactionEnd finish =>
    obtain rfl : type = .TRANSACTIONEND := htype
    simpa [Body.parse, ParsedBy] using h
  | unknown storeValue => trivial

theorem PrintSql_published (cpp : CppRuntime rt) (printRaw : Bool) {p : Published}
    (hutf : p.utf8 = true) : PrintSql cpp printRaw (some p.bytes) = sqlPrints cpp.text printRaw p := by
  obtain ⟨hread, hbody⟩ := p.parse_utf8 rt hutf
  have hentry := cpp.Entry.run_eq hread
  have htype := p.hasType
  have hparse := parsedBy_of_parse htype hbody
  unfold sqlPrints
  generalize p.bytes = bs at hentry
  generalize p.entry = entry at hentry htype hparse
  generalize p.body = body at htype hparse
  cases bs with
  | nil => rfl
  | cons b bs =>
    rw [PrintSql_cons cpp printRaw hentry, if_neg (List.cons_ne_nil b bs)]
    cases body with
    | rowChange row =>
      have hdata : entry.view.entryType = .ROWDATA := htype
      simp [hdata, cpp.RowChange.run_eq hparse, PrintToString.body, List.append_assoc]
    | transactionBegin start =>
      have hbegin : entry.view.entryType = .TRANSACTIONBEGIN := htype
      simp [hbegin, cpp.TransactionBegin.run_eq hparse, PrintToString.body, List.append_assoc]
    | transactionEnd finish =>
      have hend : entry.view.entryType = .TRANSACTIONEND := htype
      simp [hend, cpp.TransactionEnd.run_eq hparse, PrintToString.body, List.append_assoc]
    | unknown storeValue =>
      obtain ⟨hend, hbegin, hdata⟩ := htype
      simp [hend, hbegin, hdata, PrintToString.body]

theorem bodyText_published (java : JavaRuntime rt τ) {p : Published} (hutf : p.utf8 = true) :
    bodyText java p.entry =
      .ok ((java.text.body p.body).getD (java.literal "{ !!! unknow binlog !!! }")) := by
  have htype := p.hasType
  have hparse := parsedBy_of_parse htype (p.parse_utf8 rt hutf).2
  unfold bodyText
  generalize p.body = body at htype hparse
  cases body with
  | rowChange row =>
    have hdata : p.entry.view.entryType = .ROWDATA := htype
    rw [hdata, java.RowChange.run_eq hparse]
    rfl
  | transactionBegin start =>
    have hbegin : p.entry.view.entryType = .TRANSACTIONBEGIN := htype
    rw [hbegin, java.TransactionBegin.run_eq hparse]
    rfl
  | transactionEnd finish =>
    have hend : p.entry.view.entryType = .TRANSACTIONEND := htype
    rw [hend, java.TransactionEnd.run_eq hparse]
    rfl
  | unknown storeValue =>
    obtain ⟨hend, hbegin, hdata⟩ := htype
    split
    · exact absurd ‹_› hbegin
    · exact absurd ‹_› hend
    · exact absurd ‹_› hdata
    · rfl

theorem PrintBinlog_published (java : JavaRuntime rt τ) {p : Published} (hutf : p.utf8 = true) :
    JBinlogOut.PrintBinlog java p.bytes = javaPrints java.text java.literal p := by
  have hentry := java.Entry.run_eq (p.parse_utf8 rt hutf).1
  simp only [JBinlogOut.PrintBinlog, hentry, bodyText_published java hutf]
  rfl

section Tables

variable (rt : Runtime)

/-- On a failure the message is as new here; the generated class leaves what it had merged. -/
def ParseFromString.ofTable {depth : ℕ} {σ : Type} (M : MessageCodec depth σ) :
    ParseFromString rt M where
  run bs := ((M.parse rt bs).isSome, (M.parse rt bs).getD M.new)
  parses bs := by cases M.parse rt bs <;> rfl

def ParseFrom.ofTable {depth : ℕ} {σ : Type} (M : MessageCodec depth σ) (message : τ) :
    ParseFrom rt M τ where
  run bs := (M.parse rt bs).elim (.error message) .ok
  parses bs := by cases M.parse rt bs <;> rfl

def CppRuntime.ofTables (text : PrintToString Bytes) : CppRuntime rt where
  Entry := .ofTable rt _
  TransactionBegin := .ofTable rt _
  TransactionEnd := .ofTable rt _
  RowChange := .ofTable rt _
  text := text

def JavaRuntime.ofTables (text : PrintToString τ) (literal : String → τ) (message : τ) :
    JavaRuntime rt τ where
  Entry := .ofTable rt _ message
  TransactionBegin := .ofTable rt _ message
  TransactionEnd := .ofTable rt _ message
  RowChange := .ofTable rt _ message
  text := text
  literal := literal

end Tables

/-- Dumped one after the other, published entries are printed as they were, if all their texts are
    UTF-8. -/
theorem published_printed {rt' : Runtime} (cpp : CppRuntime rt) (java : JavaRuntime rt' τ)
    (printRaw : Bool) {ps : List Published} (hutf : ∀ p ∈ ps, p.utf8 = true) :
    (ps.map Published.bytes).flatMap (fun data => PrintSql cpp printRaw (some data)) =
        ps.flatMap (sqlPrints cpp.text printRaw) ∧
      (ps.map Published.bytes).flatMap (JBinlogOut.PrintBinlog java) =
        ps.flatMap (javaPrints java.text java.literal) := by
  rw [List.flatMap_map, List.flatMap_map]
  constructor
  · exact List.flatMap_congr fun p hp => PrintSql_published cpp printRaw (hutf p hp)
  · exact List.flatMap_congr fun p hp => PrintBinlog_published java (hutf p hp)

end Programs

/-- The text format of the end of a transaction that has an id and nothing else, and of an entry of
    this type without a header. -/
def endText : PrintToString Bytes where
  Entry _ := ascii "entryType: TRANSACTIONEND\n"
  TransactionBegin _ := []
  TransactionEnd finish := ascii "transactionId: \"" ++ finish.transactionId ++ ascii "\"\n"
  RowChange _ := []

def transactionSeven : Published where
  entry :=
    { entryType := some 3
      storeValue := TransactionEnd.codec.serialize { transactionId := ascii "7" } }
  body := .transactionEnd { transactionId := ascii "7" }
  serializable := by decide +kernel
  hasType := rfl
  storeValue_eq := rfl

theorem published_printed_seven :
    PrintSql (.ofTables ⟨false⟩ endText) false (some transactionSeven.bytes) =
        ascii "\n-- binlog :entryType: TRANSACTIONEND\n-- storevalue:\ntransactionId: \"7\"\n" ∧
      JBinlogOut.PrintBinlog (.ofTables ⟨true⟩ endText ascii []) transactionSeven.bytes =
        [ascii "--binlog:", ascii "entryType: TRANSACTIONEND\n", ascii "--storevalue:",
          ascii "transactionId: \"7\"\n"] := by
  have hutf : ∀ p ∈ [transactionSeven], p.utf8 = true := by decide +kernel
  have hprinted := published_printed (.ofTables ⟨false⟩ endText)
    (.ofTables ⟨true⟩ endText ascii []) false hutf
  simp only [List.map_cons, List.map_nil, List.flatMap_singleton] at hprinted
  rw [hprinted.1, hprinted.2]
  decide +kernel

end O2k.DumpText
