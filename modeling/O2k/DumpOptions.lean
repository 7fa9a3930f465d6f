import O2k.BinlogEntry
import O2k.BinlogHandshake

set_option autoImplicit false

/-!
# The options of JBinlogDumpS

`main` takes the position to start from out of its command line, and hands it
to the client. The parser of the command line is not in the repository; of it
is asked that it finds the options that were given, and of each its first value.
-/
namespace O2k.DumpOptions
open ByteOrder ChunkedSource JavaValues WireFormat BinlogEntry BinlogPacket BinlogClient

/-- What the methods of a `CommandLine` answer; none is null. -/
structure CommandLine where
  getArgs : List JavaString
  hasOption : Char → Bool
  getOptionValue : Char → Option JavaString

/-- `parse` of the parser, for the options of `main`; none is a `ParseException`. -/
abbrev Parse := List JavaString → Option CommandLine

inductive Stopped where
  | exited
  | thrown
  deriving DecidableEq

structure Settings where
  binlogServer : Option JavaString := some "127.0.0.1:9191".toList
  startScn : ℤ := 0
  fgWait : Bool := true
  deriving DecidableEq

def readStart (commandLine : CommandLine) : Except Stopped ℤ :=
  if commandLine.hasOption 'S' then
    match (commandLine.getOptionValue 'g').bind parseLong with
    | none => .error .exited
    | some startScn => .ok startScn
  else .ok 0

def readWait (commandLine : CommandLine) : Except Stopped Bool :=
  if commandLine.hasOption 'w' then
    match commandLine.getOptionValue 'w' with
    | none => .error .thrown
    | some value => .ok (value = ['1'])
  else .ok true

def readServer (commandLine : CommandLine) : Option JavaString :=
  if commandLine.hasOption 'a' then commandLine.getOptionValue 'a'
  else some "127.0.0.1:9191".toList

def readOptions (parse : Parse) (args : List JavaString) : Except Stopped Settings :=
  match parse args with
  | none => .error .exited
  | some commandLine =>
    if commandLine.getArgs.length > 0 then .error .exited
    else if commandLine.hasOption 'h' then .error .exited
    else
      (readStart commandLine).bind fun startScn =>
        (readWait commandLine).map fun fgWait =>
          ⟨readServer commandLine, startScn, fgWait⟩

abbrev Given := List (Char × JavaString)

def spell (given : Given) : List JavaString := given.flatMap fun o => [['-', o.1], o.2]

/-- A text that commons-cli takes for a value as it stands: quotes are taken off, and a text with a
    dash in front is an option unless it is a number. -/
def Plain (value : JavaString) : Prop :=
  value.head? ≠ some '"' ∧ (value.head? = some '-' → (readDouble value).isSome = true)

instance : DecidablePred Plain := fun _ => inferInstanceAs (Decidable (_ ∧ _))

def WellGiven (given : Given) : Prop :=
  ∀ o ∈ given, o.1 ∈ ['a', 'S', 'w'] ∧ Plain o.2 ∧ (o.1 = 'S' → (parseLong o.2).isSome = true)

instance : DecidablePred WellGiven := fun _ => inferInstanceAs (Decidable (∀ o ∈ _, _))

def firstValue (given : Given) (c : Char) : Option JavaString :=
  (given.find? fun o => o.1 = c).map (·.2)

/-- The parser finds what was given: of each option its first value, and null for one that was not
    given. -/
def Answers (parse : Parse) : Prop :=
  ∀ given : Given, (∀ o ∈ given, o.1 ∈ ['a', 'S', 'w'] ∧ Plain o.2) →
    ∃ commandLine, parse (spell given) = some commandLine ∧ commandLine.getArgs = [] ∧
      ∀ c, commandLine.hasOption c = (firstValue given c).isSome ∧
        commandLine.getOptionValue c = firstValue given c

def startPosition (given : Given) : ℤ := ((firstValue given 'S').bind parseLong).getD 0

/-- In every run of the client that is made with the settings, what follows the AUTH frame is the
    request of a binlog from a position, whose text is read back as that position. -/
def AsksFrom (st : Settings) (n : ℤ) : Prop :=
  ∃ body request,
    (∀ opened binlogHandler src room,
      bytesOut (DumpBinlog opened st.startScn binlogHandler ⟨src, room, []⟩).2.trace <+:
        authFrame ++ frame (Packet.toByteArray { type := .DUMP, body := body })) ∧
    Dump.parseFrom body = some request ∧ decodeUtf8 request.gtid = longString n ∧
    parseLong (decodeUtf8 request.gtid) = some n

theorem longText_eq (n : ℤ) : longText n = (longString n).map fun c => UInt8.ofNat c.toNat := by
  rw [longText, longString, List.map_append]
  split <;> rfl

theorem longString_ascii (n : ℤ) : ∀ c ∈ longString n, c.toNat < 128 := by
  intro c hc
  rcases List.mem_append.mp hc with hc | hc
  · split at hc
    · obtain rfl := List.mem_singleton.mp hc
      decide
    · cases hc
  · have hdigit := Nat.isDigit_of_mem_toDigits (by decide) (by decide) hc
    simp only [Char.isDigit, Bool.and_eq_true, decide_eq_true_eq] at hdigit
    have hle : c.toNat ≤ 57 := hdigit.2
    omega

theorem longString_length {n : ℤ} (h : -2 ^ 63 ≤ n ∧ n < 2 ^ 63) : (longString n).length ≤ 20 := by
  have hdigits : (Nat.toDigits 10 n.natAbs).length ≤ 19 := by
    refine (Nat.length_toDigits_le_iff (by decide) (by decide)).mpr ?_
    omega
  rw [longString, List.length_append]
  split
  · rw [List.length_singleton]
    omega
  · rw [List.length_nil]
    omega

theorem asksFrom_startScn {st : Settings} (h : -2 ^ 63 ≤ st.startScn ∧ st.startScn < 2 ^ 63) :
    AsksFrom st st.startScn := by
  have hlen := longString_length h
  have hdecode : decodeUtf8 (longText st.startScn) = longString st.startScn := by
    rw [longText_eq, decodeUtf8_ascii (longString_ascii _)]
  have hutf : validUtf8 (longText st.startScn) = true := by
    rw [longText_eq, validUtf8_ascii (longString_ascii _)]
  refine ⟨(dumpRequest st.startScn).toByteString, dumpRequest st.startScn,
    fun opened binlogHandler src room => DumpBinlog_sends opened st.startScn binlogHandler src room,
    ?_, hdecode, ?_⟩
  · have hjournal : validUtf8 [48] = true := by decide +kernel
    refine Dump.parseFrom_toByteString _ hjournal hutf (Nat.lt_of_sub_eq_succ rfl) ?_
    change (longText st.startScn).length < 2 ^ 31
    rw [longText_eq, List.length_map]
    omega
  · change parseLong (decodeUtf8 (longText st.startScn)) = _
    rw [hdecode, parseLong_longString h]

theorem firstValue_isSome_iff {given : Given} {c : Char} :
    (firstValue given c).isSome = true ↔ ∃ o ∈ given, o.1 = c := by
  rw [firstValue, Option.isSome_map, List.find?_isSome]
  simp

theorem firstValue_ne {given : Given} {c : Char} (hc : c ∉ ['a', 'S', 'w'])
    (h : ∀ o ∈ given, o.1 ∈ ['a', 'S', 'w']) : firstValue given c = none := by
  rw [← Option.not_isSome_iff_eq_none, firstValue_isSome_iff]
  rintro ⟨o, ho, rfl⟩
  exact hc (h o ho)

theorem readWait_ok {given : Given} {commandLine : CommandLine}
    (h : ∀ c, commandLine.hasOption c = (firstValue given c).isSome ∧
      commandLine.getOptionValue c = firstValue given c) :
    ∃ fgWait, readWait commandLine = .ok fgWait := by
  unfold readWait
  rw [(h 'w').1, (h 'w').2]
  cases firstValue given 'w' with
  | none => exact ⟨true, rfl⟩
  | some value => exact ⟨value = ['1'], rfl⟩

theorem readOptions_startsFrom_iff (parse : Parse) (hparse : Answers parse) (given : Given)
    (hgiven : WellGiven given) :
    (∃ st, readOptions parse (spell given) = .ok st ∧ AsksFrom st (startPosition given)) ↔
      ∀ o ∈ given, o.1 ≠ 'S' := by
  have hnames : ∀ o ∈ given, o.1 ∈ ['a', 'S', 'w'] := fun o ho => (hgiven o ho).1
  obtain ⟨commandLine, hcl, hargs, hopts⟩ :=
    hparse given fun o ho => ⟨(hgiven o ho).1, (hgiven o ho).2.1⟩
  have hhelp : commandLine.hasOption 'h' = false := by
    rw [(hopts 'h').1, firstValue_ne (by decide) hnames]
    rfl
  have hread : readOptions parse (spell given) = (readStart commandLine).bind fun startScn =>
      (readWait commandLine).map fun fgWait => ⟨readServer commandLine, startScn, fgWait⟩ := by
    simp [readOptions, hcl, hargs, hhelp]
  rw [hread, readStart, (hopts 'S').1, (hopts 'g').2,
    @firstValue_ne given 'g' (by decide) hnames]
  constructor
  · rintro ⟨st, hst, _⟩ o ho hS
    rw [if_pos (firstValue_isSome_iff.mpr ⟨o, ho, hS⟩)] at hst
    cases hst
  · intro hno
    have hnone : firstValue given 'S' = none := by
      rw [← Option.not_isSome_iff_eq_none, firstValue_isSome_iff]
      rintro ⟨o, ho, hS⟩
      exact hno o ho hS
    have hzero : startPosition given = 0 := by rw [startPosition, hnone]; rfl
    obtain ⟨fgWait, hwait⟩ := readWait_ok hopts
    refine ⟨⟨readServer commandLine, 0, fgWait⟩, ?_, ?_⟩
    · rw [hnone, hwait]
      rfl
    · rw [hzero]
      have hrange : (-2 ^ 63 : ℤ) ≤ 0 ∧ (0 : ℤ) < 2 ^ 63 := by decide
      exact asksFrom_startScn hrange

def readPairs : List JavaString → Option Given
  | [] => some []
  | ['-', c] :: value :: rest => (readPairs rest).map ((c, value) :: ·)
  | _ => none

def pairsParse : Parse := fun args =>
  (readPairs args).map fun given =>
    ⟨[], fun c => (firstValue given c).isSome, firstValue given⟩

theorem readPairs_spell (given : Given) : readPairs (spell given) = some given := by
  induction given with
  | nil => rfl
  | cons o given ih =>
    obtain ⟨c, value⟩ := o
    change (readPairs (spell given)).map ((c, value) :: ·) = some ((c, value) :: given)
    rw [ih]
    rfl

theorem pairsParse_answers : Answers pairsParse := by
  intro given _
  exact ⟨_, by rw [pairsParse, readPairs_spell]; rfl, rfl, fun _ => ⟨rfl, rfl⟩⟩

def serverOnly : Given := [('a', "10.0.0.1:9191".toList), ('w', "0".toList), ('a', "b:1".toList)]

theorem serverOnly_startsFrom : ∃ st, readOptions pairsParse (spell serverOnly) = .ok st ∧
    AsksFrom st (startPosition serverOnly) :=
  (readOptions_startsFrom_iff pairsParse pairsParse_answers serverOnly (by decide)).mpr (by decide)

theorem startOption_refused :
    ¬ ∀ parse, Answers parse → ∀ given, WellGiven given →
      ∃ st, readOptions parse (spell given) = .ok st ∧ AsksFrom st (startPosition given) := by
  intro h
  obtain ⟨st, hst, _⟩ := h pairsParse pairsParse_answers [('S', "5".toList)] (by decide)
  have hexit : readOptions pairsParse (spell [('S', "5".toList)]) = .error .exited := by decide
  rw [hexit] at hst
  cases hst

end O2k.DumpOptions
