import O2k.Getopt
import O2k.StrSplit

set_option autoImplicit false

namespace O2k.InputArgs
open ByteOrder SocketTransfer Getopt TextSplit

def MAX_FILE_NAME_LEN : ℕ := 256

structure topic_info_t where
  waitMode : Bool := false
  groupIdNum : Bytes
  commit : Bool := false
  topicName : Bytes := []
  nodeName : Bytes := []
  schemaName : Bytes := []
  tableName : List Bytes := []
  bootstrap : Bytes
  suffix : Bytes := ascii ".binlog"
  deriving DecidableEq

/-- What `main` has set before it reads the command line. -/
def topic_info : topic_info_t where
  bootstrap := ascii "qmatrix-1:9092,qmatrix-2:9092,qmatrix-3:9092"
  groupIdNum := ascii "binlogdumpK"

structure Parsed where
  topic : topic_info_t
  printRaw : Bool := false
  deriving DecidableEq

inductive Ended where
  | exit (status : ℤ)
  | endless
  deriving DecidableEq

def strndup (s : Bytes) (n : ℕ) : Bytes := s.take n

def char (c : Char) : UInt8 := UInt8.ofNat c.toNat

def one : Bytes := ascii "1"

def inputArg (st : Parsed) : Call → Except Ended Parsed
  | .unknown => .error (.exit (-1))
  | .option c optarg =>
    if c = char 'h' then .error (.exit 0)
    else if c = char 'b' then
      .ok { st with topic.bootstrap := strndup optarg MAX_FILE_NAME_LEN }
    else if c = char 'n' then
      .ok { st with topic.nodeName := strndup optarg MAX_FILE_NAME_LEN }
    else if c = char 's' then
      .ok { st with topic.schemaName := strndup optarg MAX_FILE_NAME_LEN }
    else if c = char 't' then
      match StrSplit (strndup optarg MAX_FILE_NAME_LEN) (ascii ",") st.topic.tableName with
      | none => .error .endless
      | some tableName => .ok { st with topic.tableName := tableName }
    else if c = char 'm' then .ok { st with topic.waitMode := optarg = one }
    else if c = char 'g' then .ok { st with topic.groupIdNum := optarg }
    else if c = char 'C' then .ok { st with topic.commit := optarg = one }
    else if c = char 'r' then .ok { st with printRaw := true }
    else if c = char 'x' then .ok { st with topic.suffix := optarg }
    else .error (.exit (-1))

def optstring : Bytes := ascii "hvz:n:s:t:b:m:g:S:E:C:T:r"

def GetInputArg (args : List Bytes) (st : Parsed) : Except Ended Parsed :=
  (getopt optstring args).foldlM inputArg st

/-- The options of the usage text, without the one that asks for it. -/
def documented : Bytes := ascii "b:n:s:t:m:g:C:rx:"

def Documented (args : List Bytes) : Prop := .unknown ∉ getopt documented args

instance : DecidablePred Documented := fun _ => inferInstanceAs (Decidable (¬ _))

def given (c : Char) (calls : List Call) : List Bytes :=
  calls.filterMap fun
    | .option d v => if d = char c then some v else none
    | .unknown => none

def lastOr (before : Bytes) (values : List Bytes) : Bytes := values.getLast?.getD before

structure HoldsGiven (args : List Bytes) (before topic : topic_info_t) : Prop where
  bootstrap : topic.bootstrap = lastOr before.bootstrap (given 'b' (getopt documented args))
  nodeName : topic.nodeName = lastOr before.nodeName (given 'n' (getopt documented args))
  schemaName : topic.schemaName = lastOr before.schemaName (given 's' (getopt documented args))
  groupIdNum : topic.groupIdNum = lastOr before.groupIdNum (given 'g' (getopt documented args))
  suffix : topic.suffix = lastOr before.suffix (given 'x' (getopt documented args))
  tableName : topic.tableName = before.tableName ++
    (given 't' (getopt documented args)).flatMap (pieces (ascii ","))

/-- What `GetInputArg` has room for: no suffix, short names, and only commas beyond the limit of a
    table list. -/
structure Fits (args : List Bytes) : Prop where
  suffix : given 'x' (getopt documented args) = []
  names : ∀ c ∈ ['b', 'n', 's'], ∀ v ∈ (given c (getopt documented args)).getLast?,
    v.length ≤ MAX_FILE_NAME_LEN
  tables : ∀ v ∈ given 't' (getopt documented args), ∀ b ∈ v.drop MAX_FILE_NAME_LEN, b = char ','

theorem lastOr_append (before : Bytes) (vs ws : List Bytes) :
    lastOr before (vs ++ ws) = lastOr (lastOr before vs) ws := by
  unfold lastOr
  rw [List.getLast?_append]
  cases ws.getLast? <;> simp

theorem given_append (c : Char) (calls calls' : List Call) :
    given c (calls ++ calls') = given c calls ++ given c calls' :=
  List.filterMap_append

structure Took (calls : List Call) (before topic : topic_info_t) : Prop where
  bootstrap : topic.bootstrap =
    lastOr before.bootstrap ((given 'b' calls).map fun v => v.take MAX_FILE_NAME_LEN)
  nodeName : topic.nodeName =
    lastOr before.nodeName ((given 'n' calls).map fun v => v.take MAX_FILE_NAME_LEN)
  schemaName : topic.schemaName =
    lastOr before.schemaName ((given 's' calls).map fun v => v.take MAX_FILE_NAME_LEN)
  groupIdNum : topic.groupIdNum = lastOr before.groupIdNum (given 'g' calls)
  suffix : topic.suffix = before.suffix
  tableName : topic.tableName = before.tableName ++
    (given 't' calls).flatMap fun v => pieces (ascii ",") (v.take MAX_FILE_NAME_LEN)

theorem Took.nil (topic : topic_info_t) : Took [] topic topic :=
  ⟨rfl, rfl, rfl, rfl, rfl, by simp [given]⟩

theorem Took.append {calls calls' : List Call} {a b c : topic_info_t} (h : Took calls a b)
    (h' : Took calls' b c) : Took (calls ++ calls') a c where
  bootstrap := by rw [h'.bootstrap, h.bootstrap, given_append, List.map_append, lastOr_append]
  nodeName := by rw [h'.nodeName, h.nodeName, given_append, List.map_append, lastOr_append]
  schemaName := by rw [h'.schemaName, h.schemaName, given_append, List.map_append, lastOr_append]
  groupIdNum := by rw [h'.groupIdNum, h.groupIdNum, given_append, lastOr_append]
  suffix := by rw [h'.suffix, h.suffix]
  tableName := by
    rw [h'.tableName, h.tableName, given_append, List.flatMap_append, List.append_assoc]

def handled : List UInt8 := ['b', 'n', 's', 't', 'm', 'g', 'C', 'r'].map char

theorem inputArg_table (v : Bytes) (st : Parsed) :
    inputArg st (.option (char 't') v) = .ok { st with
      topic.tableName := st.topic.tableName ++ pieces (ascii ",") (v.take MAX_FILE_NAME_LEN) } := by
  have hshort : (v.take MAX_FILE_NAME_LEN).length < 2 ^ 31 := by
    rw [List.length_take]
    exact (Nat.min_le_left _ _).trans_lt (by decide)
  have hsplit := StrSplit_pieces _ (ascii ",") st.topic.tableName hshort
  rw [inputArg]
  simp only [strndup, hsplit]
  rfl

theorem inputArg_took {c : UInt8} (hc : c ∈ handled) (v : Bytes) (st : Parsed) :
    ∃ st', inputArg st (.option c v) = .ok st' ∧ Took [.option c v] st.topic st'.topic := by
  simp only [handled, List.map_cons, List.map_nil, List.mem_cons, List.not_mem_nil, or_false] at hc
  rcases hc with rfl | rfl | rfl | rfl | rfl | rfl | rfl | rfl
  case inr.inr.inr.inl =>
    exact ⟨_, inputArg_table v st, rfl, rfl, rfl, rfl, rfl, by simp [given]⟩
  all_goals exact ⟨_, rfl, rfl, rfl, rfl, rfl, rfl, by simp [given, char]⟩

theorem foldlM_took {calls : List Call} (h : ∀ call ∈ calls, ∃ c ∈ handled, ∃ v, call = .option c v)
    (st : Parsed) :
    ∃ st', calls.foldlM inputArg st = .ok st' ∧ Took calls st.topic st'.topic := by
  induction calls generalizing st with
  | nil => exact ⟨st, rfl, .nil _⟩
  | cons call calls ih =>
    obtain ⟨hcall, hrest⟩ := List.forall_mem_cons.mp h
    obtain ⟨c, hc, v, rfl⟩ := hcall
    obtain ⟨st₁, hstep, htook⟩ := inputArg_took hc v st
    obtain ⟨st', hfold, htail⟩ := ih hrest st₁
    refine ⟨st', ?_, htook.append htail⟩
    rw [List.foldlM_cons, hstep]
    exact hfold

theorem foldlM_unknown {calls : List Call} (h : .unknown ∈ calls) (st st' : Parsed) :
    calls.foldlM inputArg st ≠ .ok st' := by
  induction calls generalizing st with
  | nil => cases h
  | cons call calls ih =>
    rw [List.foldlM_cons]
    rcases List.mem_cons.mp h with rfl | h
    · exact fun heq => by cases heq
    · cases hstep : inputArg st call with
      | error ended => exact fun heq => by cases heq
      | ok st₁ => exact ih h st₁

theorem lastOr_take_iff (before : Bytes) (n : ℕ) (vs : List Bytes) :
    lastOr before (vs.map fun v => v.take n) = lastOr before vs ↔
      ∀ v ∈ vs.getLast?, v.length ≤ n := by
  unfold lastOr
  rw [List.getLast?_map]
  cases vs.getLast? with
  | none => simp
  | some v => simp

theorem took_holds_iff {args : List Bytes} {before topic : topic_info_t}
    (htook : Took (getopt documented args) before topic)
    (hsuffix : given 'x' (getopt documented args) = []) :
    HoldsGiven args before topic ↔ Fits args := by
  have hcomma : ascii "," = [char ','] := rfl
  constructor
  · intro h
    refine ⟨hsuffix, ?_, ?_⟩
    · intro c hc
      simp only [List.mem_cons, List.not_mem_nil, or_false] at hc
      rcases hc with rfl | rfl | rfl
      · exact (lastOr_take_iff _ _ _).mp (htook.bootstrap.symm.trans h.bootstrap)
      · exact (lastOr_take_iff _ _ _).mp (htook.nodeName.symm.trans h.nodeName)
      · exact (lastOr_take_iff _ _ _).mp (htook.schemaName.symm.trans h.schemaName)
    · have htables := htook.tableName.symm.trans h.tableName
      rw [hcomma, List.append_cancel_left_eq] at htables
      exact (flatMap_pieces_take_iff _ _ _).mp htables
  · intro h
    have hnames := h.names
    simp only [List.forall_mem_cons] at hnames
    obtain ⟨hb, hn, hs, _⟩ := hnames
    refine ⟨?_, ?_, ?_, htook.groupIdNum, ?_, ?_⟩
    · exact htook.bootstrap.trans ((lastOr_take_iff _ _ _).mpr hb)
    · exact htook.nodeName.trans ((lastOr_take_iff _ _ _).mpr hn)
    · exact htook.schemaName.trans ((lastOr_take_iff _ _ _).mpr hs)
    · rw [htook.suffix, hsuffix]
      rfl
    · rw [htook.tableName, hcomma, (flatMap_pieces_take_iff _ _ _).mpr h.tables]

theorem optstring_narrows : Narrows documented optstring := by decide +kernel

theorem optstring_lacks {c : UInt8} (hc : kind documented c ≠ none) :
    kind optstring c = none ↔ c = char 'x' := by
  have hall : ∀ d ∈ (options documented).map (·.1), kind optstring d = none ↔ d = char 'x' := by
    decide +kernel
  exact hall c (kind_ne_none_iff.mp hc)

theorem handled_of_kinds {c : UInt8} (hc : kind documented c ≠ none)
    (hc' : kind optstring c ≠ none) : c ∈ handled := by
  have hall : ∀ d ∈ (options documented).map (·.1), kind optstring d ≠ none → d ∈ handled := by
    decide +kernel
  exact hall c (kind_ne_none_iff.mp hc) hc'

theorem given_eq_nil_iff {c : Char} {calls : List Call} :
    given c calls = [] ↔ ∀ v, .option (char c) v ∉ calls := by
  constructor
  · intro h v hv
    have hmem : v ∈ given c calls := List.mem_filterMap.mpr ⟨_, hv, by simp⟩
    rw [h] at hmem
    cases hmem
  · intro h
    rw [List.eq_nil_iff_forall_not_mem]
    intro v hv
    obtain ⟨call, hcall, heq⟩ := List.mem_filterMap.mp hv
    cases call with
    | unknown => cases heq
    | option d w =>
      simp only [Option.ite_none_right_eq_some] at heq
      obtain ⟨rfl, _⟩ := heq
      exact h w hcall

/-- Of a documented command line, the topic holds all that is given just when it fits. -/
theorem GetInputArg_holds_iff (args : List Bytes) (st : Parsed) (h : Documented args) :
    (∃ st', GetInputArg args st = .ok st' ∧ HoldsGiven args st.topic st'.topic) ↔ Fits args := by
  rcases getopt_compared optstring_narrows args h with ⟨heq, hall⟩ | ⟨href, c, ⟨v, hv⟩, hc, hlack⟩
  · have hhandled : ∀ call ∈ getopt documented args, ∃ c ∈ handled, ∃ v, call = .option c v := by
      intro call hcall
      cases call with
      | unknown => exact absurd hcall h
      | option c v =>
        obtain ⟨hc, hc'⟩ := hall c ⟨v, hcall⟩
        exact ⟨c, handled_of_kinds hc hc', v, rfl⟩
    have hsuffix : given 'x' (getopt documented args) = [] := by
      rw [given_eq_nil_iff]
      intro v hv
      obtain ⟨hc, hc'⟩ := hall _ ⟨v, hv⟩
      exact hc' ((optstring_lacks hc).mpr rfl)
    obtain ⟨st', hfold, htook⟩ := foldlM_took hhandled st
    have hret : GetInputArg args st = .ok st' := by rw [GetInputArg, heq, hfold]
    rw [← took_holds_iff htook hsuffix]
    constructor
    · rintro ⟨st₁, hret₁, hholds⟩
      obtain rfl := Except.ok.inj (hret.symm.trans hret₁)
      exact hholds
    · exact fun hholds => ⟨st', hret, hholds⟩
  · constructor
    · rintro ⟨st', hret, _⟩
      exact absurd hret (foldlM_unknown href st st')
    · intro hfits
      obtain rfl := (optstring_lacks hc).mp hlack
      exact absurd hv (given_eq_nil_iff.mp hfits.suffix v)

def tablesArgs : List Bytes := ["-n", "node", "-rsdb", "-t", "a,,b", "-tc"].map ascii

theorem tablesArgs_hold :
    ∃ st', GetInputArg tablesArgs ⟨topic_info, false⟩ = .ok st' ∧
      HoldsGiven tablesArgs topic_info st'.topic := by
  refine (GetInputArg_holds_iff tablesArgs ⟨topic_info, false⟩ (by decide +kernel)).mpr
    ⟨by decide, ?_, by decide +kernel⟩
  rw [List.forall_mem_cons, List.forall_mem_cons, List.forall_mem_singleton]
  decide +kernel

def suffixArgs : List Bytes := ["-n", "node", "-s", "db", "-x", ".log"].map ascii

theorem suffixArgs_refused :
    ¬ ∀ args st, Documented args →
      ∃ st', GetInputArg args st = .ok st' ∧ HoldsGiven args st.topic st'.topic := by
  intro h
  obtain ⟨st', hret, _⟩ := h suffixArgs ⟨topic_info, false⟩ (by decide)
  have hexit : GetInputArg suffixArgs ⟨topic_info, false⟩ = .error (.exit (-1)) := by decide
  rw [hexit] at hret
  cases hret

end O2k.InputArgs
