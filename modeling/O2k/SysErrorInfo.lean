import O2k.CStrings

set_option autoImplicit false

/-!
# GetSysErrorInfo, byte by byte

The caller's buffer is memory from `szErrInfo` on, without an end of its own:
each index that is written is kept, to be compared with a size. Of the two
branches of the source it is the one for the GNU `strerror_r`. `strncpy` pads
to the size it is given, and it is given no smaller one for the text in front.
-/
namespace O2k.SysErrorInfo
open ByteOrder SocketTransfer MsgBuffer

structure CText where
  bytes : Bytes
  noNul : 0 ∉ bytes

/-- What `strerror_r` does: it returns a pointer to static text, or it writes the text into the
    buffer that it was given and returns that. -/
inductive Strerror where
  | static (text : CText)
  | filled (text : CText) (fits : text.bytes.length < SYS_ERRMSG_MAX_SIZE)

def Strerror.text : Strerror → Bytes
  | .static text => text.bytes
  | .filled text _ => text.bytes

inductive CharPtr where
  | static (text : Bytes)
  | szErrInfo

/-- Memory from `szErrInfo` on, and the indices that have been written. -/
structure Memory where
  cells : Cells
  stores : List ℕ

def Memory.store (m : Memory) (start : ℕ) (bs : Bytes) : Memory :=
  ⟨m.cells.store start bs, m.stores ++ List.range' start bs.length⟩

def Memory.InBounds (m : Memory) (size : ℕ) : Prop := ∀ i ∈ m.stores, i < size

instance (m : Memory) (size : ℕ) : Decidable (m.InBounds size) :=
  inferInstanceAs (Decidable (∀ i ∈ m.stores, i < size))

def percentD (n : ℤ) : Bytes := (if n < 0 then ascii "-" else []) ++ decimal n.natAbs

def sprintf (m : Memory) (text : Bytes) : ℕ × Memory := (text.length, m.store 0 (text ++ [0]))

def strerror_r (answer : Strerror) (m : Memory) : CharPtr × Memory :=
  match answer with
  | .static text => (.static text.bytes, m)
  | .filled text _ => (.szErrInfo, m.store 0 (text.bytes ++ [0]))

def padded (n : ℕ) (s : Bytes) : Bytes := s.take n ++ List.replicate (n - s.length) 0

/-- Writes `n` bytes at `dst`. When the source has not ended before `dst` it overlaps with them,
    and C leaves open what they are then: `overlapped`. -/
def strncpy (overlapped : ℕ → UInt8) (m : Memory) (dst : ℕ) (src : CharPtr) (n : ℕ) : Memory :=
  match src with
  | .static s => m.store dst (padded n s)
  | .szErrInfo =>
    match m.cells.cstring dst 0 with
    | some s => m.store dst (padded n s)
    | none => m.store dst ((List.range n).map overlapped)

def errnoText (err_no : ℤ) : Bytes := ascii "errno=" ++ percentD err_no ++ ascii ", "

def GetSysErrorInfo (overlapped : ℕ → UInt8) (answer : Strerror) (err_no : ℤ)
    (szErrInfo : Cells) : Memory :=
  match sprintf ⟨szErrInfo, []⟩ (errnoText err_no) with
  | (headlen, m) =>
    match strerror_r answer m with
    | (errmsg, m) => strncpy overlapped m headlen errmsg (SYS_ERRMSG_MAX_SIZE - 1)

/-- In the first `size` bytes stands a C string: the errno, and then the text or the front of
    it. -/
def Leaves (err_no : ℤ) (text : Bytes) (size : ℕ) (c : Cells) : Prop :=
  ∃ s, s <+: text ∧ c.cstring size 0 = some (errnoText err_no ++ s)

structure Meets (err_no : ℤ) (text : Bytes) (m : Memory) : Prop where
  inBounds : m.InBounds SYS_ERRMSG_MAX_SIZE
  leaves : Leaves err_no text SYS_ERRMSG_MAX_SIZE m.cells

@[simp] theorem Memory.store_cells (m : Memory) (start : ℕ) (bs : Bytes) :
    (m.store start bs).cells = m.cells.store start bs := rfl

@[simp] theorem Memory.store_stores (m : Memory) (start : ℕ) (bs : Bytes) :
    (m.store start bs).stores = m.stores ++ List.range' start bs.length := rfl

@[simp] theorem padded_length (n : ℕ) (s : Bytes) : (padded n s).length = n := by
  rw [padded, List.length_append, List.length_take, List.length_replicate]
  omega

theorem strncpy_stores (overlapped : ℕ → UInt8) (m : Memory) (dst : ℕ) (src : CharPtr) (n : ℕ) :
    (strncpy overlapped m dst src n).stores = m.stores ++ List.range' dst n := by
  unfold strncpy
  cases src with
  | static s => simp
  | szErrInfo =>
    dsimp only
    split <;> simp

theorem Memory.store_before (m : Memory) {start i : ℕ} (bs : Bytes) (h : i < start) :
    (m.store start bs).cells i = m.cells i := by
  have hno : ¬ start ≤ i := by omega
  simp [Cells.store, hno]

theorem strncpy_before (overlapped : ℕ → UInt8) (m : Memory) {dst i : ℕ} (src : CharPtr) (n : ℕ)
    (h : i < dst) : (strncpy overlapped m dst src n).cells i = m.cells i := by
  unfold strncpy
  cases src with
  | static s => exact m.store_before _ h
  | szErrInfo =>
    dsimp only
    split
    · exact m.store_before _ h
    · exact m.store_before _ h

theorem errnoText_length (err_no : ℤ) : (errnoText err_no).length = (percentD err_no).length + 8 := by
  have hfront : (ascii "errno=").length = 6 := by decide
  have hback : (ascii ", ").length = 2 := by decide
  rw [errnoText, List.length_append, List.length_append, hfront, hback]
  omega

theorem percentD_length_pos (n : ℤ) : 0 < (percentD n).length := by
  have hdigits := decimal_length_pos n.natAbs
  rw [percentD, List.length_append]
  omega

theorem percentD_length_le {n : ℤ} (h : -2 ^ 31 ≤ n ∧ n < 2 ^ 31) : (percentD n).length ≤ 11 := by
  have hdigits : (decimal n.natAbs).length ≤ 10 := decimal_length_le (by decide) (by omega)
  have hsign : (ascii "-").length = 1 := by decide
  rw [percentD, List.length_append]
  split
  · omega
  · rw [List.length_nil]
    omega

theorem strerror_r_stores {answer : Strerror} {m : Memory} {i : ℕ}
    (h : i ∈ (strerror_r answer m).2.stores) : i ∈ m.stores ∨ i < SYS_ERRMSG_MAX_SIZE := by
  cases answer with
  | static text => exact .inl h
  | filled text fits =>
    simp only [strerror_r, Memory.store_stores, List.mem_append, List.mem_range'_1,
      List.length_append, List.length_singleton] at h
    refine h.imp_right fun hi => ?_
    omega

/-- The padding ends `SYS_ERRMSG_MAX_SIZE - 1` bytes behind the text in front, whatever the
    message is, so the buffer has to be that large and need not be larger. -/
theorem GetSysErrorInfo_inBounds_iff (overlapped : ℕ → UInt8) (answer : Strerror) (err_no : ℤ)
    (szErrInfo : Cells) (size : ℕ) :
    (GetSysErrorInfo overlapped answer err_no szErrInfo).InBounds size ↔
      (errnoText err_no).length + (SYS_ERRMSG_MAX_SIZE - 1) ≤ size := by
  have hmax : SYS_ERRMSG_MAX_SIZE = 300 := rfl
  have hhead := errnoText_length err_no
  have hpos := percentD_length_pos err_no
  unfold Memory.InBounds GetSysErrorInfo
  simp only [sprintf, strncpy_stores, List.mem_append, List.mem_range'_1]
  constructor
  · intro h
    have hlast := h ((errnoText err_no).length + 298) (.inr (by omega))
    omega
  · rintro h i (hi | ⟨_, hi⟩)
    · rcases strerror_r_stores hi with hi | hi
      · simp only [Memory.store_stores, List.nil_append, List.mem_range'_1, List.length_append,
          List.length_singleton] at hi
        omega
      · omega
    · omega

theorem not_inBounds (overlapped : ℕ → UInt8) (answer : Strerror) (err_no : ℤ) (szErrInfo : Cells) :
    ¬ (GetSysErrorInfo overlapped answer err_no szErrInfo).InBounds SYS_ERRMSG_MAX_SIZE := by
  rw [GetSysErrorInfo_inBounds_iff, errnoText_length]
  unfold SYS_ERRMSG_MAX_SIZE
  omega

theorem GetSysErrorInfo_overruns (overlapped : ℕ → UInt8) (answer : Strerror) (err_no : ℤ)
    (szErrInfo : Cells) :
    ¬ Meets err_no answer.text (GetSysErrorInfo overlapped answer err_no szErrInfo) :=
  fun h => not_inBounds overlapped answer err_no szErrInfo h.inBounds

def addressInUse : Strerror := .static ⟨ascii "Address already in use", by decide⟩

theorem addressInUse_overruns :
    ¬ Meets 98 addressInUse.text
        (GetSysErrorInfo (fun _ => 0) addressInUse 98 Cells.blank) := by
  intro h
  have hlast := h.inBounds 308 (by decide +kernel)
  exact absurd hlast (by decide)

theorem zero_notMem_errnoText (err_no : ℤ) : 0 ∉ errnoText err_no := by
  have hsign : 0 ∉ percentD err_no := by
    rw [percentD, List.mem_append, not_or]
    refine ⟨?_, zero_notMem_decimal _⟩
    split
    · decide
    · simp
  rw [errnoText, List.mem_append, List.mem_append, not_or, not_or]
  exact ⟨⟨by decide, hsign⟩, by decide⟩

theorem padded_of_short {n : ℕ} {s : Bytes} (h : s.length < n) :
    padded n s = s ++ 0 :: List.replicate (n - s.length - 1) 0 := by
  have hzeros : n - s.length = n - s.length - 1 + 1 := by omega
  rw [padded, List.take_of_length_le h.le, hzeros, List.replicate_succ, Nat.add_sub_cancel]

theorem GetSysErrorInfo_static (overlapped : ℕ → UInt8) (text : CText) (err_no : ℤ)
    (szErrInfo : Cells) :
    (GetSysErrorInfo overlapped (.static text) err_no szErrInfo).cells.Holds
      (errnoText err_no ++ padded (SYS_ERRMSG_MAX_SIZE - 1) text.bytes) := by
  have hhead : (szErrInfo.store 0 (errnoText err_no ++ [0])).Holds (errnoText err_no) := by
    intro i hi
    rw [szErrInfo.store_holds _ i (by simp; omega), List.getElem?_append_left hi]
  exact hhead.append _

theorem static_hasString (overlapped : ℕ → UInt8) {text : CText} (err_no : ℤ) (szErrInfo : Cells)
    (hshort : text.bytes.length < SYS_ERRMSG_MAX_SIZE - 1) :
    (GetSysErrorInfo overlapped (.static text) err_no szErrInfo).cells.HasString 0
      (errnoText err_no ++ text.bytes) := by
  have hholds := GetSysErrorInfo_static overlapped text err_no szErrInfo
  rw [padded_of_short hshort, ← List.append_assoc] at hholds
  apply hholds.hasString
  rw [List.mem_append, not_or]
  exact ⟨zero_notMem_errnoText err_no, text.noNul⟩

theorem leaves_static_iff (overlapped : ℕ → UInt8) (text : CText) (err_no : ℤ) (szErrInfo : Cells)
    {size : ℕ} (hsize : size ≤ (errnoText err_no).length + (SYS_ERRMSG_MAX_SIZE - 1)) :
    Leaves err_no text.bytes size
        (GetSysErrorInfo overlapped (.static text) err_no szErrInfo).cells ↔
      (errnoText err_no).length + text.bytes.length < size := by
  constructor
  · rintro ⟨s, hs, hfound⟩
    obtain ⟨hlt, hstring⟩ := Cells.cstring_eq_some_iff.mp hfound
    rw [List.length_append] at hlt
    by_contra hlong
    have hinside : s.length < text.bytes.length := by omega
    have hnul := hstring.nul
    rw [Nat.zero_add, GetSysErrorInfo_static overlapped text err_no szErrInfo _ (by simp; omega),
      List.length_append, List.getElem?_append_right (by omega), Nat.add_sub_cancel_left, padded,
      List.getElem?_append_left (by simp; omega), List.getElem?_take_of_lt (by omega)] at hnul
    exact text.noNul (List.mem_of_getElem? hnul)
  · intro hlt
    refine ⟨text.bytes, List.prefix_rfl, Cells.cstring_eq_some_iff.mpr ⟨?_, ?_⟩⟩
    · rwa [List.length_append]
    · exact static_hasString overlapped err_no szErrInfo (by omega)

theorem leaves_filled (overlapped : ℕ → UInt8) {text : CText}
    (fits : text.bytes.length < SYS_ERRMSG_MAX_SIZE) {err_no : ℤ} {szErrInfo : Cells} {size : ℕ}
    (h : Leaves err_no text.bytes size
      (GetSysErrorInfo overlapped (.filled text fits) err_no szErrInfo).cells) :
    errnoText err_no <+: text.bytes := by
  obtain ⟨s, _, hfound⟩ := h
  have hstring := (Cells.cstring_eq_some_iff.mp hfound).2
  have hcell : ∀ j, j < (errnoText err_no).length → j < text.bytes.length + 1 →
      (errnoText err_no)[j]? = (text.bytes ++ [0])[j]? := by
    intro j hj hlt
    have hold := hstring.holds j (by simp; omega)
    rw [Nat.zero_add, List.getElem?_append_left hj] at hold
    rw [← hold]
    change (strncpy _ _ _ _ _).cells j = _
    rw [strncpy_before _ _ _ _ hj]
    exact Cells.store_holds _ _ j (by simpa using hlt)
  have hlong : (errnoText err_no).length ≤ text.bytes.length := by
    by_contra hshort
    have hzero := hcell text.bytes.length (by omega) (by omega)
    rw [List.getElem?_concat_length] at hzero
    exact zero_notMem_errnoText err_no (List.mem_of_getElem? hzero)
  rw [List.prefix_iff_getElem?]
  intro j hj
  have hsame := hcell j hj (by omega)
  rw [List.getElem?_append_left (by omega)] at hsame
  rw [← hsame, List.getElem?_eq_getElem hj]

/-- `m_errbuf` of `CMsgRW` is large enough for every `int`. -/
theorem m_errbuf_inBounds (overlapped : ℕ → UInt8) (answer : Strerror) {err_no : ℤ}
    (hint : -2 ^ 31 ≤ err_no ∧ err_no < 2 ^ 31) (m_errbuf : Cells) :
    (GetSysErrorInfo overlapped answer err_no m_errbuf).InBounds (LEN_ERR_MSG + 2) := by
  rw [GetSysErrorInfo_inBounds_iff, errnoText_length]
  have hle := percentD_length_le hint
  unfold SYS_ERRMSG_MAX_SIZE LEN_ERR_MSG
  omega

theorem m_errbuf_text (overlapped : ℕ → UInt8) {e : SysError} (hint : e.errno < 2 ^ 31)
    (hnul : 0 ∉ e.text) (hshort : e.text.length < SYS_ERRMSG_MAX_SIZE - 1) (m_errbuf : Cells) :
    (GetSysErrorInfo overlapped (.static ⟨e.text, hnul⟩) e.errno m_errbuf).cells.cstring
      (LEN_ERR_MSG + 2) 0 = some (SocketTransfer.GetSysErrorInfo e) := by
  have htext : SocketTransfer.GetSysErrorInfo e = errnoText e.errno ++ e.text := by
    rw [SocketTransfer.GetSysErrorInfo, List.take_of_length_le hshort.le]
    rfl
  rw [htext, Cells.cstring_eq_some_iff]
  refine ⟨?_, static_hasString overlapped e.errno m_errbuf hshort⟩
  have hle : (percentD e.errno).length ≤ 11 := percentD_length_le (by omega)
  rw [List.length_append, errnoText_length]
  unfold SYS_ERRMSG_MAX_SIZE at hshort
  unfold LEN_ERR_MSG
  omega

structure Failure where
  err_no : ℤ
  answer : Strerror

structure Calls where
  socket : Except Failure ℤ
  bind : Option Failure
  listen : Option Failure

/-- How `Listen` ends. On `nullRead` it has read `aIpAddr[0]` of a null pointer; `text` is what it
    prints to `szErrInfo`, if a C string stands in `szSysErrorInfo`. -/
inductive Listened where
  | listening (listensockfd : ℤ)
  | noSocket (szErrInfo : Memory)
  | nullRead (szSysErrorInfo : Memory)
  | error (szSysErrorInfo : Memory) (text : Option Bytes)

def Listened.szSysErrorInfo : Listened → Option Memory
  | .listening _ => none
  | .noSocket _ => none
  | .nullRead m => some m
  | .error m _ => some m

def portError (call aIpAddr : Bytes) (aPort : ℤ) (szSysErrorInfo : Bytes) : Bytes :=
  (if aIpAddr = [] then call ++ ascii " error in all local ip"
    else call ++ ascii " error in ip " ++ aIpAddr) ++
  ascii ", port " ++ percentD aPort ++ ascii ": " ++ szSysErrorInfo

def Listen.refused (overlapped : ℕ → UInt8) (stack : Cells) (call : Bytes) (aPort : ℤ)
    (aIpAddr : Option Bytes) (f : Failure) : Listened :=
  let szSysErrorInfo := GetSysErrorInfo overlapped f.answer f.err_no stack
  match aIpAddr with
  | none => .nullRead szSysErrorInfo
  | some aIpAddr =>
    .error szSysErrorInfo
      ((szSysErrorInfo.cells.cstring SYS_ERRMSG_MAX_SIZE 0).map (portError call aIpAddr aPort))

/-- `stack` is what the array `szSysErrorInfo` holds when it comes into being. -/
def Listen (overlapped : ℕ → UInt8) (stack : Cells) (calls : Calls) (aPort : ℤ) (szErrInfo : Cells)
    (aIpAddr : Option Bytes) : Listened :=
  match calls.socket with
  | .error f => .noSocket (GetSysErrorInfo overlapped f.answer f.err_no szErrInfo)
  | .ok listensockfd =>
    match calls.bind with
    | some f => Listen.refused overlapped stack (ascii "bind") aPort aIpAddr f
    | none =>
      match calls.listen with
      | some f => Listen.refused overlapped stack (ascii "listen") aPort aIpAddr f
      | none => .listening listensockfd

theorem Listen.refused_overruns (overlapped : ℕ → UInt8) (stack : Cells) (call : Bytes) (aPort : ℤ)
    (aIpAddr : Option Bytes) (f : Failure) :
    ∃ m, (Listen.refused overlapped stack call aPort aIpAddr f).szSysErrorInfo = some m ∧
      ¬ m.InBounds SYS_ERRMSG_MAX_SIZE := by
  have hover : ¬ (GetSysErrorInfo overlapped f.answer f.err_no stack).InBounds
      SYS_ERRMSG_MAX_SIZE := not_inBounds overlapped f.answer f.err_no stack
  cases aIpAddr with
  | none => exact ⟨_, rfl, hover⟩
  | some aIpAddr => exact ⟨_, rfl, hover⟩

theorem Listen_inBounds_iff (overlapped : ℕ → UInt8) (stack : Cells) (calls : Calls) (aPort : ℤ)
    (szErrInfo : Cells) (aIpAddr : Option Bytes) :
    (∀ m, (Listen overlapped stack calls aPort szErrInfo aIpAddr).szSysErrorInfo = some m →
      m.InBounds SYS_ERRMSG_MAX_SIZE) ↔
    (∃ f, calls.socket = .error f) ∨ (calls.bind = none ∧ calls.listen = none) := by
  obtain ⟨socket, bind, listen⟩ := calls
  cases socket with
  | error f => simp [Listen, Listened.szSysErrorInfo]
  | ok listensockfd =>
    cases bind with
    | some f =>
      obtain ⟨m, hm, hover⟩ := Listen.refused_overruns overlapped stack (ascii "bind") aPort aIpAddr f
      simpa [Listen] using ⟨m, hm, hover⟩
    | none =>
      cases listen with
      | some f =>
        obtain ⟨m, hm, hover⟩ :=
          Listen.refused_overruns overlapped stack (ascii "listen") aPort aIpAddr f
        simpa [Listen] using ⟨m, hm, hover⟩
      | none => simp [Listen, Listened.szSysErrorInfo]

end O2k.SysErrorInfo
