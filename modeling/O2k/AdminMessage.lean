import O2k.WireSegments

set_option autoImplicit false

/-!
# The admin messages

The messages of `AdminMsg.proto` that `qdcadm` uses: their fields, their
serialised form and the tables their generated parsers work from. Strings are
byte strings; the parser requires them to be UTF-8, the serialiser only warns.
-/
namespace O2k.AdminMessage
open ByteOrder WireFormat

/-- An open enum: a number without a name is kept. -/
inductive MsgType where
  | Result
  | Command
  | Metrics
  | unnamed (number : ℕ)
  deriving DecidableEq

def MsgType.ofNumber : ℕ → MsgType
  | 0 => .Result
  | 1 => .Command
  | 2 => .Metrics
  | n => .unnamed n

def MsgType.number : MsgType → ℕ
  | .Result => 0
  | .Command => 1
  | .Metrics => 2
  | .unnamed n => n

structure MsgHeader where
  msg_type : MsgType := .Result
  deriving DecidableEq

structure MsgHeaderWrap where
  msg_header : Option MsgHeader := none
  deriving DecidableEq

structure PairStrStr where
  key : Bytes := []
  val : Bytes := []
  deriving DecidableEq

structure MsgResult where
  msg_header : Option MsgHeader := none
  rc : Bytes := []
  msg : Bytes := []
  rt_pairs : List PairStrStr := []
  deriving DecidableEq

structure MsgCmd where
  msg_header : Option MsgHeader := none
  cmd : Bytes := []
  params : List PairStrStr := []
  deriving DecidableEq

/-- The eight bytes of a double are kept as they are. -/
structure PairIntDbl where
  key : ℕ := 0
  val : Bytes := List.replicate 8 0
  deriving DecidableEq

structure MsgMetrics where
  msg_header : Option MsgHeader := none
  trans_commit_total : Bytes := List.replicate 8 0
  trans_begin_proc : List PairIntDbl := []
  deriving DecidableEq

/-- `msg_header()` of a message without one is the default header. -/
def headerOf (h : Option MsgHeader) : MsgHeader := h.getD {}

def MsgHeader.fields : List (FieldCase MsgHeader) :=
  [⟨1, .varint fun n h => { h with msg_type := .ofNumber (n % 2 ^ 32) }⟩]

def PairStrStr.fields : List (FieldCase PairStrStr) :=
  [⟨1, .string fun v p => { p with key := v }⟩, ⟨2, .string fun v p => { p with val := v }⟩]

def PairIntDbl.fields : List (FieldCase PairIntDbl) :=
  [⟨1, .varint fun n p => { p with key := n }⟩, ⟨2, .fixed64 fun v p => { p with val := v }⟩]

/-- Field 1 of every message: the header that is there is merged into, not replaced. -/
def headerField {σ : Type} (rt : Runtime) (get : σ → Option MsgHeader)
    (set : Option MsgHeader → σ → σ) : FieldCase σ :=
  ⟨1, .message fun budget bs m =>
    (mergeFrom rt MsgHeader.fields budget bs (headerOf (get m))).map fun h => set (some h) m⟩

def repeatedField {σ τ : Type} (rt : Runtime) (number : ℕ) (fields : List (FieldCase τ)) (new : τ)
    (add : τ → σ → σ) : FieldCase σ :=
  ⟨number, .message fun budget bs m =>
    (mergeFrom rt fields budget bs new).map fun p => add p m⟩

def MsgHeaderWrap.fields (rt : Runtime) : List (FieldCase MsgHeaderWrap) :=
  [headerField rt MsgHeaderWrap.msg_header fun h m => { m with msg_header := h }]

def MsgResult.fields (rt : Runtime) : List (FieldCase MsgResult) :=
  [headerField rt MsgResult.msg_header fun h m => { m with msg_header := h },
    ⟨2, .string fun v m => { m with rc := v }⟩,
    ⟨3, .string fun v m => { m with msg := v }⟩,
    repeatedField rt 4 PairStrStr.fields {} fun p m => { m with rt_pairs := m.rt_pairs ++ [p] }]

def MsgCmd.fields (rt : Runtime) : List (FieldCase MsgCmd) :=
  [headerField rt MsgCmd.msg_header fun h m => { m with msg_header := h },
    ⟨2, .string fun v m => { m with cmd := v }⟩,
    repeatedField rt 3 PairStrStr.fields {} fun p m => { m with params := m.params ++ [p] }]

def MsgMetrics.fields (rt : Runtime) : List (FieldCase MsgMetrics) :=
  [headerField rt MsgMetrics.msg_header fun h m => { m with msg_header := h },
    ⟨2, .fixed64 fun v m => { m with trans_commit_total := v }⟩,
    repeatedField rt 3 PairIntDbl.fields {} fun p m =>
      { m with trans_begin_proc := m.trans_begin_proc ++ [p] }]

def MsgHeaderWrap.parse (rt : Runtime) (bs : Bytes) : Option MsgHeaderWrap :=
  mergeFrom rt (MsgHeaderWrap.fields rt) DEFAULT_RECURSION_LIMIT bs {}

def MsgResult.parse (rt : Runtime) (bs : Bytes) : Option MsgResult :=
  mergeFrom rt (MsgResult.fields rt) DEFAULT_RECURSION_LIMIT bs {}

def MsgCmd.parse (rt : Runtime) (bs : Bytes) : Option MsgCmd :=
  mergeFrom rt (MsgCmd.fields rt) DEFAULT_RECURSION_LIMIT bs {}

def MsgMetrics.parse (rt : Runtime) (bs : Bytes) : Option MsgMetrics :=
  mergeFrom rt (MsgMetrics.fields rt) DEFAULT_RECURSION_LIMIT bs {}

/-- Inside a `MsgMetrics`, with what that leaves of the recursion limit. -/
def PairIntDbl.parse (rt : Runtime) (bs : Bytes) : Option PairIntDbl :=
  mergeFrom rt PairIntDbl.fields (DEFAULT_RECURSION_LIMIT - 1) bs {}

def MsgHeader.serialize (h : MsgHeader) : Bytes :=
  if h.msg_type.number ≠ 0 then putVarintField 1 (signExtend h.msg_type.number) else []

def putHeader : Option MsgHeader → Bytes
  | none => []
  | some h => putDelimited 1 h.serialize

def PairStrStr.serialize (p : PairStrStr) : Bytes := putString 1 p.key ++ putString 2 p.val

def putPairs (number : ℕ) (ps : List PairStrStr) : Bytes :=
  ps.flatMap fun p => putDelimited number p.serialize

def MsgResult.serialize (m : MsgResult) : Bytes :=
  putHeader m.msg_header ++ (putString 2 m.rc ++ (putString 3 m.msg ++ putPairs 4 m.rt_pairs))

def MsgCmd.serialize (m : MsgCmd) : Bytes :=
  putHeader m.msg_header ++ (putString 2 m.cmd ++ putPairs 3 m.params)

def SerializeToString (bs : Bytes) : Option Bytes := if bs.length < 2 ^ 31 then some bs else none

def PairStrStr.Utf8 (p : PairStrStr) : Prop := validUtf8 p.key = true ∧ validUtf8 p.val = true

instance (p : PairStrStr) : Decidable p.Utf8 := inferInstanceAs (Decidable (_ ∧ _))

section Segments

variable {σ : Type} {rt : Runtime} {fields : List (FieldCase σ)} {budget : ℕ}

theorem putPairs_length (number : ℕ) {p : PairStrStr} {ps : List PairStrStr} (h : p ∈ ps) :
    p.serialize.length ≤ (putPairs number ps).length := by
  obtain ⟨xs, ys, rfl⟩ := List.append_of_mem h
  simp only [putPairs, List.flatMap_append, List.flatMap_cons, List.length_append]
  have := putDelimited_length number p.serialize
  omega

theorem PairStrStr.serialize_length (p : PairStrStr) :
    p.key.length ≤ p.serialize.length ∧ p.val.length ≤ p.serialize.length := by
  have hkey := putString_length 1 p.key
  have hval := putString_length 2 p.val
  simp only [serialize, List.length_append]
  omega

theorem PairStrStr.segment (p : PairStrStr) (hlen : p.serialize.length < 2 ^ 31) (hutf : p.Utf8) :
    Segment rt PairStrStr.fields budget p.serialize fun q =>
      storeString (fun v q => { q with val := v }) p.val
        (storeString (fun v q => { q with key := v }) p.key q) := by
  obtain ⟨hkey, hval⟩ := p.serialize_length
  exact (string_segment 1 p.key rfl (by decide) (by decide) (by omega) hutf.1).append
    (string_segment 2 p.val rfl (by decide) (by decide) (by omega) hutf.2)

theorem PairStrStr.merge_new (p : PairStrStr) (hlen : p.serialize.length < 2 ^ 31) (hutf : p.Utf8) :
    mergeFrom rt PairStrStr.fields budget p.serialize {} = some p := by
  rw [(p.segment hlen hutf).merge]
  rw [storeString_eq PairStrStr.key p.key _ rfl rfl,
    storeString_eq PairStrStr.val p.val _ rfl rfl]

theorem pairs_segment (number : ℕ) {add : PairStrStr → σ → σ} (ps : List PairStrStr)
    (hfind : fields.find? (fun f => f.tag = makeTag number 2) =
      some (repeatedField rt number PairStrStr.fields {} add))
    (hpos : 0 < number) (hlt : number < 2 ^ 29) (hbudget : 0 < budget)
    (hlen : (putPairs number ps).length < 2 ^ 31) (hutf : ∀ p ∈ ps, p.Utf8) :
    Segment rt fields budget (putPairs number ps) fun s => ps.foldl (fun s p => add p s) s := by
  apply Segment.flatMap
  intro p hp
  have hsmall : p.serialize.length < 2 ^ 31 := by
    have := putPairs_length number hp
    omega
  apply Segment.message hfind hpos hlt hsmall hbudget
  · intro s
    rw [p.merge_new hsmall (hutf p hp), Option.map_some]
  · intro hzero s
    rw [(p.segment hsmall (hutf p hp)).stuck hzero, Option.map_none]

theorem unknown_pairs_segment (number : ℕ) (ps : List PairStrStr)
    (hfind : fields.find? (fun f => f.tag = makeTag number 2) = none)
    (hpos : 0 < number) (hlt : number < 2 ^ 29) (hlen : (putPairs number ps).length < 2 ^ 31) :
    Segment rt fields budget (putPairs number ps) fun s => ps.foldl (fun s _ => s) s := by
  apply Segment.flatMap ps
  intro p hp
  have hsmall : p.serialize.length < 2 ^ 31 := by
    have := putPairs_length number hp
    omega
  exact Segment.unknown hfind hpos hlt hsmall

def MsgType.Named (t : MsgType) : Prop := t ∈ [.Result, .Command, .Metrics]

instance (t : MsgType) : Decidable t.Named := inferInstanceAs (Decidable (_ ∈ _))

theorem MsgHeader.segment (h : MsgHeader) (hn : h.msg_type.Named) :
    Segment rt MsgHeader.fields budget h.serialize fun old =>
      if h.msg_type = .Result then old else h := by
  obtain ⟨t⟩ := h
  have hcases : t = .Result ∨ t = .Command ∨ t = .Metrics := by
    simpa [MsgType.Named] using hn
  rcases hcases with rfl | rfl | rfl
  · exact Segment.nil
  · change Segment rt MsgHeader.fields budget (putVarintField 1 1) _
    have hseg : Segment rt MsgHeader.fields budget (putVarintField 1 1) _ :=
      Segment.varint 1 1 rfl (by decide) (by decide) (by decide)
    exact hseg
  · change Segment rt MsgHeader.fields budget (putVarintField 1 2) _
    have hseg : Segment rt MsgHeader.fields budget (putVarintField 1 2) _ :=
      Segment.varint 1 2 rfl (by decide) (by decide) (by decide)
    exact hseg

theorem MsgHeader.serialize_length (h : MsgHeader) (hn : h.msg_type.Named) :
    h.serialize.length < 2 ^ 31 := by
  obtain ⟨t⟩ := h
  have hcases : t = .Result ∨ t = .Command ∨ t = .Metrics := by
    simpa [MsgType.Named] using hn
  rcases hcases with rfl | rfl | rfl <;> decide

theorem header_segment {get : σ → Option MsgHeader} {set : Option MsgHeader → σ → σ}
    (h : MsgHeader) (hn : h.msg_type.Named)
    (hfind : fields.find? (fun f => f.tag = makeTag 1 2) = some (headerField rt get set))
    (hbudget : 0 < budget) :
    Segment rt fields budget (putHeader (some h)) fun m =>
      set (some (if h.msg_type = .Result then headerOf (get m) else h)) m := by
  apply Segment.message hfind (by decide) (by decide) (h.serialize_length hn) hbudget
  · intro m
    rw [(h.segment hn).merge, Option.map_some]
  · intro hzero m
    rw [(h.segment hn).stuck hzero, Option.map_none]

theorem header_of_none (h : MsgHeader) :
    (if h.msg_type = .Result then headerOf none else h) = h := by
  obtain ⟨t⟩ := h
  split
  · rename_i ht
    rw [show t = .Result from ht]
    rfl
  · rfl

end Segments

theorem foldl_params (ps qs : List PairStrStr) (h : Option MsgHeader) (cmd : Bytes) :
    ps.foldl (fun (m : MsgCmd) p => { m with params := m.params ++ [p] }) ⟨h, cmd, qs⟩ =
      ⟨h, cmd, qs ++ ps⟩ := by
  induction ps generalizing qs with
  | nil => simp
  | cons p ps ih => rw [List.foldl_cons, ih, List.append_assoc, List.singleton_append]

theorem foldl_rt_pairs (ps qs : List PairStrStr) (h : Option MsgHeader) (rc msg : Bytes) :
    ps.foldl (fun (m : MsgResult) p => { m with rt_pairs := m.rt_pairs ++ [p] }) ⟨h, rc, msg, qs⟩ =
      ⟨h, rc, msg, qs ++ ps⟩ := by
  induction ps generalizing qs with
  | nil => simp
  | cons p ps ih => rw [List.foldl_cons, ih, List.append_assoc, List.singleton_append]

theorem foldl_same {α β : Type} (xs : List α) (s : β) : xs.foldl (fun s _ => s) s = s := by
  induction xs with
  | nil => rfl
  | cons x xs ih => exact ih

section RoundTrip

variable (rt : Runtime) (h : MsgHeader) (hn : h.msg_type.Named)
include hn

theorem MsgCmd.parsesTo (cmd : Bytes) (params : List PairStrStr)
    (hlen : (MsgCmd.serialize ⟨some h, cmd, params⟩).length < 2 ^ 31)
    (hcmd : validUtf8 cmd = true) (hparams : ∀ p ∈ params, p.Utf8) :
    ParsesTo (MsgCmd.parse rt) (MsgCmd.serialize ⟨some h, cmd, params⟩)
      ⟨some h, cmd, params⟩ := by
  have hc := putString_length 2 cmd
  simp only [serialize, List.length_append] at hlen
  have hseg : Segment rt (MsgCmd.fields rt) DEFAULT_RECURSION_LIMIT _ _ :=
    (header_segment h hn rfl (by decide)).append
      ((string_segment 2 cmd rfl (by decide) (by decide) (by omega) hcmd).append
        (pairs_segment 3 params rfl (by decide) (by decide) (by decide) (by omega) hparams))
  apply hseg.parsesTo
  simp only [Function.comp_apply, header_of_none]
  rw [storeString_eq MsgCmd.cmd cmd _ rfl rfl, foldl_params, List.nil_append]

theorem MsgHeaderWrap.parsesTo_cmd (cmd : Bytes) (params : List PairStrStr)
    (hlen : (MsgCmd.serialize ⟨some h, cmd, params⟩).length < 2 ^ 31) :
    ParsesTo (MsgHeaderWrap.parse rt) (MsgCmd.serialize ⟨some h, cmd, params⟩) ⟨some h⟩ := by
  have hc := putString_length 2 cmd
  simp only [MsgCmd.serialize, List.length_append] at hlen
  have hseg : Segment rt (MsgHeaderWrap.fields rt) DEFAULT_RECURSION_LIMIT _ _ :=
    (header_segment h hn rfl (by decide)).append
      ((unknown_string_segment 2 cmd rfl (by decide) (by decide) (by omega)).append
        (unknown_pairs_segment 3 params rfl (by decide) (by decide) (by omega)))
  apply hseg.parsesTo
  simp only [Function.comp_apply, header_of_none, id_eq, foldl_same]

theorem MsgResult.parsesTo (rc msg : Bytes) (rt_pairs : List PairStrStr)
    (hlen : (MsgResult.serialize ⟨some h, rc, msg, rt_pairs⟩).length < 2 ^ 31)
    (hrc : validUtf8 rc = true) (hmsg : validUtf8 msg = true) (hpairs : ∀ p ∈ rt_pairs, p.Utf8) :
    ParsesTo (MsgResult.parse rt) (MsgResult.serialize ⟨some h, rc, msg, rt_pairs⟩)
      ⟨some h, rc, msg, rt_pairs⟩ := by
  have hr := putString_length 2 rc
  have hm := putString_length 3 msg
  simp only [serialize, List.length_append] at hlen
  have hseg : Segment rt (MsgResult.fields rt) DEFAULT_RECURSION_LIMIT _ _ :=
    (header_segment h hn rfl (by decide)).append
      ((string_segment 2 rc rfl (by decide) (by decide) (by omega) hrc).append
        ((string_segment 3 msg rfl (by decide) (by decide) (by omega) hmsg).append
          (pairs_segment 4 rt_pairs rfl (by decide) (by decide) (by decide) (by omega) hpairs)))
  apply hseg.parsesTo
  simp only [Function.comp_apply, header_of_none]
  rw [storeString_eq MsgResult.rc rc _ rfl rfl,
    storeString_eq MsgResult.msg msg _ rfl rfl, foldl_rt_pairs, List.nil_append]

theorem MsgHeaderWrap.parsesTo_result (rc msg : Bytes) (rt_pairs : List PairStrStr)
    (hlen : (MsgResult.serialize ⟨some h, rc, msg, rt_pairs⟩).length < 2 ^ 31) :
    ParsesTo (MsgHeaderWrap.parse rt) (MsgResult.serialize ⟨some h, rc, msg, rt_pairs⟩)
      ⟨some h⟩ := by
  have hr := putString_length 2 rc
  have hm := putString_length 3 msg
  simp only [MsgResult.serialize, List.length_append] at hlen
  have hseg : Segment rt (MsgHeaderWrap.fields rt) DEFAULT_RECURSION_LIMIT _ _ :=
    (header_segment h hn rfl (by decide)).append
      ((unknown_string_segment 2 rc rfl (by decide) (by decide) (by omega)).append
        ((unknown_string_segment 3 msg rfl (by decide) (by decide) (by omega)).append
          (unknown_pairs_segment 4 rt_pairs rfl (by decide) (by decide) (by omega))))
  apply hseg.parsesTo
  simp only [Function.comp_apply, header_of_none, id_eq, foldl_same]

end RoundTrip

/-- Field 3 is a text in a result and a message in metrics, and `MsgMetrics` has no use for the
    others: a result parses as metrics just when its text does as that message. -/
theorem MsgMetrics.parse_result (rt : Runtime) (rc msg : Bytes) (rt_pairs : List PairStrStr)
    (hlen : (MsgResult.serialize ⟨some ⟨.Result⟩, rc, msg, rt_pairs⟩).length < 2 ^ 31) :
    (MsgMetrics.parse rt (MsgResult.serialize ⟨some ⟨.Result⟩, rc, msg, rt_pairs⟩)).isSome =
      (PairIntDbl.parse rt msg).isSome := by
  have hr := putString_length 2 rc
  have hm := putString_length 3 msg
  simp only [MsgResult.serialize, List.length_append] at hlen
  have hmsg : msg.length < 2 ^ 31 := by omega
  have hfront : Segment rt (MsgMetrics.fields rt) DEFAULT_RECURSION_LIMIT
      (putHeader (some ⟨.Result⟩) ++ putString 2 rc) _ :=
    (header_segment ⟨.Result⟩ (by decide) rfl (by decide)).append
      (unknown_string_segment 2 rc rfl (by decide) (by decide) (by omega))
  have hback : Segment rt (MsgMetrics.fields rt) DEFAULT_RECURSION_LIMIT (putPairs 4 rt_pairs) _ :=
    unknown_pairs_segment 4 rt_pairs rfl (by decide) (by decide) (by omega)
  rw [MsgMetrics.parse, MsgResult.serialize, ← List.append_assoc, hfront.merges]
  by_cases hnil : msg = []
  · subst hnil
    rw [show putString 3 [] = [] from rfl, List.nil_append, hback.merge]
    rfl
  · rw [putString, if_pos (List.length_pos_iff.mpr hnil),
      mergeFrom_message rfl (by decide) (by decide) hmsg (by decide), PairIntDbl.parse]
    cases mergeFrom rt PairIntDbl.fields (DEFAULT_RECURSION_LIMIT - 1) msg {} with
    | none => rfl
    | some p => simp [hback.merge]

end O2k.AdminMessage
