import O2k.AdminMessage
import O2k.CStrings
import O2k.PacketDelivery

set_option autoImplicit false

namespace O2k.MsgBuffer
open ByteOrder ChunkedSource SocketTransfer WireFormat AdminMessage

def RMSG_INV_MSG_HDR : Bytes := ascii "invalid message header"
def RMSG_INV_MSG_BDY : Bytes := ascii "invalid message body"
def RMSG_NOT_CMD : Bytes := ascii "not a command message"
def RMSG_NOT_RESULT : Bytes := ascii "not a result message"
def RMSG_PACK_FAIL : Bytes := ascii "pack message fail"

def CMsgRW.parseMsg {μ : Type} (w : CMsgRW) (parse : Bytes → Option μ) : Option μ :=
  match (w.cells.cstring (w.m_lenmsg + 1) 0).bind parse with
  | some m => some m
  | none => (w.cells.read w.m_lenmsg).bind parse

/-- The return value and the argument of `ParseMsgHeader`, `ParseCommand` and
    `ParseResult`; the argument is `none` when a parse stopped in the middle of it. -/
def CMsgRW.parseInto {μ : Type} (w : CMsgRW) (parse : Bytes → Option μ) (out : μ) :
    ℤ × Option μ × CMsgRW :=
  if w.m_lenmsg ≤ 0 then (-1, some out, w)
  else
    match w.parseMsg parse with
    | none => (-1, none, w.setErr (snprintf LEN_ERR_MSG RMSG_INV_MSG_BDY))
    | some m => (0, some m, w)

def CMsgRW.ParseMsgHeader (rt : Runtime) (w : CMsgRW) (out : MsgHeaderWrap) :
    ℤ × Option MsgHeaderWrap × CMsgRW :=
  w.parseInto (MsgHeaderWrap.parse rt) out

def CMsgRW.ParseCommand (rt : Runtime) (w : CMsgRW) (out : MsgCmd) : ℤ × Option MsgCmd × CMsgRW :=
  w.parseInto (MsgCmd.parse rt) out

def CMsgRW.ParseResult (rt : Runtime) (w : CMsgRW) (out : MsgResult) :
    ℤ × Option MsgResult × CMsgRW :=
  w.parseInto (MsgResult.parse rt) out

structure Reading (μ : Type) where
  outcome : Outcome
  out : Option μ
  rw : CMsgRW
  sock : Sock

def PacketRead.readMessage {μ : Type} (rt : Runtime) (type : MsgType) (wrongType : Bytes)
    (parse : Bytes → Option μ) (out : μ) (r : PacketRead) : Reading μ :=
  match r.outcome with
  | .bad_alloc => ⟨.bad_alloc, some out, r.rw, r.sock⟩
  | .ret n =>
    if n ≤ 0 then ⟨.ret (-1), some out, r.rw, r.sock⟩
    else
      match r.rw.parseMsg (MsgHeaderWrap.parse rt) with
      | none => ⟨.ret (-1), some out, r.rw.setErr (snprintf LEN_ERR_MSG RMSG_INV_MSG_HDR), r.sock⟩
      | some hdr =>
        if (headerOf hdr.msg_header).msg_type ≠ type then
          ⟨.ret (-1), some out, r.rw.setErr (snprintf LEN_ERR_MSG wrongType), r.sock⟩
        else
          match r.rw.parseMsg parse with
          | none => ⟨.ret (-1), none, r.rw.setErr (snprintf LEN_ERR_MSG RMSG_INV_MSG_BDY), r.sock⟩
          | some m => ⟨.ret 0, some m, r.rw, r.sock⟩

def CMsgRW.ReadCommand (host : Endian) (rt : Runtime) (amb : Ambient) (w : CMsgRW) (s : Sock)
    (msgCmd : MsgCmd) : Reading MsgCmd :=
  (w.ReadPacket host amb s).readMessage rt .Command RMSG_NOT_CMD (MsgCmd.parse rt) msgCmd

def CMsgRW.ReadResult (host : Endian) (rt : Runtime) (amb : Ambient) (w : CMsgRW) (s : Sock)
    (msgResult : MsgResult) : Reading MsgResult :=
  (w.ReadPacket host amb s).readMessage rt .Result RMSG_NOT_RESULT (MsgResult.parse rt) msgResult

/-- A `std::map<std::string, std::string>`: each key once, in the order of the bytes. -/
structure StringMap where
  pairs : List (Bytes × Bytes)
  sorted : pairs.Pairwise (fun p q => p.1 < q.1)

def StringMap.empty : StringMap := ⟨[], .nil⟩

def StringMap.toPairs (kvs : StringMap) : List PairStrStr :=
  kvs.pairs.map fun kv => { key := kv.1, val := kv.2 }

def replyMessage (rc msg : Bytes) (apdmsg : StringMap) : MsgResult where
  msg_header := some { msg_type := .Result }
  rc := rc
  msg := msg
  rt_pairs := apdmsg.toPairs

/-- The overload without a map adds no pairs, which is the map overload on the empty map. -/
def CMsgRW.ReplyResult (host : Endian) (w : CMsgRW) (s : Sock) (rc msg : Bytes)
    (apdmsg : StringMap) : ℤ × CMsgRW × Sock :=
  match SerializeToString (replyMessage rc msg apdmsg).serialize with
  | none => (-1, w.setErr (snprintf LEN_ERR_MSG RMSG_PACK_FAIL), s)
  | some msgStr =>
    match w.SendPacket host s msgStr with
    | (wLen, w', s') => if wLen ≠ msgStr.length then (-1, w', s') else (0, w', s')

def CMsgRW.ExecCmdResult (host : Endian) (rt : Runtime) (amb : Ambient) (w : CMsgRW) (s : Sock)
    (cmd : MsgCmd) (result : MsgResult) : Reading MsgResult :=
  match SerializeToString cmd.serialize with
  | none => ⟨.ret (-1), some result,
      w.setErr (snprintf LEN_ERR_MSG (ascii "serialize protobuf fail")), s⟩
  | some pkg =>
    match w.SendPacket host s pkg with
    | (rc, w', s') =>
      if rc ≤ 0 then ⟨.ret (-1), some result, w', s'⟩ else w'.ReadResult host rt amb s' result

theorem Cells.Holds.read {c : Cells} {p : Bytes} (h : c.Holds p) : c.read p.length = some p := by
  have hmap : ∀ n, n ≤ p.length → c.read n = some (p.take n) := by
    intro n
    induction n with
    | zero => intro _; simp [Cells.read]
    | succ n ih =>
      intro hn
      have hi : c n = some p[n] := by
        rw [h n (by omega), List.getElem?_eq_getElem (by omega)]
      have hprev := ih (by omega)
      simp only [Cells.read] at hprev ⊢
      rw [List.range_succ, List.mapM_append, hprev, List.take_succ_eq_append_getElem (by omega)]
      simp [hi]
  simpa using hmap p.length le_rfl

theorem CMsgRW.Carries.cstring {w : CMsgRW} {p : Bytes} (h : w.Carries p) :
    w.cells.cstring (w.m_lenmsg + 1) 0 = some (cutNul p) := by
  rw [h.lenmsg, Cells.cstring_eq_some_iff]
  refine ⟨Nat.lt_succ_of_le (List.takeWhile_prefix _).length_le, Cells.hasString_cutNul ?_ ?_⟩
  · intro j hj
    rw [Nat.zero_add]
    exact h.holds j hj
  · rw [Nat.zero_add]
    exact h.nul

def parsePayload {μ : Type} (parse : Bytes → Option μ) (p : Bytes) : Option μ :=
  match parse (cutNul p) with
  | some m => some m
  | none => parse p

theorem CMsgRW.Carries.parseMsg {μ : Type} {w : CMsgRW} {p : Bytes} (h : w.Carries p)
    (parse : Bytes → Option μ) : w.parseMsg parse = parsePayload parse p := by
  have hread : w.cells.read w.m_lenmsg = some p := by
    rw [h.lenmsg]
    exact h.holds.read
  rw [CMsgRW.parseMsg, h.cstring, hread]
  rfl

theorem CMsgRW.Carries.parseInto {μ : Type} {w : CMsgRW} {p : Bytes} (h : w.Carries p)
    (hpos : 1 ≤ p.length) (parse : Bytes → Option μ) (out : μ) :
    w.parseInto parse out =
      match parsePayload parse p with
      | none => (-1, none, w.setErr (snprintf LEN_ERR_MSG RMSG_INV_MSG_BDY))
      | some m => (0, some m, w) := by
  have hlen : ¬ w.m_lenmsg ≤ 0 := by
    rw [h.lenmsg]
    omega
  simp only [CMsgRW.parseInto, hlen, ↓reduceIte, h.parseMsg]

theorem parsePayload_of_parsesTo {μ : Type} {parse : Bytes → Option μ} {p : Bytes} {m : μ}
    (h : ParsesTo parse p m) : parsePayload parse p = some m := by
  unfold parsePayload
  by_cases hzero : 0 ∈ p
  · rw [h.cut hzero]
    exact h.whole
  · rw [cutNul_eq_self hzero, h.whole]

def WholeFrame (s : Sock) (p : Bytes) : Prop :=
  (fill interrupts (4 + p.length) s.incoming).got = frame p

instance (s : Sock) (p : Bytes) : Decidable (WholeFrame s p) :=
  inferInstanceAs (Decidable (_ = _))

section Reading

variable {μ : Type} (host : Endian) (rt : Runtime) (amb : Ambient) (w : CMsgRW) (s : Sock)
  {p : Bytes} {h : MsgHeader} (type : MsgType) (wrongType : Bytes) (parse : Bytes → Option μ)
  (out : μ)

theorem readMessage_frame (hnew : amb.newOk = true) (hpos : 1 ≤ p.length)
    (hmax : p.length ≤ MAX_ADM_PKG) (hframe : WholeFrame s p)
    (hhdr : ParsesTo (MsgHeaderWrap.parse rt) p ⟨some h⟩) :
    (h.msg_type ≠ type →
      ((w.ReadPacket host amb s).readMessage rt type wrongType parse out).outcome = .ret (-1) ∧
      ((w.ReadPacket host amb s).readMessage rt type wrongType parse out).out = some out) ∧
    (h.msg_type = type → ∀ m, ParsesTo parse p m →
      ((w.ReadPacket host amb s).readMessage rt type wrongType parse out).outcome = .ret 0 ∧
      ((w.ReadPacket host amb s).readMessage rt type wrongType parse out).out = some m) := by
  obtain ⟨hret, hcarries, _⟩ := w.ReadPacket_frame host amb s p hnew hmax hframe
  have hn : ¬ (p.length : ℤ) ≤ 0 := by omega
  have hwrap := hcarries.parseMsg (MsgHeaderWrap.parse rt)
  rw [parsePayload_of_parsesTo hhdr] at hwrap
  constructor
  · intro hno
    simp only [PacketRead.readMessage, hret, hn, ↓reduceIte, hwrap, headerOf, Option.getD_some,
      ne_eq, hno, not_false_eq_true, and_self]
  · intro heq m hm
    have hbody := hcarries.parseMsg parse
    rw [parsePayload_of_parsesTo hm] at hbody
    simp only [PacketRead.readMessage, hret, hn, ↓reduceIte, hwrap, headerOf, Option.getD_some,
      ne_eq, heq, not_true_eq_false, hbody, and_self]

end Reading

theorem StringMap.toPairs_utf8 {kvs : StringMap}
    (h : ∀ kv ∈ kvs.pairs, validUtf8 kv.1 = true ∧ validUtf8 kv.2 = true) :
    ∀ p ∈ kvs.toPairs, p.Utf8 := by
  intro p hp
  obtain ⟨kv, hkv, rfl⟩ := List.mem_map.mp hp
  exact h kv hkv

theorem MsgCmd.serialize_pos (h : MsgHeader) (cmd : Bytes) (params : List PairStrStr) :
    1 ≤ (MsgCmd.serialize ⟨some h, cmd, params⟩).length := by
  have htag := List.length_pos_iff.mpr (putTag_ne_nil 1 2)
  simp only [MsgCmd.serialize, putHeader, putDelimited, List.length_append]
  omega

theorem MsgResult.serialize_pos (h : MsgHeader) (rc msg : Bytes) (rt_pairs : List PairStrStr) :
    1 ≤ (MsgResult.serialize ⟨some h, rc, msg, rt_pairs⟩).length := by
  have htag := List.length_pos_iff.mpr (putTag_ne_nil 1 2)
  simp only [MsgResult.serialize, putHeader, putDelimited, List.length_append]
  omega

/-- A command, and a result `ReplyResult` builds, are read back as they were by the reader of
    their kind; the reader of the other kind fails and leaves its argument alone. -/
theorem messages_roundtrip (host : Endian) (rt : Runtime) (amb : Ambient) (w : CMsgRW) (s : Sock)
    (msgCmd : MsgCmd) (msgResult : MsgResult) (hnew : amb.newOk = true) :
    (∀ cmd params, validUtf8 cmd = true → (∀ p ∈ params, p.Utf8) →
      (MsgCmd.serialize ⟨some ⟨.Command⟩, cmd, params⟩).length ≤ MAX_ADM_PKG →
      WholeFrame s (MsgCmd.serialize ⟨some ⟨.Command⟩, cmd, params⟩) →
      ((w.ReadCommand host rt amb s msgCmd).outcome = .ret 0 ∧
        (w.ReadCommand host rt amb s msgCmd).out = some ⟨some ⟨.Command⟩, cmd, params⟩) ∧
      (w.ReadResult host rt amb s msgResult).outcome = .ret (-1) ∧
      (w.ReadResult host rt amb s msgResult).out = some msgResult) ∧
    ∀ rc msg apdmsg, validUtf8 rc = true → validUtf8 msg = true →
      (∀ kv ∈ apdmsg.pairs, validUtf8 kv.1 = true ∧ validUtf8 kv.2 = true) →
      (replyMessage rc msg apdmsg).serialize.length ≤ MAX_ADM_PKG →
      WholeFrame s (replyMessage rc msg apdmsg).serialize →
      ((w.ReadResult host rt amb s msgResult).outcome = .ret 0 ∧
        (w.ReadResult host rt amb s msgResult).out = some (replyMessage rc msg apdmsg)) ∧
      (w.ReadCommand host rt amb s msgCmd).outcome = .ret (-1) ∧
      (w.ReadCommand host rt amb s msgCmd).out = some msgCmd := by
  have hmax : MAX_ADM_PKG < 2 ^ 31 := by decide
  constructor
  · intro cmd params hcmd hparams hlen hframe
    have hwrap := MsgHeaderWrap.parsesTo_cmd rt ⟨.Command⟩ (by decide) cmd params (by omega)
    have hbody := MsgCmd.parsesTo rt ⟨.Command⟩ (by decide) cmd params (by omega) hcmd hparams
    have hpos := MsgCmd.serialize_pos ⟨.Command⟩ cmd params
    refine ⟨?_, ?_⟩
    · exact (readMessage_frame host rt amb w s .Command RMSG_NOT_CMD (MsgCmd.parse rt) msgCmd
        hnew hpos hlen hframe hwrap).2 rfl _ hbody
    · exact (readMessage_frame host rt amb w s .Result RMSG_NOT_RESULT (MsgResult.parse rt)
        msgResult hnew hpos hlen hframe hwrap).1 (by decide)
  · intro rc msg apdmsg hrc hmsg hpairs hlen hframe
    have hutf := StringMap.toPairs_utf8 hpairs
    have hwrap := MsgHeaderWrap.parsesTo_result rt ⟨.Result⟩ (by decide) rc msg apdmsg.toPairs
      (hlen.trans_lt hmax)
    have hbody := MsgResult.parsesTo rt ⟨.Result⟩ (by decide) rc msg apdmsg.toPairs
      (hlen.trans_lt hmax) hrc hmsg hutf
    have hpos := MsgResult.serialize_pos ⟨.Result⟩ rc msg apdmsg.toPairs
    refine ⟨?_, ?_⟩
    · exact (readMessage_frame host rt amb w s .Result RMSG_NOT_RESULT (MsgResult.parse rt)
        msgResult hnew hpos hlen hframe hwrap).2 rfl _ hbody
    · exact (readMessage_frame host rt amb w s .Command RMSG_NOT_CMD (MsgCmd.parse rt) msgCmd
        hnew hpos hlen hframe hwrap).1 (by decide)

def nulCommand : MsgCmd := ⟨some ⟨.Command⟩, [115, 0, 116], [⟨[], []⟩, ⟨[0], [195, 169]⟩]⟩

def nulCommandSock : Sock :=
  ⟨unread ((frame nulCommand.serialize).take 3) (.fault ⟨EINTR, []⟩ ::
    unread ((frame nulCommand.serialize).drop 3) [.chunk 7 [7]]), [], []⟩

def nulReply : StringMap := ⟨[([], [0]), ([97], [])], by simp⟩

theorem messages_roundtrip_nul :
    ((CMsgRW.init.ReadCommand .little ⟨true⟩ ⟨0, true⟩ nulCommandSock {}).outcome = .ret 0 ∧
      (CMsgRW.init.ReadCommand .little ⟨true⟩ ⟨0, true⟩ nulCommandSock {}).out =
        some nulCommand) ∧
    (CMsgRW.init.ReadCommand .little ⟨true⟩ ⟨0, true⟩
      ⟨unread (frame (replyMessage [] [111, 107] nulReply).serialize) [], [], []⟩ {}).outcome =
        .ret (-1) :=
  ⟨((messages_roundtrip .little ⟨true⟩ ⟨0, true⟩ CMsgRW.init nulCommandSock {} {} rfl).1
      [115, 0, 116] [⟨[], []⟩, ⟨[0], [195, 169]⟩] (by decide) (by decide) (by decide)
      (by decide)).1,
    ((messages_roundtrip .little ⟨true⟩ ⟨0, true⟩ CMsgRW.init
      ⟨unread (frame (replyMessage [] [111, 107] nulReply).serialize) [], [], []⟩ {} {} rfl).2
      [] [111, 107] nulReply (by decide) (by decide) (by decide) (by decide) (by decide)).2.1⟩

end O2k.MsgBuffer
