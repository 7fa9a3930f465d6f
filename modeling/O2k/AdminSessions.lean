import O2k.AdminReply

set_option autoImplicit false

namespace O2k.AdminClient
open ByteOrder ChunkedSource SocketTransfer MsgBuffer WireFormat AdminMessage

structure Calm (s : Sock) : Prop where
  steady : Steady interrupts s.incoming
  slots : SteadySlots s.outgoing

structure Reliable (s : Sock) (stream : Bytes) : Prop extends Calm s where
  stream : items s.incoming = stream

/-- What a session that has written `out` and is to read `stream` on leaves. -/
structure Stands (before s : Sock) (out stream : Bytes) : Prop where
  events : ∃ evs, s.log = before.log ++ evs ∧ bytesOut evs = out ∧ Clean evs
  reliable : Reliable s stream

theorem Stands.wrote {before s : Sock} {out stream : Bytes} (h : Stands before s out stream) :
    bytesOut s.log = bytesOut before.log ++ out := by
  obtain ⟨evs, hlog, hout, _⟩ := h.events
  rw [hlog, bytesOut_append, hout]

section Packets

variable {s before : Sock} {p out more : Bytes}

theorem Reliable.stands {stream : Bytes} (h : Reliable s stream) : Stands s s [] stream where
  events := ⟨[], (List.append_nil _).symm, rfl, .nil⟩
  reliable := h

theorem Reliable.wholeFrame (h : Reliable s (frame p ++ more)) :
    WholeFrame s p ∧ Steady interrupts (fill interrupts (4 + p.length) s.incoming).rest ∧
      items (fill interrupts (4 + p.length) s.incoming).rest = more := by
  have hroom : 4 + p.length ≤ (items s.incoming).length := by
    rw [h.stream, List.length_append, frame_length]
    omega
  obtain ⟨hgot, _, hrest, hsteady⟩ := fill_steady interrupts (4 + p.length) s.incoming h.steady hroom
  rw [h.stream, ← frame_length p, List.take_left] at hgot
  rw [h.stream, ← frame_length p, List.drop_left] at hrest
  rw [frame_length] at hgot hrest
  exact ⟨hgot, hsteady, hrest⟩

theorem Stands.step {s' : Sock} {stream : Bytes} (evs : List IoEvent)
    (h : Stands before s out stream) (hlog : s'.log = s.log ++ evs) (hclean : Clean evs)
    (hreliable : Reliable s' more) : Stands before s' (out ++ bytesOut evs) more where
  events := by
    obtain ⟨evs', hlog', hout, hclean'⟩ := h.events
    exact ⟨evs' ++ evs, by rw [hlog, hlog', List.append_assoc], by rw [bytesOut_append, hout],
      hclean'.append hclean⟩
  reliable := hreliable

theorem ReadPacket_stands (host : Endian) {amb : Ambient} (hnew : amb.newOk = true) (w : CMsgRW)
    (hpos : 1 ≤ p.length) (hmax : p.length ≤ MAX_ADM_PKG) (h : Stands before s out (frame p ++ more)) :
    (w.ReadPacket host amb s).outcome = .ret p.length ∧ (w.ReadPacket host amb s).rw.Carries p ∧
      Stands before (w.ReadPacket host amb s).sock out more := by
  obtain ⟨hwhole, hsteady, hrest⟩ := h.reliable.wholeFrame
  obtain ⟨hret, hcarries, hin, hout, evs, hlog, _, hsilent, hclean⟩ :=
    w.ReadPacket_frame host amb s p hnew hmax hwhole
  have hreliable : Reliable (w.ReadPacket host amb s).sock more := by
    refine ⟨⟨?_, ?_⟩, ?_⟩
    · rw [hin]
      exact hsteady
    · rw [hout]
      exact h.reliable.slots
    · rw [hin]
      exact hrest
  have hread : (IoEvent.packetRead p.length).failed = false := by
    simp only [IoEvent.failed, decide_eq_false_iff_not]
    omega
  have hstands := h.step (evs ++ [.packetRead p.length]) (by rw [hlog, List.append_assoc])
    (hclean.append (.cons hread .nil)) hreliable
  have hwrote : bytesOut (evs ++ [.packetRead p.length]) = [] := by
    rw [bytesOut_append, hsilent]
    rfl
  rw [hwrote, List.append_nil] at hstands
  exact ⟨hret, hcarries, hstands⟩

theorem SendPacket_stands (host : Endian) (w : CMsgRW) {stream : Bytes} (hpos : 1 ≤ p.length)
    (h : Stands before s out stream) :
    (w.SendPacket host s p).1 = p.length ∧
      Stands before (w.SendPacket host s p).2.2 (out ++ frame p) stream := by
  obtain ⟨hret, hsteady⟩ := SendPacket_steady host s p w.m_errbuf h.reliable.slots
  obtain ⟨hin, evs, hlog, _, hres⟩ := SendPacket_writes host s p w.m_errbuf
  obtain ⟨hall, hclean⟩ : bytesOut evs = frame p ∧ Clean evs := by
    rcases hres with ⟨_, hall, hclean⟩ | ⟨hfail, _⟩
    · exact ⟨hall, hclean⟩
    · rw [hret] at hfail
      omega
  have hreliable : Reliable (w.SendPacket host s p).2.2 stream := by
    refine ⟨⟨?_, hsteady⟩, ?_⟩
    · rw [CMsgRW.SendPacket, Sock.record_incoming, hin]
      exact h.reliable.steady
    · rw [CMsgRW.SendPacket, Sock.record_incoming, hin]
      exact h.reliable.stream
  have hsent : (IoEvent.packetSent (w.SendPacket host s p).1).failed = false := by
    change (SendPacket host s p w.m_errbuf).ret = _ at hret
    simp only [IoEvent.failed, CMsgRW.SendPacket, hret, decide_eq_false_iff_not]
    omega
  have hstands := h.step (evs ++ [.packetSent (w.SendPacket host s p).1])
    (by simp only [CMsgRW.SendPacket, Sock.record_log, hlog, List.append_assoc])
    (hclean.append (.cons hsent .nil)) hreliable
  have hwrote : bytesOut (evs ++ [.packetSent (w.SendPacket host s p).1]) = frame p := by
    rw [bytesOut_append, hall]
    exact List.append_nil _
  rw [hwrote] at hstands
  exact ⟨hret, hstands⟩

end Packets

def Accepts (rt : Runtime) (p : Bytes) : Prop :=
  ∃ m, resultOf rt p = some m ∧ StrCaseEq m.rc RC_OK = true

instance (rt : Runtime) (p : Bytes) : Decidable (Accepts rt p) :=
  match h : resultOf rt p with
  | none => isFalse fun ⟨m, hm, _⟩ => by
      rw [h] at hm
      cases hm
  | some m => decidable_of_iff (StrCaseEq m.rc RC_OK = true) (by simp [Accepts, h])

section Session

variable {host : Endian} {rt : Runtime} {amb : Ambient} {s before : Sock} {out welcome more : Bytes}

theorem readMessage_sock {μ : Type} (type : MsgType) (wrongType : Bytes) (parse : Bytes → Option μ)
    (given : μ) (r : PacketRead) :
    (r.readMessage rt type wrongType parse given).sock = r.sock := by
  unfold PacketRead.readMessage
  cases r.outcome with
  | bad_alloc => rfl
  | ret n =>
    dsimp only
    split
    · rfl
    · split
      · rfl
      · split
        · rfl
        · split <;> rfl

variable (host rt) in
theorem ReadResult_stands (hnew : amb.newOk = true) (w : CMsgRW) (given : MsgResult)
    (hpos : 1 ≤ welcome.length) (hmax : welcome.length ≤ MAX_ADM_PKG)
    (h : Stands before s out (frame welcome ++ more)) :
    Stands before (w.ReadResult host rt amb s given).sock out more ∧
      match resultOf rt welcome with
      | none => (w.ReadResult host rt amb s given).outcome = .ret (-1)
      | some m => (w.ReadResult host rt amb s given).outcome = .ret 0 ∧
          (w.ReadResult host rt amb s given).out = some m := by
  obtain ⟨hret, hcarries, hstands⟩ := ReadPacket_stands host hnew w hpos hmax h
  refine ⟨?_, ?_⟩
  · rw [CMsgRW.ReadResult, readMessage_sock]
    exact hstands
  · have hn : ¬ (welcome.length : ℤ) ≤ 0 := by omega
    simp only [CMsgRW.ReadResult, PacketRead.readMessage, hret, hn, ↓reduceIte, hcarries.parseMsg,
      resultOf]
    cases parsePayload (MsgHeaderWrap.parse rt) welcome with
    | none => rfl
    | some hdr =>
      by_cases htype : (headerOf hdr.msg_header).msg_type = .Result
      · simp only [htype, Option.bind_some, ↓reduceIte, ne_eq, not_true_eq_false]
        cases parsePayload (MsgResult.parse rt) welcome with
        | none => rfl
        | some m => exact ⟨rfl, rfl⟩
      · simp only [htype, Option.bind_some, ↓reduceIte, ne_eq, not_false_eq_true]

variable (host rt) in
theorem Login_stands (hnew : amb.newOk = true) {c : CAdmClient} (hconn : c.connected = true)
    (hlogin : (loginCommand c.m_pwd).serialize.length < 2 ^ 31) (hpos : 1 ≤ welcome.length)
    (hmax : welcome.length ≤ MAX_ADM_PKG) (h : Stands before s out (frame welcome ++ more)) :
    Stands before (c.Login host rt amb s).sock
        (out ++ frame (loginCommand c.m_pwd).serialize) more ∧
      if Accepts rt welcome then c.Login host rt amb s = ⟨.ret 0, c, (c.Login host rt amb s).sock⟩
      else (c.Login host rt amb s).outcome = .ret (-1) := by
  have hlen : 1 ≤ (loginCommand c.m_pwd).serialize.length := MsgCmd.serialize_pos _ _ _
  obtain ⟨hret, hsent⟩ := SendPacket_stands host CMsgRW.init hlen h
  have hrc : ¬ ((loginCommand c.m_pwd).serialize.length : ℤ) ≤ 0 := by omega
  have hser : SerializeToString (loginCommand c.m_pwd).serialize =
      some (loginCommand c.m_pwd).serialize := if_pos hlogin
  unfold CAdmClient.Login
  simp only [hconn, ↓reduceIte, CMsgRW.ExecCmdResult, hser]
  generalize CMsgRW.init.SendPacket host s (loginCommand c.m_pwd).serialize = sent at hret hsent
  obtain ⟨rc, w, s'⟩ := sent
  dsimp only at hret hsent ⊢
  subst hret
  simp only [hrc, ↓reduceIte]
  obtain ⟨hstands, hresult⟩ := ReadResult_stands host rt hnew w {} hpos hmax hsent
  generalize w.ReadResult host rt amb s' {} = r at hstands hresult ⊢
  cases hwelcome : resultOf rt welcome with
  | none =>
    have hno : ¬ Accepts rt welcome := by simp [Accepts, hwelcome]
    rw [hwelcome] at hresult
    dsimp only at hresult
    simp [hresult, hno, hstands]
  | some m =>
    rw [hwelcome] at hresult
    obtain ⟨houtcome, hout⟩ := hresult
    by_cases hok : StrCaseEq m.rc RC_OK = true
    · have hyes : Accepts rt welcome := ⟨m, hwelcome, hok⟩
      simp [houtcome, hout, hok, hyes, hstands]
    · have hno : ¬ Accepts rt welcome := by simp [Accepts, hwelcome, hok]
      simp [houtcome, hout, hok, hno, hstands]

variable (host rt) in
theorem SendCommand_stands (hnew : amb.newOk = true) {c : CAdmClient} (hconn : c.connected = true)
    (cmd : Bytes) (params : StringMap) (hlogin : (loginCommand c.m_pwd).serialize.length < 2 ^ 31)
    (huser : (userCommand cmd params).serialize.length < 2 ^ 31) (hpos : 1 ≤ welcome.length)
    (hmax : welcome.length ≤ MAX_ADM_PKG) (h : Stands before s out (frame welcome ++ more)) :
    if Accepts rt welcome then
      (c.SendCommand host rt amb s cmd params).outcome = .ret 0 ∧
        Stands before (c.SendCommand host rt amb s cmd params).sock
          (out ++ frame (loginCommand c.m_pwd).serialize ++ frame (userCommand cmd params).serialize)
          more
    else
      (c.SendCommand host rt amb s cmd params).outcome = .ret (-1) ∧
        Stands before (c.SendCommand host rt amb s cmd params).sock
          (out ++ frame (loginCommand c.m_pwd).serialize) more := by
  obtain ⟨hstands, hcall⟩ := Login_stands host rt hnew hconn hlogin hpos hmax h
  have hser : SerializeToString (userCommand cmd params).serialize =
      some (userCommand cmd params).serialize := if_pos huser
  unfold CAdmClient.SendCommand
  by_cases hok : Accepts rt welcome
  · rw [if_pos hok] at hcall ⊢
    have hlen : 1 ≤ (userCommand cmd params).serialize.length := MsgCmd.serialize_pos _ _ _
    obtain ⟨hret, hsent⟩ := SendPacket_stands host CMsgRW.init hlen hstands
    have hrc : ¬ ((userCommand cmd params).serialize.length : ℤ) ≤ 0 := by omega
    generalize c.Login host rt amb s = login at hcall hret hsent ⊢
    have houtcome : login.outcome = .ret 0 := by rw [hcall]
    simp only [houtcome, ne_eq, not_true_eq_false, ↓reduceIte, hser]
    generalize CMsgRW.init.SendPacket host login.sock (userCommand cmd params).serialize = sent
      at hret hsent ⊢
    obtain ⟨rc, w, s'⟩ := sent
    dsimp only at hret hsent ⊢
    subst hret
    simp only [hrc, ↓reduceIte]
    exact ⟨trivial, hsent⟩
  · rw [if_neg hok] at hcall ⊢
    simp [hcall, hstands]

end Session

/-- Whatever two payloads the server sends, and however they arrive: the command is written once the
    first one accepts the login, and the second one is read then and not otherwise. -/
theorem ExecuteCommand_stands (host : Endian) (rt : Runtime) {ambLogin ambReply : Ambient}
    (ses : CAdmClient) {s : Sock} (cmd : Bytes) (params : StringMap) {welcome reply more : Bytes}
    (hnew : ambLogin.newOk = true ∧ ambReply.newOk = true) (hconn : ses.connected = true)
    (hlogin : (loginCommand ses.m_pwd).serialize.length < 2 ^ 31)
    (huser : (userCommand cmd params).serialize.length < 2 ^ 31)
    (hwelcome : 1 ≤ welcome.length ∧ welcome.length ≤ MAX_ADM_PKG)
    (hreply : 1 ≤ reply.length ∧ reply.length ≤ MAX_ADM_PKG)
    (h : Reliable s (frame welcome ++ (frame reply ++ more))) :
    if Accepts rt welcome then
      (∃ w : CMsgRW, w.Carries reply ∧
        (ExecuteCommand host rt ambLogin ambReply ses s cmd params).outcome =
          .ret (checkReply rt cmd w)) ∧
      Stands s (ExecuteCommand host rt ambLogin ambReply ses s cmd params).sock
        (frame (loginCommand ses.m_pwd).serialize ++ frame (userCommand cmd params).serialize) more
    else
      (ExecuteCommand host rt ambLogin ambReply ses s cmd params).outcome = .ret 1 ∧
      Stands s (ExecuteCommand host rt ambLogin ambReply ses s cmd params).sock
        (frame (loginCommand ses.m_pwd).serialize) (frame reply ++ more) := by
  have hsent := SendCommand_stands host rt hnew.1 hconn cmd params hlogin huser
    hwelcome.1 hwelcome.2 h.stands
  unfold ExecuteCommand
  simp only [hconn, ↓reduceIte]
  generalize ses.SendCommand host rt ambLogin s cmd params = sent at hsent ⊢
  by_cases hok : Accepts rt welcome
  · rw [if_pos hok] at hsent ⊢
    obtain ⟨hret, hstands⟩ := hsent
    obtain ⟨hread, hcarries, hend⟩ :=
      ReadPacket_stands host hnew.2 CMsgRW.init hreply.1 hreply.2 hstands
    have hn : ¬ (reply.length : ℤ) ≤ 0 := by omega
    rw [List.nil_append] at hend
    simp only [hret, ne_eq, not_true_eq_false, ↓reduceIte, hread, hn]
    exact ⟨⟨_, hcarries, rfl⟩, hend⟩
  · rw [if_neg hok] at hsent ⊢
    obtain ⟨hret, hstands⟩ := hsent
    rw [List.nil_append] at hstands
    simp [hret, hstands]

def replyAll (host : Endian) : CMsgRW → Sock → List (Bytes × Bytes × StringMap) → List ℤ × Sock
  | _, s, [] => ([], s)
  | w, s, (rc, msg, apdmsg) :: rest =>
    match w.ReplyResult host s rc msg apdmsg with
    | (ret, w', s') => (ret :: (replyAll host w' s' rest).1, (replyAll host w' s' rest).2)

def readCommands (host : Endian) (rt : Runtime) : List Ambient → Sock → List (Reading MsgCmd)
  | [], _ => []
  | amb :: ambs, s =>
    let r := CMsgRW.init.ReadCommand host rt amb s {}
    r :: readCommands host rt ambs r.sock

def replyPayloadOf (reply : Bytes × Bytes × StringMap) : Bytes :=
  (replyMessage reply.1 reply.2.1 reply.2.2).serialize

structure Sendable (reply : Bytes × Bytes × StringMap) : Prop where
  rc : validUtf8 reply.1 = true
  msg : validUtf8 reply.2.1 = true
  pairs : ∀ kv ∈ reply.2.2.pairs, validUtf8 kv.1 = true ∧ validUtf8 kv.2 = true
  fits : (replyPayloadOf reply).length ≤ MAX_ADM_PKG

structure SendableCmd (m : MsgCmd) : Prop where
  header : m.msg_header = some ⟨.Command⟩
  cmd : validUtf8 m.cmd = true
  params : ∀ p ∈ m.params, p.Utf8
  fits : m.serialize.length ≤ MAX_ADM_PKG

section Peer

variable {s before : Sock} {out stream more : Bytes}

theorem max_small {n : ℕ} (h : n ≤ MAX_ADM_PKG) : n < 2 ^ 31 := by
  unfold MAX_ADM_PKG at h
  omega

theorem replyAll_stands (host : Endian) (w : CMsgRW) (rs : List (Bytes × Bytes × StringMap))
    (hrs : ∀ reply ∈ rs, Sendable reply) (h : Stands before s out stream) :
    (replyAll host w s rs).1 = rs.map (fun _ => 0) ∧
      Stands before (replyAll host w s rs).2 (out ++ frames (rs.map replyPayloadOf)) stream := by
  induction rs generalizing w s out with
  | nil =>
    refine ⟨rfl, ?_⟩
    change Stands before s (out ++ frames []) stream
    rw [frames_nil, List.append_nil]
    exact h
  | cons reply rs ih =>
    obtain ⟨hreply, hrest⟩ := List.forall_mem_cons.mp hrs
    have hlen : 1 ≤ (replyPayloadOf reply).length := MsgResult.serialize_pos _ _ _ _
    obtain ⟨hret, hsent⟩ := SendPacket_stands host w hlen h
    have hser : SerializeToString (replyPayloadOf reply) = some (replyPayloadOf reply) :=
      if_pos (max_small hreply.fits)
    have heq : w.ReplyResult host s reply.1 reply.2.1 reply.2.2 =
        (0, (w.SendPacket host s (replyPayloadOf reply)).2) := by
      change SerializeToString (replyMessage _ _ _).serialize = _ at hser
      rw [CMsgRW.ReplyResult, hser]
      change (w.SendPacket host s (replyMessage _ _ _).serialize).1 = _ at hret
      simp [hret, replyPayloadOf]
    obtain ⟨hrets, hend⟩ := ih (w.SendPacket host s (replyPayloadOf reply)).2.1 hrest hsent
    obtain ⟨rc, msg, apdmsg⟩ := reply
    simp only [replyAll, heq, List.map_cons, hrets, frames_cons, true_and]
    rw [← List.append_assoc]
    exact hend

theorem readCommands_stands (host : Endian) (rt : Runtime) (ambs : List Ambient) (ms : List MsgCmd)
    (hms : ∀ m ∈ ms, SendableCmd m) (hlen : ambs.length = ms.length)
    (hnew : ∀ amb ∈ ambs, amb.newOk = true) (h : Reliable s (frames (ms.map MsgCmd.serialize))) :
    (readCommands host rt ambs s).map (fun r => (r.outcome, r.out)) =
      ms.map fun m => (.ret 0, some m) := by
  induction ms generalizing ambs s with
  | nil =>
    obtain rfl : ambs = [] := by simpa using hlen
    rfl
  | cons m ms ih =>
    match ambs, hlen with
    | amb :: ambs, hlen =>
      obtain ⟨hm, hrest⟩ := List.forall_mem_cons.mp hms
      obtain ⟨hamb, hambs⟩ := List.forall_mem_cons.mp hnew
      rw [List.map_cons, frames_cons] at h
      obtain ⟨header, cmd, params⟩ := m
      obtain rfl : header = some ⟨.Command⟩ := hm.header
      have hpos := MsgCmd.serialize_pos ⟨.Command⟩ cmd params
      obtain ⟨_, _, hend⟩ := ReadPacket_stands host hamb CMsgRW.init hpos hm.fits h.stands
      obtain ⟨hret, hout⟩ := (readMessage_frame host rt amb CMsgRW.init s .Command RMSG_NOT_CMD
        (MsgCmd.parse rt) {} hamb hpos hm.fits h.wholeFrame.1
        (MsgHeaderWrap.parsesTo_cmd rt ⟨.Command⟩ (by decide) cmd params (max_small hm.fits))).2 rfl
        _ (MsgCmd.parsesTo rt ⟨.Command⟩ (by decide) cmd params (max_small hm.fits) hm.cmd hm.params)
      rw [readCommands, List.map_cons, List.map_cons]
      have htail : Reliable (CMsgRW.init.ReadCommand host rt amb s {}).sock
          (frames (ms.map MsgCmd.serialize)) := by
        rw [CMsgRW.ReadCommand, readMessage_sock]
        exact hend.reliable
      rw [ih ambs hrest (by simpa using hlen) hambs htail]
      rw [CMsgRW.ReadCommand, hret, hout]

variable {rt : Runtime} {reply : Bytes × Bytes × StringMap}

theorem parsePayload_header (h : Sendable reply) :
    parsePayload (MsgHeaderWrap.parse rt) (replyPayloadOf reply) = some ⟨some ⟨.Result⟩⟩ :=
  parsePayload_of_parsesTo (MsgHeaderWrap.parsesTo_result rt ⟨.Result⟩ (by decide) _ _ _
    (max_small h.fits))

theorem parsePayload_reply (h : Sendable reply) :
    parsePayload (MsgResult.parse rt) (replyPayloadOf reply) =
      some (replyMessage reply.1 reply.2.1 reply.2.2) :=
  parsePayload_of_parsesTo (MsgResult.parsesTo rt ⟨.Result⟩ (by decide) _ _ _ (max_small h.fits)
    h.rc h.msg (StringMap.toPairs_utf8 h.pairs))

theorem accepts_reply_iff (h : Sendable reply) :
    Accepts rt (replyPayloadOf reply) ↔ StrCaseEq reply.1 RC_OK = true := by
  have hresult : resultOf rt (replyPayloadOf reply) =
      some (replyMessage reply.1 reply.2.1 reply.2.2) := by
    rw [resultOf, parsePayload_header h, parsePayload_reply h]
    rfl
  simp [Accepts, hresult, replyMessage]

/-- The header of a result is written as an empty body, so the payload begins with 10 and a NUL. -/
theorem cutNul_reply (reply : Bytes × Bytes × StringMap) : cutNul (replyPayloadOf reply) = [10] := rfl

theorem metricsRead_reply_iff (h : Sendable reply) :
    MetricsRead rt (replyPayloadOf reply) ↔ (PairIntDbl.parse rt reply.2.1).isSome = true := by
  have hcut : MsgMetrics.parse rt [10] = none := by
    obtain ⟨clip⟩ := rt
    cases clip <;> rfl
  have hwhole := MsgMetrics.parse_result rt reply.1 reply.2.1 reply.2.2.toPairs (max_small h.fits)
  change (MsgMetrics.parse rt (replyPayloadOf reply)).isSome = _ at hwhole
  rw [MetricsRead, cutNul_reply, hcut, hwhole]
  simp

theorem checkReply_reply {w : CMsgRW} (hw : w.Carries (replyPayloadOf reply)) (h : Sendable reply)
    (cmd : Bytes) :
    checkReply rt cmd w = 0 ↔ StrCaseEq reply.1 RC_OK = true ∧
      (IsGetMetrics cmd → (PairIntDbl.parse rt reply.2.1).isSome = true) := by
  have hpos : 1 ≤ (replyPayloadOf reply).length := MsgResult.serialize_pos _ _ _ _
  have hresult : typeRead rt (replyPayloadOf reply) = some .Result := by
    rw [typeRead, parsePayload_header h]
    rfl
  have hok : OkRead rt (replyPayloadOf reply) ↔ StrCaseEq reply.1 RC_OK = true := by
    simp [OkRead, parsePayload_reply h, replyMessage]
  rw [← checkReplyLog_fst, ← hok, ← metricsRead_reply_iff h]
  rcases checkReplyLog_cases rt hw hpos cmd with
    ⟨htype, _⟩ | ⟨_, hno, heq⟩ | ⟨_, hyes, hcmd, heq⟩ | ⟨_, hyes, hcmd, heq⟩ | ⟨t, htype, hne, _⟩
  · cases hresult.symm.trans htype
  · simp [heq, hno]
  · simp [heq, hyes, hcmd]
  · simp [heq, hyes, hcmd, readMetrics_eq_zero hw hpos]
  · exact absurd (Option.some.inj (htype.symm.trans hresult)) hne

end Peer

def exchanged (pwd rc cmd : Bytes) (params : StringMap) : List MsgCmd :=
  if StrCaseEq rc RC_OK then [loginCommand pwd, userCommand cmd params] else [loginCommand pwd]

theorem ExecuteCommand_replies (host : Endian) (rt : Runtime) {ambLogin ambReply : Ambient}
    (ses : CAdmClient) {s : Sock} (cmd : Bytes) (params : StringMap)
    {first second : Bytes × Bytes × StringMap} {more : Bytes}
    (hnew : ambLogin.newOk = true ∧ ambReply.newOk = true) (hconn : ses.connected = true)
    (hlogin : (loginCommand ses.m_pwd).serialize.length < 2 ^ 31)
    (huser : (userCommand cmd params).serialize.length < 2 ^ 31)
    (hfirst : Sendable first) (hsecond : Sendable second)
    (h : Reliable s (frame (replyPayloadOf first) ++ (frame (replyPayloadOf second) ++ more))) :
    (∃ rc, (ExecuteCommand host rt ambLogin ambReply ses s cmd params).outcome = .ret rc ∧
      (rc = 0 ↔ StrCaseEq first.1 RC_OK = true ∧ StrCaseEq second.1 RC_OK = true ∧
        (IsGetMetrics cmd → (PairIntDbl.parse rt second.2.1).isSome = true))) ∧
    Stands s (ExecuteCommand host rt ambLogin ambReply ses s cmd params).sock
      (frames ((exchanged ses.m_pwd first.1 cmd params).map MsgCmd.serialize))
      (if StrCaseEq first.1 RC_OK then more else frame (replyPayloadOf second) ++ more) := by
  have hpos (reply : Bytes × Bytes × StringMap) : 1 ≤ (replyPayloadOf reply).length :=
    MsgResult.serialize_pos _ _ _ _
  have hstands := ExecuteCommand_stands host rt ses cmd params hnew hconn hlogin huser
    ⟨hpos first, hfirst.fits⟩ ⟨hpos second, hsecond.fits⟩ h
  simp only [accepts_reply_iff hfirst] at hstands
  unfold exchanged
  by_cases hok : StrCaseEq first.1 RC_OK = true
  · rw [if_pos hok] at hstands ⊢
    obtain ⟨⟨w, hcarries, hret⟩, hend⟩ := hstands
    refine ⟨⟨_, hret, ?_⟩, ?_⟩
    · rw [checkReply_reply hcarries hsecond, hok]
      simp
    · rw [if_pos hok]
      simpa [frames] using hend
  · rw [if_neg hok] at hstands ⊢
    obtain ⟨hret, hend⟩ := hstands
    refine ⟨⟨1, hret, by simp [hok]⟩, ?_⟩
    rw [if_neg hok]
    simpa [frames] using hend

/-- Both ends of a session, however the bytes travel: the peer reads the login, and the command if it
    has accepted the login, just as the client built them, and the client returns 0 just when both
    replies say OK, and the text of the second one reads as metrics if they were asked for. -/
theorem session_exchanged (host peerHost : Endian) (rt : Runtime) {ambLogin ambReply : Ambient}
    {ses : CAdmClient} {s peer : Sock} {cmd : Bytes} {params : StringMap} (w : CMsgRW)
    {first second : Bytes × Bytes × StringMap}
    (hnew : ambLogin.newOk = true ∧ ambReply.newOk = true) (hconn : ses.connected = true)
    (hlogin : SendableCmd (loginCommand ses.m_pwd)) (huser : SendableCmd (userCommand cmd params))
    (hfirst : Sendable first) (hsecond : Sendable second) (hs : Calm s) (hpeer : Calm peer)
    (hjoined : bytesOut (replyAll peerHost w peer [first, second]).2.log =
      bytesOut peer.log ++ items s.incoming) :
    (replyAll peerHost w peer [first, second]).1 = [0, 0] ∧
    ((ExecuteCommand host rt ambLogin ambReply ses s cmd params).outcome = .ret 0 ↔
      StrCaseEq first.1 RC_OK = true ∧ StrCaseEq second.1 RC_OK = true ∧
        (IsGetMetrics cmd → (PairIntDbl.parse rt second.2.1).isSome = true)) ∧
    ∀ (inp : Sock) (ambs : List Ambient), Calm inp →
      bytesOut (ExecuteCommand host rt ambLogin ambReply ses s cmd params).sock.log =
        bytesOut s.log ++ items inp.incoming →
      ambs.length = (exchanged ses.m_pwd first.1 cmd params).length →
      (∀ amb ∈ ambs, amb.newOk = true) →
      (readCommands peerHost rt ambs inp).map (fun r => (r.outcome, r.out)) =
        (exchanged ses.m_pwd first.1 cmd params).map fun m => (.ret 0, some m) := by
  have hreplies : ∀ reply ∈ [first, second], Sendable reply := by simp [hfirst, hsecond]
  have hpeerStands : Stands peer peer [] (items peer.incoming) := Reliable.stands ⟨hpeer, rfl⟩
  obtain ⟨hrets, hreplied⟩ := replyAll_stands peerHost w [first, second] hreplies hpeerStands
  -- what the client receives is the two replies, and nothing else
  have hstream : items s.incoming =
      frame (replyPayloadOf first) ++ (frame (replyPayloadOf second) ++ []) :=
    List.append_cancel_left (hjoined.symm.trans hreplied.wrote)
  obtain ⟨⟨rc, hret, hrc⟩, hend⟩ := ExecuteCommand_replies host rt ses cmd params hnew hconn
    (max_small hlogin.fits) (max_small huser.fits) hfirst hsecond ⟨hs, hstream⟩
  refine ⟨hrets, ?_, ?_⟩
  · rw [hret, Outcome.ret.injEq, hrc]
  · intro inp ambs hinp hwritten hlen hambs
    have hcmds : ∀ m ∈ exchanged ses.m_pwd first.1 cmd params, SendableCmd m := by
      unfold exchanged
      split <;> simp [hlogin, huser]
    have hread : items inp.incoming =
        frames ((exchanged ses.m_pwd first.1 cmd params).map MsgCmd.serialize) :=
      List.append_cancel_left (hwritten.symm.trans hend.wrote)
    exact readCommands_stands peerHost rt ambs _ hcmds hlen hambs ⟨hinp, hread⟩

def okReply : Bytes × Bytes × StringMap := (ascii "oK", [], StringMap.empty)

def rowsReply : Bytes × Bytes × StringMap :=
  (RC_OK, ascii "done", ⟨[(ascii "rows", ascii "5")], by simp⟩)

def rowsServer : Sock where
  incoming := unread ((frames [replyPayloadOf okReply, replyPayloadOf rowsReply]).take 3)
    (.fault ⟨EINTR, []⟩ ::
      unread (((frames [replyPayloadOf okReply, replyPayloadOf rowsReply]).drop 3).take 9)
        (unread ((frames [replyPayloadOf okReply, replyPayloadOf rowsReply]).drop 12) []))
  outgoing := [.room 1, .fault ⟨EINTR, []⟩]
  log := []

theorem steady_interrupted (src : Source SysError UInt8) (h : Steady interrupts src) :
    Steady interrupts (.fault ⟨EINTR, []⟩ :: src) := by
  intro e he
  rcases List.mem_cons.mp he with heq | he
  · cases heq
    rfl
  · exact h e he

theorem rowsServer_calm : Calm rowsServer where
  steady := by
    have hnil : Steady interrupts ([] : Source SysError UInt8) := by simp [Steady]
    dsimp only [rowsServer]
    exact (steady_interrupted _ ((hnil.unread _).unread _)).unread _
  slots := by simp [SteadySlots, rowsServer, EINTR]

theorem session_exchanged_rows :
    (replyAll .big CMsgRW.init ⟨[], [.room 0], []⟩ [okReply, rowsReply]).1 = [0, 0] ∧
    ((ExecuteCommand .little ⟨true⟩ ⟨0, true⟩ ⟨0, true⟩ ⟨true, ascii "pwd", []⟩ rowsServer
        (ascii "list") StringMap.empty).outcome = .ret 0 ↔
      StrCaseEq okReply.1 RC_OK = true ∧ StrCaseEq rowsReply.1 RC_OK = true ∧
        (IsGetMetrics (ascii "list") → (PairIntDbl.parse ⟨true⟩ rowsReply.2.1).isSome = true)) ∧
    ∀ (inp : Sock) (ambs : List Ambient), Calm inp →
      bytesOut (ExecuteCommand .little ⟨true⟩ ⟨0, true⟩ ⟨0, true⟩ ⟨true, ascii "pwd", []⟩ rowsServer
        (ascii "list") StringMap.empty).sock.log =
          bytesOut rowsServer.log ++ items inp.incoming →
      ambs.length = (exchanged (ascii "pwd") okReply.1 (ascii "list") StringMap.empty).length →
      (∀ amb ∈ ambs, amb.newOk = true) →
      (readCommands .big ⟨true⟩ ambs inp).map (fun r => (r.outcome, r.out)) =
        (exchanged (ascii "pwd") okReply.1 (ascii "list") StringMap.empty).map
          fun m => (.ret 0, some m) :=
  session_exchanged .little .big ⟨true⟩ CMsgRW.init ⟨rfl, rfl⟩ rfl
    ⟨rfl, by decide, by decide, by decide⟩ ⟨rfl, by decide, by decide, by decide⟩
    ⟨by decide, by decide, by decide, by decide⟩ ⟨by decide, by decide, by decide, by decide⟩
    rowsServer_calm
    ⟨by simp [Steady], by simp [SteadySlots]⟩ (by decide +kernel)

end O2k.AdminClient
