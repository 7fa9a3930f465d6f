import O2k.AdminClient
import O2k.AdminParse

set_option autoImplicit false

namespace O2k.AdminClient
open ByteOrder ChunkedSource SocketTransfer MsgBuffer WireFormat AdminMessage

def checkReplyLog (rt : Runtime) (cmd : Bytes) (w : CMsgRW) : ℤ × List MsgType :=
  match w.ParseMsgHeader rt {} with
  | (rc, hdr, w) =>
    if rc ≠ 0 then (1, [])
    else
      let more := if StrCaseEq cmd CMD_GET_METRICS then (readMetrics rt w, [.Metrics]) else (0, [])
      if (headerOf (hdr.getD {}).msg_header).msg_type = .Result then
        match w.ParseResult rt {} with
        | (rc, msgResult, _) =>
          if rc ≠ 0 then (1, [.Result])
          else if StrCaseEq (msgResult.getD {}).rc RC_OK then (more.1, .Result :: more.2)
          else (1, [.Result])
      else more

def ExecuteCommandLog (host : Endian) (rt : Runtime) (ambLogin ambReply : Ambient)
    (ses : CAdmClient) (s : Sock) (cmd : Bytes) (params : StringMap) : Call × List MsgType :=
  if ses.connected then
    let sent := ses.SendCommand host rt ambLogin s cmd params
    match sent.outcome with
    | .bad_alloc => (sent, [])
    | .ret rc =>
      if rc ≠ 0 then ({ sent with outcome := .ret 1 }, [])
      else
        let r := CMsgRW.init.ReadPacket host ambReply sent.sock
        match r.outcome with
        | .bad_alloc => (⟨.bad_alloc, sent.client, r.sock⟩, [])
        | .ret rc =>
          if rc ≤ 0 then (⟨.ret 1, sent.client, r.sock⟩, [])
          else
            let checked := checkReplyLog rt cmd r.rw
            (⟨.ret checked.1, sent.client, r.sock⟩, checked.2)
  else (⟨.ret 1, ses, s⟩, [])

theorem checkReplyLog_fst (rt : Runtime) (cmd : Bytes) (w : CMsgRW) :
    (checkReplyLog rt cmd w).1 = checkReply rt cmd w := by
  unfold checkReplyLog checkReply
  generalize w.ParseMsgHeader rt {} = parsed
  obtain ⟨rc, hdr, v⟩ := parsed
  dsimp only
  generalize v.ParseResult rt {} = result
  obtain ⟨rc', msgResult, _⟩ := result
  dsimp only
  split
  · rfl
  · split
    · split
      · rfl
      · split
        · split <;> rfl
        · rfl
    · split <;> rfl

theorem ExecuteCommandLog_fst (host : Endian) (rt : Runtime) (ambLogin ambReply : Ambient)
    (ses : CAdmClient) (s : Sock) (cmd : Bytes) (params : StringMap) :
    (ExecuteCommandLog host rt ambLogin ambReply ses s cmd params).1 =
      ExecuteCommand host rt ambLogin ambReply ses s cmd params := by
  unfold ExecuteCommandLog ExecuteCommand
  split
  · dsimp only
    generalize ses.SendCommand host rt ambLogin s cmd params = sent
    cases sent.outcome with
    | bad_alloc => rfl
    | ret rc =>
      dsimp only
      split
      · rfl
      · generalize CMsgRW.init.ReadPacket host ambReply sent.sock = r
        cases r.outcome with
        | bad_alloc => rfl
        | ret n =>
          dsimp only
          split
          · rfl
          · rw [checkReplyLog_fst]
  · rfl

def replyPayload (host : Endian) (rt : Runtime) (ambLogin ambReply : Ambient) (ses : CAdmClient)
    (s : Sock) (cmd : Bytes) (params : StringMap) : Option Bytes :=
  let sent := ses.SendCommand host rt ambLogin s cmd params
  if sent.outcome = .ret 0 then
    let r := CMsgRW.init.ReadPacket host ambReply sent.sock
    match r.outcome with
    | .bad_alloc => none
    | .ret rc => if rc ≤ 0 then none else r.rw.cells.read r.rw.m_lenmsg
  else none

/-- The type that `ParseMsgHeader` finds; `typeOf` is that of the whole payload. -/
def typeRead (rt : Runtime) (p : Bytes) : Option MsgType :=
  (parsePayload (MsgHeaderWrap.parse rt) p).map fun hdr => (headerOf hdr.msg_header).msg_type

def OkRead (rt : Runtime) (p : Bytes) : Prop :=
  ∃ m, parsePayload (MsgResult.parse rt) p = some m ∧ StrCaseEq m.rc RC_OK = true

def MetricsRead (rt : Runtime) (p : Bytes) : Prop :=
  (MsgMetrics.parse rt p).isSome = true ∨ (MsgMetrics.parse rt (cutNul p)).isSome = true

def IsGetMetrics (cmd : Bytes) : Prop := StrCaseEq cmd CMD_GET_METRICS = true

def typeOf (rt : Runtime) (p : Bytes) : Option MsgType :=
  (MsgHeaderWrap.parse rt p).map fun hdr => (headerOf hdr.msg_header).msg_type

def okResult (rt : Runtime) (p : Bytes) : Option MsgResult :=
  (MsgResult.parse rt p).filter fun m => StrCaseEq m.rc RC_OK

/-- A body is read as the kind its header names only, and the return value is 0 only for a result
    that says OK to another command than `get_metrics`, and for metrics to `get_metrics`. The
    messages are those that the whole payload is. -/
structure DecodesNamed (rt : Runtime) (cmd : Bytes) (reply : Option Bytes) (outcome : Outcome)
    (decoded : List MsgType) : Prop where
  named : ∀ t ∈ decoded, reply.bind (typeOf rt) = some t
  zero : outcome = .ret 0 → ∃ p, reply = some p ∧
    ((typeOf rt p = some .Result ∧ (okResult rt p).isSome = true ∧ ¬ IsGetMetrics cmd) ∨
      (IsGetMetrics cmd ∧ typeOf rt p = some .Metrics ∧ (MsgMetrics.parse rt p).isSome = true))

/-- The type of the payload answers the command, and no NUL in the payload makes a message of its
    beginning. A result may answer `get_metrics` if it does not say OK. -/
structure Answers (rt : Runtime) (cmd p : Bytes) : Prop where
  header : ¬ NulHidesRest (MsgHeaderWrap.parse rt) p
  type : ∀ t, typeOf rt p = some t →
    (t = .Result ∧ ¬ NulHidesRest (okResult rt) p ∧ (IsGetMetrics cmd → okResult rt p = none)) ∨
      (t = .Metrics ∧ ¬ NulHidesRest (MsgMetrics.parse rt) p ∧ IsGetMetrics cmd)

section Whole

variable {rt : Runtime} {p : Bytes}

theorem typeRead_eq (h : ¬ NulHidesRest (MsgHeaderWrap.parse rt) p) :
    typeRead rt p = typeOf rt p := by
  rw [typeRead, typeOf, parsePayload_eq h]

theorem typeRead_hidden (h : NulHidesRest (MsgHeaderWrap.parse rt) p) :
    (typeRead rt p).isSome = true ∧ typeOf rt p = none := by
  obtain ⟨hsome, hnone⟩ := parsePayload_hidden h (MsgHeaderWrap.parse_rejectsNul rt)
  rw [typeRead, typeOf, Option.isSome_map, hnone]
  exact ⟨hsome, rfl⟩

theorem okResult_isSome :
    (okResult rt p).isSome = true ↔
      ∃ m, MsgResult.parse rt p = some m ∧ StrCaseEq m.rc RC_OK = true := by
  simp only [okResult, Option.isSome_iff_exists, Option.filter_eq_some_iff]

theorem okResult_rejectsNul : RejectsNul (okResult rt) := by
  intro bs tail hok
  obtain ⟨m, hm, _⟩ := okResult_isSome.mp hok
  have hnone := MsgResult.parse_rejectsNul rt bs tail (by rw [hm]; rfl)
  rw [okResult, hnone]
  rfl

theorem okRead_iff :
    OkRead rt p ↔ (okResult rt p).isSome = true ∨ NulHidesRest (okResult rt) p := by
  unfold OkRead
  by_cases hidden : NulHidesRest (MsgResult.parse rt) p
  · obtain ⟨hzero, hcut⟩ := hidden
    obtain ⟨m, hm⟩ := Option.isSome_iff_exists.mp hcut
    have hnone := (parsePayload_hidden ⟨hzero, hcut⟩ (MsgResult.parse_rejectsNul rt)).2
    simp [parsePayload, NulHidesRest, okResult_isSome, hm, hnone, hzero]
  · have hcut : ¬ NulHidesRest (okResult rt) p := by
      rintro ⟨hzero, hok⟩
      obtain ⟨m, hm, _⟩ := okResult_isSome.mp hok
      exact hidden ⟨hzero, by rw [hm]; rfl⟩
    rw [parsePayload_eq hidden, okResult_isSome]
    exact (or_iff_left hcut).symm

theorem metricsRead_iff :
    MetricsRead rt p ↔
      (MsgMetrics.parse rt p).isSome = true ∨ NulHidesRest (MsgMetrics.parse rt) p := by
  unfold MetricsRead NulHidesRest
  by_cases hzero : 0 ∈ p
  · simp [hzero]
  · simp [hzero, cutNul_eq_self hzero]

theorem hidden_none {μ : Type} {parse : Bytes → Option μ} (hrejects : RejectsNul parse)
    (h : NulHidesRest parse p) : ¬ (parse p).isSome = true := by
  rw [(parsePayload_hidden h hrejects).2]
  exact Bool.false_ne_true

end Whole

section Reply

variable {rt : Runtime} {w : CMsgRW} {p : Bytes}

theorem readMetrics_eq_zero (h : w.Carries p) (hpos : 1 ≤ p.length) :
    readMetrics rt w = 0 ↔ MetricsRead rt p := by
  have hcstring : w.cells.cstring (p.length + 1) 0 = some (cutNul p) := by
    rw [← h.lenmsg]
    exact h.cstring
  simp only [readMetrics, h.getPacket hpos, h.holds.read, hcstring, Option.bind_some, MetricsRead]
  cases MsgMetrics.parse rt p with
  | some m => simp
  | none =>
    cases MsgMetrics.parse rt (cutNul p) with
    | some m => simp
    | none => simp

variable (rt) in
theorem checkReplyLog_cases (h : w.Carries p) (hpos : 1 ≤ p.length) (cmd : Bytes) :
    (typeRead rt p = none ∧ checkReplyLog rt cmd w = (1, [])) ∨
      (typeRead rt p = some .Result ∧ ¬ OkRead rt p ∧ checkReplyLog rt cmd w = (1, [.Result])) ∨
      (typeRead rt p = some .Result ∧ OkRead rt p ∧ ¬ IsGetMetrics cmd ∧
        checkReplyLog rt cmd w = (0, [.Result])) ∨
      (typeRead rt p = some .Result ∧ OkRead rt p ∧ IsGetMetrics cmd ∧
        checkReplyLog rt cmd w = (readMetrics rt w, [.Result, .Metrics])) ∨
      ∃ t, typeRead rt p = some t ∧ t ≠ .Result ∧
        ((¬ IsGetMetrics cmd ∧ checkReplyLog rt cmd w = (0, [])) ∨
          (IsGetMetrics cmd ∧ checkReplyLog rt cmd w = (readMetrics rt w, [.Metrics]))) := by
  unfold checkReplyLog typeRead IsGetMetrics
  rw [CMsgRW.ParseMsgHeader, h.parseInto hpos]
  cases hhdr : parsePayload (MsgHeaderWrap.parse rt) p with
  | none => exact .inl ⟨rfl, rfl⟩
  | some hdr =>
    refine .inr ?_
    simp only [Option.map_some, ne_eq, not_true_eq_false, ↓reduceIte, Option.getD_some,
      Option.some.injEq]
    by_cases htype : (headerOf hdr.msg_header).msg_type = .Result
    · simp only [htype, ↓reduceIte, true_and]
      rw [CMsgRW.ParseResult, h.parseInto hpos]
      cases hres : parsePayload (MsgResult.parse rt) p with
      | none =>
        have hno : ¬ OkRead rt p := by
          rintro ⟨m, hm, -⟩
          rw [hres] at hm
          cases hm
        exact .inl ⟨hno, rfl⟩
      | some m =>
        by_cases hok : StrCaseEq m.rc RC_OK = true
        · have hgood : OkRead rt p := ⟨m, hres, hok⟩
          by_cases hcmd : StrCaseEq cmd CMD_GET_METRICS = true
          · exact .inr (.inr (.inl ⟨hgood, hcmd, by simp [hok, hcmd]⟩))
          · exact .inr (.inl ⟨hgood, hcmd, by simp [hok, hcmd]⟩)
        · have hno : ¬ OkRead rt p := by
            rintro ⟨m', hm', hok'⟩
            rw [hres] at hm'
            obtain rfl := Option.some.inj hm'
            exact hok hok'
          exact .inl ⟨hno, by simp [hok]⟩
    · refine .inr (.inr (.inr ⟨_, rfl, htype, ?_⟩))
      simp only [htype, ↓reduceIte]
      by_cases hcmd : StrCaseEq cmd CMD_GET_METRICS = true
      · exact .inr ⟨hcmd, by simp [hcmd]⟩
      · exact .inl ⟨hcmd, by simp [hcmd]⟩

theorem not_decodesNamed_of_hidden (h : w.Carries p) (hpos : 1 ≤ p.length) (cmd : Bytes)
    (hidden : NulHidesRest (MsgHeaderWrap.parse rt) p) :
    ¬ DecodesNamed rt cmd (some p) (.ret (checkReplyLog rt cmd w).1) (checkReplyLog rt cmd w).2 := by
  intro hnamed
  obtain ⟨hsome, hnone⟩ := typeRead_hidden hidden
  -- the payload has no type, so nothing may be read and success is not allowed
  have hunread : ∀ t, t ∉ (checkReplyLog rt cmd w).2 := by
    intro t ht
    have htype := hnamed.named t ht
    rw [Option.bind_some, hnone] at htype
    cases htype
  have hfails : (checkReplyLog rt cmd w).1 ≠ 0 := by
    intro hzero
    obtain ⟨q, hq, ⟨htype, _⟩ | ⟨_, htype, _⟩⟩ := hnamed.zero (by rw [hzero])
    · cases hq
      cases hnone.symm.trans htype
    · cases hq
      cases hnone.symm.trans htype
  rcases checkReplyLog_cases rt h hpos cmd with
    ⟨htype, heq⟩ | ⟨_, _, heq⟩ | ⟨_, _, _, heq⟩ | ⟨_, _, _, heq⟩ |
    ⟨_, _, _, ⟨_, heq⟩ | ⟨_, heq⟩⟩
  · rw [htype] at hsome
    cases hsome
  · exact absurd (by simp [heq]) (hunread .Result)
  · exact absurd (by simp [heq]) (hunread .Result)
  · exact absurd (by simp [heq]) (hunread .Result)
  · exact absurd (by rw [heq]) hfails
  · exact absurd (by simp [heq]) (hunread .Metrics)

section Whole

variable {cmd : Bytes} (hidden : ¬ NulHidesRest (MsgHeaderWrap.parse rt) p)
include hidden

/-- A result that is read as OK, for another command than `get_metrics`. -/
theorem decodesNamed_result (htype : typeOf rt p = some .Result) (hok : OkRead rt p)
    (hcmd : ¬ IsGetMetrics cmd) :
    DecodesNamed rt cmd (some p) (.ret 0) [.Result] ↔ Answers rt cmd p := by
  rw [okRead_iff] at hok
  constructor
  · intro h
    obtain ⟨q, hq, ⟨_, hsays, _⟩ | ⟨hyes, _⟩⟩ := h.zero rfl
    · cases hq
      refine ⟨hidden, fun t ht => ?_⟩
      obtain rfl := Option.some.inj (htype.symm.trans ht)
      exact .inl ⟨rfl, fun hnul => hidden_none okResult_rejectsNul hnul hsays,
        fun hyes => absurd hyes hcmd⟩
    · exact absurd hyes hcmd
  · intro h
    rcases h.type .Result htype with ⟨_, hnul, _⟩ | ⟨hmet, _⟩
    · exact ⟨by simp [htype], fun _ => ⟨p, rfl, .inl ⟨htype, hok.resolve_right hnul, hcmd⟩⟩⟩
    · cases hmet

/-- A body that is read as metrics and as nothing else. -/
theorem decodesNamed_metrics {t : MsgType} {rc : ℤ} (htype : typeOf rt p = some t)
    (hres : t ≠ .Result) (hcmd : IsGetMetrics cmd) (hrc : rc = 0 ↔ MetricsRead rt p) :
    DecodesNamed rt cmd (some p) (.ret rc) [.Metrics] ↔ Answers rt cmd p := by
  rw [metricsRead_iff] at hrc
  constructor
  · intro h
    have hmetrics := h.named .Metrics (by simp)
    rw [Option.bind_some] at hmetrics
    obtain rfl := Option.some.inj (htype.symm.trans hmetrics)
    refine ⟨hidden, fun t ht => ?_⟩
    obtain rfl := Option.some.inj (htype.symm.trans ht)
    refine .inr ⟨rfl, fun hnul => ?_, hcmd⟩
    obtain ⟨q, hq, ⟨hqtype, _⟩ | ⟨_, _, hparses⟩⟩ := h.zero (by rw [hrc.mpr (.inr hnul)])
    · cases hq
      exact absurd (Option.some.inj (htype.symm.trans hqtype)) hres
    · cases hq
      exact hidden_none (MsgMetrics.parse_rejectsNul rt) hnul hparses
  · intro h
    rcases h.type t htype with ⟨ht, _⟩ | ⟨rfl, hnul, _⟩
    · exact absurd ht hres
    · refine ⟨by simp [htype], fun hzero => ⟨p, rfl, .inr ⟨hcmd, htype, ?_⟩⟩⟩
      exact (hrc.mp (Outcome.ret.inj hzero)).resolve_right hnul

end Whole

/-- What the code reads is what the payload is, or the payload has a NUL that hides the rest. -/
theorem decodesNamed_iff (h' : w.Carries p) (hpos : 1 ≤ p.length) (cmd : Bytes) :
    DecodesNamed rt cmd (some p) (.ret (checkReplyLog rt cmd w).1) (checkReplyLog rt cmd w).2 ↔
      Answers rt cmd p := by
  by_cases hidden : NulHidesRest (MsgHeaderWrap.parse rt) p
  · exact ⟨fun h => absurd h (not_decodesNamed_of_hidden h' hpos cmd hidden),
      fun h => absurd hidden h.header⟩
  · rcases checkReplyLog_cases rt h' hpos cmd with
      ⟨hread, heq⟩ | ⟨hread, hno, heq⟩ | ⟨hread, hok, hcmd, heq⟩ | ⟨hread, hok, hcmd, heq⟩ |
      ⟨t, hread, hres, ⟨hcmd, heq⟩ | ⟨hcmd, heq⟩⟩
    all_goals rw [typeRead_eq hidden] at hread
    all_goals rw [heq]
    · -- the header does not parse
      refine ⟨fun _ => ⟨hidden, fun t ht => ?_⟩, fun _ => ⟨by simp, by simp⟩⟩
      cases hread.symm.trans ht
    · -- a result that is not read as OK
      rw [okRead_iff, not_or] at hno
      refine ⟨fun _ => ⟨hidden, fun t ht => ?_⟩, fun _ => ⟨by simp [hread], by simp⟩⟩
      obtain rfl := Option.some.inj (hread.symm.trans ht)
      exact .inl ⟨rfl, hno.2, fun _ => Option.not_isSome_iff_eq_none.mp hno.1⟩
    · exact decodesNamed_result hidden hread hok hcmd
    · -- a result that says OK is read as metrics as well
      constructor
      · intro h
        have hmetrics := h.named .Metrics (by simp)
        rw [Option.bind_some, hread] at hmetrics
        cases hmetrics
      · intro h
        rcases h.type .Result hread with ⟨_, hnul, hno⟩ | ⟨hmet, _⟩
        · have hsays := (okRead_iff.mp hok).resolve_right hnul
          rw [hno hcmd] at hsays
          cases hsays
        · cases hmet
    · -- whatever the type is, nothing is read, and the command has succeeded
      constructor
      · intro h
        obtain ⟨q, hq, ⟨hqtype, _⟩ | ⟨hqcmd, _⟩⟩ := h.zero rfl
        · cases hq
          exact absurd (Option.some.inj (hread.symm.trans hqtype)) hres
        · exact absurd hqcmd hcmd
      · intro h
        rcases h.type t hread with ⟨ht, _⟩ | ⟨_, _, hyes⟩
        · exact absurd ht hres
        · exact absurd hyes hcmd
    · exact decodesNamed_metrics hidden hread hres hcmd (readMetrics_eq_zero h' hpos)

end Reply

theorem SendCommand_connected {host : Endian} {rt : Runtime} {amb : Ambient} {ses : CAdmClient}
    {s : Sock} {cmd : Bytes} {params : StringMap}
    (h : (ses.SendCommand host rt amb s cmd params).outcome = .ret 0) : ses.connected = true := by
  by_contra hno
  have hlogin : (ses.Login host rt amb s).outcome = .ret (-1) := by
    simp only [CAdmClient.Login, hno, ↓reduceIte]
  have hne : (ses.Login host rt amb s).outcome ≠ .ret 0 := by
    rw [hlogin]
    decide
  rw [CAdmClient.SendCommand] at h
  dsimp only at h
  rw [if_pos hne, hlogin] at h
  revert h
  decide

/-- Whatever the server sends: `ExecuteCommand` reads the body of the reply as its header says, and
    succeeds on such replies only, exactly when the payload, as a whole, answers the command. -/
theorem ExecuteCommand_decodes_iff (host : Endian) (rt : Runtime) (ambLogin ambReply : Ambient)
    (ses : CAdmClient) (s : Sock) (cmd : Bytes) (params : StringMap) :
    DecodesNamed rt cmd (replyPayload host rt ambLogin ambReply ses s cmd params)
        (ExecuteCommand host rt ambLogin ambReply ses s cmd params).outcome
        (ExecuteCommandLog host rt ambLogin ambReply ses s cmd params).2 ↔
      ∀ p, replyPayload host rt ambLogin ambReply ses s cmd params = some p →
        Answers rt cmd p := by
  have refuses {outcome : Outcome} (hret : outcome ≠ .ret 0) :
      DecodesNamed rt cmd none outcome [] ↔ ∀ p, (none : Option Bytes) = some p → Answers rt cmd p :=
    ⟨by simp, fun _ => ⟨by simp, fun h => absurd h hret⟩⟩
  rw [← ExecuteCommandLog_fst]
  by_cases hsent : (ses.SendCommand host rt ambLogin s cmd params).outcome = .ret 0
  · have hconn := SendCommand_connected hsent
    have hread := CMsgRW.init.ReadPacket_logged host ambReply
      (ses.SendCommand host rt ambLogin s cmd params).sock
    simp only [ExecuteCommandLog, replyPayload, hconn, ↓reduceIte, hsent, ne_eq,
      not_true_eq_false]
    generalize CMsgRW.init.ReadPacket host ambReply
      (ses.SendCommand host rt ambLogin s cmd params).sock = r at hread ⊢
    cases hout : r.outcome with
    | bad_alloc => exact refuses (by simp)
    | ret n =>
      by_cases hn : n ≤ 0
      · simp only [hn, ↓reduceIte]
        exact refuses (by simp)
      · obtain ⟨p, hlen, _, hcarries, _⟩ := hread.positive n hout (by omega)
        have hpayload : r.rw.cells.read r.rw.m_lenmsg = some p := by
          rw [hcarries.lenmsg]
          exact hcarries.holds.read
        simp only [hn, ↓reduceIte, hpayload, Option.some.injEq, forall_eq']
        exact decodesNamed_iff hcarries (by omega) cmd
  · have hnone : replyPayload host rt ambLogin ambReply ses s cmd params = none := by
      simp only [replyPayload, hsent, ↓reduceIte]
    rw [hnone]
    unfold ExecuteCommandLog
    by_cases hconn : ses.connected = true
    · simp only [hconn, ↓reduceIte]
      cases hout : (ses.SendCommand host rt ambLogin s cmd params).outcome with
      | bad_alloc => exact refuses (by simp [hout])
      | ret rc =>
        have hrc : rc ≠ 0 := by
          rintro rfl
          exact hsent hout
        simp only [ne_eq, hrc, not_false_eq_true, ↓reduceIte]
        exact refuses (by simp)
    · simp only [hconn, Bool.false_eq_true, ↓reduceIte]
      exact refuses (by simp)

def echoedCommand : Sock where
  incoming := unread (frame (replyMessage RC_OK [] StringMap.empty).serialize ++
    frame [10, 2, 8, 1]) []
  outgoing := []
  log := []

theorem echoedCommand_succeeds :
    ¬ DecodesNamed ⟨true⟩ (ascii "pause")
      (replyPayload .little ⟨true⟩ ⟨0, true⟩ ⟨0, true⟩ ⟨true, [], []⟩ echoedCommand (ascii "pause")
        StringMap.empty)
      (ExecuteCommand .little ⟨true⟩ ⟨0, true⟩ ⟨0, true⟩ ⟨true, [], []⟩ echoedCommand
        (ascii "pause") StringMap.empty).outcome
      (ExecuteCommandLog .little ⟨true⟩ ⟨0, true⟩ ⟨0, true⟩ ⟨true, [], []⟩ echoedCommand
        (ascii "pause") StringMap.empty).2 := by
  intro h
  have hreply : replyPayload .little ⟨true⟩ ⟨0, true⟩ ⟨0, true⟩ ⟨true, [], []⟩ echoedCommand
      (ascii "pause") StringMap.empty = some [10, 2, 8, 1] := by decide +kernel
  have htype : typeOf ⟨true⟩ [10, 2, 8, 1] = some .Command := by decide +kernel
  obtain ⟨p, hp, ⟨hres, _⟩ | ⟨_, hmet, _⟩⟩ := h.zero (by decide +kernel)
  · obtain rfl := Option.some.inj (hreply.symm.trans hp)
    rw [htype] at hres
    cases hres
  · obtain rfl := Option.some.inj (hreply.symm.trans hp)
    rw [htype] at hmet
    cases hmet

end O2k.AdminClient
