import O2k.AdminClientSafety
import O2k.ReadErrors

set_option autoImplicit false

namespace O2k.AdminClient
open ByteOrder ChunkedSource SocketTransfer MsgBuffer WireFormat AdminMessage

def CAdmClient.GetErrMsg (c : CAdmClient) : Bytes := cutNul c.m_err

theorem CAdmClient.GetErrMsg_setErr (c : CAdmClient) (text : Bytes) :
    (c.setErr text).GetErrMsg = [] ↔ cutNul text = [] := by
  rw [GetErrMsg, setErr, cutNul_snprintf]
  cases text with
  | nil => rfl
  | cons b bs =>
    rw [cutNul_cons]
    split
    · rfl
    · rename_i hb
      rw [cutNul_cons, if_neg hb]
      simp

def Replies (rt : Runtime) (amb : Ambient) (s : Sock) (r : MsgResult) : Prop :=
  ∃ p, Arrives amb s p ∧ resultOf rt p = some r

def messageSlots (message : Bytes) (s : Sock) : Option (List SendSlot) :=
  (SerializeToString message).bind fun pkg => frameSlotsAfter pkg.length s.outgoing

def loginSlots (c : CAdmClient) (s : Sock) : Option (List SendSlot) :=
  messageSlots (loginCommand c.m_pwd).serialize s

def LoginRejected (rt : Runtime) (amb : Ambient) (c : CAdmClient) (s : Sock) : Prop :=
  c.connected = true ∧ (loginSlots c s).isSome ∧
    ∃ r, Replies rt amb s r ∧ StrCaseEq r.rc RC_OK = false

/-- A failure that is no rejected login has its cause in `GetErrMsg`. -/
def Explains (host : Endian) (rt : Runtime) (amb : Ambient) (c : CAdmClient) (s : Sock)
    (cmd : Bytes) (params : StringMap) : Prop :=
  ∀ rc, (c.SendCommand host rt amb s cmd params).outcome = .ret rc → rc ≠ 0 →
    ¬ LoginRejected rt amb c s → (c.SendCommand host rt amb s cmd params).client.GetErrMsg ≠ []

/-- The login is sent, and its reply has length 0; or it is accepted, the send of the command
    meets an error, and the client has no earlier text. -/
def LeavesNoText (host : Endian) (rt : Runtime) (amb : Ambient) (c : CAdmClient) (s : Sock)
    (cmd : Bytes) (params : StringMap) : Prop :=
  c.connected = true ∧ ∃ slots, loginSlots c s = some slots ∧
    (arrivingLen host amb.header s.incoming = some 0 ∨
      (c.GetErrMsg = [] ∧ (∃ r, Replies rt amb s r ∧ StrCaseEq r.rc RC_OK = true) ∧
        ∃ pkg, SerializeToString (userCommand cmd params).serialize = some pkg ∧
          frameSlotsAfter pkg.length slots = none))

def Responds (host : Endian) (rt : Runtime) (amb : Ambient) (s : Sock) : Prop :=
  arrivingLen host amb.header s.incoming = some 0 ∨ ∃ m, Replies rt amb s m

def Responded (host : Endian) (rt : Runtime) (amb : Ambient) (c : CAdmClient) (s : Sock) : Prop :=
  c.connected = true ∧ (loginSlots c s).isSome ∧ Responds host rt amb s

theorem Replies.arriving {host : Endian} {rt : Runtime} {amb : Ambient} {s : Sock} {m : MsgResult}
    (h : Replies rt amb s m) : arrivingLen host amb.header s.incoming ≠ some 0 := by
  obtain ⟨p, arrives, _⟩ := h
  rw [arrives.whole.arriving arrives.max, ne_eq, Option.some.injEq]
  have := arrives.pos
  omega

theorem Replies.congr {rt : Runtime} {amb : Ambient} {s s' : Sock} {m : MsgResult}
    (h : Replies rt amb s m) (hin : s'.incoming = s.incoming) : Replies rt amb s' m := by
  obtain ⟨p, ⟨hpos, hmax, hroom, hwhole⟩, hm⟩ := h
  refine ⟨p, ⟨hpos, hmax, hroom, ?_⟩, hm⟩
  unfold WholeFrame
  rw [hin]
  exact hwhole

theorem Responds.congr {host : Endian} {rt : Runtime} {amb : Ambient} {s s' : Sock}
    (h : Responds host rt amb s) (hin : s'.incoming = s.incoming) : Responds host rt amb s' := by
  rcases h with hzero | ⟨m, hm⟩
  · exact .inl (by rw [hin, hzero])
  · exact .inr ⟨m, hm.congr hin⟩

theorem Replies.readResult {rt : Runtime} {amb : Ambient} {s : Sock} {m : MsgResult}
    (h : Replies rt amb s m) (host : Endian) (w : CMsgRW) (out : MsgResult) :
    (w.ReadResult host rt amb s out).outcome = .ret 0 ∧
      (w.ReadResult host rt amb s out).out = some m := by
  obtain ⟨p, arrives, hm⟩ := h
  obtain ⟨hret, hcarries⟩ := arrives.readPacket host w
  have hpos : ¬ (p.length : ℤ) ≤ 0 := by
    have := arrives.pos
    omega
  unfold resultOf at hm
  obtain ⟨hdr, hhdr, hbody⟩ := Option.bind_eq_some_iff.mp hm
  split at hbody
  · rename_i htype
    simp only [CMsgRW.ReadResult, PacketRead.readMessage, hret, hpos, ↓reduceIte,
      hcarries.parseMsg, hhdr, htype, ne_eq, not_true_eq_false, hbody, and_self]
  · cases hbody

theorem Replies.unique {rt : Runtime} {amb : Ambient} {s : Sock} {m m' : MsgResult}
    (h : Replies rt amb s m) (h' : Replies rt amb s m') : m = m' := by
  have hout := (h.readResult .little CMsgRW.init {}).2
  rw [(h'.readResult .little CMsgRW.init {}).2] at hout
  exact (Option.some.inj hout).symm

inductive ResultEnds (host : Endian) (rt : Runtime) (amb : Ambient) (s : Sock)
    (r : Reading MsgResult) : Prop where
  | result (m : MsgResult) (replies : Replies rt amb s m) (ret : r.outcome = .ret 0)
      (out : r.out = some m)
  | empty (arriving : arrivingLen host amb.header s.incoming = some 0) (ret : r.outcome = .ret (-1))
      (text : r.rw.m_errbuf = [])
  | refused (answer : ¬ Responds host rt amb s) (ret : r.outcome = .ret (-1))
      (text : cutNul r.rw.m_errbuf ≠ [])
  | bad_alloc (answer : ¬ Responds host rt amb s) (ret : r.outcome = .bad_alloc)

theorem ReadResult_ends (host : Endian) (rt : Runtime) (amb : Ambient) (w : CMsgRW) (s : Sock)
    (out : MsgResult) (hbuf : w.m_lenbuf = 0) :
    ResultEnds host rt amb s (w.ReadResult host rt amb s out) := by
  have hreply (h : ∃ m, Replies rt amb s m) : (w.ReadResult host rt amb s out).outcome = .ret 0 := by
    obtain ⟨m, hm⟩ := h
    exact (hm.readResult host w out).1
  obtain ⟨r, hr⟩ : ∃ r, w.ReadResult host rt amb s out = r := ⟨_, rfl⟩
  rw [hr] at hreply ⊢
  -- a reader that fails has met no result
  have silent (harr : arrivingLen host amb.header s.incoming ≠ some 0) (hret : r.outcome ≠ .ret 0) :
      ¬ Responds host rt amb s := fun h => h.elim harr fun hm => hret (hreply hm)
  unfold CMsgRW.ReadResult PacketRead.readMessage at hr
  cases w.ReadPacket_ends host amb s hbuf with
  | bad_alloc arriving ret =>
    simp only [ret] at hr
    subst hr
    exact .bad_alloc (silent arriving (by simp)) rfl
  | empty arriving ret text =>
    simp only [ret] at hr
    subst hr
    exact .empty arriving rfl text
  | refused arriving ret text =>
    have hneg : (-1 : ℤ) ≤ 0 := by decide
    simp only [ret, hneg, ↓reduceIte] at hr
    subst hr
    exact .refused (silent arriving (by simp)) rfl text
  | packet p arrives ret carries =>
    have hpos : ¬ (p.length : ℤ) ≤ 0 := by
      have := arrives.pos
      omega
    have harr : arrivingLen host amb.header s.incoming ≠ some 0 := by
      rw [arrives.whole.arriving arrives.max, ne_eq, Option.some.injEq]
      omega
    have refused (hret : r.outcome = .ret (-1)) (text : Bytes)
        (htext : r.rw.m_errbuf = snprintf LEN_ERR_MSG text) (hcut : cutNul text ≠ []) :
        ResultEnds host rt amb s r := by
      refine .refused (silent harr (by simp [hret])) hret ?_
      rw [htext]
      exact (cutNul_snprintf text).not.mpr hcut
    simp only [ret, hpos, ↓reduceIte, carries.parseMsg] at hr
    cases hhdr : parsePayload (MsgHeaderWrap.parse rt) p with
    | none =>
      simp only [hhdr] at hr
      subst hr
      exact refused rfl RMSG_INV_MSG_HDR rfl (by decide)
    | some hdr =>
      by_cases htype : (headerOf hdr.msg_header).msg_type = .Result
      · simp only [hhdr, htype, ne_eq, not_true_eq_false, ↓reduceIte] at hr
        cases hbody : parsePayload (MsgResult.parse rt) p with
        | none =>
          simp only [hbody] at hr
          subst hr
          exact refused rfl RMSG_INV_MSG_BDY rfl (by decide)
        | some m =>
          simp only [hbody] at hr
          subst hr
          refine .result m ⟨p, arrives, ?_⟩ rfl rfl
          simp only [resultOf, hhdr, Option.bind_some, htype, ↓reduceIte, hbody]
      · simp only [hhdr, htype, ne_eq, not_false_eq_true, ↓reduceIte] at hr
        subst hr
        exact refused rfl RMSG_NOT_RESULT rfl (by decide)

theorem ReadResult_outgoing (host : Endian) (rt : Runtime) (amb : Ambient) (w : CMsgRW) (s : Sock)
    (out : MsgResult) : (w.ReadResult host rt amb s out).sock.outgoing = s.outgoing := by
  have hsock : (w.ReadResult host rt amb s out).sock = (w.ReadPacket host amb s).sock := by
    unfold CMsgRW.ReadResult PacketRead.readMessage
    split
    · rfl
    · split
      · rfl
      · split
        · rfl
        · split
          · rfl
          · split <;> rfl
  rw [hsock]
  exact w.ReadPacket_outgoing host amb s

theorem SendPacket_leaves (host : Endian) (w : CMsgRW) (s : Sock) {pkg : Bytes}
    (hpkg : 1 ≤ pkg.length) :
    (frameSlotsAfter pkg.length s.outgoing = none ∧ (w.SendPacket host s pkg).1 ≤ 0 ∧
      cutNul (w.SendPacket host s pkg).2.1.m_errbuf ≠ []) ∨
    (frameSlotsAfter pkg.length s.outgoing = some (w.SendPacket host s pkg).2.2.outgoing ∧
      0 < (w.SendPacket host s pkg).1) := by
  have hends := SendPacket_ends host s pkg w.m_errbuf
  cases hslots : frameSlotsAfter pkg.length s.outgoing with
  | none =>
    rw [hslots] at hends
    obtain ⟨hret, e, htext⟩ := hends
    refine .inl ⟨rfl, ?_, ?_⟩
    · rw [CMsgRW.SendPacket, hret]
      omega
    · rw [CMsgRW.SendPacket, CMsgRW.setErr, htext]
      exact cutNul_sysError e
  | some slots =>
    rw [hslots] at hends
    obtain ⟨hret, _, hout⟩ := hends
    refine .inr ⟨by rw [← hout]; rfl, ?_⟩
    rw [CMsgRW.SendPacket, hret]
    omega

theorem SendPacket_keeps (host : Endian) (w : CMsgRW) (s : Sock) (pkg : Bytes) :
    (w.SendPacket host s pkg).2.2.incoming = s.incoming ∧
      (w.SendPacket host s pkg).2.1.m_lenbuf = w.m_lenbuf :=
  ⟨(SendPacket_writes host s pkg w.m_errbuf).1, rfl⟩

inductive ExecEnds (host : Endian) (rt : Runtime) (amb : Ambient) (cmd : MsgCmd) (s : Sock)
    (r : Reading MsgResult) : Prop where
  | unsent (slots : messageSlots cmd.serialize s = none) (ret : r.outcome = .ret (-1))
      (text : cutNul r.rw.m_errbuf ≠ [])
  | replied (slots : messageSlots cmd.serialize s = some r.sock.outgoing)
      (ends : ResultEnds host rt amb s r)

theorem ResultEnds.congr {host : Endian} {rt : Runtime} {amb : Ambient} {s s' : Sock}
    {r : Reading MsgResult} (h : ResultEnds host rt amb s r) (hin : s'.incoming = s.incoming) :
    ResultEnds host rt amb s' r := by
  cases h with
  | result m replies ret out => exact .result m (replies.congr hin) ret out
  | empty arriving ret text => exact .empty (by rw [hin, arriving]) ret text
  | refused answer ret text => exact .refused (fun h => answer (h.congr hin.symm)) ret text
  | bad_alloc answer ret => exact .bad_alloc (fun h => answer (h.congr hin.symm)) ret

theorem ExecCmdResult_ends (host : Endian) (rt : Runtime) (amb : Ambient) (w : CMsgRW) (s : Sock)
    (cmd : MsgCmd) (result : MsgResult) (hbuf : w.m_lenbuf = 0) (hcmd : 1 ≤ cmd.serialize.length) :
    ExecEnds host rt amb cmd s (w.ExecCmdResult host rt amb s cmd result) := by
  unfold CMsgRW.ExecCmdResult
  cases hser : SerializeToString cmd.serialize with
  | none =>
    refine .unsent ?_ rfl ((cutNul_snprintf _).not.mpr (by decide))
    rw [messageSlots, hser, Option.bind_none]
  | some pkg =>
    obtain rfl := SerializeToString_eq hser
    have hslots : messageSlots cmd.serialize s = frameSlotsAfter cmd.serialize.length s.outgoing := by
      rw [messageSlots, hser, Option.bind_some]
    have hleaves := SendPacket_leaves host w s hcmd
    obtain ⟨hin, hlenbuf⟩ := SendPacket_keeps host w s cmd.serialize
    dsimp only
    generalize w.SendPacket host s cmd.serialize = sent at hleaves hin hlenbuf ⊢
    obtain ⟨rc, w', s'⟩ := sent
    dsimp only at hleaves hin hlenbuf ⊢
    rcases hleaves with ⟨hnone, hrc, htext⟩ | ⟨hsome, hrc⟩
    · simp only [if_pos hrc]
      exact .unsent (hslots.trans hnone) rfl htext
    · simp only [if_neg (Int.not_le.mpr hrc)]
      refine .replied ?_ ((ReadResult_ends host rt amb w' s' result (hlenbuf.trans hbuf)).congr hin.symm)
      rw [ReadResult_outgoing, hslots, hsome]

inductive LoginEnds (host : Endian) (rt : Runtime) (amb : Ambient) (c : CAdmClient) (s : Sock)
    (r : Call) : Prop where
  | accepted (conn : c.connected = true) (sent : loginSlots c s = some r.sock.outgoing)
      (m : MsgResult) (replies : Replies rt amb s m) (ok : StrCaseEq m.rc RC_OK = true)
      (ret : r.outcome = .ret 0) (client : r.client = c)
  | rejected (login : LoginRejected rt amb c s) (ret : r.outcome = .ret (-1))
  | empty (conn : c.connected = true) (sent : (loginSlots c s).isSome)
      (arriving : arrivingLen host amb.header s.incoming = some 0) (ret : r.outcome = .ret (-1))
      (text : r.client.GetErrMsg = [])
  | refused (answer : ¬ Responded host rt amb c s) (ret : r.outcome = .ret (-1))
      (text : r.client.GetErrMsg ≠ [])
  | bad_alloc (answer : ¬ Responded host rt amb c s) (ret : r.outcome = .bad_alloc)

theorem Login_ends (host : Endian) (rt : Runtime) (amb : Ambient) (c : CAdmClient) (s : Sock) :
    LoginEnds host rt amb c s (c.Login host rt amb s) := by
  have hfail : (-1 : ℤ) ≠ 0 := by decide
  -- nothing of the answer is read unless the login is sent
  have unsent (h : ¬ (c.connected = true ∧ (loginSlots c s).isSome)) : ¬ Responded host rt amb c s :=
    fun hans => h ⟨hans.1, hans.2.1⟩
  unfold CAdmClient.Login
  by_cases hconn : c.connected = true
  · simp only [hconn, ↓reduceIte]
    have hends := ExecCmdResult_ends host rt amb CMsgRW.init s (loginCommand c.m_pwd) {} rfl
      (MsgCmd.serialize_pos _ _ _)
    generalize CMsgRW.init.ExecCmdResult host rt amb s (loginCommand c.m_pwd) {} = r at hends
    cases hends with
    | unsent slots ret text =>
      have hno : loginSlots c s = none := slots
      simp only [ret, hfail, ne_eq, not_false_eq_true, ↓reduceIte]
      exact .refused (unsent (by simp [hno])) rfl ((c.GetErrMsg_setErr _).not.mpr text)
    | replied slots ends =>
      have hsent : loginSlots c s = some r.sock.outgoing := slots
      cases ends with
      | bad_alloc answer ret =>
        simp only [ret]
        exact .bad_alloc (fun h => answer h.2.2) rfl
      | empty arriving ret text =>
        simp only [ret, hfail, ne_eq, not_false_eq_true, ↓reduceIte]
        refine .empty hconn (by simp [hsent]) arriving rfl ?_
        rw [CAdmClient.GetErrMsg_setErr, text]
        rfl
      | refused answer ret text =>
        simp only [ret, hfail, ne_eq, not_false_eq_true, ↓reduceIte]
        exact .refused (fun h => answer h.2.2) rfl ((c.GetErrMsg_setErr _).not.mpr text)
      | result m replies ret out =>
        simp only [ret, ne_eq, not_true_eq_false, ↓reduceIte, out, Option.getD_some]
        by_cases hok : StrCaseEq m.rc RC_OK = true
        · simp only [hok, ↓reduceIte]
          exact .accepted hconn hsent m replies hok rfl rfl
        · simp only [hok]
          exact .rejected ⟨hconn, by simp [hsent], m, replies, by simpa using hok⟩ rfl
  · simp only [hconn]
    refine .refused (unsent fun h => hconn h.1) rfl ?_
    exact (c.GetErrMsg_setErr _).not.mpr (by decide)

theorem leavesNoText_accepted_iff {host : Endian} {rt : Runtime} {amb : Ambient} {c : CAdmClient}
    {s : Sock} {cmd : Bytes} {params : StringMap} {slots : List SendSlot} {m : MsgResult}
    (conn : c.connected = true) (sent : loginSlots c s = some slots) (replies : Replies rt amb s m)
    (ok : StrCaseEq m.rc RC_OK = true) :
    LeavesNoText host rt amb c s cmd params ↔ c.GetErrMsg = [] ∧
      ∃ pkg, SerializeToString (userCommand cmd params).serialize = some pkg ∧
        frameSlotsAfter pkg.length slots = none := by
  constructor
  · rintro ⟨_, slots', hslots, hzero | ⟨htext, _, hpkg⟩⟩
    · exact absurd hzero replies.arriving
    · obtain rfl := Option.some.inj (sent.symm.trans hslots)
      exact ⟨htext, hpkg⟩
  · rintro ⟨htext, hpkg⟩
    exact ⟨conn, slots, sent, .inr ⟨htext, ⟨m, replies, ok⟩, hpkg⟩⟩

/-- For every client, every stream of the server and every room or error its own sends meet. -/
theorem SendCommand_explains_iff (host : Endian) (rt : Runtime) (amb : Ambient) (c : CAdmClient)
    (s : Sock) (cmd : Bytes) (params : StringMap) :
    Explains host rt amb c s cmd params ↔ ¬ LeavesNoText host rt amb c s cmd params := by
  have answered (h : LeavesNoText host rt amb c s cmd params) : Responded host rt amb c s := by
    obtain ⟨hconn, slots, hsent, hzero | ⟨_, ⟨m, hm, _⟩, _⟩⟩ := h
    · exact ⟨hconn, by simp [hsent], .inl hzero⟩
    · exact ⟨hconn, by simp [hsent], .inr ⟨m, hm⟩⟩
  have hfail : Outcome.ret (-1) ≠ Outcome.ret 0 := by decide
  unfold Explains CAdmClient.SendCommand
  have hends := Login_ends host rt amb c s
  generalize c.Login host rt amb s = login at hends
  cases hends with
  | bad_alloc answer ret =>
    simp only [ret, ne_eq, reduceCtorEq, not_false_eq_true, ↓reduceIte, false_implies, implies_true,
      true_iff]
    exact fun h => answer (answered h)
  | refused answer ret text =>
    simp only [ret, ne_eq, hfail, not_false_eq_true, ↓reduceIte]
    exact iff_of_true (fun _ _ _ _ => text) fun h => answer (answered h)
  | empty conn sent arriving ret text =>
    simp only [ret, ne_eq, hfail, not_false_eq_true, ↓reduceIte]
    obtain ⟨slots, hslots⟩ := Option.isSome_iff_exists.mp sent
    refine iff_of_false (fun h => ?_) fun h => h ⟨conn, slots, hslots, .inl arriving⟩
    refine h (-1) rfl (by decide) ?_ text
    rintro ⟨_, _, m, hm, _⟩
    exact hm.arriving arriving
  | rejected rejected ret =>
    simp only [ret, ne_eq, hfail, not_false_eq_true, ↓reduceIte]
    refine iff_of_true (fun _ _ _ h => absurd rejected h) ?_
    obtain ⟨_, _, m, hm, hno⟩ := rejected
    rintro ⟨_, slots, _, hzero | ⟨_, ⟨m', hm', hok⟩, _⟩⟩
    · exact hm.arriving hzero
    · rw [hm.unique hm', hok] at hno
      cases hno
  | accepted conn sent m replies ok ret client =>
    have hnoreject : ¬ LoginRejected rt amb c s := by
      rintro ⟨_, _, m', hm', hno⟩
      rw [hm'.unique replies, ok] at hno
      cases hno
    rw [leavesNoText_accepted_iff conn sent replies ok]
    simp only [ret, ne_eq, not_true_eq_false, ↓reduceIte]
    cases hser : SerializeToString (userCommand cmd params).serialize with
    | none =>
      refine iff_of_true (fun _ _ _ _ => (CAdmClient.GetErrMsg_setErr _ _).not.mpr (by decide)) ?_
      rintro ⟨_, pkg, hpkg, _⟩
      cases hpkg
    | some pkg =>
      obtain rfl := SerializeToString_eq hser
      have hcmd : 1 ≤ (userCommand cmd params).serialize.length := MsgCmd.serialize_pos _ _ _
      rcases SendPacket_leaves host CMsgRW.init login.sock hcmd with ⟨hnone, hrc, _⟩ | ⟨hsome, hrc⟩
      · simp only [if_pos hrc, client]
        constructor
        · rintro h ⟨htext, _⟩
          exact h (-1) rfl (by decide) hnoreject htext
        · intro h _ _ _ _ htext
          exact h ⟨htext, _, rfl, hnone⟩
      · simp only [if_neg (Int.not_le.mpr hrc)]
        refine iff_of_true (fun rc hrc' hne => ?_) ?_
        · exact absurd (Outcome.ret.inj hrc').symm hne
        · rintro ⟨_, pkg, hpkg, hnone⟩
          obtain rfl := Option.some.inj hpkg
          rw [hsome] at hnone
          cases hnone

def emptyReply : Sock where
  incoming := unread (frame []) []
  outgoing := []
  log := []

def resetConnection : Sock where
  incoming := unread (frame (replyMessage RC_OK [] StringMap.empty).serialize) []
  outgoing := [.room 3, .room 1000, .fault ⟨104, ascii "Connection reset by peer"⟩]
  log := []

theorem failures_unexplained :
    ¬ Explains .little ⟨true⟩ ⟨0, true⟩ ⟨true, ascii "secret", []⟩ emptyReply (ascii "ping")
      StringMap.empty ∧
    ¬ Explains .little ⟨true⟩ ⟨0, true⟩ ⟨true, ascii "secret", []⟩ resetConnection
      (ascii "ping") StringMap.empty := by
  constructor
  · intro h
    refine h (-1) (by decide +kernel) (by decide) ?_ (by decide +kernel)
    rintro ⟨_, _, m, hm, _⟩
    have hzero : arrivingLen .little 0 emptyReply.incoming = some 0 := by decide +kernel
    exact hm.arriving hzero
  · intro h
    refine h (-1) (by decide +kernel) (by decide) ?_ (by decide +kernel)
    rintro ⟨_, _, m, hm, hno⟩
    have hok : (CMsgRW.init.ReadResult .little ⟨true⟩ ⟨0, true⟩ resetConnection {}).out.map
        (fun r => StrCaseEq r.rc RC_OK) = some true := by
      decide +kernel
    rw [(hm.readResult .little CMsgRW.init {}).2, Option.map_some, hno] at hok
    cases hok

end O2k.AdminClient
