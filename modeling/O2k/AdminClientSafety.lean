import O2k.AdminClient

set_option autoImplicit false

namespace O2k.AdminClient
open ByteOrder ChunkedSource SocketTransfer MsgBuffer WireFormat AdminMessage GatedTrace

def Accepted (rt : Runtime) (received : Bytes) : Prop :=
  ∃ p m, received = frame p ∧ 1 ≤ p.length ∧ p.length ≤ MAX_ADM_PKG ∧ resultOf rt p = some m ∧
    StrCaseEq m.rc RC_OK = true

abbrev HaltsOnFailure : List IoEvent → Prop :=
  Halts IoEvent.bytesOut (fun ev => ev.failed = true)

/-- The log of a session that is to send `login`, and `user` once it is accepted. -/
structure Lawful (rt : Runtime) (login user : Bytes) (evs : List IoEvent) : Prop where
  sends : bytesOut evs <+: login ++ user
  gated : Gated IoEvent.bytesOut login.length (fun us => Accepted rt (bytesIn us)) evs
  halts : HaltsOnFailure evs

section Lawful

variable {rt : Runtime} {login user : Bytes} {xs ys : List IoEvent}

theorem Lawful.of_login (hout : bytesOut xs <+: login) (hhalts : HaltsOnFailure xs) :
    Lawful rt login user xs where
  sends := hout.trans (List.prefix_append _ _)
  gated := Gated.of_short hout.length_le
  halts := hhalts

theorem Lawful.of_user (hxs : bytesOut xs = login) (hclean : Clean xs)
    (hok : Accepted rt (bytesIn xs)) (hin : bytesIn ys = []) (hout : bytesOut ys <+: user)
    (hhalts : HaltsOnFailure ys) : Lawful rt login user (xs ++ ys) where
  sends := by
    rw [bytesOut_append, hxs]
    exact (List.prefix_append_right_inj _).mpr hout
  gated := by
    refine Gated.append (congrArg List.length hxs).le ?_
    intro us ev vs hys
    rw [hys] at hin
    have hus : bytesIn us = [] := by
      rw [bytesIn_append] at hin
      exact (List.append_eq_nil_iff.mp hin).1
    rwa [bytesIn_append, hus, List.append_nil]
  halts := Halts.good_append hclean.not_failed hhalts

theorem Lawful.left (h : Lawful rt login user (xs ++ ys)) : Lawful rt login user xs where
  sends := by
    have hsends := h.sends
    rw [bytesOut_append] at hsends
    exact (List.prefix_append _ _).trans hsends
  gated := h.gated.left
  halts := h.halts.left

theorem Lawful.append_silent (h : Lawful rt login user xs) (hys : bytesOut ys = []) :
    Lawful rt login user (xs ++ ys) where
  sends := by
    rw [bytesOut_append, hys, List.append_nil]
    exact h.sends
  gated := h.gated.append_silent hys
  halts := h.halts.append_silent hys

end Lawful

structure SendLogged (p : Bytes) (s s' : Sock) (ret : ℤ) (evs : List IoEvent) : Prop where
  log : s'.log = s.log ++ evs
  received : bytesIn evs = []
  sends : bytesOut evs <+: frame p
  halts : HaltsOnFailure evs
  positive : 0 < ret → bytesOut evs = frame p ∧ Clean evs

theorem SendPacket_logged (host : Endian) (w : CMsgRW) (s : Sock) (p : Bytes) :
    ∃ evs, SendLogged p s (w.SendPacket host s p).2.2 (w.SendPacket host s p).1 evs := by
  obtain ⟨_, evs, hlog, hin, hres⟩ := SendPacket_writes host s p w.m_errbuf
  refine ⟨evs ++ [.packetSent (w.SendPacket host s p).1], ?_, by simp [hin, IoEvent.bytesIn], ?_, ?_, ?_⟩
  · simp only [CMsgRW.SendPacket, Sock.record_log, hlog, List.append_assoc]
  · rw [bytesOut_append]
    change bytesOut evs ++ [] <+: frame p
    rw [List.append_nil]
    rcases hres with ⟨_, hall, _⟩ | ⟨_, hpre, _⟩
    · rw [hall]
    · exact hpre
  · rcases hres with ⟨_, _, hclean⟩ | ⟨_, _, e, evs', rfl, _, hclean⟩
    · exact Halts.good_append hclean.not_failed (Halts.of_silent rfl)
    · rw [List.append_assoc]
      exact Halts.good_append hclean.not_failed (Halts.of_silent rfl)
  · intro hpos
    rcases hres with ⟨_, hall, hclean⟩ | ⟨hret, _⟩
    · refine ⟨by simp [hall, IoEvent.bytesOut], hclean.append (.cons ?_ .nil)⟩
      simp only [IoEvent.failed, decide_eq_false_iff_not]
      omega
    · simp only [CMsgRW.SendPacket, hret] at hpos
      omega

structure ResultLogged (rt : Runtime) (s : Sock) (r : Reading MsgResult) (evs : List IoEvent) :
    Prop where
  log : r.sock.log = s.log ++ evs
  silent : bytesOut evs = []
  accepts : r.outcome = .ret 0 → Clean evs ∧ ∃ p m, bytesIn evs = frame p ∧ 1 ≤ p.length ∧
    p.length ≤ MAX_ADM_PKG ∧ r.out = some m ∧ resultOf rt p = some m

theorem ReadResult_logged (host : Endian) (rt : Runtime) (amb : Ambient) (w : CMsgRW) (s : Sock)
    (out : MsgResult) :
    ∃ evs, ResultLogged rt s (w.ReadResult host rt amb s out) evs := by
  have hread := w.ReadPacket_logged host amb s
  obtain ⟨r, hr⟩ : ∃ r, w.ReadPacket host amb s = r := ⟨_, rfl⟩
  rw [hr] at hread
  obtain ⟨evs, hlog, hout⟩ := hread.silent
  have failing {q : Reading MsgResult} (hsock : q.sock = r.sock) (hq : q.outcome ≠ .ret 0) :
      ∃ evs, ResultLogged rt s q evs :=
    ⟨evs, by rw [hsock, hlog], hout, fun h => absurd h hq⟩
  simp only [CMsgRW.ReadResult, hr, PacketRead.readMessage]
  cases hout' : r.outcome with
  | bad_alloc => exact failing rfl (by simp)
  | ret n =>
    by_cases hn : n ≤ 0
    · simp only [hn, ↓reduceIte]
      exact failing rfl (by simp)
    · simp only [hn, ↓reduceIte]
      obtain ⟨p, hlen, hmax, hcarries, evs, hlog, hin, hout, hclean⟩ :=
        hread.positive n hout' (by omega)
      rw [hcarries.parseMsg, hcarries.parseMsg]
      cases hhdr : parsePayload (MsgHeaderWrap.parse rt) p with
      | none => exact failing rfl (by simp)
      | some hdr =>
        by_cases htype : (headerOf hdr.msg_header).msg_type = .Result
        · simp only [htype, ne_eq, not_true_eq_false, ↓reduceIte]
          cases hbody : parsePayload (MsgResult.parse rt) p with
          | none => exact failing rfl (by simp)
          | some m =>
            refine ⟨evs, hlog, hout, fun _ => ⟨hclean, p, m, hin, by omega, hmax, rfl, ?_⟩⟩
            simp only [resultOf, hhdr, Option.bind_some, htype, ↓reduceIte, hbody]
        · simp only [htype, ne_eq, not_false_eq_true, ↓reduceIte]
          exact failing rfl (by simp)

theorem SerializeToString_eq {bs pkg : Bytes} (h : SerializeToString bs = some pkg) : pkg = bs := by
  unfold SerializeToString at h
  split at h
  · simpa using h.symm
  · cases h

structure ExecLogged (rt : Runtime) (cmd : Bytes) (s : Sock) (r : Reading MsgResult)
    (evs : List IoEvent) : Prop where
  log : r.sock.log = s.log ++ evs
  sends : bytesOut evs <+: frame cmd
  halts : HaltsOnFailure evs
  success : r.outcome = .ret 0 → bytesOut evs = frame cmd ∧ Clean evs ∧ ∃ p m,
    bytesIn evs = frame p ∧ 1 ≤ p.length ∧ p.length ≤ MAX_ADM_PKG ∧ r.out = some m ∧
      resultOf rt p = some m

theorem ExecCmdResult_logged (host : Endian) (rt : Runtime) (amb : Ambient) (w : CMsgRW) (s : Sock)
    (cmd : MsgCmd) (out : MsgResult) :
    ∃ evs, ExecLogged rt cmd.serialize s (w.ExecCmdResult host rt amb s cmd out) evs := by
  unfold CMsgRW.ExecCmdResult
  cases hser : SerializeToString cmd.serialize with
  | none =>
    exact ⟨[], (List.append_nil _).symm, List.nil_prefix, Halts.of_silent rfl, by simp⟩
  | some pkg =>
    obtain rfl := SerializeToString_eq hser
    obtain ⟨evs, hsent⟩ := SendPacket_logged host w s cmd.serialize
    dsimp only
    generalize w.SendPacket host s cmd.serialize = sent at hsent ⊢
    obtain ⟨rc, w', s'⟩ := sent
    dsimp only at hsent ⊢
    by_cases hrc : rc ≤ 0
    · simp only [hrc, ↓reduceIte]
      exact ⟨evs, hsent.log, hsent.sends, hsent.halts, by simp⟩
    · simp only [hrc, ↓reduceIte]
      obtain ⟨hall, hclean⟩ := hsent.positive (by omega)
      obtain ⟨evs2, hread⟩ := ReadResult_logged host rt amb w' s' out
      have hout : bytesOut (evs ++ evs2) = frame cmd.serialize := by
        rw [bytesOut_append, hread.silent, hall, List.append_nil]
      refine ⟨evs ++ evs2, ?_, ?_, hsent.halts.append_silent hread.silent, ?_⟩
      · rw [hread.log, hsent.log, List.append_assoc]
      · rw [hout]
      · intro hres
        obtain ⟨hclean2, p, m, hin, hp⟩ := hread.accepts hres
        refine ⟨hout, hclean.append hclean2, p, m, ?_, hp⟩
        rw [bytesIn_append, hsent.received, List.nil_append, hin]

structure LoginLogged (rt : Runtime) (login : Bytes) (s : Sock) (r : Call) (evs : List IoEvent) :
    Prop where
  log : r.sock.log = s.log ++ evs
  sends : bytesOut evs <+: login
  halts : HaltsOnFailure evs
  success : r.outcome = .ret 0 → bytesOut evs = login ∧ Clean evs ∧ Accepted rt (bytesIn evs)

theorem Login_logged (host : Endian) (rt : Runtime) (amb : Ambient) (c : CAdmClient) (s : Sock) :
    ∃ evs, LoginLogged rt (frame (loginCommand c.m_pwd).serialize) s (c.Login host rt amb s) evs := by
  unfold CAdmClient.Login
  by_cases hconn : c.connected
  · simp only [hconn, ↓reduceIte]
    obtain ⟨evs, hexec⟩ :=
      ExecCmdResult_logged host rt amb CMsgRW.init s (loginCommand c.m_pwd) {}
    generalize CMsgRW.init.ExecCmdResult host rt amb s (loginCommand c.m_pwd) {} = r at hexec
    cases hres : r.outcome with
    | bad_alloc => exact ⟨evs, hexec.log, hexec.sends, hexec.halts, by simp⟩
    | ret rc =>
      by_cases hzero : rc = 0
      · subst hzero
        obtain ⟨hall, hclean, p, m, hin, hpos, hmax, hm, haccept⟩ := hexec.success hres
        simp only [ne_eq, not_true_eq_false, ↓reduceIte, hm, Option.getD_some]
        by_cases hok : StrCaseEq m.rc RC_OK
        · simp only [hok, ↓reduceIte]
          exact ⟨evs, hexec.log, hexec.sends, hexec.halts,
            fun _ => ⟨hall, hclean, p, m, hin, hpos, hmax, haccept, hok⟩⟩
        · simp only [hok]
          exact ⟨evs, hexec.log, hexec.sends, hexec.halts, by simp⟩
      · simp only [ne_eq, hzero, not_false_eq_true, ↓reduceIte]
        exact ⟨evs, hexec.log, hexec.sends, hexec.halts, by simp [hzero]⟩
  · simp only [hconn]
    exact ⟨[], (List.append_nil _).symm, List.nil_prefix, Halts.of_silent rfl, by simp⟩

theorem SendCommand_lawful (host : Endian) (rt : Runtime) (amb : Ambient) (c : CAdmClient)
    (s : Sock) (cmd : Bytes) (params : StringMap) :
    ∃ evs, (c.SendCommand host rt amb s cmd params).sock.log = s.log ++ evs ∧
      Lawful rt (frame (loginCommand c.m_pwd).serialize)
        (frame (userCommand cmd params).serialize) evs := by
  obtain ⟨evs, hlogin⟩ := Login_logged host rt amb c s
  unfold CAdmClient.SendCommand
  generalize c.Login host rt amb s = login at hlogin
  by_cases hret : login.outcome = .ret 0
  · obtain ⟨hall, hclean, hok⟩ := hlogin.success hret
    simp only [hret, ne_eq, not_true_eq_false, ↓reduceIte]
    cases hser : SerializeToString (userCommand cmd params).serialize with
    | none => exact ⟨evs, hlogin.log, .of_login hlogin.sends hlogin.halts⟩
    | some pkg =>
      obtain rfl := SerializeToString_eq hser
      obtain ⟨evs2, hsent⟩ :=
        SendPacket_logged host CMsgRW.init login.sock (userCommand cmd params).serialize
      dsimp only
      generalize CMsgRW.init.SendPacket host login.sock (userCommand cmd params).serialize = sent
        at hsent ⊢
      obtain ⟨rc, w', s'⟩ := sent
      dsimp only at hsent ⊢
      refine ⟨evs ++ evs2, ?_,
        .of_user hall hclean hok hsent.received hsent.sends hsent.halts⟩
      have hlog : s'.log = s.log ++ (evs ++ evs2) := by
        rw [hsent.log, hlogin.log, List.append_assoc]
      split <;> exact hlog
  · simp only [ne_eq, hret, not_false_eq_true, ↓reduceIte]
    exact ⟨evs, hlogin.log, .of_login hlogin.sends hlogin.halts⟩

/-- A whole session on a fresh connection, for every stream of the server and every room
    or fault its own sends meet. -/
theorem session_lawful (host : Endian) (rt : Runtime) (ambLogin ambReply : Ambient)
    (ses : CAdmClient) (src : Source SysError UInt8) (slots : List SendSlot) (cmd : Bytes)
    (params : StringMap) :
    Lawful rt (frame (loginCommand ses.m_pwd).serialize)
      (frame (userCommand cmd params).serialize)
      (ExecuteCommand host rt ambLogin ambReply ses ⟨src, slots, []⟩ cmd params).sock.log := by
  unfold ExecuteCommand
  by_cases hconn : ses.connected
  · simp only [hconn, ↓reduceIte]
    obtain ⟨evs, hlog, hlaw⟩ := SendCommand_lawful host rt ambLogin ses ⟨src, slots, []⟩ cmd params
    rw [List.nil_append] at hlog
    generalize ses.SendCommand host rt ambLogin ⟨src, slots, []⟩ cmd params = sent at hlog
    have hsent : Lawful rt (frame (loginCommand ses.m_pwd).serialize)
        (frame (userCommand cmd params).serialize) sent.sock.log := by rwa [hlog]
    cases sent.outcome with
    | bad_alloc => exact hsent
    | ret rc =>
      by_cases hzero : rc = 0
      · simp only [hzero, ne_eq, not_true_eq_false, ↓reduceIte]
        -- the read of the reply writes nothing
        obtain ⟨evs2, hread, hsilent⟩ :=
          (CMsgRW.init.ReadPacket_logged host ambReply sent.sock).silent
        generalize CMsgRW.init.ReadPacket host ambReply sent.sock = r at hread
        have hend : Lawful rt (frame (loginCommand ses.m_pwd).serialize)
            (frame (userCommand cmd params).serialize) r.sock.log := by
          rw [hread]
          exact hsent.append_silent hsilent
        cases r.outcome with
        | bad_alloc => exact hend
        | ret rc' =>
          dsimp only
          split <;> exact hend
      · simp only [ne_eq, hzero, not_false_eq_true, ↓reduceIte]
        exact hsent
  · simp only [hconn]
    exact .of_login List.nil_prefix (Halts.of_silent rfl)

example :
    let ok := frame (replyMessage [111, 75] [] StringMap.empty).serialize
    bytesOut (ExecuteCommand .little ⟨true⟩ ⟨0, true⟩ ⟨0, true⟩ ⟨true, [112], []⟩
        ⟨unread (ok.take 5) (unread (ok.drop 5) []), [.room 2], []⟩ [108] StringMap.empty).sock.log =
      frame (loginCommand [112]).serialize ++ frame (userCommand [108] StringMap.empty).serialize := by
  decide +kernel

end O2k.AdminClient
