import O2k.AdminReaders

set_option autoImplicit false

namespace O2k.MsgBuffer
open ByteOrder ChunkedSource SocketTransfer WireFormat AdminMessage

theorem cutNul_take_eq_nil (n : ℕ) (bs : Bytes) : cutNul (bs.take (n + 1)) = [] ↔ cutNul bs = [] := by
  cases bs with
  | nil => rfl
  | cons b bs =>
    rw [List.take_succ_cons, cutNul_cons, cutNul_cons]
    split <;> simp

theorem cutNul_snprintf (text : Bytes) :
    cutNul (snprintf LEN_ERR_MSG text) = [] ↔ cutNul text = [] :=
  cutNul_take_eq_nil _ text

theorem cutNul_prefixed {xs : Bytes} (ys : Bytes) (hnul : 0 ∉ xs) (hxs : xs ≠ []) :
    cutNul (xs ++ ys) ≠ [] := by
  rw [cutNul_append_of_notMem ys hnul]
  exact fun h => hxs (List.append_eq_nil_iff.mp h).1

theorem cutNul_sysError (e : SysError) : cutNul (GetSysErrorInfo e) ≠ [] := by
  rw [GetSysErrorInfo, List.append_assoc, List.append_assoc]
  exact cutNul_prefixed _ (by decide) (by decide)

theorem CMsgRW.ReadPacket_outgoing (host : Endian) (amb : Ambient) (w : CMsgRW) (s : Sock) :
    (w.ReadPacket host amb s).sock.outgoing = s.outgoing := by
  have hhead : (w.headerRead s).2.outgoing = s.outgoing :=
    (SocketRead_reads s 4 (w.Clear false).1.m_errbuf).outgoing
  have hpayload (v : CMsgRW) (t : Sock) (len : ℕ) (mem : List MemEvent) :
      (v.readPayload t len mem).sock.outgoing = t.outgoing := by
    have hread := (SocketRead_reads t len v.m_errbuf).outgoing
    simp only [readPayload, fail]
    split <;> exact hread
  rcases w.ReadPacket_cases host amb s with ⟨_, heq⟩ | ⟨len, _, hcase⟩
  · rw [heq]
    exact hhead
  · rcases hcase with ⟨_, heq⟩ | ⟨_, heq⟩ | ⟨_, _, ⟨_, heq⟩ | ⟨_, heq⟩⟩
    · rw [heq]
      exact hhead
    · rw [heq]
      exact hhead
    · rw [heq]
      exact hhead
    · rw [heq, hpayload]
      exact hhead

def Ambient.HasRoom (amb : Ambient) (len : ℕ) : Prop := len ≤ LEN_ADM_PKG ∨ amb.newOk = true

structure Arrives (amb : Ambient) (s : Sock) (p : Bytes) : Prop where
  pos : 1 ≤ p.length
  max : p.length ≤ MAX_ADM_PKG
  room : amb.HasRoom p.length
  whole : WholeFrame s p

theorem CMsgRW.grow_small (w : CMsgRW) {len : ℕ} (h : len ≤ LEN_ADM_PKG) (newOk : Bool) :
    w.grow len newOk = (true, w, []) := by
  rw [grow, if_neg]
  omega

theorem WholeFrame.arriving {host : Endian} {stale : UInt32} {s : Sock} {p : Bytes}
    (h : WholeFrame s p) (hmax : p.length ≤ MAX_ADM_PKG) :
    arrivingLen host stale s.incoming = some (p.length : ℤ) := by
  have hsmall : p.length < 2 ^ 31 := by
    unfold MAX_ADM_PKG at hmax
    omega
  obtain ⟨hgot, hfull, _⟩ := fill_got_append interrupts (be32 (UInt32.ofNat p.length)) p s.incoming h
  rw [be32_length] at hgot hfull
  simp only [arrivingLen, hfull, hgot, frameLen_frame host stale _ hsmall]

theorem Arrives.readPacket {amb : Ambient} {s : Sock} {p : Bytes} (h : Arrives amb s p)
    (host : Endian) (w : CMsgRW) :
    (w.ReadPacket host amb s).outcome = .ret p.length ∧ (w.ReadPacket host amb s).rw.Carries p := by
  have heq : w.ReadPacket host amb s = w.ReadPacket host ⟨amb.header, true⟩ s := by
    rcases h.room with hsmall | hnew
    · have harr : arrivingLen host amb.header s.incoming = some (p.length : ℤ) :=
        h.whole.arriving h.max
      have read (newOk : Bool) : w.ReadPacket host ⟨amb.header, newOk⟩ s =
          (w.headerRead s).1.readPayload (w.headerRead s).2 p.length [] := by
        rcases w.ReadPacket_cases host ⟨amb.header, newOk⟩ s with ⟨hnone, _⟩ | ⟨len, hlen, hcase⟩
        · rw [harr] at hnone
          cases hnone
        · obtain rfl := Option.some.inj (harr.symm.trans hlen)
          rw [Int.toNat_natCast, CMsgRW.grow_small _ hsmall] at hcase
          rcases hcase with ⟨hneg, _⟩ | ⟨hbig, _⟩ | ⟨_, _, ⟨hgrow, _⟩ | ⟨_, heq⟩⟩
          · omega
          · have := h.max
            omega
          · cases hgrow
          · exact heq
      exact (read amb.newOk).trans (read true).symm
    · rw [← hnew]
  obtain ⟨hret, hcarries, _⟩ := w.ReadPacket_frame host ⟨amb.header, true⟩ s p rfl h.max h.whole
  rw [heq]
  exact ⟨hret, hcarries⟩

/-- What is left of a read: a packet, a text that says why there is none, or neither when the
    length in front of the stream is 0. -/
inductive ReadEnds (host : Endian) (amb : Ambient) (s : Sock) (r : PacketRead) : Prop where
  | packet (p : Bytes) (arrives : Arrives amb s p) (ret : r.outcome = .ret p.length)
      (carries : r.rw.Carries p)
  | empty (arriving : arrivingLen host amb.header s.incoming = some 0) (ret : r.outcome = .ret 0)
      (text : r.rw.m_errbuf = [])
  | refused (arriving : arrivingLen host amb.header s.incoming ≠ some 0)
      (ret : r.outcome = .ret (-1)) (text : cutNul r.rw.m_errbuf ≠ [])
  | bad_alloc (arriving : arrivingLen host amb.header s.incoming ≠ some 0)
      (ret : r.outcome = .bad_alloc)

theorem CMsgRW.headerRead_m_errbuf (w : CMsgRW) (s : Sock) :
    (w.headerRead s).1.m_errbuf = readText [] (fill interrupts 4 s.incoming).stop :=
  (SocketRead_reads s 4 (w.Clear false).1.m_errbuf).text

theorem CMsgRW.readPayload_zero (v : CMsgRW) (s : Sock) (mem : List MemEvent) :
    (v.readPayload s 0 mem).outcome = .ret 0 ∧ (v.readPayload s 0 mem).rw.m_errbuf = v.m_errbuf := by
  have hread := SocketRead_reads s 0 v.m_errbuf
  rw [fill_zero] at hread
  have hret : (SocketRead s 0 v.m_errbuf).ret = (0 : ℕ) := hread.ret
  simp only [readPayload, hret, ne_eq, not_true_eq_false, ↓reduceIte, storeAt_m_errbuf]
  exact ⟨rfl, hread.text⟩

theorem CMsgRW.readPayload_refused (v : CMsgRW) (s : Sock) (len : ℕ) (mem : List MemEvent)
    (h : (fill interrupts len s.incoming).stop ≠ .full) :
    cutNul (v.readPayload s len mem).rw.m_errbuf ≠ [] := by
  have hret := SocketRead_short s len v.m_errbuf h
  simp only [readPayload, hret, ne_eq, not_false_eq_true, ↓reduceIte, fail]
  exact (cutNul_snprintf _).not.mpr (by decide)

theorem CMsgRW.readPayload_ends {host : Endian} {amb : Ambient} {w : CMsgRW} {s : Sock} {len : ℕ}
    (hbuf : w.m_lenbuf = 0) (hmax : len ≤ MAX_ADM_PKG)
    (harr : arrivingLen host amb.header s.incoming = some (len : ℤ))
    (hgrow : ((w.headerRead s).1.grow len amb.newOk).1 = true) :
    ReadEnds host amb s (((w.headerRead s).1.grow len amb.newOk).2.1.readPayload
      (w.headerRead s).2 len ((w.headerRead s).1.grow len amb.newOk).2.2) := by
  have hsrc : (w.headerRead s).2.incoming = (fill interrupts 4 s.incoming).rest :=
    (SocketRead_reads s 4 (w.Clear false).1.m_errbuf).incoming
  rcases Nat.eq_zero_or_pos len with rfl | hpos
  · have htext : (w.headerRead s).1.m_errbuf = [] := by
      rw [w.headerRead_m_errbuf s]
      cases hstop : (fill interrupts 4 s.incoming).stop with
      | fault e => simp [arrivingLen, hstop] at harr
      | full => rfl
      | ended => rfl
    rw [grow_small _ (Nat.zero_le _)]
    obtain ⟨hret, hsame⟩ := (w.headerRead s).1.readPayload_zero (w.headerRead s).2 []
    exact .empty harr hret (hsame.trans htext)
  by_cases hfull : (fill interrupts len (w.headerRead s).2.incoming).stop = .full
  · obtain ⟨p, hp⟩ : ∃ p, (fill interrupts len (w.headerRead s).2.incoming).got = p := ⟨_, rfl⟩
    obtain rfl : p.length = len := hp ▸ (fill_full_iff _ _ _).mp hfull
    obtain ⟨hret, hcarries, _⟩ := ((w.headerRead s).1.grow p.length amb.newOk).2.1.readPayload_full
      (w.headerRead s).2 ((w.headerRead s).1.grow p.length amb.newOk).2.2 p hp hfull
    rw [hsrc] at hp
    obtain ⟨hstop, hhead⟩ := header_of_payload harr hpos hp
    have hroom : amb.HasRoom p.length := by
      unfold Ambient.HasRoom
      by_contra hno
      obtain ⟨hbig, hnew⟩ := not_or.mp hno
      have hg : p.length > LEN_ADM_PKG ∧ p.length > (w.headerRead s).1.m_lenbuf := by
        rw [w.headerRead_m_lenbuf s, hbuf]
        omega
      rw [grow, if_pos hg, if_neg hnew] at hgrow
      cases hgrow
    have hwhole : WholeFrame s p := by
      unfold WholeFrame
      rw [fill_add interrupts 4 p.length s.incoming hstop]
      dsimp only
      rw [hp, ← hhead, frame]
    exact .packet p ⟨hpos, hmax, hroom, hwhole⟩ hret hcarries
  · refine .refused ?_ (readPayload_short _ _ _ _ hfull).1 (readPayload_refused _ _ _ _ hfull)
    rw [harr]
    simpa using hpos.ne'

theorem CMsgRW.ReadPacket_ends (host : Endian) (amb : Ambient) (w : CMsgRW) (s : Sock)
    (hbuf : w.m_lenbuf = 0) : ReadEnds host amb s (w.ReadPacket host amb s) := by
  rcases w.ReadPacket_cases host amb s with ⟨hnone, heq⟩ | ⟨len, harr, hcase⟩
  · -- only an error of `recv` keeps the length away
    have htext : cutNul (w.headerRead s).1.m_errbuf ≠ [] := by
      rw [w.headerRead_m_errbuf s]
      cases hstop : (fill interrupts 4 s.incoming).stop with
      | fault e => exact cutNul_sysError e
      | full => simp [arrivingLen, hstop] at hnone
      | ended => simp [arrivingLen, hstop] at hnone
    rw [heq]
    exact .refused (by simp [hnone]) rfl htext
  · have failing {text : Bytes} (hlen : len ≠ 0) (htext : cutNul text ≠ []) :
        ReadEnds host amb s ((w.headerRead s).1.fail (w.headerRead s).2 text []) := by
      refine .refused ?_ rfl ?_
      · rw [harr]
        simpa using hlen
      · exact (cutNul_snprintf text).not.mpr htext
    rcases hcase with ⟨hneg, heq⟩ | ⟨hbig, heq⟩ | ⟨hlo, hhi, ⟨hgrow, heq⟩ | ⟨hgrow, heq⟩⟩
    · rw [heq]
      exact failing (by omega) (by decide)
    · rw [heq]
      exact failing (by omega) (cutNul_prefixed _ (by decide) (by decide))
    · rw [heq]
      refine .bad_alloc ?_ rfl
      rintro hzero
      obtain rfl : len = 0 := Option.some.inj (harr.symm.trans hzero)
      rw [Int.toNat_zero, grow_small _ (Nat.zero_le _)] at hgrow
      cases hgrow
    · rw [heq]
      refine readPayload_ends hbuf (by omega) ?_ hgrow
      rw [harr, Int.toNat_of_nonneg hlo]

end O2k.MsgBuffer
