import O2k.MsgBufferBounds

set_option autoImplicit false

namespace O2k.MsgBuffer
open ByteOrder ChunkedSource SocketTransfer

def Cells.Holds (c : Cells) (p : Bytes) : Prop := ∀ i, i < p.length → c i = p[i]?

theorem Cells.store_holds (c : Cells) (p : Bytes) : (c.store 0 p).Holds p := by
  intro i hi
  simp [store, hi]

theorem Cells.Holds.store_after {c : Cells} {p : Bytes} (h : c.Holds p) (bs : Bytes) :
    (c.store p.length bs).Holds p := by
  intro i hi
  have hno : ¬ p.length ≤ i := by omega
  simp [Cells.store, hno, h i hi]

theorem Cells.Holds.append {c : Cells} {p : Bytes} (h : c.Holds p) (bs : Bytes) :
    (c.store p.length bs).Holds (p ++ bs) := by
  intro i hi
  rw [List.length_append] at hi
  by_cases hlt : i < p.length
  · rw [h.store_after bs i hlt, List.getElem?_append_left hlt]
  · have hle : p.length ≤ i := by omega
    simp [Cells.store, hle, hi]

theorem Cells.store_nul (c : Cells) (n : ℕ) : c.store n [0] n = some 0 := by
  simp [store]

@[simp] theorem CMsgRW.setErr_cells (w : CMsgRW) (text : Bytes) : (w.setErr text).cells = w.cells :=
  rfl

@[simp] theorem CMsgRW.storeAt_cells (w : CMsgRW) (start : ℕ) (bs : Bytes) :
    (w.storeAt start bs).cells = w.cells.store start bs := by
  unfold storeAt cells
  cases w.m_msgbuf <;> simp

theorem frameLen_frame (host : Endian) (stale : UInt32) (n : ℕ) (h : n < 2 ^ 31) :
    frameLen host stale (be32 (UInt32.ofNat n)) = n := by
  have hstale : (host.store stale).drop 4 = [] := List.drop_eq_nil_of_le (by simp)
  rw [frameLen, headerWord, be32_length, hstale, List.append_nil, host.hostToNet_load _ rfl,
    ofBe32_be32, signed_ofNat n h]

theorem CMsgRW.grow_true (w : CMsgRW) (len : ℕ) : (w.grow len true).1 = true := by
  unfold grow
  split <;> rfl

structure CMsgRW.Carries (w : CMsgRW) (p : Bytes) : Prop where
  lenmsg : w.m_lenmsg = p.length
  holds : w.cells.Holds p
  nul : w.cells p.length = some 0

theorem CMsgRW.readPayload_full (w : CMsgRW) (s : Sock) (mem : List MemEvent) (p : Bytes)
    (hgot : (fill interrupts p.length s.incoming).got = p)
    (hfull : (fill interrupts p.length s.incoming).stop = .full) :
    (w.readPayload s p.length mem).outcome = .ret p.length ∧
      (w.readPayload s p.length mem).rw.Carries p ∧
      (w.readPayload s p.length mem).sock.incoming = (fill interrupts p.length s.incoming).rest ∧
      (w.readPayload s p.length mem).sock.outgoing = s.outgoing ∧
      ∃ evs, (w.readPayload s p.length mem).sock.log = s.log ++ evs ++ [.packetRead p.length] ∧
        bytesIn evs = p ∧ bytesOut evs = [] ∧ Clean evs := by
  obtain ⟨hret, hp, _, hin, hout, evs, hlog, hbin, hbout, hclean⟩ :=
    SocketRead_reads s p.length w.m_errbuf
  rw [hfull, readReturn] at hret
  rw [List.nil_append, hgot] at hp
  simp only [readPayload, hret, ne_eq, not_true_eq_false, ↓reduceIte, hp]
  refine ⟨trivial, ⟨rfl, ?_, ?_⟩, hin, hout, evs, ?_, hbin.trans hgot, hbout, hclean hfull⟩
  · change (CMsgRW.storeAt _ _ _).cells.Holds p
    rw [storeAt_cells, storeAt_cells]
    exact (Cells.store_holds _ p).store_after [0]
  · change (CMsgRW.storeAt _ _ _).cells p.length = some 0
    rw [storeAt_cells]
    exact Cells.store_nul _ _
  · rw [Sock.record_log, hlog]

theorem CMsgRW.ReadPacket_frame (host : Endian) (amb : Ambient) (w : CMsgRW) (s : Sock) (p : Bytes)
    (hnew : amb.newOk = true) (hmax : p.length ≤ MAX_ADM_PKG)
    (hgot : (fill interrupts (4 + p.length) s.incoming).got = frame p) :
    (w.ReadPacket host amb s).outcome = .ret p.length ∧
      (w.ReadPacket host amb s).rw.Carries p ∧
      (w.ReadPacket host amb s).sock.incoming = (fill interrupts (4 + p.length) s.incoming).rest ∧
      (w.ReadPacket host amb s).sock.outgoing = s.outgoing ∧
      ∃ evs, (w.ReadPacket host amb s).sock.log = s.log ++ evs ++ [.packetRead p.length] ∧
        bytesIn evs = frame p ∧ bytesOut evs = [] ∧ Clean evs := by
  have hsmall : p.length < 2 ^ 31 := by
    unfold MAX_ADM_PKG at hmax
    omega
  obtain ⟨hgot4, hfull4, hgotp, hfullp, hrest⟩ :=
    fill_got_append interrupts (be32 (UInt32.ofNat p.length)) p s.incoming hgot
  rw [be32_length] at hgot4 hfull4 hgotp hfullp hrest
  have harr : arrivingLen host amb.header s.incoming = some (p.length : ℤ) := by
    simp only [arrivingLen, hfull4, hgot4, frameLen_frame host amb.header _ hsmall]
  obtain ⟨_, _, _, hin4, hout4, evs4, hlog4, hbin4, hbout4, hclean4⟩ :=
    SocketRead_reads s 4 (w.Clear false).1.m_errbuf
  have heq : w.ReadPacket host amb s =
      ((w.headerRead s).1.grow p.length true).2.1.readPayload (w.headerRead s).2 p.length
        ((w.headerRead s).1.grow p.length true).2.2 := by
    rcases w.ReadPacket_cases host amb s with ⟨hnone, _⟩ | ⟨len, hsome, hcase⟩
    · rw [harr] at hnone
      cases hnone
    · rw [harr, Option.some.injEq] at hsome
      subst hsome
      rw [Int.toNat_natCast, hnew] at hcase
      rcases hcase with ⟨hneg, _⟩ | ⟨hbig, _⟩ | ⟨_, _, ⟨hgrow, _⟩ | ⟨_, heq⟩⟩
      · omega
      · omega
      · rw [grow_true] at hgrow
        cases hgrow
      · exact heq
  have hsrc : (w.headerRead s).2.incoming = (fill interrupts 4 s.incoming).rest := hin4
  rw [heq]
  obtain ⟨hret, hcarries, hin, hout, evs, hlog, hbin, hbout, hclean⟩ :=
    ((w.headerRead s).1.grow p.length true).2.1.readPayload_full (w.headerRead s).2
      ((w.headerRead s).1.grow p.length true).2.2 p (by rw [hsrc]; exact hgotp)
      (by rw [hsrc]; exact hfullp)
  refine ⟨hret, hcarries, ?_, hout.trans hout4, evs4 ++ evs, ?_, ?_, ?_, ?_⟩
  · rw [hin, hsrc, hrest]
  · rw [hlog]
    change (SocketRead s 4 _).sock.log ++ evs ++ _ = _
    rw [hlog4]
    simp only [List.append_assoc]
  · rw [bytesIn_append, hbin4, hbin, hgot4, frame]
  · rw [bytesOut_append, hbout4, hbout, List.append_nil]
  · exact (hclean4 hfull4).append hclean

theorem SocketRead_short (s : Sock) (len : ℕ) (err : Bytes)
    (h : (fill interrupts len s.incoming).stop ≠ .full) : (SocketRead s len err).ret ≠ len := by
  have hlen : len ≠ 0 := by
    rintro rfl
    simp at h
  rw [(SocketRead_reads s len err).ret]
  cases hstop : (fill interrupts len s.incoming).stop with
  | full => exact absurd hstop h
  | ended =>
    simp only [readReturn]
    omega
  | fault e =>
    simp only [readReturn]
    omega

theorem CMsgRW.readPayload_short (w : CMsgRW) (s : Sock) (len : ℕ) (mem : List MemEvent)
    (h : (fill interrupts len s.incoming).stop ≠ .full) :
    (w.readPayload s len mem).outcome = .ret (-1) ∧
      ∃ evs, (w.readPayload s len mem).sock.log = s.log ++ evs ∧ bytesOut evs = [] := by
  have hret := SocketRead_short s len w.m_errbuf h
  obtain ⟨evs, hlog, _, hout, _⟩ := (SocketRead_reads s len w.m_errbuf).log
  simp only [readPayload, hret, ne_eq, not_false_eq_true, ↓reduceIte, fail]
  refine ⟨trivial, evs ++ [.packetRead (-1)], ?_, ?_⟩
  · rw [Sock.record_log, hlog, List.append_assoc]
  · simp [hout, IoEvent.bytesOut]

theorem be32_of_signed {bs : Bytes} {n : ℕ} (hbs : bs.length = 4) (h : signed (ofBe32 bs) = n) :
    bs = be32 (UInt32.ofNat n) := by
  have hlt := (ofBe32 bs).toNat_lt
  have hn : (ofBe32 bs).toNat = n := by
    unfold signed at h
    split at h <;> omega
  rw [← hn, UInt32.ofNat_toNat, be32_ofBe32 bs hbs]

/-- What a read did to the log: nothing written, and after a positive return value a whole
    frame received and its payload stored. -/
structure PacketRead.Logged (s : Sock) (r : PacketRead) : Prop where
  silent : ∃ evs, r.sock.log = s.log ++ evs ∧ bytesOut evs = []
  positive : ∀ n, r.outcome = .ret n → 0 < n → ∃ p, n = (p.length : ℤ) ∧ p.length ≤ MAX_ADM_PKG ∧
    r.rw.Carries p ∧ ∃ evs, r.sock.log = s.log ++ evs ∧ bytesIn evs = frame p ∧
      bytesOut evs = [] ∧ Clean evs

theorem PacketRead.Logged.of_failed {s : Sock} {r : PacketRead} {evs : List IoEvent}
    (hlog : r.sock.log = s.log ++ evs) (hout : bytesOut evs = [])
    (hfail : ∀ n, r.outcome = .ret n → n ≤ 0) : r.Logged s where
  silent := ⟨evs, hlog, hout⟩
  positive n hn hpos := absurd (hfail n hn) (by omega)

/-- A stream that ends inside a header leaves no payload, so the header of a payload is whole. -/
theorem header_of_payload {host : Endian} {stale : UInt32} {src : Source SysError UInt8} {p : Bytes}
    (harr : arrivingLen host stale src = some (p.length : ℤ)) (hpos : 0 < p.length)
    (hp : (fill interrupts p.length (fill interrupts 4 src).rest).got = p) :
    (fill interrupts 4 src).stop = .full ∧
      be32 (UInt32.ofNat p.length) = (fill interrupts 4 src).got := by
  have hstop : (fill interrupts 4 src).stop = .full := by
    cases hstop : (fill interrupts 4 src).stop with
    | full => rfl
    | fault e => simp [arrivingLen, hstop] at harr
    | ended =>
      rw [fill_ended_rest interrupts 4 src hstop] at hp
      have hle := fill_items interrupts p.length ([] : Source SysError UInt8)
      rw [hp] at hle
      have hzero := congrArg List.length hle
      simp at hzero
      omega
  have hgot := (fill_full_iff _ _ _).mp hstop
  have hhead : signed (ofBe32 (fill interrupts 4 src).got) = (p.length : ℕ) := by
    simp only [arrivingLen, hstop, Option.some.injEq] at harr
    rw [frameLen, headerWord, hgot, List.drop_eq_nil_of_le (by simp), List.append_nil,
      host.hostToNet_load _ hgot] at harr
    omega
  exact ⟨hstop, (be32_of_signed hgot hhead).symm⟩

theorem CMsgRW.readPayload_logged {host : Endian} {stale : UInt32} {s s' : Sock} {evs4 : List IoEvent}
    (v : CMsgRW) (len : ℤ) (mem : List MemEvent) (hlo : 0 ≤ len) (hhi : len ≤ MAX_ADM_PKG)
    (harr : arrivingLen host stale s.incoming = some len)
    (hsrc : s'.incoming = (fill interrupts 4 s.incoming).rest) (hlog : s'.log = s.log ++ evs4)
    (hbin4 : bytesIn evs4 = (fill interrupts 4 s.incoming).got) (hbout4 : bytesOut evs4 = [])
    (hclean4 : (fill interrupts 4 s.incoming).stop = .full → Clean evs4) :
    (v.readPayload s' len.toNat mem).Logged s := by
  by_cases hfull : (fill interrupts len.toNat s'.incoming).stop = .full
  · have hplen := (fill_full_iff _ _ _).mp hfull
    obtain ⟨p, hp⟩ : ∃ p, (fill interrupts len.toNat s'.incoming).got = p := ⟨_, rfl⟩
    rw [hp] at hplen
    rw [← hplen] at hp hfull ⊢
    obtain ⟨hret, hcarries, _, _, evs, hlog', hbin, hbout, hclean⟩ :=
      v.readPayload_full s' mem p hp hfull
    have hwhole : (v.readPayload s' p.length mem).sock.log =
        s.log ++ (evs4 ++ (evs ++ [.packetRead p.length])) := by
      rw [hlog', hlog]
      simp only [List.append_assoc]
    refine ⟨⟨_, hwhole, by simp [hbout4, hbout, IoEvent.bytesOut]⟩, ?_⟩
    intro n hn hpos
    rw [hret] at hn
    obtain rfl : (p.length : ℤ) = n := by simpa using hn
    have hlen : len = p.length := by omega
    rw [hlen] at harr
    rw [hsrc] at hp
    obtain ⟨hstop4, hhead⟩ := header_of_payload harr (by omega) hp
    refine ⟨p, rfl, by omega, hcarries, _, hwhole, ?_, ?_, ?_⟩
    · simp only [bytesIn_append, bytesIn_cons, bytesIn_nil, IoEvent.bytesIn, List.append_nil,
        hbin4, hbin, ← hhead, frame]
    · simp [hbout4, hbout, IoEvent.bytesOut]
    · refine (hclean4 hstop4).append (hclean.append (.cons ?_ .nil))
      simp only [IoEvent.failed, decide_eq_false_iff_not]
      omega
  · obtain ⟨hret, evs, hlog', hbout⟩ := v.readPayload_short s' len.toNat mem hfull
    have hsilent : bytesOut (evs4 ++ evs) = [] := by
      rw [bytesOut_append, hbout4, hbout, List.append_nil]
    refine .of_failed ?_ hsilent ?_
    · rw [hlog', hlog, List.append_assoc]
    · intro n hn
      rw [hret] at hn
      obtain rfl : (-1 : ℤ) = n := by simpa using hn
      decide

theorem CMsgRW.ReadPacket_logged (host : Endian) (amb : Ambient) (w : CMsgRW) (s : Sock) :
    (w.ReadPacket host amb s).Logged s := by
  obtain ⟨_, _, _, hin4, _, evs4, hlog4, hbin4, hbout4, hclean4⟩ :=
    SocketRead_reads s 4 (w.Clear false).1.m_errbuf
  have hlog : (w.headerRead s).2.log = s.log ++ evs4 := hlog4
  have hfailed (ret : ℤ) : bytesOut (evs4 ++ [.packetRead ret]) = [] := by
    simp [hbout4, IoEvent.bytesOut]
  rcases w.ReadPacket_cases host amb s with ⟨_, heq⟩ | ⟨len, harr, hcase⟩
  · rw [heq]
    refine .of_failed ?_ (hfailed (-1)) ?_
    · rw [Sock.record_log, hlog, List.append_assoc]
    · rintro n ⟨⟩
      decide
  · rcases hcase with ⟨_, heq⟩ | ⟨_, heq⟩ | ⟨hlo, hhi, ⟨_, heq⟩ | ⟨_, heq⟩⟩
    · rw [heq]
      refine .of_failed ?_ (hfailed (-1)) ?_
      · simp only [fail, Sock.record_log, hlog, List.append_assoc]
      · rintro n ⟨⟩
        decide
    · rw [heq]
      refine .of_failed ?_ (hfailed (-1)) ?_
      · simp only [fail, Sock.record_log, hlog, List.append_assoc]
      · rintro n ⟨⟩
        decide
    · rw [heq]
      refine .of_failed hlog hbout4 ?_
      rintro n ⟨⟩
    · rw [heq]
      exact readPayload_logged _ len _ hlo hhi harr hin4 hlog hbin4 hbout4 hclean4

theorem CMsgRW.Carries.getPacket {w : CMsgRW} {p : Bytes} (h : w.Carries p) (hp : 1 ≤ p.length) :
    w.GetPacket = some (w.cells, p.length) := by
  have hpos : ¬ w.m_lenmsg ≤ 0 := by
    rw [h.lenmsg]
    omega
  rw [GetPacket, if_neg hpos, h.lenmsg]

def sendAll (host : Endian) : CMsgRW → Sock → List Bytes → List ℤ × Sock
  | _, s, [] => ([], s)
  | w, s, p :: ps =>
    match w.SendPacket host s p with
    | (ret, w', s') => (ret :: (sendAll host w' s' ps).1, (sendAll host w' s' ps).2)

def readEach (host : Endian) : List Ambient → Sock → List (Sock × PacketRead)
  | [], _ => []
  | amb :: ambs, s =>
    let r := CMsgRW.init.ReadPacket host amb s
    (s, r) :: readEach host ambs r.sock

theorem sendAll_steady (host : Endian) (w : CMsgRW) (s : Sock) (ps : List Bytes)
    (hs : SteadySlots s.outgoing) :
    (sendAll host w s ps).1 = ps.map (fun p => (p.length : ℤ)) ∧
      bytesOut (sendAll host w s ps).2.log = bytesOut s.log ++ frames ps := by
  induction ps generalizing w s with
  | nil => simp [sendAll]
  | cons p ps ih =>
    obtain ⟨hret, hsteady⟩ := SendPacket_steady host s p w.m_errbuf hs
    obtain ⟨_, evs, hlog, _, hres⟩ := SendPacket_writes host s p w.m_errbuf
    have hall : bytesOut evs = frame p := by
      rcases hres with ⟨_, hall, _⟩ | ⟨hfail, _⟩
      · exact hall
      · rw [hret] at hfail
        omega
    obtain ⟨hrets, hbytes⟩ := ih (w.SendPacket host s p).2.1 (w.SendPacket host s p).2.2 hsteady
    refine ⟨?_, ?_⟩
    · simp only [sendAll, List.map_cons, hrets]
      rw [CMsgRW.SendPacket, hret]
    · simp only [sendAll, hbytes, frames_cons]
      rw [CMsgRW.SendPacket, Sock.record_log, hlog]
      simp [hall, IoEvent.bytesOut]

def ReadWhole (p : Bytes) (r : Sock × PacketRead) : Prop :=
  r.2.outcome = .ret p.length ∧ (∃ buf, r.2.rw.GetPacket = some (buf, p.length) ∧ buf.Holds p) ∧
    items r.1.incoming = frame p ++ items r.2.sock.incoming

theorem readEach_frames (host : Endian) (ps : List Bytes) (ambs : List Ambient) (s : Sock)
    (hps : ∀ p ∈ ps, 1 ≤ p.length ∧ p.length ≤ MAX_ADM_PKG) (hlen : ambs.length = ps.length)
    (hnew : ∀ amb ∈ ambs, amb.newOk = true) (hs : Steady interrupts s.incoming)
    (hstream : items s.incoming = frames ps) :
    List.Forall₂ ReadWhole ps (readEach host ambs s) := by
  induction ps generalizing ambs s with
  | nil =>
    obtain rfl : ambs = [] := by simpa using hlen
    exact .nil
  | cons p ps ih =>
    match ambs, hlen with
    | amb :: ambs, hlen =>
      obtain ⟨hpos, hmax⟩ := hps p (by simp)
      rw [frames_cons] at hstream
      have hroom : 4 + p.length ≤ (items s.incoming).length := by simp [hstream]
      obtain ⟨hgot, _, hrest, hsteady⟩ := fill_steady interrupts (4 + p.length) s.incoming hs hroom
      rw [hstream, ← frame_length p, List.take_left] at hgot
      rw [hstream, ← frame_length p, List.drop_left] at hrest
      rw [frame_length] at hgot hrest
      obtain ⟨hret, hcarries, hin, _, _⟩ := CMsgRW.init.ReadPacket_frame host amb s p
        (hnew amb (by simp)) hmax hgot
      refine .cons ⟨hret, ⟨_, hcarries.getPacket hpos, hcarries.holds⟩, ?_⟩ ?_
      · rw [hstream, hin, hrest]
      · apply ih ambs _ (fun q hq => hps q (by simp [hq])) (by simpa using hlen)
          (fun a ha => hnew a (by simp [ha]))
        · rw [hin]
          exact hsteady
        · rw [hin, hrest]

/-- Whatever the splitting by the sends and the chunking of the receives, and with any
    number of interruptions on either side, the payloads come out as they went in. -/
theorem packets_roundtrip (sender receiver : Endian) (w : CMsgRW) (ps : List Bytes)
    (hps : ∀ p ∈ ps, 1 ≤ p.length ∧ p.length ≤ MAX_ADM_PKG) (out inp : Sock) (ambs : List Ambient)
    (hout : SteadySlots out.outgoing) (hin : Steady interrupts inp.incoming)
    (hstream : bytesOut (sendAll sender w out ps).2.log = bytesOut out.log ++ items inp.incoming)
    (hlen : ambs.length = ps.length) (hnew : ∀ amb ∈ ambs, amb.newOk = true) :
    (sendAll sender w out ps).1 = ps.map (fun p => (p.length : ℤ)) ∧
      List.Forall₂ ReadWhole ps (readEach receiver ambs inp) := by
  obtain ⟨hrets, hbytes⟩ := sendAll_steady sender w out ps hout
  have hitems : items inp.incoming = frames ps := by
    rw [hbytes] at hstream
    exact (List.append_cancel_left hstream).symm
  exact ⟨hrets, readEach_frames receiver ps ambs inp hps hlen hnew hin hitems⟩

theorem packets_roundtrip_split :
    (sendAll .little CMsgRW.init ⟨[], [.room 2, .fault ⟨4, []⟩], []⟩ [[7], [0, 8]]).1 = [1, 2] ∧
      List.Forall₂ ReadWhole [[7], [0, 8]] (readEach .big [⟨5, true⟩, ⟨6, true⟩]
        ⟨[.chunk 0 [0], .fault ⟨4, []⟩, .chunk 0 [1, 7, 0, 0], .chunk 0 [2, 0, 8]], [], []⟩) :=
  packets_roundtrip .little .big CMsgRW.init [[7], [0, 8]] (by decide)
    ⟨[], [.room 2, .fault ⟨4, []⟩], []⟩ _ _
    (by simp [SteadySlots, EINTR]) (by simp [Steady, interrupts, EINTR]) (by decide) rfl (by decide)

end O2k.MsgBuffer
