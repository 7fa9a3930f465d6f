import O2k.MsgBufferBounds

set_option autoImplicit false

namespace O2k.MsgBuffer
open ByteOrder ChunkedSource SocketTransfer

def EndsInHeader (s : Sock) : Prop := (fill interrupts 4 s.incoming).stop = .ended

instance (s : Sock) : Decidable (EndsInHeader s) := inferInstanceAs (Decidable (_ = _))

structure Seen where
  outcome : Outcome
  m_errbuf : Bytes
  m_lenmsg : ℕ
  m_lenbuf : ℕ
  m_msgbuf : MsgBuf
  deriving DecidableEq

def PacketRead.seen (r : PacketRead) : Seen :=
  ⟨r.outcome, r.rw.m_errbuf, r.rw.m_lenmsg, r.rw.m_lenbuf, r.rw.m_msgbuf⟩

def CMsgRW.assignedLen (host : Endian) (amb : Ambient) (w : CMsgRW) (s : Sock) : Option ℤ :=
  let t := SocketRead s 4 (w.Clear false).1.m_errbuf
  if t.ret < 0 then none else some (frameLen host amb.header t.p)

def CMsgRW.afterLen (newOk : Bool) (w : CMsgRW) (s : Sock) (len : ℤ) : PacketRead :=
  if len < 0 then w.fail s (ascii "Invalid packet data format!") []
  else if len > MAX_ADM_PKG then
    w.fail s (ascii "message size is too long! " ++ decimal len.toNat) []
  else
    match w.grow len.toNat newOk with
    | (false, w, mem) => ⟨.bad_alloc, w, s, mem⟩
    | (true, w, mem) => w.readPayload s len.toNat mem

theorem CMsgRW.ReadPacket_of_assignedLen {host : Endian} {amb : Ambient} {w : CMsgRW} {s : Sock}
    {len : ℤ} (h : w.assignedLen host amb s = some len) :
    w.ReadPacket host amb s = (w.headerRead s).1.afterLen amb.newOk (w.headerRead s).2 len := by
  unfold assignedLen at h
  dsimp only at h
  split at h
  · cases h
  · rename_i hret
    obtain rfl := Option.some.inj h
    simp only [ReadPacket, hret, ↓reduceIte]
    rfl

/-- The two halves of the behaviour that is wanted of a read that finds no whole header. -/
def StaleBytesUnseen (host : Endian) (w : CMsgRW) (s : Sock) : Prop :=
  ∀ newOk stale stale',
    (w.ReadPacket host ⟨stale, newOk⟩ s).seen = (w.ReadPacket host ⟨stale', newOk⟩ s).seen

def NoLenAssigned (host : Endian) (w : CMsgRW) (s : Sock) : Prop :=
  ∀ amb, w.assignedLen host amb s = none

def lowest (got : Bytes) : ℕ := beNat got * 256 ^ (4 - got.length)

def highest (got : Bytes) : ℕ := lowest got + (256 ^ (4 - got.length) - 1)

/-- The bytes received alone decide the read: any number they begin is negative as an `int`, or
    any is the length of a payload that is missing and for which the buffer is large enough. -/
def Settled (w : CMsgRW) (got : Bytes) : Prop :=
  2 ^ 31 ≤ lowest got ∨
    (0 < lowest got ∧ highest got ≤ MAX_ADM_PKG ∧
      (highest got ≤ LEN_ADM_PKG ∨ highest got ≤ w.m_lenbuf))

def headerNat (host : Endian) (stale : UInt32) (got : Bytes) : ℕ :=
  beNat (got ++ (host.store stale).drop got.length)

def asInt (n : ℕ) : ℤ := if n < 2 ^ 31 then n else n - 2 ^ 32

theorem frameLen_eq (host : Endian) (stale : UInt32) {got : Bytes} (h : got.length ≤ 4) :
    frameLen host stale got = asInt (headerNat host stale got) := by
  have hlen : (got ++ (host.store stale).drop got.length).length = 4 := by
    rw [List.length_append, List.length_drop, Endian.store_length]
    omega
  rw [frameLen, headerWord, host.hostToNet_load _ hlen, signed, ofBe32_toNat _ hlen]
  rfl

theorem headerNat_eq (host : Endian) (stale : UInt32) {got : Bytes} :
    headerNat host stale got = lowest got + beNat ((host.store stale).drop got.length) := by
  rw [headerNat, beNat_append, List.length_drop, Endian.store_length]
  rfl

theorem headerNat_bounds (host : Endian) (stale : UInt32) (got : Bytes) :
    lowest got ≤ headerNat host stale got ∧ headerNat host stale got ≤ highest got := by
  have hlt := beNat_lt ((host.store stale).drop got.length)
  rw [List.length_drop, Endian.store_length] at hlt
  rw [headerNat_eq, highest]
  omega

theorem headerNat_lowest (host : Endian) (got : Bytes) : headerNat host 0 got = lowest got := by
  have hstore : host.store 0 = List.replicate 4 0 := by cases host <;> decide
  rw [headerNat_eq, hstore, List.drop_replicate, beNat_zeros, Nat.add_zero]

theorem headerNat_highest (host : Endian) (got : Bytes) :
    headerNat host 0xFFFFFFFF got = highest got := by
  have hstore : host.store 0xFFFFFFFF = List.replicate 4 255 := by cases host <;> decide
  have hones := beNat_ones (4 - got.length)
  rw [headerNat_eq, hstore, List.drop_replicate, highest]
  omega

def CMsgRW.cutSeen (w : CMsgRW) (newOk : Bool) (len : ℤ) : Seen :=
  let refused (text : Bytes) : Seen :=
    ⟨.ret (-1), snprintf LEN_ERR_MSG text, 0, w.m_lenbuf, w.m_msgbuf⟩
  if len < 0 then refused (ascii "Invalid packet data format!")
  else if len > MAX_ADM_PKG then refused (ascii "message size is too long! " ++ decimal len.toNat)
  else if len = 0 then ⟨.ret 0, [], 0, w.m_lenbuf, w.m_msgbuf⟩
  else if len ≤ LEN_ADM_PKG ∨ len ≤ w.m_lenbuf then refused (ascii "can not read enough data")
  else if newOk then
    ⟨.ret (-1), snprintf LEN_ERR_MSG (ascii "can not read enough data"), 0, len.toNat + 2,
      .block w.blocks⟩
  else ⟨.bad_alloc, [], 0, len.toNat + 2, w.m_msgbuf⟩

theorem SocketRead_ended (s : Sock) (len : ℕ) (err : Bytes) (h : s.incoming = []) :
    (SocketRead s len err).ret = 0 ∧ (SocketRead s len err).szErrInfo = err := by
  have hread := SocketRead_reads s len err
  rw [hread.ret, hread.text, h]
  cases len with
  | zero => simp [readReturn, readText]
  | succ len => simp [fill, readReturn, readText]

theorem CMsgRW.readPayload_ended (w : CMsgRW) (s : Sock) (len : ℕ) (mem : List MemEvent)
    (h : s.incoming = []) (hmsg : w.m_lenmsg = 0) :
    (w.readPayload s len mem).seen =
      if len = 0 then ⟨.ret 0, w.m_errbuf, 0, w.m_lenbuf, w.m_msgbuf⟩
      else ⟨.ret (-1), snprintf LEN_ERR_MSG (ascii "can not read enough data"), 0, w.m_lenbuf,
        w.m_msgbuf⟩ := by
  obtain ⟨hret, htext⟩ := SocketRead_ended s len w.m_errbuf h
  by_cases hzero : len = 0
  · subst hzero
    have hfull : (SocketRead s 0 w.m_errbuf).ret = (0 : ℕ) := hret
    simp only [readPayload, hfull, ne_eq, not_true_eq_false, ↓reduceIte, PacketRead.seen]
    simp only [storeAt_m_errbuf, storeAt_m_lenbuf, storeAt_m_msgbuf, setErr_m_lenbuf,
      setErr_m_msgbuf]
    rw [setErr, htext]
    rfl
  · have hshort : (SocketRead s len w.m_errbuf).ret ≠ len := by
      rw [hret]
      omega
    simp only [readPayload, hshort, ne_eq, not_false_eq_true, ↓reduceIte, fail, PacketRead.seen,
      hzero, setErr_m_lenbuf, setErr_m_msgbuf, storeAt_m_lenbuf, storeAt_m_msgbuf]
    simp only [setErr, storeAt_m_lenmsg, hmsg]

theorem CMsgRW.afterLen_ended (newOk : Bool) (w : CMsgRW) (s : Sock) (len : ℤ)
    (h : s.incoming = []) (herr : w.m_errbuf = []) (hmsg : w.m_lenmsg = 0) :
    (w.afterLen newOk s len).seen = w.cutSeen newOk len := by
  unfold afterLen cutSeen
  dsimp only
  by_cases hneg : len < 0
  · simp only [hneg, ↓reduceIte]
    simp only [fail, PacketRead.seen, setErr, hmsg]
  by_cases hbig : len > MAX_ADM_PKG
  · simp only [hneg, hbig, ↓reduceIte]
    simp only [fail, PacketRead.seen, setErr, hmsg]
  simp only [hneg, hbig, ↓reduceIte]
  by_cases hgrow : len.toNat > LEN_ADM_PKG ∧ len.toNat > w.m_lenbuf
  · have hzero : ¬ len = 0 := by omega
    have hfits : ¬ (len ≤ LEN_ADM_PKG ∨ len ≤ w.m_lenbuf) := by omega
    have hnat : ¬ len.toNat = 0 := by omega
    cases newOk with
    | false =>
      simp only [grow, hgrow, and_self, ↓reduceIte, Bool.false_eq_true, hzero, hfits]
      simp only [PacketRead.seen, herr, hmsg]
    | true =>
      simp only [grow, hgrow, and_self, ↓reduceIte, hzero, hfits]
      exact (readPayload_ended _ s len.toNat _ h (by exact hmsg)).trans (if_neg hnat)
  · simp only [grow, hgrow, ↓reduceIte]
    rw [readPayload_ended _ _ _ _ h hmsg]
    by_cases hzero : len = 0
    · simp only [hzero, Int.toNat_zero, ↓reduceIte, herr]
    · have hfits : len ≤ LEN_ADM_PKG ∨ len ≤ w.m_lenbuf := by omega
      have hnat : ¬ len.toNat = 0 := by omega
      simp only [hzero, hfits, hnat, ↓reduceIte]

theorem CMsgRW.assignedLen_ended (host : Endian) (amb : Ambient) (w : CMsgRW) (s : Sock)
    (h : EndsInHeader s) :
    w.assignedLen host amb s =
      some (asInt (headerNat host amb.header (fill interrupts 4 s.incoming).got)) := by
  have hread := SocketRead_reads s 4 (w.Clear false).1.m_errbuf
  have hret : (SocketRead s 4 (w.Clear false).1.m_errbuf).ret = 0 := by
    rw [hread.ret, show (fill interrupts 4 s.incoming).stop = .ended from h]
    rfl
  have hp := hread.p
  rw [List.nil_append] at hp
  have hpass : ¬ (0 : ℤ) < 0 := by decide
  simp only [assignedLen, hret, hpass, ↓reduceIte, hp]
  rw [frameLen_eq host amb.header (fill_length_le interrupts 4 s.incoming)]

theorem CMsgRW.ReadPacket_cut (host : Endian) (amb : Ambient) (w : CMsgRW) (s : Sock)
    (h : EndsInHeader s) :
    (w.ReadPacket host amb s).seen =
      w.cutSeen amb.newOk (asInt (headerNat host amb.header (fill interrupts 4 s.incoming).got)) := by
  have hread := SocketRead_reads s 4 (w.Clear false).1.m_errbuf
  have hend : (w.headerRead s).2.incoming = [] := by
    change (SocketRead s 4 (w.Clear false).1.m_errbuf).sock.incoming = []
    rw [hread.incoming, fill_ended_rest interrupts 4 s.incoming h]
  have herr : (w.headerRead s).1.m_errbuf = [] := by
    change (SocketRead s 4 (w.Clear false).1.m_errbuf).szErrInfo = []
    rw [hread.text, show (fill interrupts 4 s.incoming).stop = .ended from h]
    rfl
  rw [ReadPacket_of_assignedLen (w.assignedLen_ended host amb s h),
    afterLen_ended _ _ _ _ hend herr rfl]
  rfl

theorem decimal_inj {m n : ℕ} (h : decimal m = decimal n) : m = n := by
  have hchars (k : ℕ) :
      (decimal k).map (fun b => Char.ofNat b.toNat) = Nat.toDigits 10 k := by
    have hsame : ∀ c ∈ Nat.toDigits 10 k, Char.ofNat (UInt8.ofNat c.toNat).toNat = c := by
      intro c hc
      have hle := (toDigits_toNat hc).2
      have hbyte : (UInt8.ofNat c.toNat).toNat = c.toNat := by
        rw [UInt8.toNat_ofNat']
        omega
      rw [hbyte, Char.ofNat_toNat]
    rw [decimal, List.map_map]
    exact (List.map_congr_left hsame).trans (List.map_id' _)
  have hdigits : Nat.toDigits 10 m = Nat.toDigits 10 n := by
    rw [← hchars m, ← hchars n, h]
  rw [← Nat.ofDigitChars_ten_toDigits (n := m), hdigits, Nat.ofDigitChars_ten_toDigits]

def tooLong (n : ℕ) : Bytes :=
  snprintf LEN_ERR_MSG (ascii "message size is too long! " ++ decimal n)

theorem tooLong_eq (n : ℕ) (h : n < 10 ^ 10) :
    tooLong n = ascii "message size is too long! " ++ decimal n := by
  have hlen : (decimal n).length ≤ 10 := decimal_length_le (by decide) h
  rw [tooLong, snprintf, List.take_of_length_le]
  rw [List.length_append]
  have hprefix : (ascii "message size is too long! ").length = 26 := by decide
  unfold LEN_ERR_MSG
  omega

theorem tooLong_inj {m n : ℕ} (hm : m < 10 ^ 10) (hn : n < 10 ^ 10) (h : tooLong m = tooLong n) :
    m = n := by
  rw [tooLong_eq m hm, tooLong_eq n hn] at h
  exact decimal_inj (List.append_cancel_left h)

theorem tooLong_ne (n : ℕ) (hn : n < 10 ^ 10) :
    tooLong n ≠ snprintf LEN_ERR_MSG (ascii "can not read enough data") := by
  intro h
  rw [tooLong_eq n hn] at h
  have hhead := congrArg List.head? h
  have hfirst : (ascii "message size is too long! ").head? = some 109 := by decide
  rw [List.head?_append, hfirst, Option.some_or] at hhead
  revert hhead
  decide

section Seen

variable (w : CMsgRW) (newOk : Bool) {n : ℕ}

theorem asInt_of_lt (h : n < 2 ^ 31) : asInt n = n := by
  rw [asInt, if_pos h]

theorem lt_of_le_max (h : n ≤ MAX_ADM_PKG) : n < 2 ^ 31 := by
  unfold MAX_ADM_PKG at h
  omega

theorem CMsgRW.cutSeen_ret_zero {len : ℤ} (h : (w.cutSeen newOk len).outcome = .ret 0) :
    len = 0 := by
  by_contra hzero
  unfold cutSeen at h
  dsimp only at h
  simp only [hzero, ↓reduceIte] at h
  split at h
  · simp at h
  split at h
  · simp at h
  split at h
  · simp at h
  split at h <;> simp at h

theorem CMsgRW.cutSeen_negative (hlo : 2 ^ 31 ≤ n) (hhi : n < 2 ^ 32) :
    w.cutSeen newOk (asInt n) =
      ⟨.ret (-1), snprintf LEN_ERR_MSG (ascii "Invalid packet data format!"), 0, w.m_lenbuf,
        w.m_msgbuf⟩ := by
  have hneg : asInt n < 0 := by
    unfold asInt
    split <;> omega
  simp only [cutSeen, hneg, ↓reduceIte]

theorem CMsgRW.cutSeen_tooLong (hlo : MAX_ADM_PKG < n) (hhi : n < 2 ^ 31) :
    w.cutSeen newOk (asInt n) = ⟨.ret (-1), tooLong n, 0, w.m_lenbuf, w.m_msgbuf⟩ := by
  have hneg : ¬ (n : ℤ) < 0 := by omega
  have hbig : (n : ℤ) > MAX_ADM_PKG := by omega
  simp only [asInt_of_lt hhi, cutSeen, hneg, hbig, ↓reduceIte, Int.toNat_natCast]
  rfl

theorem CMsgRW.cutSeen_short (hpos : 0 < n) (hmax : n ≤ MAX_ADM_PKG)
    (hfits : n ≤ LEN_ADM_PKG ∨ n ≤ w.m_lenbuf) :
    w.cutSeen newOk (asInt n) =
      ⟨.ret (-1), snprintf LEN_ERR_MSG (ascii "can not read enough data"), 0, w.m_lenbuf,
        w.m_msgbuf⟩ := by
  have hneg : ¬ (n : ℤ) < 0 := by omega
  have hbig : ¬ (n : ℤ) > MAX_ADM_PKG := by omega
  have hzero : ¬ (n : ℤ) = 0 := by omega
  have hfits' : (n : ℤ) ≤ LEN_ADM_PKG ∨ (n : ℤ) ≤ w.m_lenbuf := by omega
  simp only [asInt_of_lt (lt_of_le_max hmax), cutSeen, hneg, hbig, hzero, hfits', ↓reduceIte]

theorem CMsgRW.cutSeen_grown (hmax : n ≤ MAX_ADM_PKG) (hpkg : LEN_ADM_PKG < n)
    (hbuf : w.m_lenbuf < n) :
    w.cutSeen true (asInt n) =
      ⟨.ret (-1), snprintf LEN_ERR_MSG (ascii "can not read enough data"), 0, n + 2,
        .block w.blocks⟩ := by
  have hneg : ¬ (n : ℤ) < 0 := by omega
  have hbig : ¬ (n : ℤ) > MAX_ADM_PKG := by omega
  have hzero : ¬ (n : ℤ) = 0 := by omega
  have hfits : ¬ ((n : ℤ) ≤ LEN_ADM_PKG ∨ (n : ℤ) ≤ w.m_lenbuf) := by omega
  simp only [asInt_of_lt (lt_of_le_max hmax), cutSeen, hneg, hbig, hzero, hfits, ↓reduceIte, Int.toNat_natCast]

/-- Two different lengths that a caller cannot tell apart are both refused for what they are
    short of, and neither makes the buffer grow. -/
theorem CMsgRW.cutSeen_alike {lo hi : ℕ} (hlt : lo < hi) (hmax : hi < 2 ^ 31)
    (h : w.cutSeen true (asInt lo) = w.cutSeen true (asInt hi)) :
    0 < lo ∧ hi ≤ MAX_ADM_PKG ∧ (hi ≤ LEN_ADM_PKG ∨ hi ≤ w.m_lenbuf) := by
  have hten : (2 : ℕ) ^ 31 < 10 ^ 10 := by decide
  have hpos : 0 < lo := by
    by_contra hzero
    obtain rfl : lo = 0 := by omega
    have hret : (w.cutSeen true (asInt hi)).outcome = .ret 0 := by
      rw [← h]
      rfl
    have := w.cutSeen_ret_zero true hret
    rw [asInt_of_lt hmax] at this
    omega
  have hsmall : hi ≤ MAX_ADM_PKG := by
    by_contra hbig
    rw [w.cutSeen_tooLong true (by omega) hmax] at h
    by_cases hlo : lo ≤ MAX_ADM_PKG
    · by_cases hfits : lo ≤ LEN_ADM_PKG ∨ lo ≤ w.m_lenbuf
      · rw [w.cutSeen_short true hpos hlo hfits] at h
        exact tooLong_ne hi (by omega) (congrArg Seen.m_errbuf h).symm
      · rw [w.cutSeen_grown hlo (by omega) (by omega)] at h
        exact tooLong_ne hi (by omega) (congrArg Seen.m_errbuf h).symm
    · rw [w.cutSeen_tooLong true (by omega) (by omega)] at h
      have := tooLong_inj (by omega) (by omega) (congrArg Seen.m_errbuf h)
      omega
  refine ⟨hpos, hsmall, ?_⟩
  by_contra hfits
  rw [w.cutSeen_grown hsmall (by omega) (by omega)] at h
  by_cases hlo : lo ≤ LEN_ADM_PKG ∨ lo ≤ w.m_lenbuf
  · rw [w.cutSeen_short true hpos (by omega) hlo] at h
    have : w.m_lenbuf = hi + 2 := congrArg Seen.m_lenbuf h
    omega
  · rw [w.cutSeen_grown (by omega) (by omega) (by omega)] at h
    have : lo + 2 = hi + 2 := congrArg Seen.m_lenbuf h
    omega

end Seen

theorem EndsInHeader.received {s : Sock} (h : EndsInHeader s) :
    (fill interrupts 4 s.incoming).got.length < 4 := by
  have hle := fill_length_le interrupts 4 s.incoming
  have hne : (fill interrupts 4 s.incoming).got.length ≠ 4 := by
    intro hfull
    have hstop := (fill_full_iff interrupts 4 s.incoming).mpr hfull
    rw [show (fill interrupts 4 s.incoming).stop = .ended from h] at hstop
    cases hstop
  omega

theorem highest_bounds {got : Bytes} (h : got.length < 4) :
    lowest got < highest got ∧ highest got < 2 ^ 32 ∧
      (lowest got < 2 ^ 31 → highest got < 2 ^ 31 ∨ lowest got = 0) := by
  have hlt := beNat_lt got
  unfold highest lowest
  obtain hlen | hlen | hlen | hlen :
      got.length = 0 ∨ got.length = 1 ∨ got.length = 2 ∨ got.length = 3 := by omega
  all_goals
    rw [hlen] at hlt ⊢
    simp only [Nat.reduceSub, Nat.reducePow] at hlt ⊢
    omega

theorem StaleBytesUnseen_iff (host : Endian) (w : CMsgRW) (s : Sock) (h : EndsInHeader s) :
    StaleBytesUnseen host w s ↔ Settled w (fill interrupts 4 s.incoming).got := by
  generalize hgot : (fill interrupts 4 s.incoming).got = got
  have hlen : got.length < 4 := by
    rw [← hgot]
    exact h.received
  have hread (newOk : Bool) (stale : UInt32) :
      (w.ReadPacket host ⟨stale, newOk⟩ s).seen =
        w.cutSeen newOk (asInt (headerNat host stale got)) := by
    rw [← hgot]
    exact w.ReadPacket_cut host ⟨stale, newOk⟩ s h
  obtain ⟨hlt, hmax, hsign⟩ := highest_bounds hlen
  constructor
  · intro hsame
    have hends := hsame true 0 0xFFFFFFFF
    rw [hread, hread, headerNat_lowest, headerNat_highest] at hends
    by_cases hneg : 2 ^ 31 ≤ lowest got
    · exact .inl hneg
    by_cases hhi : highest got < 2 ^ 31
    · exact .inr (w.cutSeen_alike hlt hhi hends)
    · -- nothing has come: the length 0 is read as a whole packet, the length -1 is refused
      have hzero := (hsign (by omega)).resolve_left hhi
      rw [hzero, w.cutSeen_negative true (by omega) hmax] at hends
      have hret : Outcome.ret 0 = Outcome.ret (-1) := congrArg Seen.outcome hends
      exact absurd hret (by decide)
  · intro hsettled newOk stale stale'
    obtain ⟨hlo, hhi⟩ := headerNat_bounds host stale got
    obtain ⟨hlo', hhi'⟩ := headerNat_bounds host stale' got
    rw [hread, hread]
    rcases hsettled with hneg | ⟨hpos, hsmall, hfits⟩
    · rw [w.cutSeen_negative newOk (by omega) (by omega),
        w.cutSeen_negative newOk (by omega) (by omega)]
    · rw [w.cutSeen_short newOk (by omega) (by omega) (by omega),
        w.cutSeen_short newOk (by omega) (by omega) (by omega)]

/-- Of a stream that ends inside a header a length is always interpreted; and the caller is shown
    the same whatever the stale bytes are exactly when the bytes received settle the outcome. -/
theorem ReadPacket_cut_never (host : Endian) (w : CMsgRW) (s : Sock) (h : EndsInHeader s) :
    ¬ (StaleBytesUnseen host w s ∧ NoLenAssigned host w s) ∧ ¬ NoLenAssigned host w s ∧
      (StaleBytesUnseen host w s ↔ Settled w (fill interrupts 4 s.incoming).got) := by
  have hassigned : ¬ NoLenAssigned host w s := by
    intro hnone
    have hlen := hnone ⟨0, true⟩
    rw [w.assignedLen_ended host ⟨0, true⟩ s h] at hlen
    cases hlen
  exact ⟨fun hboth => hassigned hboth.2, hassigned, StaleBytesUnseen_iff host w s h⟩

def threeZeros : Sock := ⟨unread [0, 0, 0] [], [], []⟩

theorem threeZeros_staleBytesSeen :
    ¬ (StaleBytesUnseen .little CMsgRW.init threeZeros ∧
      NoLenAssigned .little CMsgRW.init threeZeros) := by
  rintro ⟨hsame, -⟩
  have hends := hsame true 0 0xFFFFFFFF
  revert hends
  decide +kernel

theorem ReadPacket_cut_never_threeZeros :
    ¬ NoLenAssigned .little CMsgRW.init threeZeros ∧
      (StaleBytesUnseen .little CMsgRW.init threeZeros ↔ Settled CMsgRW.init [0, 0, 0]) :=
  (ReadPacket_cut_never .little CMsgRW.init threeZeros (by decide)).2

end O2k.MsgBuffer
