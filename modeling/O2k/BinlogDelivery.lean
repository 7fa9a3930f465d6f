import O2k.BinlogClient

set_option autoImplicit false

namespace O2k.BinlogClient
open ByteOrder ChunkedSource BinlogPacket GatedTrace

def handedOver (binlogHandler : Handler) : List Packet → List Packet → List Packet
  | _, [] => []
  | seen, p :: ps =>
    if binlogHandler seen p = .value 0 then p :: handedOver binlogHandler (seen ++ [p]) ps else [p]

/-- Each of these payloads stands in one chunk: after the four bytes of its length, one read
    call can return all of it. -/
def Unsplit : Source Unit UInt8 → List Bytes → Prop
  | _, [] => True
  | src, p :: ps =>
    p.length ≤ available (fill neverRetry 4 src).rest ∧
      Unsplit (fill neverRetry (4 + p.length) src).rest ps

instance Unsplit.decidable : (src : Source Unit UInt8) → (ps : List Bytes) → Decidable (Unsplit src ps)
  | _, [] => .isTrue trivial
  | src, p :: ps =>
    have := Unsplit.decidable (fill neverRetry (4 + p.length) src).rest ps
    inferInstanceAs (Decidable (_ ∧ _))

theorem recvPkg_frame (src : Source Unit UInt8) (p tail : Bytes) (hs : Steady neverRetry src)
    (hitems : items src = frame p ++ tail) (hp : p.length < 2 ^ 31) :
    (p.length ≤ available (fill neverRetry 4 src).rest →
      recvPkg src = (.data p, (fill neverRetry (4 + p.length) src).rest)) ∧
    (¬ p.length ≤ available (fill neverRetry 4 src).rest → (recvPkg src).1 = .null) := by
  have hroom : 4 + p.length ≤ (items src).length := by simp [hitems]
  have hgot : (fill neverRetry (4 + p.length) src).got = frame p := by
    rw [(fill_steady neverRetry _ src hs hroom).1, hitems, ← frame_length p, List.take_left]
  obtain ⟨hgot4, hfull4, hgotp, _, hrest⟩ :=
    fill_got_append neverRetry (be32 (UInt32.ofNat p.length)) p src hgot
  rw [be32_length] at hgot4 hfull4 hgotp hrest
  have hneg : ¬ ((p.length : ℤ) < 0) := by omega
  simp only [recvPkg, hfull4, hgot4, ofBe32_be32, signed_ofNat p.length hp, hneg, ↓reduceIte]
  by_cases hzero : p = []
  · subst hzero
    simp only [List.length_nil, Nat.cast_zero, ↓reduceIte, Nat.zero_le, not_true_eq_false,
      false_implies, and_true, forall_const, Nat.add_zero]
  · have hpos : 0 < p.length := List.length_pos_iff.mpr hzero
    have hne : ¬ ((p.length : ℤ) = 0) := by omega
    simp only [hne, ↓reduceIte, Int.toNat_natCast]
    constructor
    · intro hav
      obtain ⟨a, as, hpull, hall⟩ := pull_eq_fill neverRetry hpos hav
      have hp' : a :: as = p := hall.symm.trans hgotp
      rw [hpull, hrest]
      simp [hp']
    · intro hav
      cases hpull : pull p.length (fill neverRetry 4 src).rest with
      | mk pulled rest =>
        cases pulled with
        | ended => rfl
        | fault e => rfl
        | data a as =>
          have hlt := pull_short (by omega) hpull
          have hno : ((a :: as).length : ℤ) ≠ p.length := by omega
          simp only [ne_eq, hno, not_false_eq_true, ↓reduceIte]

theorem recvPkg_end : recvPkg [] = (.null, []) := rfl

theorem steady_nil {src : Source Unit UInt8} (hs : Steady neverRetry src) (h : items src = []) :
    src = [] := by
  match src, hs, h with
  | [], _, _ => rfl
  | .chunk a as :: tail, _, h => simp at h
  | .fault e :: tail, hs, _ =>
    have := hs e (by simp)
    simp [neverRetry] at this

section Frame

variable {c : Conn} {p tail : Bytes}

theorem RecvProtobufMsg_whole {pkt : Packet} (hs : Steady neverRetry c.incoming)
    (hitems : items c.incoming = frame p ++ tail) (hp : p.length < 2 ^ 31)
    (hpkt : Packet.parseFrom p = some pkt)
    (hav : p.length ≤ available (fill neverRetry 4 c.incoming).rest) :
    RecvProtobufMsg c = (.packet pkt,
        { c with incoming := (fill neverRetry (4 + p.length) c.incoming).rest }.record
          (.received pkt)) ∧
      Steady neverRetry (fill neverRetry (4 + p.length) c.incoming).rest ∧
      items (fill neverRetry (4 + p.length) c.incoming).rest = tail := by
  have hroom : 4 + p.length ≤ (items c.incoming).length := by simp [hitems]
  obtain ⟨_, _, hrest, hsteady⟩ := fill_steady neverRetry _ c.incoming hs hroom
  rw [hitems, ← frame_length p, List.drop_left, frame_length] at hrest
  refine ⟨?_, hsteady, hrest⟩
  simp [RecvProtobufMsg, nextPacket, (recvPkg_frame c.incoming p tail hs hitems hp).1 hav, hpkt]

theorem RecvProtobufMsg_split (hs : Steady neverRetry c.incoming)
    (hitems : items c.incoming = frame p ++ tail) (hp : p.length < 2 ^ 31)
    (hav : ¬ p.length ≤ available (fill neverRetry 4 c.incoming).rest) :
    RecvProtobufMsg c = (.null, { c with incoming := (recvPkg c.incoming).2 }) := by
  have hnull := (recvPkg_frame c.incoming p tail hs hitems hp).2 hav
  simp only [RecvProtobufMsg, nextPacket]
  generalize recvPkg c.incoming = r at hnull
  obtain ⟨r, rest⟩ := r
  obtain rfl : r = .null := hnull
  rfl

end Frame

theorem handedOver_cons (binlogHandler : Handler) (seen : List Packet) (pkt : Packet)
    (pkts : List Packet) : handedOver binlogHandler seen (pkt :: pkts) =
      pkt :: if binlogHandler seen pkt = .value 0 then
        handedOver binlogHandler (seen ++ [pkt]) pkts else [] := by
  rw [handedOver]
  split <;> rfl

theorem dumpLoop_stops {binlogHandler : Handler} {seen : List Packet} {c c' : Conn} {pkt : Packet}
    (fuel : ℕ) (hnext : RecvProtobufMsg c = (.packet pkt, c'))
    (hstop : binlogHandler seen pkt ≠ .value 0) :
    (dumpLoop binlogHandler (fuel + 1) seen c).2 = c'.record (.applied pkt) := by
  simp only [dumpLoop, hnext]
  cases hres : binlogHandler seen pkt with
  | throws => rfl
  | value n =>
    have hn : n ≠ 0 := by
      rintro rfl
      exact hstop hres
    simp [hn]

theorem dumpLoop_applied (binlogHandler : Handler) (fuel : ℕ) (payloads : List Bytes)
    (pkts seen : List Packet) (c : Conn) (hfuel : payloads.length < fuel)
    (hs : Steady neverRetry c.incoming) (hitems : items c.incoming = frames payloads)
    (hparse : payloads.map Packet.parseFrom = pkts.map some)
    (hlen : ∀ p ∈ payloads, p.length < 2 ^ 31) :
    ∃ k, packetsApplied (dumpLoop binlogHandler fuel seen c).2.trace =
        packetsApplied c.trace ++ (handedOver binlogHandler seen pkts).take k ∧
      (Unsplit c.incoming (payloads.take (handedOver binlogHandler seen pkts).length) →
        k = (handedOver binlogHandler seen pkts).length) ∧
      (¬ Unsplit c.incoming (payloads.take (handedOver binlogHandler seen pkts).length) →
        k < (handedOver binlogHandler seen pkts).length) := by
  induction payloads generalizing fuel pkts seen c with
  | nil =>
    obtain rfl : pkts = [] := by simpa using hparse.symm
    match fuel, hfuel with
    | fuel + 1, _ =>
      have hend : c.incoming = [] := steady_nil hs (by simpa using hitems)
      refine ⟨0, ?_, fun _ => rfl, ?_⟩
      · simp [dumpLoop, RecvProtobufMsg, nextPacket, hend, recvPkg_end]
      · intro hno
        simp [Unsplit] at hno
  | cons p payloads ih =>
    match pkts, hparse, fuel, hfuel with
    | pkt :: pkts, hparse, fuel + 1, hfuel =>
      simp only [List.map_cons, List.cons.injEq] at hparse
      obtain ⟨hpkt, hparse⟩ := hparse
      rw [frames_cons] at hitems
      have hp := hlen p (by simp)
      rw [handedOver_cons]
      simp only [List.length_cons, List.take_succ_cons, Unsplit]
      by_cases hav : p.length ≤ available (fill neverRetry 4 c.incoming).rest
      · obtain ⟨hnext, hsteady, hrest⟩ := RecvProtobufMsg_whole hs hitems hp hpkt hav
        simp only [hav, true_and]
        by_cases hgo : binlogHandler seen pkt = .value 0
        · obtain ⟨k, happlied, hall, hless⟩ := ih fuel pkts (seen ++ [pkt])
            (({ c with incoming := (fill neverRetry (4 + p.length) c.incoming).rest }.record
              (.received pkt)).record (.applied pkt)) (by simpa using hfuel) hsteady hrest hparse
            (fun q hq => hlen q (by simp [hq]))
          rw [if_pos hgo]
          refine ⟨k + 1, ?_, fun h => by rw [hall h], fun h => Nat.succ_lt_succ (hless h)⟩
          simp only [dumpLoop, hnext, hgo, ne_eq, not_true_eq_false, ↓reduceIte, happlied]
          simp [packetsApplied, written, Event.packetApplied]
        · rw [if_neg hgo]
          refine ⟨1, ?_, fun _ => rfl, fun h => by simp [Unsplit] at h⟩
          rw [dumpLoop_stops fuel hnext hgo]
          simp [packetsApplied, written, Event.packetApplied]
      · refine ⟨0, ?_, fun h => absurd h.1 hav, fun _ => Nat.succ_pos _⟩
        simp [dumpLoop, RecvProtobufMsg_split hs hitems hp hav]

theorem RecvProtobufMsg_applied (c : Conn) :
    packetsApplied (RecvProtobufMsg c).2.trace = packetsApplied c.trace := by
  unfold RecvProtobufMsg
  split
  · simp [packetsApplied, written, Event.packetApplied]
  · rfl

theorem SendProtobufMsg_applied (c : Conn) (pkgType : PacketType) (msgBody : Bytes) :
    packetsApplied (SendProtobufMsg c pkgType msgBody).2.trace = packetsApplied c.trace := by
  obtain ⟨evs, hsent⟩ := SendPkg_sent c (Packet.toByteArray { type := pkgType, body := msgBody })
  rw [SendProtobufMsg, hsent.trace, packetsApplied_append, hsent.applied, List.append_nil]

theorem HandShake_applied (c : Conn) :
    packetsApplied (HandShake c).2.trace = packetsApplied c.trace := by
  have hfirst := RecvProtobufMsg_applied c
  unfold HandShake
  generalize RecvProtobufMsg c = r at hfirst
  obtain ⟨r, c1⟩ := r
  cases r with
  | exception => exact hfirst
  | null => exact hfirst
  | packet h =>
    dsimp only at hfirst ⊢
    split
    · exact hfirst
    · have hsend := SendProtobufMsg_applied c1 .CLIENTAUTHENTICATION ClientAuth.defaultBytes
      generalize SendProtobufMsg c1 .CLIENTAUTHENTICATION ClientAuth.defaultBytes = q at hsend
      obtain ⟨ok, c2⟩ := q
      rw [← hfirst, ← hsend]
      cases ok with
      | false => rfl
      | true =>
        have hsecond := RecvProtobufMsg_applied c2
        dsimp only
        generalize RecvProtobufMsg c2 = t at hsecond
        obtain ⟨t, c3⟩ := t
        rw [← hsecond]
        cases t with
        | exception => rfl
        | null => rfl
        | packet a =>
          dsimp only
          split <;> rfl

theorem frames_length_le (ps : List Bytes) : ps.length ≤ (frames ps).length := by
  induction ps with
  | nil => exact Nat.le_refl 0
  | cons p ps ih =>
    rw [frames_cons, List.length_append, List.length_cons, frame_length]
    omega

/-- After a successful handshake the handler is applied to the packets it is due, once each and
    in order, exactly when none of their payloads is split between two read calls. -/
theorem DumpBinlog_applies_iff (startScn : ℤ) (binlogHandler : Handler) (c c' : Conn)
    (payloads : List Bytes) (pkts : List Packet) (hnew : c.trace = [])
    (hshake : HandShake c = (some true, c'))
    (hsend : (SendProtobufMsg c' .DUMP (dumpRequest startScn).toByteString).1 = true)
    (hs : Steady neverRetry c'.incoming) (hitems : items c'.incoming = frames payloads)
    (hparse : payloads.map Packet.parseFrom = pkts.map some)
    (hlen : ∀ p ∈ payloads, p.length < 2 ^ 31) :
    packetsApplied (DumpBinlog true startScn binlogHandler c).2.trace =
        handedOver binlogHandler [] pkts ↔
      Unsplit c'.incoming (payloads.take (handedOver binlogHandler [] pkts).length) := by
  obtain ⟨evs, hsent⟩ := SendPkg_sent c'
    (Packet.toByteArray { type := .DUMP, body := (dumpRequest startScn).toByteString })
  change Sent _ c' (SendProtobufMsg c' .DUMP (dumpRequest startScn).toByteString) evs at hsent
  have hbefore := SendProtobufMsg_applied c' .DUMP (dumpRequest startScn).toByteString
  have hshaken := HandShake_applied c
  rw [hshake, hnew] at hshaken
  dsimp only at hshaken
  rw [hshaken] at hbefore
  simp only [DumpBinlog, ↓reduceIte, hshake]
  generalize SendProtobufMsg c' .DUMP (dumpRequest startScn).toByteString = r
    at hsend hsent hbefore
  obtain ⟨ok, c2⟩ := r
  obtain rfl : ok = true := hsend
  have hin : c2.incoming = c'.incoming := hsent.incoming
  have hfuel : payloads.length < (items c2.incoming).length + 1 := by
    rw [hin, hitems]
    exact Nat.lt_succ_of_le (frames_length_le payloads)
  obtain ⟨k, happlied, hall, hless⟩ := dumpLoop_applied binlogHandler _ payloads pkts [] c2 hfuel
    (by rwa [hin]) (by rwa [hin]) hparse hlen
  rw [hin] at hall hless
  have hnone : packetsApplied c2.trace = [] := hbefore
  rw [happlied, hnone, List.nil_append]
  constructor
  · intro heq
    by_contra hno
    have hlt := hless hno
    have hk := congrArg List.length heq
    rw [List.length_take] at hk
    omega
  · intro hun
    rw [hall hun, List.take_length]

def greeting (tail : Source Unit UInt8) : Conn where
  incoming := unread (frame [24, 1]) (unread (frame [24, 3]) tail)
  room := none
  trace := []

def untilHeartbeat : Handler := fun _ p => .value (if p.type = .HEARTBEAT then 1 else 0)

def wholePayloads : Source Unit UInt8 :=
  [.chunk 0 [0, 0, 2, 24, 7, 0, 0], .chunk 0 [2], .chunk 24 [11, 0, 0, 0, 0]]

theorem DumpBinlog_applies_whole :
    packetsApplied (DumpBinlog true 5 untilHeartbeat (greeting wholePayloads)).2.trace =
        handedOver untilHeartbeat [] [{ type := .MESSAGES }, { type := .HEARTBEAT }, {}] :=
  (DumpBinlog_applies_iff 5 untilHeartbeat (greeting wholePayloads)
    ⟨wholePayloads, none, [.received { type := .HANDSHAKE }, .wrote [0, 0, 0, 2], .wrote [24, 2],
      .received { type := .ACK }]⟩ [[24, 7], [24, 11], []] _ rfl (by decide +kernel)
    (by decide) (by simp [Steady, wholePayloads]) (by decide) (by decide) (by decide)).mpr
    (by decide)

def splitPayload : Conn := greeting [.chunk 0 [0, 0, 2, 24], .chunk 7 []]

theorem splitPayload_lost :
    (HandShake splitPayload).1 = some true ∧
      (SendProtobufMsg (HandShake splitPayload).2 .DUMP (dumpRequest 0).toByteString).1 = true ∧
      (HandShake splitPayload).2.incoming = [.chunk 0 [0, 0, 2, 24], .chunk 7 []] ∧
      items (HandShake splitPayload).2.incoming = frames [[24, 7]] ∧
      Packet.parseFrom [24, 7] = some { type := .MESSAGES } ∧
      packetsApplied (DumpBinlog true 0 untilHeartbeat splitPayload).2.trace ≠
        handedOver untilHeartbeat [] [{ type := .MESSAGES }] := by
  decide +kernel

end O2k.BinlogClient
