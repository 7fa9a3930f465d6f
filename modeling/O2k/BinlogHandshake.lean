import O2k.BinlogClient

set_option autoImplicit false

namespace O2k.BinlogClient
open ByteOrder ChunkedSource BinlogPacket GatedTrace

def authFrame : Bytes :=
  frame (Packet.toByteArray { type := .CLIENTAUTHENTICATION, body := ClientAuth.defaultBytes })

def dumpFrame (startScn : ℤ) : Bytes :=
  frame (Packet.toByteArray { type := .DUMP, body := (dumpRequest startScn).toByteString })

def AckOk (body : Bytes) : Prop := ∃ ack, Ack.parseFrom body = some ack ∧ ack.errorCode = 0

def Greeted (us : List Event) : Prop := ∃ h ps, packetsIn us = h :: ps ∧ h.type = .HANDSHAKE

def Accepted (us : List Event) : Prop :=
  ∃ h a ps, packetsIn us = h :: a :: ps ∧ h.type = .HANDSHAKE ∧ a.type = .ACK ∧ AckOk a.body

structure Conforms (auth dump : Bytes) (evs : List Event) : Prop where
  sends : bytesOut evs <+: auth ++ dump
  greeted : Gated Event.bytesOut 0 Greeted evs
  accepted : Gated Event.bytesOut auth.length Accepted evs
  applies : ∀ us p vs, evs = us ++ .applied p :: vs → Accepted us

def secondPacket (src : Source Unit UInt8) : Option Packet :=
  match nextPacket src with
  | (.packet h, rest) =>
    if h.type = .HANDSHAKE then
      match nextPacket rest with
      | (.packet a, _) => some a
      | _ => none
    else none
  | _ => none

/-- No ACK packet with anything but a zero error code meets a client that can still write. -/
def AckHonoured (opened : Bool) (src : Source Unit UInt8) (room : Option ℕ) : Prop :=
  opened = true → (∀ k ∈ room, authFrame.length < k) →
    ∀ a, secondPacket src = some a → a.type = .ACK → AckOk a.body

structure Refused (c : Conn) (r : Option Bool × Conn) (evs : List Event) : Prop where
  result : r.1 ≠ some true
  trace : r.2.trace = c.trace ++ evs
  sends : bytesOut evs <+: authFrame
  applied : packetsApplied evs = []
  greeted : Gated Event.bytesOut 0 Greeted evs
  unacknowledged : (∀ k ∈ c.room, authFrame.length < k) →
    ∀ a, secondPacket c.incoming = some a → a.type ≠ .ACK

structure Shaken (c : Conn) (r : Option Bool × Conn) (h a : Packet) (sends : List Event) :
    Prop where
  result : r.1 = some true
  trace : r.2.trace = c.trace ++ ([.received h] ++ (sends ++ [.received a]))
  handshake : h.type = .HANDSHAKE
  ack : a.type = .ACK
  second : secondPacket c.incoming = some a
  auth : bytesOut sends = authFrame
  received : packetsIn sends = []
  applied : packetsApplied sends = []
  room : r.2.room = c.room.map fun k => k - authFrame.length

theorem greeted_after {h : Packet} (hh : h.type = .HANDSHAKE) (evs : List Event) :
    Gated Event.bytesOut 0 Greeted ([.received h] ++ evs) := by
  refine Gated.append (Nat.le_refl 0) ?_
  intro us ev vs _
  exact ⟨h, packetsIn us, rfl, hh⟩

theorem Refused.of_silent {c c' : Conn} {r : Option Bool} {evs : List Event} (hr : r ≠ some true)
    (htrace : c'.trace = c.trace ++ evs) (hout : bytesOut evs = [])
    (happ : packetsApplied evs = [])
    (hsecond : ∀ a, secondPacket c.incoming = some a → a.type ≠ .ACK) : Refused c (r, c') evs where
  result := hr
  trace := htrace
  sends := by
    rw [hout]
    exact List.nil_prefix
  applied := happ
  greeted := Gated.of_short (congrArg List.length hout).le
  unacknowledged _ := hsecond

theorem Refused.of_sent {c c2 c3 : Conn} {h : Packet} {r : Option Bool} {sends evs : List Event}
    (hh : h.type = .HANDSHAKE) (hr : r ≠ some true)
    (hsends : c2.trace = c.trace ++ ([.received h] ++ sends)) (htrace : c3.trace = c2.trace ++ evs)
    (htakes : bytesOut sends <+: authFrame) (hsilent : packetsApplied sends = [])
    (hout : bytesOut evs = []) (happ : packetsApplied evs = [])
    (hack : (∀ k ∈ c.room, authFrame.length < k) →
      ∀ a, secondPacket c.incoming = some a → a.type ≠ .ACK) :
    Refused c (r, c3) ([.received h] ++ (sends ++ evs)) where
  result := hr
  trace := by
    rw [htrace, hsends]
    simp only [List.append_assoc]
  sends := by
    change bytesOut (sends ++ evs) <+: authFrame
    rwa [bytesOut_append, hout, List.append_nil]
  applied := by
    change packetsApplied (sends ++ evs) = []
    rw [packetsApplied_append, hsilent, happ]
    rfl
  greeted := greeted_after hh _
  unacknowledged := hack

theorem secondPacket_of_handshake {src rest rest' : Source Unit UInt8} {h : Packet} {r : Received}
    (hfirst : nextPacket src = (.packet h, rest)) (hh : h.type = .HANDSHAKE)
    (hnext : nextPacket rest = (r, rest')) (a : Packet) :
    secondPacket src = some a ↔ r = .packet a := by
  simp only [secondPacket, hfirst, hh, ↓reduceIte, hnext]
  cases r <;> simp

theorem RecvProtobufMsg_packet {c : Conn} {p : Packet} {rest : Source Unit UInt8}
    (h : nextPacket c.incoming = (.packet p, rest)) :
    RecvProtobufMsg c = (.packet p, { c with incoming := rest }.record (.received p)) := by
  simp only [RecvProtobufMsg, h]

theorem HandShake_reply {c c2 : Conn} {h : Packet} {rest : Source Unit UInt8} {sends : List Event}
    (hfirst : nextPacket c.incoming = (.packet h, rest)) (hh : h.type = .HANDSHAKE)
    (hsend : SendProtobufMsg ({ c with incoming := rest }.record (.received h))
      .CLIENTAUTHENTICATION ClientAuth.defaultBytes = (true, c2))
    (hsent : Sent authFrame ({ c with incoming := rest }.record (.received h)) (true, c2) sends) :
    (∃ evs, Refused c (HandShake c) evs) ∨ ∃ h a sends, Shaken c (HandShake c) h a sends := by
  obtain ⟨hall, _, hroom⟩ := hsent.whole rfl
  have hin : c2.incoming = rest := hsent.incoming
  have htrace : c2.trace = c.trace ++ ([.received h] ++ sends) := by
    rw [hsent.trace, Conn.record_trace, List.append_assoc]
  unfold HandShake
  simp only [RecvProtobufMsg_packet hfirst, hh, ne_eq, not_true_eq_false, ↓reduceIte, hsend]
  rcases hnext : nextPacket rest with ⟨r2, rest2⟩
  have hsecond := secondPacket_of_handshake hfirst hh hnext
  rw [← hin] at hnext
  cases r2 with
  | null =>
    simp only [RecvProtobufMsg, hnext]
    exact .inl ⟨_, .of_sent hh (by simp) htrace (List.append_nil _).symm hsent.takes hsent.applied
      rfl rfl (by simp [hsecond])⟩
  | exception =>
    simp only [RecvProtobufMsg, hnext]
    exact .inl ⟨_, .of_sent hh (by simp) htrace (List.append_nil _).symm hsent.takes hsent.applied
      rfl rfl (by simp [hsecond])⟩
  | packet a =>
    simp only [RecvProtobufMsg_packet hnext]
    by_cases ha : a.type = .ACK
    · simp only [ha, not_true_eq_false, ↓reduceIte]
      refine .inr ⟨h, a, sends, rfl, ?_, hh, ha, (hsecond a).mpr rfl, hall, hsent.received,
        hsent.applied, hroom⟩
      rw [Conn.record_trace]
      change c2.trace ++ _ = _
      rw [htrace]
      simp only [List.append_assoc]
    · simp only [ha, not_false_eq_true, ↓reduceIte]
      refine .inl ⟨[.received h] ++ (sends ++ [.received a]), .of_sent hh (by simp) htrace rfl
        hsent.takes hsent.applied rfl rfl fun _ b hb => ?_⟩
      obtain rfl : a = b := by simpa [hsecond] using hb
      exact ha

theorem HandShake_unsent {c c2 : Conn} {h : Packet} {rest : Source Unit UInt8} {sends : List Event}
    (hfirst : nextPacket c.incoming = (.packet h, rest)) (hh : h.type = .HANDSHAKE)
    (hsend : SendProtobufMsg ({ c with incoming := rest }.record (.received h))
      .CLIENTAUTHENTICATION ClientAuth.defaultBytes = (false, c2))
    (hsent : Sent authFrame ({ c with incoming := rest }.record (.received h)) (false, c2) sends) :
    ∃ evs, Refused c (HandShake c) evs := by
  have htrace : c2.trace = c.trace ++ ([.received h] ++ sends) := by
    rw [hsent.trace, Conn.record_trace, List.append_assoc]
  unfold HandShake
  simp only [RecvProtobufMsg_packet hfirst, hh, ne_eq, not_true_eq_false, ↓reduceIte, hsend]
  refine ⟨_, .of_sent hh (by simp) htrace (List.append_nil _).symm hsent.takes hsent.applied
    rfl rfl fun hroom => ?_⟩
  have hshort : c.room = some (bytesOut sends).length := hsent.short rfl
  have hlt := hroom _ hshort
  have hle := hsent.takes.length_le
  omega

theorem HandShake_cases (c : Conn) :
    (∃ evs, Refused c (HandShake c) evs) ∨ ∃ h a sends, Shaken c (HandShake c) h a sends := by
  rcases hfirst : nextPacket c.incoming with ⟨r1, rest1⟩
  cases r1 with
  | null =>
    refine .inl ⟨[], ?_⟩
    simp only [HandShake, RecvProtobufMsg, hfirst]
    exact .of_silent (by simp) (List.append_nil _).symm rfl rfl (by simp [secondPacket, hfirst])
  | exception =>
    refine .inl ⟨[], ?_⟩
    simp only [HandShake, RecvProtobufMsg, hfirst]
    exact .of_silent (by simp) (List.append_nil _).symm rfl rfl (by simp [secondPacket, hfirst])
  | packet h =>
    by_cases hh : h.type = .HANDSHAKE
    · obtain ⟨evs, hsent⟩ := SendPkg_sent ({ c with incoming := rest1 }.record (.received h))
        (Packet.toByteArray { type := .CLIENTAUTHENTICATION, body := ClientAuth.defaultBytes })
      change Sent authFrame _ (SendProtobufMsg _ .CLIENTAUTHENTICATION ClientAuth.defaultBytes) evs
        at hsent
      rcases hsend : SendProtobufMsg ({ c with incoming := rest1 }.record (.received h))
        .CLIENTAUTHENTICATION ClientAuth.defaultBytes with ⟨ok, c2⟩
      rw [hsend] at hsent
      cases ok with
      | true => exact HandShake_reply hfirst hh hsend hsent
      | false => exact .inl (HandShake_unsent hfirst hh hsend hsent)
    · refine .inl ⟨[.received h], ?_⟩
      simp only [HandShake, RecvProtobufMsg_packet hfirst, hh, ne_eq, not_false_eq_true, ↓reduceIte]
      exact .of_silent (by simp) rfl rfl rfl (by simp [secondPacket, hfirst, hh])

theorem dumpLoop_silent (binlogHandler : Handler) (fuel : ℕ) (seen : List Packet) (c : Conn) :
    ∃ evs, (dumpLoop binlogHandler fuel seen c).2.trace = c.trace ++ evs ∧ bytesOut evs = [] := by
  induction fuel generalizing seen c with
  | zero => exact ⟨[], (List.append_nil _).symm, rfl⟩
  | succ fuel ih =>
    unfold dumpLoop RecvProtobufMsg
    cases hnext : nextPacket c.incoming with
    | mk r rest =>
      cases r with
      | null => exact ⟨[], (List.append_nil _).symm, rfl⟩
      | exception => exact ⟨[], (List.append_nil _).symm, rfl⟩
      | packet p =>
        dsimp only
        have hlast : (({ c with incoming := rest }.record (.received p)).record (.applied p)).trace =
            c.trace ++ [.received p, .applied p] := by
          simp only [Conn.record_trace, List.append_assoc]
          rfl
        cases binlogHandler seen p with
        | throws => exact ⟨_, hlast, rfl⟩
        | value n =>
          by_cases hn : n = 0
          · obtain ⟨evs, htrace, hout⟩ := ih (seen ++ [p])
              (({ c with incoming := rest }.record (.received p)).record (.applied p))
            simp only [hn, ne_eq, not_true_eq_false, ↓reduceIte]
            refine ⟨[.received p, .applied p] ++ evs, ?_, ?_⟩
            · rw [htrace, hlast, List.append_assoc]
            · rw [bytesOut_append, hout]
              rfl
          · simp only [hn, ne_eq, not_false_eq_true, ↓reduceIte]
            exact ⟨_, hlast, rfl⟩

theorem not_applied {evs us vs : List Event} {p : Packet} (h : packetsApplied evs = [])
    (heq : evs = us ++ .applied p :: vs) : False := by
  rw [heq, packetsApplied_append] at h
  exact absurd (List.append_eq_nil_iff.mp h).2
    (by simp [packetsApplied, written_cons, Event.packetApplied])

theorem Refused.conforms {c : Conn} {r : Option Bool × Conn} {evs : List Event} {dump : Bytes}
    (h : Refused c r evs) : Conforms authFrame dump evs where
  sends := h.sends.trans (List.prefix_append _ _)
  greeted := h.greeted
  accepted := Gated.of_short h.sends.length_le
  applies _ _ _ heq := (not_applied h.applied heq).elim

section Shaken

variable {c : Conn} {r : Option Bool × Conn} {h a : Packet} {sends evs : List Event} {dump : Bytes}

theorem Shaken.bytesOut_eq (hs : Shaken c r h a sends) :
    bytesOut ([.received h] ++ (sends ++ [.received a])) = authFrame := by
  rw [bytesOut_append, bytesOut_append, hs.auth]
  exact List.append_nil _

theorem Shaken.packetsApplied_eq (hs : Shaken c r h a sends) :
    packetsApplied ([.received h] ++ (sends ++ [.received a])) = [] := by
  rw [packetsApplied_append, packetsApplied_append, hs.applied]
  rfl

theorem Shaken.packetsIn_eq (hs : Shaken c r h a sends) (us : List Event) :
    packetsIn (([.received h] ++ (sends ++ [.received a])) ++ us) = h :: a :: packetsIn us := by
  rw [packetsIn_append, packetsIn_append, packetsIn_append, hs.received]
  rfl

theorem Shaken.conforms (hs : Shaken c r h a sends) (hok : AckOk a.body)
    (hout : bytesOut evs <+: dump) :
    Conforms authFrame dump (([.received h] ++ (sends ++ [.received a])) ++ evs) where
  sends := by
    rw [bytesOut_append, hs.bytesOut_eq]
    exact (List.prefix_append_right_inj _).mpr hout
  greeted := by
    rw [List.append_assoc]
    exact greeted_after hs.handshake _
  accepted :=
    Gated.append (congrArg List.length hs.bytesOut_eq).le fun us _ _ _ =>
      ⟨h, a, packetsIn us, hs.packetsIn_eq us, hs.handshake, hs.ack, hok⟩
  applies := by
    intro us p vs heq
    rcases split_append heq with ⟨ws, hpre, _⟩ | ⟨ws, rfl, _⟩
    · exact (not_applied hs.packetsApplied_eq hpre).elim
    · exact ⟨h, a, packetsIn ws, hs.packetsIn_eq ws, hs.handshake, hs.ack, hok⟩

/-- When there was room for no byte after the AUTH frame, the body does not matter. -/
theorem Shaken.conforms_of_silent (hs : Shaken c r h a sends) (hout : bytesOut evs = [])
    (happ : packetsApplied evs = []) :
    Conforms authFrame dump (([.received h] ++ (sends ++ [.received a])) ++ evs) where
  sends := by
    rw [bytesOut_append, hs.bytesOut_eq, hout, List.append_nil]
    exact List.prefix_append _ _
  greeted := by
    rw [List.append_assoc]
    exact greeted_after hs.handshake _
  accepted := (Gated.of_short (congrArg List.length hs.bytesOut_eq).le).append_silent hout
  applies us p vs heq := by
    refine (not_applied ?_ heq).elim
    rw [packetsApplied_append, hs.packetsApplied_eq, happ]
    rfl

theorem Shaken.conforms_iff {c2 : Conn} {ok : Bool} {evs2 evs3 : List Event}
    (hs : Shaken c r h a sends) (hdump : dump ≠ [])
    (hsent : Sent dump r.2 (ok, c2) evs2) (hsilent : bytesOut evs3 = [])
    (hstop : ok = false → evs3 = []) :
    Conforms authFrame dump (([.received h] ++ (sends ++ [.received a])) ++ (evs2 ++ evs3)) ↔
      ((∀ k ∈ c.room, authFrame.length < k) → AckOk a.body) := by
  have hroom : r.2.room = c.room.map fun k => k - authFrame.length := hs.room
  constructor
  · intro hconf hlarge
    have hwrote : bytesOut evs2 ≠ [] := by
      intro hnil
      cases ok with
      | true => exact hdump ((hsent.whole rfl).1.symm.trans hnil)
      | false =>
        have hshort := hsent.short rfl
        rw [hroom, hnil] at hshort
        obtain ⟨k, hk, hzero⟩ := Option.map_eq_some_iff.mp hshort
        have hlt := hlarge k hk
        simp only [List.length_nil] at hzero
        omega
    obtain ⟨us, ev, vs, rfl, hev⟩ := exists_writing hwrote
    have hbeyond : authFrame.length <
        (bytesOut ((([.received h] ++ (sends ++ [.received a])) ++ us) ++ [ev])).length := by
      have hpos := List.length_pos_iff.mpr hev
      rw [bytesOut_append, bytesOut_append, hs.bytesOut_eq]
      simp only [List.length_append, bytesOut, written_cons, written_nil, List.append_nil]
      omega
    obtain ⟨h', a', ps, hin, _, _, hok⟩ :=
      hconf.accepted _ ev (vs ++ evs3) (by simp) hev hbeyond
    rw [hs.packetsIn_eq] at hin
    obtain ⟨_, rfl, _⟩ : h = h' ∧ a = a' ∧ packetsIn us = ps := by simpa using hin
    exact hok
  · intro hcond
    by_cases hlarge : ∀ k ∈ c.room, authFrame.length < k
    · apply hs.conforms (hcond hlarge)
      rw [bytesOut_append, hsilent, List.append_nil]
      exact hsent.takes
    · obtain ⟨k, hk, hle⟩ : ∃ k, c.room = some k ∧ k ≤ authFrame.length := by
        simpa using hlarge
      have hzero : r.2.room = some 0 := by
        rw [hroom, hk, Option.map_some, Nat.sub_eq_zero_of_le hle]
      cases ok with
      | true =>
        have hfit := (hsent.whole rfl).2.1 0 hzero
        exact absurd (List.length_eq_zero_iff.mp (Nat.le_zero.mp hfit)) hdump
      | false =>
        have hshort := hsent.short rfl
        rw [hzero, Option.some.injEq] at hshort
        have hnil : bytesOut evs2 = [] := List.length_eq_zero_iff.mp hshort.symm
        rw [hstop rfl, List.append_nil]
        exact hs.conforms_of_silent hnil hsent.applied

end Shaken

theorem DumpBinlog_refused {startScn : ℤ} {binlogHandler : Handler} {src : Source Unit UInt8}
    {room : Option ℕ} {evs : List Event} (h : Refused ⟨src, room, []⟩ (HandShake ⟨src, room, []⟩) evs) :
    Conforms authFrame (dumpFrame startScn)
        (DumpBinlog true startScn binlogHandler ⟨src, room, []⟩).2.trace ∧
      AckHonoured true src room := by
  have hcond : AckHonoured true src room := fun _ hroom b hb hack =>
    absurd hack (h.unacknowledged hroom b hb)
  simp only [DumpBinlog, ↓reduceIte]
  generalize HandShake ⟨src, room, []⟩ = r at h
  have htrace : r.2.trace = evs := h.trace
  have hconf : Conforms authFrame (dumpFrame startScn) r.2.trace := by
    rw [htrace]
    exact h.conforms
  obtain ⟨r, c'⟩ := r
  have hno := h.result
  match r, hno with
  | none, _ => exact ⟨hconf, hcond⟩
  | some false, _ => exact ⟨hconf, hcond⟩

theorem dumpFrame_ne_nil (startScn : ℤ) : dumpFrame startScn ≠ [] := by
  apply List.ne_nil_of_length_pos
  rw [dumpFrame, frame_length]
  omega

theorem DumpBinlog_shaken {startScn : ℤ} {binlogHandler : Handler} {src : Source Unit UInt8}
    {room : Option ℕ} {h a : Packet} {sends : List Event}
    (hs : Shaken ⟨src, room, []⟩ (HandShake ⟨src, room, []⟩) h a sends) :
    ∃ ok c2 evs2 evs3, Sent (dumpFrame startScn) (HandShake ⟨src, room, []⟩).2 (ok, c2) evs2 ∧
      bytesOut evs3 = [] ∧ (ok = false → evs3 = []) ∧
      (DumpBinlog true startScn binlogHandler ⟨src, room, []⟩).2.trace =
        ([.received h] ++ (sends ++ [.received a])) ++ (evs2 ++ evs3) := by
  simp only [DumpBinlog, ↓reduceIte]
  generalize HandShake ⟨src, room, []⟩ = r at hs
  obtain ⟨r, c'⟩ := r
  obtain rfl : r = some true := hs.result
  have htrace : c'.trace = [.received h] ++ (sends ++ [.received a]) := hs.trace
  obtain ⟨evs2, hsent⟩ := SendPkg_sent c'
    (Packet.toByteArray { type := .DUMP, body := (dumpRequest startScn).toByteString })
  change Sent (dumpFrame startScn) c'
    (SendProtobufMsg c' .DUMP (dumpRequest startScn).toByteString) evs2 at hsent
  dsimp only
  generalize SendProtobufMsg c' .DUMP (dumpRequest startScn).toByteString = sent at hsent
  obtain ⟨ok, c2⟩ := sent
  have hsofar : c2.trace = ([.received h] ++ (sends ++ [.received a])) ++ evs2 := by
    rw [hsent.trace, htrace]
  cases ok with
  | false =>
    refine ⟨false, c2, evs2, [], hsent, rfl, fun _ => rfl, ?_⟩
    rw [List.append_nil]
    exact hsofar
  | true =>
    obtain ⟨evs3, hrest, hsilent⟩ :=
      dumpLoop_silent binlogHandler ((items c2.incoming).length + 1) [] c2
    refine ⟨true, c2, evs2, evs3, hsent, hsilent, by simp, ?_⟩
    dsimp only
    rw [hrest, hsofar, List.append_assoc]

theorem DumpBinlog_sends (opened : Bool) (startScn : ℤ) (binlogHandler : Handler)
    (src : Source Unit UInt8) (room : Option ℕ) :
    bytesOut (DumpBinlog opened startScn binlogHandler ⟨src, room, []⟩).2.trace <+:
      authFrame ++ dumpFrame startScn := by
  cases opened with
  | false => exact List.nil_prefix
  | true =>
    rcases HandShake_cases ⟨src, room, []⟩ with ⟨evs, href⟩ | ⟨h, a, sends, hs⟩
    · exact (DumpBinlog_refused href).1.sends
    · obtain ⟨ok, c2, evs2, evs3, hsent, hsilent, _, htrace⟩ := DumpBinlog_shaken hs
      rw [htrace, bytesOut_append, hs.bytesOut_eq, bytesOut_append, hsilent, List.append_nil]
      exact (List.prefix_append_right_inj _).mpr hsent.takes

theorem Shaken.ackHonoured_iff {src : Source Unit UInt8} {room : Option ℕ} {h a : Packet}
    {r : Option Bool × Conn} {sends : List Event} (hs : Shaken ⟨src, room, []⟩ r h a sends) :
    AckHonoured true src room ↔ ((∀ k ∈ room, authFrame.length < k) → AckOk a.body) := by
  have hsecond : secondPacket src = some a := hs.second
  simp [AckHonoured, hsecond, hs.ack]

/-- The client keeps to the protocol exactly when the server gives it no occasion: no ACK packet
    with an error, or no room left for a byte of the DUMP frame. -/
theorem DumpBinlog_conforms_iff (opened : Bool) (startScn : ℤ) (binlogHandler : Handler)
    (src : Source Unit UInt8) (room : Option ℕ) :
    Conforms authFrame (dumpFrame startScn)
        (DumpBinlog opened startScn binlogHandler ⟨src, room, []⟩).2.trace ↔
      AckHonoured opened src room := by
  cases opened with
  | false =>
    simp only [DumpBinlog, Bool.false_eq_true, ↓reduceIte]
    refine ⟨fun _ h => absurd h (by simp), fun _ => ?_⟩
    exact ⟨List.nil_prefix, Gated.of_short (Nat.zero_le _), Gated.of_short (Nat.zero_le _), by simp⟩
  | true =>
    rcases HandShake_cases ⟨src, room, []⟩ with ⟨evs, href⟩ | ⟨h, a, sends, hs⟩
    · obtain ⟨hconf, hcond⟩ := DumpBinlog_refused href
      exact iff_of_true hconf hcond
    · obtain ⟨ok, c2, evs2, evs3, hsent, hsilent, hstop, htrace⟩ := DumpBinlog_shaken hs
      rw [htrace, hs.ackHonoured_iff]
      exact hs.conforms_iff (dumpFrame_ne_nil startScn) hsent hsilent hstop

def errorAck : Source Unit UInt8 :=
  unread (frame [24, 1]) (unread (frame [24, 3, 42, 2, 8, 1]) [])

theorem errorAck_gets_dump :
    Ack.parseFrom [8, 1] = some { error_code := some 1 } ∧
      ¬ Conforms authFrame (dumpFrame 0)
        (DumpBinlog true 0 (fun _ _ => .value 1) ⟨errorAck, none, []⟩).2.trace := by
  refine ⟨by decide, ?_⟩
  intro hconf
  have htrace : (DumpBinlog true 0 (fun _ _ => .value 1) ⟨errorAck, none, []⟩).2.trace =
      [.received { type := .HANDSHAKE }, .wrote [0, 0, 0, 2], .wrote [24, 2],
        .received { type := .ACK, body := [8, 1] }] ++ .wrote [0, 0, 0, 12] ::
      [.wrote [24, 10, 42, 8, 10, 1, 48, 24, 0, 34, 1, 48]] := by decide +kernel
  obtain ⟨h, a, ps, hin, _, _, ack, hack, hzero⟩ :=
    hconf.accepted _ _ _ htrace (by decide) (by decide)
  have ha : { type := .ACK, body := [8, 1] } = a := by
    simp only [packetsIn, written, List.flatMap_cons, List.flatMap_nil, Event.packetIn,
      List.nil_append, List.append_nil, List.cons_append, List.cons.injEq] at hin
    exact hin.2.1
  subst ha
  have hone : Ack.parseFrom [8, 1] = some { error_code := some 1 } := by decide
  rw [hone, Option.some.injEq] at hack
  subst hack
  exact absurd hzero (by decide)

end O2k.BinlogClient
