import O2k.BinlogOutcome
import O2k.BinlogStatistics
import O2k.DumpOptions
import Mathlib.Data.List.TakeWhile

set_option autoImplicit false

namespace O2k.DumpFromServer
open ByteOrder ChunkedSource JavaValues BinlogEntry BinlogPacket BinlogClient BinlogOutcome
  BinlogStatistics DumpOptions

def handlePacket (P : Parsers) (fgWait : Bool) (Stat : JBinlogOut.Statistics) (recvPkg : Packet) :
    ℤ × JBinlogOut.Statistics :=
  if recvPkg.type = .HEARTBEAT then (if !fgWait then -1 else 0, Stat)
  else if recvPkg.type ≠ .MESSAGES then (-1, Stat)
  else (0, JBinlogOut.PrintBinlog P Stat recvPkg.body)

def statAfter (P : Parsers) (fgWait : Bool) (recvPkgs : List Packet) : JBinlogOut.Statistics :=
  recvPkgs.foldl (fun Stat recvPkg => (handlePacket P fgWait Stat recvPkg).2) {}

def binlogHandler (P : Parsers) (fgWait : Bool) : Handler := fun seen recvPkg =>
  .value (handlePacket P fgWait (statAfter P fgWait seen) recvPkg).1

/-- What `DumpBinlog` returns is not looked at; the statistics are printed on exit. -/
def main (parse : Parse) (m : Machine) (P : Parsers) (args : List JavaString) (c : Conn) :
    Except Stopped (Ended × JBinlogOut.Statistics) :=
  (readOptions parse args).map fun st =>
    let binlogRecver : JBinlogClient := ⟨st.binlogServer, st.startScn, false⟩
    let r := binlogRecver.DumpBinlog m (handling (binlogHandler P st.fgWait)) c
    (r, statAfter P st.fgWait (packetsApplied r.2.trace))

def goesOn (fgWait : Bool) (p : Packet) : Bool :=
  p.type = .MESSAGES || (p.type = .HEARTBEAT && fgWait)

def messages (ps : List Packet) : List Bytes :=
  (ps.filter fun p => p.type = .MESSAGES).map Packet.body

def streamed (fgWait : Bool) (ps : List Packet) : List Bytes :=
  messages (ps.takeWhile (goesOn fgWait))

def printed (P : Parsers) (payloads : List Bytes) : JBinlogOut.Statistics :=
  payloads.foldl (JBinlogOut.PrintBinlog P) {}

theorem handlePacket_answer (P : Parsers) (fgWait : Bool) (Stat : JBinlogOut.Statistics)
    (p : Packet) : (handlePacket P fgWait Stat p).1 = 0 ↔ goesOn fgWait p = true := by
  unfold handlePacket goesOn
  by_cases hbeat : p.type = .HEARTBEAT
  · cases fgWait <;> simp [hbeat]
  · by_cases hmessages : p.type = .MESSAGES
    · simp [hmessages]
    · simp [hbeat, hmessages]

theorem handlePacket_stat (P : Parsers) (fgWait : Bool) (Stat : JBinlogOut.Statistics) (p : Packet) :
    (handlePacket P fgWait Stat p).2 =
      if p.type = .MESSAGES then JBinlogOut.PrintBinlog P Stat p.body else Stat := by
  unfold handlePacket
  by_cases hbeat : p.type = .HEARTBEAT
  · simp [hbeat]
  · by_cases hmessages : p.type = .MESSAGES
    · simp [hmessages]
    · simp [hbeat, hmessages]

theorem statAfter_eq (P : Parsers) (fgWait : Bool) (ps : List Packet) :
    statAfter P fgWait ps = printed P (messages ps) := by
  unfold statAfter printed messages
  generalize ({} : JBinlogOut.Statistics) = Stat
  induction ps generalizing Stat with
  | nil => rfl
  | cons p ps ih =>
    rw [List.foldl_cons, ih, handlePacket_stat]
    by_cases hmessages : p.type = .MESSAGES
    · simp [hmessages]
    · simp [hmessages]

theorem handedOver_eq (P : Parsers) (fgWait : Bool) (seen ps : List Packet) :
    handedOver (binlogHandler P fgWait) seen ps =
      ps.takeWhile (goesOn fgWait) ++ (ps.dropWhile (goesOn fgWait)).take 1 := by
  induction ps generalizing seen with
  | nil => rfl
  | cons p ps ih =>
    have hanswer := handlePacket_answer P fgWait (statAfter P fgWait seen) p
    rw [handedOver, List.takeWhile_cons, List.dropWhile_cons]
    by_cases hgo : goesOn fgWait p = true
    · have hzero : binlogHandler P fgWait seen p = .value 0 :=
        congrArg HandlerResult.value (hanswer.mpr hgo)
      rw [if_pos hzero, ih]
      simp [hgo]
    · have hstop : binlogHandler P fgWait seen p ≠ .value 0 := fun h =>
        hgo (hanswer.mp (HandlerResult.value.inj h))
      rw [if_neg hstop]
      simp [hgo]

theorem messages_append (ps qs : List Packet) : messages (ps ++ qs) = messages ps ++ messages qs := by
  simp [messages]

theorem messages_prefix {ps qs : List Packet} (h : ps <+: qs) : messages ps <+: messages qs :=
  (h.filter _).map _

theorem messages_handedOver (P : Parsers) (fgWait : Bool) (ps : List Packet) :
    messages (handedOver (binlogHandler P fgWait) [] ps) = streamed fgWait ps := by
  rw [handedOver_eq, messages_append, streamed]
  cases hrest : ps.dropWhile (goesOn fgWait) with
  | nil => exact List.append_nil _
  | cons p rest =>
    have hstop : goesOn fgWait p = false := by
      have hhead := List.head?_dropWhile_not (goesOn fgWait) ps
      rw [hrest] at hhead
      exact hhead
    have hother : p.type ≠ .MESSAGES := by
      intro hmessages
      simp [goesOn, hmessages] at hstop
    simp [messages, hother]

/-- After the handshake and the request, the server sends the packets in frames, which the network
    may split. -/
structure Serves (startScn : ℤ) (c c' : Conn) (payloads : List Bytes) (pkts : List Packet) : Prop where
  new : c.trace = []
  shaken : BinlogClient.HandShake c = (some true, c')
  asked : (SendProtobufMsg c' .DUMP (dumpRequest startScn).toByteString).1 = true
  steady : Steady neverRetry c'.incoming
  frames : items c'.incoming = frames payloads
  packets : payloads.map Packet.parseFrom = pkts.map some
  short : ∀ p ∈ payloads, p.length < 2 ^ 31

theorem Serves.applied {startScn : ℤ} {c c' : Conn} {payloads : List Bytes} {pkts : List Packet}
    (h : Serves startScn c c' payloads pkts) (handler : Handler) :
    ∃ k, packetsApplied (BinlogClient.DumpBinlog true startScn handler c).2.trace =
        (handedOver handler [] pkts).take k ∧
      (Unsplit c'.incoming (payloads.take (handedOver handler [] pkts).length) →
        k = (handedOver handler [] pkts).length) := by
  have hbefore := SendProtobufMsg_applied c' .DUMP (dumpRequest startScn).toByteString
  have hshaken := HandShake_applied c
  rw [h.shaken, h.new] at hshaken
  rw [hshaken] at hbefore
  obtain ⟨evs, hsent⟩ := SendPkg_sent c'
    (Packet.toByteArray { type := .DUMP, body := (dumpRequest startScn).toByteString })
  have hin : (SendProtobufMsg c' .DUMP (dumpRequest startScn).toByteString).2.incoming =
      c'.incoming := hsent.incoming
  have hasked := h.asked
  simp only [BinlogClient.DumpBinlog, ↓reduceIte, h.shaken]
  generalize SendProtobufMsg c' .DUMP (dumpRequest startScn).toByteString = r
    at hasked hin hbefore
  obtain ⟨ok, c2⟩ := r
  obtain rfl : ok = true := hasked
  dsimp only at hin hbefore ⊢
  have hfuel : payloads.length < (items c2.incoming).length + 1 := by
    rw [hin, h.frames]
    exact Nat.lt_succ_of_le (frames_length_le payloads)
  obtain ⟨k, happlied, hall, _⟩ := dumpLoop_applied handler _ payloads pkts [] c2 hfuel
    (hin ▸ h.steady) (hin.symm ▸ h.frames) h.packets h.short
  rw [hin] at hall
  have hnone : packetsApplied c2.trace = [] := hbefore
  exact ⟨k, by rw [happlied, hnone, List.nil_append], hall⟩

/-- The statistics on exit are those of the messages that came before the program ended, of all of
    them when no payload is split, and in any case of the first ones. -/
theorem main_counts {parse : Parse} {m : Machine} {P : Parsers} {args : List JavaString}
    {st : Settings} {c c' : Conn} {payloads : List Bytes} {pkts : List Packet}
    (hargs : readOptions parse args = .ok st)
    (hopen : (⟨st.binlogServer, st.startScn, false⟩ : JBinlogClient).Open m = .ok true)
    (hmem : ∀ src len, m.allocates src len = true)
    (hserves : Serves st.startScn c c' payloads pkts) :
    ∃ counted, (main parse m P args c).map Prod.snd = .ok (printed P counted) ∧
      counted <+: streamed st.fgWait pkts ∧
      (Unsplit c'.incoming
          (payloads.take (handedOver (binlogHandler P st.fgWait) [] pkts).length) →
        counted = streamed st.fgWait pkts) := by
  obtain ⟨k, happlied, hall⟩ := hserves.applied (binlogHandler P st.fgWait)
  have hdump := DumpBinlog_unlimited hmem hopen (binlogHandler P st.fgWait) c
  refine ⟨messages ((handedOver (binlogHandler P st.fgWait) [] pkts).take k), ?_, ?_, ?_⟩
  · rw [main, hargs, ← statAfter_eq P st.fgWait, ← happlied]
    exact congrArg (fun r => Except.ok (statAfter P st.fgWait (packetsApplied r.2.trace))) hdump
  · rw [← messages_handedOver P]
    exact messages_prefix (List.take_prefix _ _)
  · intro hunsplit
    rw [hall hunsplit, List.take_length, messages_handedOver]

def quietServer : Source Unit UInt8 :=
  [.chunk 0 [0, 0], .chunk 2 [24, 7, 0, 0, 0], .chunk 2 [24, 11], .chunk 0 [0, 0, 2, 24, 7]]

theorem quietServer_serves :
    Serves 0 (greeting quietServer)
      ⟨quietServer, none, [.received { type := .HANDSHAKE }, .wrote [0, 0, 0, 2], .wrote [24, 2],
        .received { type := .ACK }]⟩ [[24, 7], [24, 11], [24, 7]]
      [{ type := .MESSAGES }, { type := .HEARTBEAT }, { type := .MESSAGES }] where
  new := rfl
  shaken := by decide +kernel
  asked := by decide +kernel
  steady := by simp [Steady, quietServer]
  frames := by decide
  packets := by decide
  short := by decide

theorem main_counts_quietServer :
    ∃ counted, (main pairsParse localMachine (tableParsers ⟨false⟩) [] (greeting quietServer)).map
        Prod.snd = .ok (printed (tableParsers ⟨false⟩) counted) ∧
      counted <+: streamed true
        [{ type := .MESSAGES }, { type := .HEARTBEAT }, { type := .MESSAGES }] ∧
      (Unsplit quietServer ([[24, 7], [24, 11], [24, 7]].take
          (handedOver (binlogHandler (tableParsers ⟨false⟩) true) []
            [{ type := .MESSAGES }, { type := .HEARTBEAT }, { type := .MESSAGES }]).length) →
        counted = streamed true
          [{ type := .MESSAGES }, { type := .HEARTBEAT }, { type := .MESSAGES }]) :=
  main_counts (show readOptions pairsParse [] = .ok {} from rfl) (m := localMachine) rfl
    (fun _ _ => rfl) quietServer_serves

end O2k.DumpFromServer
