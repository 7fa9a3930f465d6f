import O2k.BinlogDelivery
import O2k.BinlogHandshake
import O2k.JavaValues
import Mathlib.Data.List.DropRight
import Mathlib.Logic.Relation

set_option autoImplicit false

/-!
# What DumpBinlog returns

A method of the client ends with a value or with a throw. `DumpBinlog` catches
an exception and then returns true, as after the last packet; an error it does
not catch. Here the heap need not be large enough for every array.
-/
namespace O2k.BinlogOutcome
open ByteOrder ChunkedSource BinlogPacket BinlogClient
open JavaValues (JavaString parseInteger)

inductive Thrown where
  | exception
  | error
  deriving DecidableEq

abbrev Ended := Except Thrown Bool × Conn

/-- A call of the handler; to return null is to throw an exception, when it is compared with 0. -/
inductive Applied where
  | value (n : ℤ)
  | throws (t : Thrown)
  deriving DecidableEq

abbrev Handling := List Packet → Packet → Applied

/-- What is outside the client: whether `new Socket` connects to a port of a host, or throws an
    `IOException`, and whether there is memory for `new byte[len]` at a point of the stream. -/
structure Machine where
  connects : JavaString → ℕ → Bool
  allocates : Source Unit UInt8 → ℕ → Bool

structure JBinlogClient where
  remoteAddr : Option JavaString
  startScn : ℤ
  bConnected : Bool

def onTrue (r : Ended) (k : Conn → Ended) : Ended :=
  match r with
  | (.ok true, c) => k c
  | r => r

def parseInt (s : JavaString) : Option ℤ := (parseInteger s).filter fun n => -2 ^ 31 ≤ n ∧ n < 2 ^ 31

/-- `split(":")`, which drops the empty pieces at the end. -/
def splitColon (s : JavaString) : List JavaString := (s.splitOn ':').rdropWhile fun piece => piece.isEmpty

def JBinlogClient.Open (m : Machine) (client : JBinlogClient) : Except Thrown Bool :=
  if client.bConnected then .ok true
  else
    match client.remoteAddr with
    | none => .error .exception
    | some remoteAddr =>
      match splitColon remoteAddr with
      | host :: port :: _ =>
        match parseInt port with
        | none => .ok false
        | some port =>
          if 0 ≤ port ∧ port ≤ 65535 then .ok (m.connects host port.toNat) else .error .exception
      | _ => .ok false

def frameLength (src : Source Unit UInt8) : Option ℤ :=
  match (fill neverRetry 4 src).stop with
  | .full => some (signed (ofBe32 (fill neverRetry 4 src).got))
  | _ => none

def RecvProtobufMsg (m : Machine) (c : Conn) : Except Thrown (Option Packet) × Conn :=
  if (frameLength c.incoming).any fun len => 0 ≤ len ∧ !m.allocates c.incoming len.toNat then
    (.error .error, { c with incoming := (fill neverRetry 4 c.incoming).rest })
  else
    match BinlogClient.RecvProtobufMsg c with
    | (.packet p, c) => (.ok (some p), c)
    | (.null, c) => (.ok none, c)
    | (.exception, c) => (.error .exception, c)

def onPacket (m : Machine) (c : Conn) (k : Packet → Conn → Ended) : Ended :=
  match RecvProtobufMsg m c with
  | (.error t, c) => (.error t, c)
  | (.ok none, c) => (.ok false, c)
  | (.ok (some p), c) => k p c

def sent (r : Bool × Conn) : Ended := (.ok r.1, r.2)

def HandShake (m : Machine) (c : Conn) : Ended :=
  onPacket m c fun handShake c =>
    if handShake.type ≠ .HANDSHAKE then (.ok false, c)
    else
      onTrue (sent (SendProtobufMsg c .CLIENTAUTHENTICATION ClientAuth.defaultBytes)) fun c =>
        onPacket m c fun ack c => if ack.type ≠ .ACK then (.ok false, c) else (.ok true, c)

def dumpLoop (m : Machine) (binlogHandler : Handling) : ℕ → List Packet → Conn → Ended
  | 0, _, c => (.ok true, c)
  | fuel + 1, seen, c =>
    onPacket m c fun recvPkg c =>
      match binlogHandler seen recvPkg with
      | .throws t => (.error t, c.record (.applied recvPkg))
      | .value n =>
        if n ≠ 0 then (.ok true, c.record (.applied recvPkg))
        else dumpLoop m binlogHandler fuel (seen ++ [recvPkg]) (c.record (.applied recvPkg))

def caught (r : Ended) : Ended :=
  match r with
  | (.error .exception, c) => (.ok true, c)
  | r => r

/-- Every packet takes four bytes at least, so the loop has fuel enough. -/
def JBinlogClient.DumpBinlog (m : Machine) (client : JBinlogClient) (binlogHandler : Handling)
    (c : Conn) : Ended :=
  caught <|
    onTrue (client.Open m, c) fun c =>
      onTrue (HandShake m c) fun c =>
        onTrue (sent (SendProtobufMsg c .DUMP (dumpRequest client.startScn).toByteString)) fun c =>
          dumpLoop m binlogHandler ((items c.incoming).length + 1) [] c

/-- It returned false; or it returned true, and the last that happened is that the handler was
    applied to a packet and returned a number other than 0. -/
def Honest (binlogHandler : Handling) (r : Ended) : Prop :=
  r.1 = .ok false ∨
    (r.1 = .ok true ∧ ∃ us p n, r.2.trace = us ++ [.applied p] ∧
      binlogHandler (packetsApplied us) p = .value n ∧ n ≠ 0)

/-- The client waits for a packet: the length it reads is one that an array can have, and `P` of
    the packet it gets, if any, and of the stream behind. -/
def Expect (m : Machine) (src : Source Unit UInt8)
    (P : Packet → Source Unit UInt8 → Prop) : Prop :=
  (∀ len, frameLength src = some len → 0 ≤ len ∧ m.allocates src len.toNat = true) ∧
    ∀ p rest, nextPacket src = (.packet p, rest) → P p rest

def Fits (room : Option ℕ) (n : ℕ) : Prop := ∀ k ∈ room, n ≤ k

def Next (binlogHandler : Handling) (st st' : List Packet × Source Unit UInt8) : Prop :=
  ∃ p, nextPacket st.2 = (.packet p, st'.2) ∧ binlogHandler st.1 p = .value 0 ∧
    st'.1 = st.1 ++ [p]

def LoopCalm (m : Machine) (binlogHandler : Handling) (st : List Packet × Source Unit UInt8) :
    Prop :=
  ∀ st', Relation.ReflTransGen (Next binlogHandler) st st' →
    Expect m st'.2 fun p _ => ∀ t, binlogHandler st'.1 p ≠ .throws t

def AddressOk (client : JBinlogClient) : Prop :=
  client.bConnected = true ∨ ∃ remoteAddr, client.remoteAddr = some remoteAddr ∧
    ∀ host port rest n, splitColon remoteAddr = host :: port :: rest → parseInt port = some n →
      0 ≤ n ∧ n ≤ 65535

/-- The address is one to connect to, each length that the client comes to is one of an array, and
    the handler throws for no packet that it is applied to. -/
def Calm (m : Machine) (client : JBinlogClient) (binlogHandler : Handling)
    (src : Source Unit UInt8) (room : Option ℕ) : Prop :=
  AddressOk client ∧
    (client.Open m = .ok true →
      Expect m src fun h rest => h.type = .HANDSHAKE → Fits room authFrame.length →
        Expect m rest fun a rest' => a.type = .ACK →
          Fits room (authFrame.length + (dumpFrame client.startScn).length) →
            LoopCalm m binlogHandler ([], rest'))

section Control

variable {m : Machine} {c : Conn} {k : Conn → Ended}

@[simp] theorem onTrue_true : onTrue (.ok true, c) k = k c := rfl

@[simp] theorem onTrue_false : onTrue (.ok false, c) k = (.ok false, c) := rfl

theorem onTrue_onPacket (j : Packet → Conn → Ended) :
    onTrue (onPacket m c j) k = onPacket m c fun p c => onTrue (j p c) k := by
  unfold onPacket
  generalize RecvProtobufMsg m c = r
  obtain ⟨r, c'⟩ := r
  cases r with
  | error t => rfl
  | ok p => cases p <;> rfl

theorem onTrue_onTrue (r : Ended) (j : Conn → Ended) :
    onTrue (onTrue r j) k = onTrue r fun c => onTrue (j c) k := by
  obtain ⟨r, c'⟩ := r
  cases r with
  | error t => rfl
  | ok b => cases b <;> rfl

end Control

theorem Expect.congr {m : Machine} {src : Source Unit UInt8}
    {P Q : Packet → Source Unit UInt8 → Prop}
    (h : ∀ p rest, nextPacket src = (.packet p, rest) → (P p rest ↔ Q p rest)) :
    Expect m src P ↔ Expect m src Q := by
  unfold Expect
  refine and_congr_right' ⟨fun hp p rest hnext => ?_, fun hq p rest hnext => ?_⟩
  · exact (h p rest hnext).mp (hp p rest hnext)
  · exact (h p rest hnext).mpr (hq p rest hnext)

def Idle (binlogHandler : Handling) (trace : List Event) : Prop :=
  ∀ us p n, trace = us ++ [.applied p] → binlogHandler (packetsApplied us) p = .value n → n = 0

theorem Idle.of_silent {binlogHandler : Handling} {trace : List Event}
    (h : packetsApplied trace = []) : Idle binlogHandler trace := by
  intro us p n heq
  exact (not_applied h heq).elim

theorem Idle.of_applied {binlogHandler : Handling} {trace : List Event} {p : Packet}
    (h : ∀ n, binlogHandler (packetsApplied trace) p = .value n → n = 0) :
    Idle binlogHandler (trace ++ [.applied p]) := by
  intro us q n heq
  obtain ⟨rfl, hlast⟩ := List.append_inj' heq rfl
  obtain rfl : p = q := by simpa using hlast
  exact h n

section Honest

variable {m : Machine} {binlogHandler : Handling} {c : Conn}

theorem honest_false : Honest binlogHandler (caught (.ok false, c)) := .inl rfl

theorem not_honest_error (h : Idle binlogHandler c.trace) (t : Thrown) :
    ¬ Honest binlogHandler (caught (.error t, c)) := by
  cases t with
  | error =>
    rintro (hret | ⟨hret, _⟩)
    · cases hret
    · cases hret
  | exception =>
    rintro (hret | ⟨_, us, p, n, htrace, hval, hn⟩)
    · cases hret
    · exact hn (h us p n htrace hval)

theorem recvPkg_exception_iff (src : Source Unit UInt8) :
    (recvPkg src).1 = .exception ↔ ∃ len, frameLength src = some len ∧ len < 0 := by
  unfold recvPkg frameLength
  dsimp only
  generalize fill neverRetry 4 src = f
  obtain ⟨got, stop, rest⟩ := f
  cases stop with
  | ended => simp
  | fault e => simp
  | full =>
    dsimp only
    generalize signed (ofBe32 got) = len
    by_cases hneg : len < 0
    · simp [hneg]
    · simp only [hneg, ↓reduceIte, Option.some.injEq, exists_eq_left', iff_false]
      split
      · simp
      · split
        · split <;> simp
        · simp

theorem nextPacket_exception_iff (src : Source Unit UInt8) :
    (nextPacket src).1 = .exception ↔ ∃ len, frameLength src = some len ∧ len < 0 := by
  rw [← recvPkg_exception_iff]
  unfold nextPacket
  generalize recvPkg src = r
  obtain ⟨r, rest⟩ := r
  cases r with
  | exception => simp
  | null => simp
  | data pkg =>
    dsimp only
    split <;> simp

theorem RecvProtobufMsg_cases (m : Machine) (c : Conn) :
    ((∃ len, frameLength c.incoming = some len ∧
        ¬ (0 ≤ len ∧ m.allocates c.incoming len.toNat = true)) ∧
      ∃ t rest, RecvProtobufMsg m c = (.error t, { c with incoming := rest })) ∨
    ((∀ len, frameLength c.incoming = some len →
        0 ≤ len ∧ m.allocates c.incoming len.toNat = true) ∧
      ((∃ rest, nextPacket c.incoming = (.null, rest) ∧
          RecvProtobufMsg m c = (.ok none, { c with incoming := rest })) ∨
        ∃ p rest, nextPacket c.incoming = (.packet p, rest) ∧
          RecvProtobufMsg m c =
            (.ok (some p), { c with incoming := rest }.record (.received p)))) := by
  have hexc := nextPacket_exception_iff c.incoming
  unfold RecvProtobufMsg
  by_cases hmem : ((frameLength c.incoming).any fun len =>
      0 ≤ len ∧ !m.allocates c.incoming len.toNat) = true
  · obtain ⟨len, hlen, hno⟩ : ∃ len, frameLength c.incoming = some len ∧
        0 ≤ len ∧ m.allocates c.incoming len.toNat = false := by
      simpa [Option.any_eq_true] using hmem
    rw [if_pos hmem]
    exact .inl ⟨⟨len, hlen, by simp [hno.2]⟩, _, _, rfl⟩
  · rw [if_neg hmem]
    have hroom : ∀ len, frameLength c.incoming = some len → 0 ≤ len →
        m.allocates c.incoming len.toNat = true := by
      intro len hlen hpos
      by_contra hno
      exact hmem (by simp [hlen, hpos, hno])
    unfold BinlogClient.RecvProtobufMsg
    generalize nextPacket c.incoming = next at hexc
    obtain ⟨r, rest⟩ := next
    cases r with
    | exception =>
      obtain ⟨len, hlen, hneg⟩ := hexc.mp rfl
      exact .inl ⟨⟨len, hlen, fun h => absurd h.1 (by omega)⟩, _, _, rfl⟩
    | null | packet p =>
      refine .inr ⟨fun len hlen => ?_, ?_⟩
      · have hpos : 0 ≤ len := by
          by_contra hneg
          have := hexc.mpr ⟨len, hlen, by omega⟩
          cases this
        exact ⟨hpos, hroom len hlen hpos⟩
      · simp

theorem onPacket_honest_iff (hidle : Idle binlogHandler c.trace) (k : Packet → Conn → Ended) :
    Honest binlogHandler (caught (onPacket m c k)) ↔
      Expect m c.incoming fun p rest =>
        Honest binlogHandler (caught (k p ({ c with incoming := rest }.record (.received p)))) := by
  unfold onPacket Expect
  rcases RecvProtobufMsg_cases m c with ⟨⟨len, hlen, hno⟩, t, rest, heq⟩ | ⟨hlen, hcase⟩
  · rw [heq]
    have hthrow := not_honest_error (c := { c with incoming := rest }) hidle t
    exact iff_of_false hthrow fun h => hno (h.1 len hlen)
  · rcases hcase with ⟨rest, hnext, heq⟩ | ⟨p, rest, hnext, heq⟩
    · rw [heq, hnext]
      exact iff_of_true honest_false ⟨hlen, by simp⟩
    · rw [heq, hnext]
      constructor
      · intro h
        refine ⟨hlen, ?_⟩
        rintro _ _ ⟨⟩
        exact h
      · intro h
        exact h.2 p rest rfl

theorem write_ok_iff (c : Conn) (bs : Bytes) : (write c bs).1 = true ↔ Fits c.room bs.length := by
  unfold write Fits
  cases c.room with
  | none => simp
  | some k =>
    simp only [Option.mem_some_iff, forall_eq']
    split <;> simp [*]

theorem SendPkg_ok_iff (c : Conn) (pkg : Bytes) :
    (SendPkg c pkg).1 = true ↔ Fits c.room (frame pkg).length := by
  obtain ⟨evs, hsent⟩ := write_sent c (be32 (UInt32.ofNat pkg.length))
  have hhead := write_ok_iff c (be32 (UInt32.ofNat pkg.length))
  unfold SendPkg
  generalize write c (be32 (UInt32.ofNat pkg.length)) = r at hsent hhead
  obtain ⟨ok, c'⟩ := r
  rw [be32_length] at hhead
  cases ok with
  | false =>
    refine iff_of_false (by simp) fun h => ?_
    have hfour : Fits c.room 4 := by
      intro k hk
      have := h k hk
      rw [frame_length] at this
      omega
    exact absurd (hhead.mpr hfour) (by simp)
  | true =>
    have hfour := hhead.mp rfl
    have hroom : c'.room = c.room.map fun k => k - 4 := (hsent.whole rfl).2.2
    dsimp only
    rw [write_ok_iff, hroom]
    unfold Fits at hfour ⊢
    cases hc : c.room with
    | none => simp
    | some k =>
      have := hfour k hc
      simp only [Option.map_some, Option.mem_some_iff, forall_eq', frame_length]
      omega

theorem onSend_honest_iff (pkgType : PacketType) (msgBody : Bytes) (k : Conn → Ended) :
    Honest binlogHandler (caught (onTrue (sent (SendProtobufMsg c pkgType msgBody)) k)) ↔
      (Fits c.room (frame (Packet.toByteArray { type := pkgType, body := msgBody })).length →
        Honest binlogHandler (caught (k (SendProtobufMsg c pkgType msgBody).2))) := by
  have hok := SendPkg_ok_iff c (Packet.toByteArray { type := pkgType, body := msgBody })
  change (SendProtobufMsg c pkgType msgBody).1 = true ↔ _ at hok
  rw [← hok]
  generalize SendProtobufMsg c pkgType msgBody = r
  obtain ⟨ok, c'⟩ := r
  cases ok with
  | false => exact iff_of_true honest_false (by simp)
  | true => simp [sent]

end Honest

theorem pull_items_le (n : ℕ) (src : Source Unit UInt8) :
    (items (pull n src).2).length ≤ (items src).length := by
  match src with
  | [] => exact Nat.le_refl _
  | .fault e :: src => exact Nat.le_refl _
  | .chunk a as :: src =>
    simp only [pull, items_unread, items_chunk, List.length_append, List.length_cons,
      List.length_drop]
    omega

theorem recvPkg_shorter {src rest : Source Unit UInt8} {pkg : Bytes}
    (h : recvPkg src = (.data pkg, rest)) : (items rest).length < (items src).length := by
  have hitems := fill_items neverRetry 4 src
  have hfull := (fill_full_iff neverRetry 4 src).mp
  unfold recvPkg at h
  dsimp only at h
  generalize fill neverRetry 4 src = f at hitems hfull h
  obtain ⟨got, stop, tail⟩ := f
  cases stop with
  | ended => cases h
  | fault e => cases h
  | full =>
    have hlen : (items src).length = 4 + (items tail).length := by
      rw [hitems, List.length_append, hfull rfl]
    have htail : (items rest).length ≤ (items tail).length := by
      dsimp only at h
      generalize signed (ofBe32 got) = len at h
      have hpull := pull_items_le len.toNat tail
      split at h
      · cases h
      · split at h
        · cases h
          exact Nat.le_refl _
        · split at h
          · rename_i heq
            rw [heq] at hpull
            split at h
            · cases h
            · cases h
              exact hpull
          · cases h
    omega

theorem nextPacket_shorter {src rest : Source Unit UInt8} {p : Packet}
    (h : nextPacket src = (.packet p, rest)) : (items rest).length < (items src).length := by
  unfold nextPacket at h
  split at h
  · cases h
  · cases h
  · rename_i hpkg
    split at h
    · cases h
    · cases h
      exact recvPkg_shorter hpkg

section Loop

variable {m : Machine} {binlogHandler : Handling}

theorem loopCalm_iff (seen : List Packet) (src : Source Unit UInt8) :
    LoopCalm m binlogHandler (seen, src) ↔
      Expect m src fun p rest => (∀ t, binlogHandler seen p ≠ .throws t) ∧
        (binlogHandler seen p = .value 0 → LoopCalm m binlogHandler (seen ++ [p], rest)) := by
  constructor
  · intro h
    obtain ⟨hlen, hpackets⟩ := h (seen, src) .refl
    refine ⟨hlen, fun p rest hnext => ⟨hpackets p rest hnext, fun hzero st hst => ?_⟩⟩
    exact h st (.head ⟨p, hnext, hzero, rfl⟩ hst)
  · rintro ⟨hlen, hpackets⟩ st hst
    rcases hst.cases_head with rfl | ⟨⟨seen', rest⟩, ⟨p, hnext, hzero, hseen⟩, hrest⟩
    · exact ⟨hlen, fun p rest hnext => (hpackets p rest hnext).1⟩
    · obtain rfl : seen' = seen ++ [p] := hseen
      exact (hpackets p rest hnext).2 hzero st hrest

/-- The induction is on the fuel, which outlasts the stream. -/
theorem dumpLoop_honest_iff (fuel : ℕ) (seen : List Packet) (c : Conn)
    (hfuel : (items c.incoming).length < fuel) (hseen : packetsApplied c.trace = seen)
    (hidle : Idle binlogHandler c.trace) :
    Honest binlogHandler (caught (dumpLoop m binlogHandler fuel seen c)) ↔
      LoopCalm m binlogHandler (seen, c.incoming) := by
  induction fuel generalizing seen c with
  | zero => omega
  | succ fuel ih =>
    rw [dumpLoop, onPacket_honest_iff hidle, loopCalm_iff]
    refine Expect.congr fun p rest hnext => ?_
    have hshort := nextPacket_shorter hnext
    have hsofar : packetsApplied ({ c with incoming := rest }.record (.received p)).trace = seen := by
      rw [Conn.record_trace, packetsApplied_append, hseen]
      exact List.append_nil seen
    generalize hc' : ({ c with incoming := rest }.record (.received p) : Conn) = c' at hsofar
    have hrest : c'.incoming = rest := by
      rw [← hc']
      rfl
    cases happly : binlogHandler seen p with
    | throws t =>
      have hstop : Idle binlogHandler (c'.trace ++ [.applied p]) := by
        refine .of_applied fun n hval => ?_
        rw [hsofar, happly] at hval
        cases hval
      have hthrow := not_honest_error (c := c'.record (.applied p)) hstop t
      exact iff_of_false hthrow fun h => h.1 t rfl
    | value n =>
      dsimp only
      by_cases hn : n = 0
      · subst hn
        have happlied : packetsApplied (c'.trace ++ [.applied p]) = seen ++ [p] := by
          rw [packetsApplied_append, hsofar]
          rfl
        have hgo : Idle binlogHandler (c'.trace ++ [.applied p]) := by
          refine .of_applied fun n hval => ?_
          rw [hsofar, happly] at hval
          exact (Applied.value.inj hval).symm
        have hiff := ih (seen ++ [p]) (c'.record (.applied p)) (by
          rw [Conn.record_incoming, hrest]
          omega) happlied hgo
        rw [Conn.record_incoming, hrest] at hiff
        simpa using hiff
      · simp only [ne_eq, hn, not_false_eq_true, ↓reduceIte]
        refine iff_of_true (.inr ⟨rfl, c'.trace, p, n, rfl, ?_, hn⟩) ⟨by simp, ?_⟩
        · rw [hsofar, happly]
        · intro hzero
          exact absurd (Applied.value.inj hzero) hn

end Loop

theorem addressOk_iff (m : Machine) (client : JBinlogClient) :
    AddressOk client ↔ ∀ t, client.Open m ≠ .error t := by
  unfold AddressOk JBinlogClient.Open
  cases client.bConnected with
  | true => simp
  | false =>
    cases client.remoteAddr with
    | none => simp
    | some remoteAddr =>
      simp only [Bool.false_eq_true, ↓reduceIte, false_or, Option.some.injEq, exists_eq_left']
      split
      · rename_i host port rest hsplit
        simp only [hsplit, List.cons.injEq, and_imp]
        cases hport : parseInt port with
        | none =>
          refine iff_of_true ?_ (by simp)
          rintro _ _ _ n rfl rfl rfl hn
          rw [hport] at hn
          cases hn
        | some n =>
          dsimp only
          constructor
          · intro h
            rw [if_pos (h host port rest n rfl rfl rfl hport)]
            simp
          · rintro h _ _ _ n' rfl rfl rfl hn
            obtain rfl : n = n' := Option.some.inj (hport.symm.trans hn)
            by_contra hno
            exact h .exception (if_neg hno)
      · rename_i hsplit
        refine iff_of_true (fun host port rest n heq => ?_) (by simp)
        exact absurd heq (hsplit host port rest)

theorem fits_add_iff {room : Option ℕ} {a b : ℕ} (h : Fits room a) :
    Fits (room.map fun k => k - a) b ↔ Fits room (a + b) := by
  unfold Fits at h ⊢
  cases room with
  | none => simp
  | some k =>
    have := h k rfl
    simp only [Option.map_some, Option.mem_some_iff, forall_eq']
    omega

theorem SendProtobufMsg_fits (c : Conn) (pkgType : PacketType) (msgBody : Bytes)
    (h : Fits c.room (frame (Packet.toByteArray { type := pkgType, body := msgBody })).length) :
    (SendProtobufMsg c pkgType msgBody).2.incoming = c.incoming ∧
      (SendProtobufMsg c pkgType msgBody).2.room =
        c.room.map fun k => k - (frame (Packet.toByteArray { type := pkgType, body := msgBody })).length := by
  obtain ⟨evs, hsent⟩ := SendPkg_sent c (Packet.toByteArray { type := pkgType, body := msgBody })
  exact ⟨hsent.incoming, (hsent.whole ((SendPkg_ok_iff _ _).mpr h)).2.2⟩

theorem dump_honest_iff (m : Machine) (startScn : ℤ) (binlogHandler : Handling) (c : Conn)
    (hsilent : packetsApplied c.trace = []) :
    Honest binlogHandler (caught
        (onTrue (sent (SendProtobufMsg c .DUMP (dumpRequest startScn).toByteString)) fun c =>
          dumpLoop m binlogHandler ((items c.incoming).length + 1) [] c)) ↔
      (Fits c.room (dumpFrame startScn).length → LoopCalm m binlogHandler ([], c.incoming)) := by
  rw [onSend_honest_iff]
  refine imp_congr_right fun hdump => ?_
  obtain ⟨hin, _⟩ := SendProtobufMsg_fits _ _ _ hdump
  have hsent := SendProtobufMsg_applied c .DUMP (dumpRequest startScn).toByteString
  generalize (SendProtobufMsg c .DUMP (dumpRequest startScn).toByteString).2 = c' at hin hsent
  rw [hsilent] at hsent
  rw [dumpLoop_honest_iff _ [] c' (Nat.lt_succ_self _) hsent (.of_silent hsent), hin]

theorem DumpBinlog_honest_iff (m : Machine) (client : JBinlogClient) (binlogHandler : Handling)
    (src : Source Unit UInt8) (room : Option ℕ) :
    Honest binlogHandler (client.DumpBinlog m binlogHandler ⟨src, room, []⟩) ↔
      Calm m client binlogHandler src room := by
  have hstart : Idle binlogHandler [] := .of_silent rfl
  unfold JBinlogClient.DumpBinlog Calm
  rw [addressOk_iff m client]
  cases hopen : client.Open m with
  | error t => exact iff_of_false (not_honest_error hstart t) fun h => h.1 t rfl
  | ok opened =>
    cases opened with
    | false => exact iff_of_true honest_false ⟨by simp, by simp⟩
    | true =>
      rw [onTrue_true, HandShake, onTrue_onPacket, onPacket_honest_iff hstart]
      simp only [ne_eq, reduceCtorEq, not_false_eq_true, implies_true, forall_const, true_and]
      refine Expect.congr fun h rest _ => ?_
      by_cases hh : h.type = .HANDSHAKE
      · simp only [hh, not_true_eq_false, ↓reduceIte, forall_const]
        rw [onTrue_onTrue, onSend_honest_iff]
        refine imp_congr_right fun hauth => ?_
        obtain ⟨hin, hroom⟩ := SendProtobufMsg_fits _ _ _ hauth
        have hsilent := SendProtobufMsg_applied ({ incoming := rest, room := room, trace := [] : Conn }.record
          (.received h)) .CLIENTAUTHENTICATION ClientAuth.defaultBytes
        generalize (SendProtobufMsg _ .CLIENTAUTHENTICATION ClientAuth.defaultBytes).2 = c
          at hin hroom hsilent ⊢
        rw [onTrue_onPacket, onPacket_honest_iff (.of_silent hsilent), hin]
        refine Expect.congr fun a rest' _ => ?_
        by_cases ha : a.type = .ACK
        · simp only [ha, not_true_eq_false, ↓reduceIte, onTrue_true, forall_const]
          have hreceived : packetsApplied ({ c with incoming := rest' }.record (.received a)).trace =
              [] := by
            rw [Conn.record_trace, packetsApplied_append, hsilent]
            rfl
          rw [dump_honest_iff m client.startScn binlogHandler _ hreceived, Conn.record_room, hroom]
          exact imp_congr_left (fits_add_iff hauth)
        · simp only [ha, not_false_eq_true, ↓reduceIte, onTrue_false, false_implies, iff_true]
          exact honest_false
      · simp only [hh, not_false_eq_true, ↓reduceIte, onTrue_false, false_implies, iff_true]
        exact honest_false

def negativeLength : Source Unit UInt8 := unread [255, 255, 255, 255] []

def localMachine : Machine where
  connects _ _ := true
  allocates _ _ := true

def localClient : JBinlogClient := ⟨some "127.0.0.1:9191".toList, 0, false⟩

theorem negativeLength_returns_true :
    ¬ Honest (fun _ _ => .value 0)
      (localClient.DumpBinlog localMachine (fun _ _ => .value 0) ⟨negativeLength, none, []⟩) := by
  have hret : (localClient.DumpBinlog localMachine (fun _ _ => .value 0)
      ⟨negativeLength, none, []⟩).1 = .ok true := by
    rfl
  rintro (hfalse | ⟨_, _, _, n, _, hval, hn⟩)
  · rw [hret] at hfalse
    cases hfalse
  · exact hn (Applied.value.inj hval).symm

section Unlimited

def handling (binlogHandler : Handler) : Handling := fun seen p =>
  match binlogHandler seen p with
  | .value n => .value n
  | .throws => .throws .exception

def ended (r : Option Bool × Conn) : Ended :=
  match r with
  | (none, c) => (.error .exception, c)
  | (some b, c) => (.ok b, c)

variable {m : Machine} (hmem : ∀ src len, m.allocates src len = true)
include hmem

theorem onPacket_unlimited (c : Conn) (k : Packet → Conn → Ended) :
    onPacket m c k =
      match BinlogClient.RecvProtobufMsg c with
      | (.packet p, c) => k p c
      | (.null, c) => (.ok false, c)
      | (.exception, c) => (.error .exception, c) := by
  have hany : ¬ ((frameLength c.incoming).any fun len =>
      0 ≤ len ∧ !m.allocates c.incoming len.toNat) = true := by
    simp [hmem]
  rw [onPacket, RecvProtobufMsg, if_neg hany]
  generalize BinlogClient.RecvProtobufMsg c = r
  obtain ⟨r, c'⟩ := r
  cases r <;> rfl

theorem HandShake_unlimited (c : Conn) : HandShake m c = ended (BinlogClient.HandShake c) := by
  rw [HandShake, onPacket_unlimited hmem, BinlogClient.HandShake]
  generalize BinlogClient.RecvProtobufMsg c = r
  obtain ⟨r, c1⟩ := r
  cases r with
  | exception => rfl
  | null => rfl
  | packet h =>
    dsimp only
    split
    · rfl
    · generalize SendProtobufMsg c1 .CLIENTAUTHENTICATION ClientAuth.defaultBytes = q
      obtain ⟨ok, c2⟩ := q
      cases ok with
      | false => rfl
      | true =>
        simp only [sent, onTrue_true, onPacket_unlimited hmem]
        generalize BinlogClient.RecvProtobufMsg c2 = r
        obtain ⟨r, c3⟩ := r
        cases r with
        | exception => rfl
        | null => rfl
        | packet a =>
          dsimp only
          split <;> rfl

theorem dumpLoop_unlimited (binlogHandler : Handler) (fuel : ℕ) (seen : List Packet) (c : Conn) :
    caught (dumpLoop m (handling binlogHandler) fuel seen c) =
      sent (BinlogClient.dumpLoop binlogHandler fuel seen c) := by
  induction fuel generalizing seen c with
  | zero => rfl
  | succ fuel ih =>
    rw [dumpLoop, onPacket_unlimited hmem, BinlogClient.dumpLoop]
    generalize BinlogClient.RecvProtobufMsg c = r
    obtain ⟨r, c'⟩ := r
    cases r with
    | exception => rfl
    | null => rfl
    | packet p =>
      simp only [handling]
      cases binlogHandler seen p with
      | throws => rfl
      | value n =>
        dsimp only
        split
        · rfl
        · exact ih (seen ++ [p]) (c'.record (.applied p))

/-- With memory for every array, this is the client that was taken to have a heap large enough. -/
theorem DumpBinlog_unlimited {client : JBinlogClient} {opened : Bool}
    (hopen : client.Open m = .ok opened) (binlogHandler : Handler) (c : Conn) :
    client.DumpBinlog m (handling binlogHandler) c =
      sent (BinlogClient.DumpBinlog opened client.startScn binlogHandler c) := by
  unfold JBinlogClient.DumpBinlog BinlogClient.DumpBinlog
  rw [hopen]
  cases opened with
  | false => rfl
  | true =>
    rw [onTrue_true, HandShake_unlimited hmem, if_pos rfl]
    generalize BinlogClient.HandShake c = r
    obtain ⟨r, c'⟩ := r
    cases r with
    | none => rfl
    | some shaken =>
      cases shaken with
      | false => rfl
      | true =>
        simp only [ended, onTrue_true]
        generalize SendProtobufMsg c' .DUMP (dumpRequest client.startScn).toByteString = q
        obtain ⟨ok, c''⟩ := q
        cases ok with
        | false => rfl
        | true => exact dumpLoop_unlimited hmem binlogHandler _ [] c''

end Unlimited

end O2k.BinlogOutcome
