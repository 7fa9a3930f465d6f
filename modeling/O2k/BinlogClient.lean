import O2k.BinlogPacket
import O2k.ChunkedSource
import O2k.GatedTrace

set_option autoImplicit false

/-!
# JBinlogClient

The socket client of `JBinlogDumpS`: a handshake, the DUMP request, then one
call of the handler for each packet. An exception is caught in `DumpBinlog`.
The heap is taken to be large enough for every array.
-/
namespace O2k.BinlogClient
open ByteOrder ChunkedSource BinlogPacket GatedTrace

inductive Event where
  | received (p : Packet)
  | wrote (bs : Bytes)
  | applied (p : Packet)
  deriving DecidableEq

/-- An open connection. A fault of the stream is an `IOException`, `room` how many bytes can be
    written before one is thrown, if ever. The trace is kept for the proofs. -/
structure Conn where
  incoming : Source Unit UInt8
  room : Option ℕ
  trace : List Event
  deriving DecidableEq

def Conn.record (c : Conn) (ev : Event) : Conn := { c with trace := c.trace ++ [ev] }

@[simp] theorem Conn.record_incoming (c : Conn) (ev : Event) :
    (c.record ev).incoming = c.incoming := rfl

@[simp] theorem Conn.record_room (c : Conn) (ev : Event) : (c.record ev).room = c.room := rfl

@[simp] theorem Conn.record_trace (c : Conn) (ev : Event) :
    (c.record ev).trace = c.trace ++ [ev] := rfl

def write (c : Conn) (bs : Bytes) : Bool × Conn :=
  match c.room with
  | none => (true, c.record (.wrote bs))
  | some k =>
    if bs.length ≤ k then (true, { c with room := some (k - bs.length) }.record (.wrote bs))
    else (false, { c with room := some 0 }.record (.wrote (bs.take k)))

def SendPkg (c : Conn) (pkg : Bytes) : Bool × Conn :=
  match write c (be32 (UInt32.ofNat pkg.length)) with
  | (false, c) => (false, c)
  | (true, c) => write c pkg

def SendProtobufMsg (c : Conn) (pkgType : PacketType) (msgBody : Bytes) : Bool × Conn :=
  SendPkg c (Packet.toByteArray { type := pkgType, body := msgBody })

def neverRetry : Unit → Bool := fun _ => false

/-- What `recvPkg` returns; `exception` is the `NegativeArraySizeException` it lets through. -/
inductive RecvPkg where
  | data (bs : Bytes)
  | null
  | exception
  deriving DecidableEq

/-- `readInt` goes on until it has four bytes, `read` is called once; for an empty array it
    returns zero without a look at the stream. -/
def recvPkg (src : Source Unit UInt8) : RecvPkg × Source Unit UInt8 :=
  let f := fill neverRetry 4 src
  match f.stop with
  | .full =>
    let len := signed (ofBe32 f.got)
    if len < 0 then (.exception, f.rest)
    else if len = 0 then (.data [], f.rest)
    else
      match pull len.toNat f.rest with
      | (.data a as, rest) => if (a :: as).length ≠ len then (.null, rest) else (.data (a :: as), rest)
      | (_, rest) => (.null, rest)
  | _ => (.null, f.rest)

inductive Received where
  | packet (p : Packet)
  | null
  | exception
  deriving DecidableEq

def nextPacket (src : Source Unit UInt8) : Received × Source Unit UInt8 :=
  match recvPkg src with
  | (.exception, rest) => (.exception, rest)
  | (.null, rest) => (.null, rest)
  | (.data pkg, rest) =>
    match Packet.parseFrom pkg with
    | none => (.null, rest)
    | some p => (.packet p, rest)

def RecvProtobufMsg (c : Conn) : Received × Conn :=
  match nextPacket c.incoming with
  | (.packet p, rest) => (.packet p, { c with incoming := rest }.record (.received p))
  | (r, rest) => (r, { c with incoming := rest })

def HandShake (c : Conn) : Option Bool × Conn :=
  match RecvProtobufMsg c with
  | (.exception, c) => (none, c)
  | (.null, c) => (some false, c)
  | (.packet handShake, c) =>
    if handShake.type ≠ .HANDSHAKE then (some false, c)
    else
      match SendProtobufMsg c .CLIENTAUTHENTICATION ClientAuth.defaultBytes with
      | (false, c) => (some false, c)
      | (true, c) =>
        match RecvProtobufMsg c with
        | (.exception, c) => (none, c)
        | (.null, c) => (some false, c)
        | (.packet ack, c) => if ack.type ≠ .ACK then (some false, c) else (some true, c)

inductive HandlerResult where
  | value (n : ℤ)
  | throws
  deriving DecidableEq

abbrev Handler := List Packet → Packet → HandlerResult

def dumpLoop (binlogHandler : Handler) : ℕ → List Packet → Conn → Bool × Conn
  | 0, _, c => (true, c)
  | fuel + 1, seen, c =>
    match RecvProtobufMsg c with
    | (.exception, c) => (true, c)
    | (.null, c) => (false, c)
    | (.packet p, c) =>
      match binlogHandler seen p with
      | .throws => (true, c.record (.applied p))
      | .value n =>
        if n ≠ 0 then (true, c.record (.applied p))
        else dumpLoop binlogHandler fuel (seen ++ [p]) (c.record (.applied p))

def longText (n : ℤ) : Bytes :=
  (if n < 0 then [45] else []) ++
    (Nat.toDigits 10 n.natAbs).map fun ch => UInt8.ofNat ch.toNat

def dumpRequest (startScn : ℤ) : Dump where
  journal := [48]
  position := 0
  timestamp := some 0
  gtid := longText startScn

/-- `opened` is whether `Open` has connected. Every packet takes four bytes at least, so the
    loop has fuel enough. -/
def DumpBinlog (opened : Bool) (startScn : ℤ) (binlogHandler : Handler) (c : Conn) : Bool × Conn :=
  if opened then
    match HandShake c with
    | (none, c) => (true, c)
    | (some false, c) => (false, c)
    | (some true, c) =>
      match SendProtobufMsg c .DUMP (dumpRequest startScn).toByteString with
      | (false, c) => (false, c)
      | (true, c) => dumpLoop binlogHandler ((items c.incoming).length + 1) [] c
  else (false, c)

def Event.bytesOut : Event → Bytes
  | .wrote bs => bs
  | _ => []

def Event.packetIn : Event → List Packet
  | .received p => [p]
  | _ => []

def Event.packetApplied : Event → List Packet
  | .applied p => [p]
  | _ => []

def packetsIn (evs : List Event) : List Packet := written Event.packetIn evs

def packetsApplied (evs : List Event) : List Packet := written Event.packetApplied evs

def bytesOut (evs : List Event) : Bytes := written Event.bytesOut evs

@[simp] theorem packetsIn_append (xs ys : List Event) :
    packetsIn (xs ++ ys) = packetsIn xs ++ packetsIn ys := written_append _ xs ys

@[simp] theorem packetsApplied_append (xs ys : List Event) :
    packetsApplied (xs ++ ys) = packetsApplied xs ++ packetsApplied ys := written_append _ xs ys

@[simp] theorem bytesOut_append (xs ys : List Event) :
    bytesOut (xs ++ ys) = bytesOut xs ++ bytesOut ys := written_append _ xs ys

structure Sent (bs : Bytes) (c : Conn) (r : Bool × Conn) (evs : List Event) : Prop where
  trace : r.2.trace = c.trace ++ evs
  incoming : r.2.incoming = c.incoming
  takes : bytesOut evs <+: bs
  whole : r.1 = true → bytesOut evs = bs ∧ (∀ k ∈ c.room, bs.length ≤ k) ∧
    r.2.room = c.room.map (fun k => k - bs.length)
  short : r.1 = false → c.room = some (bytesOut evs).length
  received : packetsIn evs = []
  applied : packetsApplied evs = []

theorem write_sent (c : Conn) (bs : Bytes) : ∃ evs, Sent bs c (write c bs) evs := by
  have hout (w : Bytes) : bytesOut [.wrote w] = w := by simp [bytesOut, written, Event.bytesOut]
  unfold write
  cases hroom : c.room with
  | none =>
    exact ⟨[.wrote bs], rfl, rfl, by rw [hout],
      fun _ => ⟨hout bs, by simp [hroom], by simp [hroom]⟩, by simp, rfl, rfl⟩
  | some k =>
    by_cases hk : bs.length ≤ k
    · simp only [hk, ↓reduceIte]
      exact ⟨[.wrote bs], rfl, rfl, by rw [hout],
        fun _ => ⟨hout bs, by simp [hroom, hk], by simp [hroom]⟩, by simp, rfl, rfl⟩
    · simp only [hk, ↓reduceIte]
      refine ⟨[.wrote (bs.take k)], rfl, rfl, ?_, by simp, ?_, rfl, rfl⟩
      · rw [hout]
        exact List.take_prefix _ _
      · intro _
        rw [hroom, hout, List.length_take, Nat.min_eq_left (by omega)]

theorem SendPkg_sent (c : Conn) (pkg : Bytes) : ∃ evs, Sent (frame pkg) c (SendPkg c pkg) evs := by
  obtain ⟨evs, hhead⟩ := write_sent c (be32 (UInt32.ofNat pkg.length))
  unfold SendPkg
  generalize write c (be32 (UInt32.ofNat pkg.length)) = r at hhead
  obtain ⟨ok, c'⟩ := r
  cases ok with
  | false =>
    exact ⟨evs, hhead.trace, hhead.incoming, hhead.takes.trans (List.prefix_append _ _), by simp,
      hhead.short, hhead.received, hhead.applied⟩
  | true =>
    obtain ⟨hall, hfit, hroom⟩ := hhead.whole rfl
    obtain ⟨evs2, hbody⟩ := write_sent c' pkg
    dsimp only at hroom ⊢
    refine ⟨evs ++ evs2, ?_, hbody.incoming.trans hhead.incoming, ?_, ?_, ?_, ?_, ?_⟩
    · rw [hbody.trace, hhead.trace, List.append_assoc]
    · rw [bytesOut_append, hall, frame]
      exact (List.prefix_append_right_inj _).mpr hbody.takes
    · intro hok
      obtain ⟨hall2, hfit2, hroom2⟩ := hbody.whole hok
      refine ⟨by rw [bytesOut_append, hall, hall2, frame], ?_, ?_⟩
      · intro k hk
        have h4 := hfit k hk
        have hp := hfit2 (k - 4) (by rw [hroom, hk]; rfl)
        rw [be32_length] at h4
        rw [frame_length]
        omega
      · rw [hroom2, hroom, Option.map_map]
        cases c.room with
        | none => rfl
        | some k =>
          simp only [Option.map_some, Function.comp_apply, be32_length, frame_length,
            Option.some.injEq]
          omega
    · intro hno
      have hshort := hbody.short hno
      rw [hroom] at hshort
      cases hc : c.room with
      | none => simp [hc] at hshort
      | some k =>
        rw [hc, Option.map_some, Option.some.injEq, be32_length] at hshort
        have hfour := hfit k hc
        rw [be32_length] at hfour
        rw [bytesOut_append, hall, List.length_append, be32_length, Option.some.injEq]
        omega
    · rw [packetsIn_append, hhead.received, hbody.received]
      rfl
    · rw [packetsApplied_append, hhead.applied, hbody.applied]
      rfl

end O2k.BinlogClient
