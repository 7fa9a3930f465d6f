import O2k.WireSegments

set_option autoImplicit false

namespace O2k.BinlogPacket
open ByteOrder WireFormat

inductive PacketType where
  | PACKAGETYPECOMPATIBLEPROTO2
  | HANDSHAKE
  | CLIENTAUTHENTICATION
  | ACK
  | SUBSCRIPTION
  | UNSUBSCRIPTION
  | GET
  | MESSAGES
  | CLIENTACK
  | SHUTDOWN
  | DUMP
  | HEARTBEAT
  | CLIENTROLLBACK
  | UNRECOGNIZED (number : ℕ)
  deriving DecidableEq

def PacketType.named : List PacketType :=
  [.PACKAGETYPECOMPATIBLEPROTO2, .HANDSHAKE, .CLIENTAUTHENTICATION, .ACK, .SUBSCRIPTION,
    .UNSUBSCRIPTION, .GET, .MESSAGES, .CLIENTACK, .SHUTDOWN, .DUMP, .HEARTBEAT, .CLIENTROLLBACK]

def PacketType.ofNumber (n : ℕ) : PacketType := (named[n]?).getD (.UNRECOGNIZED n)

def PacketType.number : PacketType → ℕ
  | .UNRECOGNIZED n => n
  | t => named.idxOf t

inductive Compression where
  | COMPRESSIONCOMPATIBLEPROTO2
  | NONE
  | ZLIB
  | GZIP
  | LZF
  | UNRECOGNIZED (number : ℕ)
  deriving DecidableEq

def Compression.named : List Compression :=
  [.COMPRESSIONCOMPATIBLEPROTO2, .NONE, .ZLIB, .GZIP, .LZF]

def Compression.ofNumber (n : ℕ) : Compression := (named[n]?).getD (.UNRECOGNIZED n)

def Compression.number : Compression → ℕ
  | .UNRECOGNIZED n => n
  | c => named.idxOf c

structure Packet where
  magic_number : Option UInt32 := none
  version : Option UInt32 := none
  type : PacketType := .PACKAGETYPECOMPATIBLEPROTO2
  compression : Option Compression := none
  body : Bytes := []
  deriving DecidableEq

structure Ack where
  error_code : Option UInt32 := none
  error_message : Bytes := []
  deriving DecidableEq

def Ack.errorCode (a : Ack) : UInt32 := a.error_code.getD 0

structure Dump where
  journal : Bytes := []
  position : UInt64 := 0
  timestamp : Option UInt64 := none
  gtid : Bytes := []
  deriving DecidableEq

def Packet.fields : List (FieldCase Packet) :=
  [⟨1, .varint fun n p => { p with magic_number := some (UInt32.ofNat n) }⟩,
    ⟨2, .varint fun n p => { p with version := some (UInt32.ofNat n) }⟩,
    ⟨3, .varint fun n p => { p with type := .ofNumber (n % 2 ^ 32) }⟩,
    ⟨4, .varint fun n p => { p with compression := some (.ofNumber (n % 2 ^ 32)) }⟩,
    ⟨5, .bytes fun v p => { p with body := v }⟩]

def Ack.fields : List (FieldCase Ack) :=
  [⟨1, .varint fun n a => { a with error_code := some (UInt32.ofNat n) }⟩,
    ⟨2, .string fun v a => { a with error_message := v }⟩]

def Dump.fields : List (FieldCase Dump) :=
  [⟨1, .string fun v d => { d with journal := v }⟩,
    ⟨2, .varint fun n d => { d with position := UInt64.ofNat n }⟩,
    ⟨3, .varint fun n d => { d with timestamp := some (UInt64.ofNat n) }⟩,
    ⟨4, .string fun v d => { d with gtid := v }⟩]

def javaRuntime : Runtime := ⟨false⟩

/-- `parseFrom`; `none` is an `InvalidProtocolBufferException`. -/
def Packet.parseFrom (bs : Bytes) : Option Packet :=
  mergeFrom javaRuntime Packet.fields DEFAULT_RECURSION_LIMIT bs {}

def Ack.parseFrom (bs : Bytes) : Option Ack :=
  mergeFrom javaRuntime Ack.fields DEFAULT_RECURSION_LIMIT bs {}

def Dump.parseFrom (bs : Bytes) : Option Dump :=
  mergeFrom javaRuntime Dump.fields DEFAULT_RECURSION_LIMIT bs {}

def putOneof (number : ℕ) : Option ℕ → Bytes
  | none => []
  | some n => putVarintField number n

def putNumber (number n : ℕ) : Bytes := if n ≠ 0 then putVarintField number n else []

def Packet.toByteArray (p : Packet) : Bytes :=
  putOneof 1 (p.magic_number.map fun n => signExtend n.toNat) ++
    (putOneof 2 (p.version.map fun n => signExtend n.toNat) ++
      (putNumber 3 (signExtend p.type.number) ++
        (putOneof 4 (p.compression.map fun c => signExtend c.number) ++ putString 5 p.body)))

/-- The body of `ClientAuth.newBuilder().build()`: every field has its default. -/
def ClientAuth.defaultBytes : Bytes := []

def Dump.toByteString (d : Dump) : Bytes :=
  putString 1 d.journal ++ (putNumber 2 d.position.toNat ++
    (putOneof 3 (d.timestamp.map UInt64.toNat) ++ putString 4 d.gtid))

theorem PacketType.ofNumber_number {t : PacketType} (h : t ∈ named) : ofNumber t.number = t := by
  have hall : ∀ t ∈ named, ofNumber t.number = t := by decide
  exact hall t h

theorem Compression.ofNumber_number {c : Compression} (h : c ∈ named) : ofNumber c.number = c := by
  have hall : ∀ c ∈ named, ofNumber c.number = c := by decide
  exact hall c h

theorem signExtend_lt {n : ℕ} (h : n < 2 ^ 32) : signExtend n < 2 ^ 64 := by
  unfold signExtend
  split <;> omega

theorem signExtend_mod {n : ℕ} (h : n < 2 ^ 32) : signExtend n % 2 ^ 32 = n := by
  unfold signExtend
  split <;> omega

def storeOneof {σ : Type} (set : ℕ → σ → σ) (v : Option ℕ) (s : σ) : σ :=
  match v with
  | none => s
  | some n => set n s

def storeNumber {σ : Type} (set : ℕ → σ → σ) (n : ℕ) (s : σ) : σ := if n ≠ 0 then set n s else s

section Segments

variable {σ : Type} {fields : List (FieldCase σ)} {budget : ℕ}

theorem oneof_segment (number : ℕ) (v : Option ℕ) {set : ℕ → σ → σ}
    (hfind : fields.find? (fun f => f.tag = makeTag number 0) = some ⟨number, .varint set⟩)
    (hpos : 0 < number) (hlt : number < 2 ^ 29) (hv : ∀ n ∈ v, n < 2 ^ 64) :
    Segment javaRuntime fields budget (putOneof number v) (storeOneof set v) := by
  cases v with
  | none => exact Segment.nil
  | some n => exact Segment.varint number n hfind hpos hlt (hv n rfl)

theorem number_segment (number n : ℕ) {set : ℕ → σ → σ}
    (hfind : fields.find? (fun f => f.tag = makeTag number 0) = some ⟨number, .varint set⟩)
    (hpos : 0 < number) (hlt : number < 2 ^ 29) (hn : n < 2 ^ 64) :
    Segment javaRuntime fields budget (putNumber number n) (storeNumber set n) := by
  by_cases hzero : n = 0
  · subst hzero
    exact Segment.nil
  · have hput : putNumber number n = putVarintField number n := if_pos hzero
    have hset : storeNumber set n = set n := by
      funext s
      exact if_pos hzero
    rw [hput, hset]
    exact Segment.varint number n hfind hpos hlt hn

theorem storeOneof_eq {α : Type} {set : ℕ → σ → σ} {enc : α → ℕ} (put : Option α → σ → σ)
    (v : Option α) (s : σ) (hset : ∀ a ∈ v, set (enc a) s = put (some a) s) (hnone : put none s = s) :
    storeOneof set (v.map enc) s = put v s := by
  cases v with
  | none => exact hnone.symm
  | some a => exact hset a rfl

end Segments

theorem ofNat_signExtend (n : UInt32) : UInt32.ofNat (signExtend n.toNat) = n := by
  apply UInt32.toNat_inj.mp
  rw [UInt32.toNat_ofNat', signExtend_mod n.toNat_lt]

theorem storeType_eq (t : PacketType) (p : Packet) (ht : t ∈ PacketType.named)
    (hp : p.type = .PACKAGETYPECOMPATIBLEPROTO2) :
    storeNumber (fun n p => { p with type := .ofNumber (n % 2 ^ 32) }) (signExtend t.number) p =
      { p with type := t } := by
  have hall : ∀ t ∈ PacketType.named, PacketType.ofNumber (signExtend t.number % 2 ^ 32) = t ∧
      (signExtend t.number = 0 → t = .PACKAGETYPECOMPATIBLEPROTO2) := by decide
  obtain ⟨hof, hzero⟩ := hall t ht
  unfold storeNumber
  split
  · simp only [hof]
  · rename_i hno
    rw [hzero (by omega), ← hp]

theorem Packet.parseFrom_toByteArray (p : Packet) (htype : p.type ∈ PacketType.named)
    (hcomp : ∀ c ∈ p.compression, c ∈ Compression.named) (hlen : p.body.length < 2 ^ 31) :
    Packet.parseFrom p.toByteArray = some p := by
  have hnum : p.type.number < 2 ^ 31 := by
    have hall : ∀ t ∈ PacketType.named, t.number < 2 ^ 31 := by decide
    exact hall _ htype
  have hcnum : ∀ c ∈ p.compression, c.number < 2 ^ 31 := by
    have hall : ∀ c ∈ Compression.named, c.number < 2 ^ 31 := by decide
    exact fun c hc => hall c (hcomp c hc)
  have hmagic : ∀ n ∈ p.magic_number.map fun n => signExtend n.toNat, n < 2 ^ 64 := by
    intro n hn
    obtain ⟨m, _, rfl⟩ := Option.map_eq_some_iff.mp hn
    exact signExtend_lt m.toNat_lt
  have hversion : ∀ n ∈ p.version.map fun n => signExtend n.toNat, n < 2 ^ 64 := by
    intro n hn
    obtain ⟨m, _, rfl⟩ := Option.map_eq_some_iff.mp hn
    exact signExtend_lt m.toNat_lt
  have hcompression : ∀ n ∈ p.compression.map fun c => signExtend c.number, n < 2 ^ 64 := by
    intro n hn
    obtain ⟨c, hc, rfl⟩ := Option.map_eq_some_iff.mp hn
    exact signExtend_lt ((hcnum c hc).trans (by decide))
  have hseg : Segment javaRuntime Packet.fields DEFAULT_RECURSION_LIMIT p.toByteArray _ :=
    (oneof_segment 1 _ rfl (by decide) (by decide) hmagic).append
      ((oneof_segment 2 _ rfl (by decide) (by decide) hversion).append
        ((number_segment 3 _ rfl (by decide) (by decide) (signExtend_lt (by omega))).append
          ((oneof_segment 4 _ rfl (by decide) (by decide) hcompression).append
            (bytes_segment 5 p.body rfl (by decide) (by decide) hlen))))
  have hcof : ∀ c ∈ p.compression, Compression.ofNumber (signExtend c.number % 2 ^ 32) = c := by
    intro c hc
    have hlt := hcnum c hc
    rw [signExtend_mod (by omega), Compression.ofNumber_number (hcomp c hc)]
  rw [Packet.parseFrom, hseg.merge]
  simp only [Function.comp_apply]
  rw [storeOneof_eq (fun v q => { q with magic_number := v }) p.magic_number _
      (fun n _ => by rw [ofNat_signExtend]) rfl,
    storeOneof_eq (fun v q => { q with version := v }) p.version _
      (fun n _ => by rw [ofNat_signExtend]) rfl,
    storeType_eq p.type _ htype rfl,
    storeOneof_eq (fun v q => { q with compression := v }) p.compression _
      (fun c hc => by rw [hcof c hc]) rfl,
    storeString_eq Packet.body p.body _ rfl rfl]

theorem Dump.parseFrom_toByteString (d : Dump) (hjournal : validUtf8 d.journal = true)
    (hgtid : validUtf8 d.gtid = true) (hjlen : d.journal.length < 2 ^ 31)
    (hglen : d.gtid.length < 2 ^ 31) : Dump.parseFrom d.toByteString = some d := by
  have htimestamp : ∀ n ∈ d.timestamp.map UInt64.toNat, n < 2 ^ 64 := by
    intro n hn
    obtain ⟨m, _, rfl⟩ := Option.map_eq_some_iff.mp hn
    exact m.toNat_lt
  have hseg : Segment javaRuntime Dump.fields DEFAULT_RECURSION_LIMIT d.toByteString _ :=
    (string_segment 1 d.journal rfl (by decide) (by decide) hjlen hjournal).append
      ((number_segment 2 _ rfl (by decide) (by decide) d.position.toNat_lt).append
        ((oneof_segment 3 _ rfl (by decide) (by decide) htimestamp).append
          (string_segment 4 d.gtid rfl (by decide) (by decide) hglen hgtid)))
  have hposition : ∀ q : Dump, q.position = 0 →
      storeNumber (fun n q => { q with position := UInt64.ofNat n }) d.position.toNat q =
        { q with position := d.position } := by
    intro q hq
    unfold storeNumber
    split
    · simp
    · rename_i hzero
      have hpos : d.position = 0 := UInt64.toNat_inj.mp (not_not.mp hzero)
      rw [hpos, ← hq]
  rw [Dump.parseFrom, hseg.merge]
  simp only [Function.comp_apply]
  rw [storeString_eq Dump.journal d.journal _ rfl rfl, hposition _ rfl,
    storeOneof_eq (fun v q => { q with timestamp := v }) d.timestamp _ (fun n _ => by simp) rfl,
    storeString_eq Dump.gtid d.gtid _ rfl rfl]

end O2k.BinlogPacket
