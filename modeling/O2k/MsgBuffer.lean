import O2k.SocketTransferSpecs

set_option autoImplicit false

/-!
# CMsgRW: the packet buffer of the admin connection

`ReadPacket` reads into `m_msgbuf`, which denotes the inline `m_buf` or a heap
block. Besides the new state every operation returns the memory events it
caused, in order: blocks obtained and released, and each index written through
`m_msgbuf` with the capacity of the buffer it denoted then.
-/
namespace O2k.MsgBuffer
open ByteOrder ChunkedSource SocketTransfer

def LEN_ERR_MSG : ℕ := 512
def LEN_ADM_PKG : ℕ := 1024
def MAX_ADM_PKG : ℕ := 2 ^ 20

def snprintf (size : ℕ) (text : Bytes) : Bytes := text.take (size - 1)

/-- Memory behind a pointer; `none` is a byte that has not been written. -/
abbrev Cells := ℕ → Option UInt8

def Cells.blank : Cells := fun _ => none

def Cells.store (c : Cells) (start : ℕ) (bs : Bytes) : Cells :=
  fun i => if start ≤ i ∧ i < start + bs.length then bs[i - start]? else c i

def Cells.read (c : Cells) (n : ℕ) : Option Bytes := (List.range n).mapM c

def Cells.cstring (c : Cells) : ℕ → ℕ → Option Bytes
  | 0, _ => none
  | fuel + 1, i =>
    match c i with
    | none => none
    | some b => if b = 0 then some [] else (cstring c fuel (i + 1)).map (b :: ·)

inductive MsgBuf where
  | m_buf
  | block (id : ℕ)
  deriving DecidableEq

inductive MemEvent where
  | new (id size : ℕ)
  | delete (id : ℕ)
  | store (p : MsgBuf) (capacity index : ℕ)
  deriving DecidableEq

structure CMsgRW where
  m_errbuf : Bytes
  m_buf : Cells
  /-- what is in the heap block that `m_msgbuf` denotes -/
  m_block : Cells
  m_msgbuf : MsgBuf
  m_lenbuf : ℕ
  m_lenmsg : ℕ
  /-- how many heap blocks this object has obtained; it names the next one -/
  blocks : ℕ

def CMsgRW.init : CMsgRW where
  m_errbuf := []
  m_buf := Cells.blank.store 0 [0]
  m_block := Cells.blank
  m_msgbuf := .m_buf
  m_lenbuf := 0
  m_lenmsg := 0
  blocks := 0

def CMsgRW.capacity (w : CMsgRW) : ℕ :=
  match w.m_msgbuf with
  | .m_buf => LEN_ADM_PKG + 2
  | .block _ => w.m_lenbuf

def CMsgRW.cells (w : CMsgRW) : Cells :=
  match w.m_msgbuf with
  | .m_buf => w.m_buf
  | .block _ => w.m_block

def CMsgRW.storeAt (w : CMsgRW) (start : ℕ) (bs : Bytes) : CMsgRW :=
  match w.m_msgbuf with
  | .m_buf => { w with m_buf := w.m_buf.store start bs }
  | .block _ => { w with m_block := w.m_block.store start bs }

def CMsgRW.stores (w : CMsgRW) (start n : ℕ) : List MemEvent :=
  (List.range' start n).map (.store w.m_msgbuf w.capacity)

def CMsgRW.setErr (w : CMsgRW) (text : Bytes) : CMsgRW := { w with m_errbuf := text }

def CMsgRW.ownsBlock (w : CMsgRW) : Option ℕ :=
  match w.m_msgbuf with
  | .m_buf => none
  | .block id => if w.m_lenbuf > 0 then some id else none

def CMsgRW.Clear (w : CMsgRW) (bFreeBuf : Bool) : CMsgRW × List MemEvent :=
  let w := { w with m_lenmsg := 0, m_errbuf := [] }
  if bFreeBuf then
    match w.ownsBlock with
    | none => (w, [])
    | some id => ({ w with m_msgbuf := .m_buf, m_lenbuf := 0 }, [.delete id])
  else (w, [])

/-- What the machine decides: the stale bytes of the local `header`, and whether `new` succeeds. -/
structure Ambient where
  header : UInt32
  newOk : Bool

inductive Outcome where
  | ret (n : ℤ)
  | bad_alloc
  deriving DecidableEq

structure PacketRead where
  outcome : Outcome
  rw : CMsgRW
  sock : Sock
  mem : List MemEvent

/-- The growth of the buffer before a payload of `len` bytes is read. The old
    block is released and `m_lenbuf` set before `new` is called. -/
def CMsgRW.grow (w : CMsgRW) (len : ℕ) (newOk : Bool) : Bool × CMsgRW × List MemEvent :=
  if len > LEN_ADM_PKG ∧ len > w.m_lenbuf then
    let freed := (w.ownsBlock.map MemEvent.delete).toList
    let w := { w with m_lenbuf := len + 2 }
    if newOk then
      (true, { w with m_msgbuf := .block w.blocks, m_block := Cells.blank, blocks := w.blocks + 1 },
        freed ++ [.new w.blocks (len + 2)])
    else (false, w, freed)
  else (true, w, [])

def headerWord (host : Endian) (stale : UInt32) (bs : Bytes) : UInt32 :=
  host.load (bs ++ (host.store stale).drop bs.length)

def frameLen (host : Endian) (stale : UInt32) (bs : Bytes) : ℤ :=
  signed (host.hostToNet (headerWord host stale bs))

def CMsgRW.fail (w : CMsgRW) (s : Sock) (text : Bytes) (mem : List MemEvent) : PacketRead :=
  ⟨.ret (-1), w.setErr (snprintf LEN_ERR_MSG text), s.record (.packetRead (-1)), mem⟩

def CMsgRW.readPayload (w : CMsgRW) (s : Sock) (len : ℕ) (mem : List MemEvent) : PacketRead :=
  let t := SocketRead s len w.m_errbuf
  let w := (((w.setErr t.szErrInfo).storeAt 0 t.p).storeAt len [0])
  let mem := mem ++ w.stores 0 t.p.length ++ w.stores len 1
  if t.ret ≠ len then w.fail t.sock (ascii "can not read enough data") mem
  else ⟨.ret t.ret, { w with m_lenmsg := len }, t.sock.record (.packetRead t.ret), mem⟩

def CMsgRW.ReadPacket (host : Endian) (amb : Ambient) (w : CMsgRW) (s : Sock) : PacketRead :=
  let w := (w.Clear false).1
  let t := SocketRead s 4 w.m_errbuf
  let w := w.setErr t.szErrInfo
  if t.ret < 0 then ⟨.ret t.ret, w, t.sock.record (.packetRead t.ret), []⟩
  else
    let len := frameLen host amb.header t.p
    if len < 0 then w.fail t.sock (ascii "Invalid packet data format!") []
    else if len > MAX_ADM_PKG then
      w.fail t.sock (ascii "message size is too long! " ++ decimal len.toNat) []
    else
      match w.grow len.toNat amb.newOk with
      | (false, w, mem) => ⟨.bad_alloc, w, t.sock, mem⟩
      | (true, w, mem) => w.readPayload t.sock len.toNat mem

def CMsgRW.SendPacket (host : Endian) (w : CMsgRW) (s : Sock) (pkg : Bytes) : ℤ × CMsgRW × Sock :=
  let t := SocketTransfer.SendPacket host s pkg w.m_errbuf
  (t.ret, w.setErr t.szErrInfo, t.sock.record (.packetSent t.ret))

def CMsgRW.GetPacket (w : CMsgRW) : Option (Cells × ℕ) :=
  if w.m_lenmsg ≤ 0 then none else some (w.cells, w.m_lenmsg)

end O2k.MsgBuffer
