import O2k.PacketDelivery

set_option autoImplicit false

namespace O2k.SocketTransfer
open ByteOrder ChunkedSource MsgBuffer

/-- What has been stored at `p` when the function returns, however much of it the caller owns. The
    text of a failed header is written twice, the same both times. -/
def ReadPacket (host : Endian) (stale : UInt32) (s : Sock) (szErrInfo : Bytes) : Transfer :=
  let t := SocketRead s 4 szErrInfo
  if t.ret < 0 then ⟨t.ret, [], t.szErrInfo, t.sock⟩
  else
    let len := frameLen host stale t.p
    if len < 0 then ⟨-1, [], ascii "Invalid packet data format!", t.sock⟩
    else SocketRead t.sock len.toNat t.szErrInfo

structure Refused (s : Sock) (t : Transfer) : Prop where
  ret : t.ret = -1
  p : t.p = []
  incoming : t.sock.incoming = (fill interrupts 4 s.incoming).rest

structure WentOn (s : Sock) (len : ℕ) (t : Transfer) : Prop where
  ret : t.ret = readReturn len (fill interrupts len (fill interrupts 4 s.incoming).rest).stop
  p : t.p = (fill interrupts len (fill interrupts 4 s.incoming).rest).got
  incoming : t.sock.incoming = (fill interrupts len (fill interrupts 4 s.incoming).rest).rest

theorem ReadPacket_cases (host : Endian) (stale : UInt32) (s : Sock) (err : Bytes) :
    (arrivingLen host stale s.incoming = none ∧ Refused s (ReadPacket host stale s err)) ∨
      ∃ len, arrivingLen host stale s.incoming = some len ∧
        (len < 0 ∧ Refused s (ReadPacket host stale s err) ∨
          0 ≤ len ∧ WentOn s len.toNat (ReadPacket host stale s err)) := by
  obtain ⟨hret, hp, _, hin, _⟩ := SocketRead_reads s 4 err
  rw [List.nil_append] at hp
  unfold ReadPacket
  simp only [hret, hp, arrivingLen]
  cases hstop : (fill interrupts 4 s.incoming).stop with
  | fault e => exact .inl ⟨rfl, rfl, rfl, hin⟩
  | full | ended =>
    refine .inr ⟨_, rfl, ?_⟩
    generalize frameLen host stale (fill interrupts 4 s.incoming).got = len
    have hpos : ¬ readReturn 4 .full < 0 ∧ ¬ readReturn 4 .ended < 0 := by decide
    simp only [hpos, ↓reduceIte]
    by_cases hneg : len < 0
    · rw [if_pos hneg]
      exact .inl ⟨hneg, rfl, rfl, hin⟩
    · rw [if_neg hneg]
      obtain ⟨hret', hp', _, hin', _⟩ := SocketRead_reads (SocketRead s 4 err).sock len.toNat
        (SocketRead s 4 err).szErrInfo
      rw [hin] at hret' hp' hin'
      exact .inr ⟨by omega, hret', hp', hin'⟩

def HasRoom (amb : Ambient) (w : CMsgRW) (n : ℕ) : Prop :=
  n ≤ LEN_ADM_PKG ∨ ((∃ id, w.m_msgbuf = .block id) ∧ n ≤ w.capacity) ∨ amb.newOk = true

def Arrives (s : Sock) (n : ℕ) : Prop :=
  (fill interrupts n (fill interrupts 4 s.incoming).rest).stop = .full

example : (ReadPacket .little 0 ⟨[.chunk 0 [0, 0, 5, 7]], [], []⟩ []).ret = 0 := by decide

end O2k.SocketTransfer
