import O2k.ByteOrder
import O2k.ChunkedSource

set_option autoImplicit false

/-!
# SimpleSocketFunc: SocketRead, SocketWrite and SendPacket

A connected socket is what its `recv` calls will meet, what its `send` calls
will meet, and a log of the calls made so far. The log is kept for the proofs;
no modelled function reads it.
-/
namespace O2k.SocketTransfer
open ByteOrder ChunkedSource

structure SysError where
  errno : ℕ
  text : Bytes
  deriving DecidableEq

def EINTR : ℕ := 4

def SYS_ERRMSG_MAX_SIZE : ℕ := 300

def ascii (s : String) : Bytes := s.toList.map (fun c => UInt8.ofNat c.toNat)

def decimal (n : ℕ) : Bytes := (Nat.toDigits 10 n).map (fun c => UInt8.ofNat c.toNat)

theorem toDigits_toNat {n : ℕ} {c : Char} (h : c ∈ Nat.toDigits 10 n) :
    48 ≤ c.toNat ∧ c.toNat ≤ 57 := by
  have hdigit := Nat.isDigit_of_mem_toDigits (by decide) (by decide) h
  simp only [Char.isDigit, Bool.and_eq_true, decide_eq_true_eq] at hdigit
  exact hdigit

theorem decimal_length_pos (n : ℕ) : 0 < (decimal n).length := by
  rw [decimal, List.length_map]
  exact Nat.length_toDigits_pos

theorem decimal_length_le {n k : ℕ} (hk : 0 < k) (h : n < 10 ^ k) : (decimal n).length ≤ k := by
  rw [decimal, List.length_map]
  exact (Nat.length_toDigits_le_iff (by decide) hk).mpr h

theorem zero_notMem_decimal (n : ℕ) : 0 ∉ decimal n := by
  intro hzero
  obtain ⟨c, hc, heq⟩ := List.mem_map.mp hzero
  have hrange := toDigits_toNat hc
  have hbyte := congrArg UInt8.toNat heq
  rw [UInt8.toNat_ofNat'] at hbyte
  change c.toNat % 256 = 0 at hbyte
  omega

/-- The text left in `szErrInfo`: the errno, then what `strncpy` takes of the message. -/
def GetSysErrorInfo (e : SysError) : Bytes :=
  ascii "errno=" ++ decimal e.errno ++ ascii ", " ++ e.text.take (SYS_ERRMSG_MAX_SIZE - 1)

inductive SendSlot where
  | room (more : ℕ)
  | fault (e : SysError)
  deriving DecidableEq

inductive IoEvent where
  | received (bs : Bytes)
  | ended
  | recvError (errno : ℕ)
  | sent (bs : Bytes)
  | sendError (errno : ℕ)
  | packetRead (ret : ℤ)
  | packetSent (ret : ℤ)
  deriving DecidableEq

structure Sock where
  incoming : Source SysError UInt8
  outgoing : List SendSlot
  log : List IoEvent

def Sock.record (s : Sock) (ev : IoEvent) : Sock := { s with log := s.log ++ [ev] }

@[simp] theorem Sock.record_incoming (s : Sock) (ev : IoEvent) :
    (s.record ev).incoming = s.incoming := rfl

@[simp] theorem Sock.record_outgoing (s : Sock) (ev : IoEvent) :
    (s.record ev).outgoing = s.outgoing := rfl

@[simp] theorem Sock.record_log (s : Sock) (ev : IoEvent) :
    (s.record ev).log = s.log ++ [ev] := rfl

def recv (s : Sock) (room : ℕ) : Pulled SysError UInt8 × Sock :=
  let r := pull room s.incoming
  let s' := { s with incoming := r.2 }
  (r.1, match r.1 with
    | .data a as => s'.record (.received (a :: as))
    | .ended => s'.record .ended
    | .fault e => s'.record (.recvError e.errno))

inductive SendResult where
  | sent (k : ℕ)
  | fault (e : SysError)

/-- One `send` call. Once the slots are used up the kernel takes all it is offered. -/
def send (s : Sock) (buf : Bytes) : SendResult × Sock :=
  match s.outgoing with
  | [] => (.sent buf.length, s.record (.sent buf))
  | .room more :: slots =>
    let k := min (more + 1) buf.length
    (.sent k, { s with outgoing := slots }.record (.sent (buf.take k)))
  | .fault e :: slots => (.fault e, { s with outgoing := slots }.record (.sendError e.errno))

structure Transfer where
  ret : ℤ
  p : Bytes
  szErrInfo : Bytes
  sock : Sock

def SocketRead.loop (len : ℕ) : ℕ → Bytes → Bytes → Sock → Transfer
  | 0, p, err, s => ⟨p.length, p, err, s⟩
  | fuel + 1, p, err, s =>
    if p.length < len then
      match recv s (len - p.length) with
      | (.fault e, s') =>
        if e.errno = EINTR then SocketRead.loop len fuel p err s'
        else ⟨-1, p, GetSysErrorInfo e, s'⟩
      | (.ended, s') => ⟨0, p, err, s'⟩
      | (.data a as, s') => SocketRead.loop len fuel (p ++ a :: as) err s'
    else ⟨p.length, p, err, s⟩

/-- Each round of the loop uses up an arrival or is the last, so the fuel suffices. -/
def SocketRead (s : Sock) (len : ℕ) (szErrInfo : Bytes) : Transfer :=
  SocketRead.loop len (s.incoming.length + 1) [] szErrInfo s

def SocketWrite.loop (p : Bytes) : ℕ → ℕ → Bytes → Sock → Transfer
  | 0, n, err, s => ⟨n, p, err, s⟩
  | fuel + 1, n, err, s =>
    if n < p.length then
      match send s (p.drop n) with
      | (.fault e, s') =>
        if e.errno = EINTR then SocketWrite.loop p fuel n err s'
        else ⟨-1, p, GetSysErrorInfo e, s'⟩
      | (.sent k, s') => SocketWrite.loop p fuel (n + k) err s'
    else ⟨n, p, err, s⟩

def SocketWrite (s : Sock) (p : Bytes) (szErrInfo : Bytes) : Transfer :=
  SocketWrite.loop p (s.outgoing.length + 2) 0 szErrInfo s

/-- `p` is passed with its own length, which every caller keeps below `2 ^ 31`. -/
def SendPacket (host : Endian) (s : Sock) (p : Bytes) (szErrInfo : Bytes) : Transfer :=
  let header := host.hostToNet (UInt32.ofNat p.length)
  let t := SocketWrite s (host.store header) szErrInfo
  if t.ret < 0 then t else SocketWrite t.sock p t.szErrInfo

def interrupts (e : SysError) : Bool := e.errno = EINTR

def IoEvent.bytesIn : IoEvent → Bytes
  | .received bs => bs
  | _ => []

def IoEvent.bytesOut : IoEvent → Bytes
  | .sent bs => bs
  | _ => []

def IoEvent.failed : IoEvent → Bool
  | .received _ => false
  | .sent _ => false
  | .ended => true
  | .recvError errno => errno ≠ EINTR
  | .sendError errno => errno ≠ EINTR
  | .packetRead ret => ret ≤ 0
  | .packetSent ret => ret ≤ 0

def bytesIn (evs : List IoEvent) : Bytes := evs.flatMap IoEvent.bytesIn

def bytesOut (evs : List IoEvent) : Bytes := evs.flatMap IoEvent.bytesOut

@[simp] theorem bytesIn_append (xs ys : List IoEvent) :
    bytesIn (xs ++ ys) = bytesIn xs ++ bytesIn ys := by simp [bytesIn]

@[simp] theorem bytesOut_append (xs ys : List IoEvent) :
    bytesOut (xs ++ ys) = bytesOut xs ++ bytesOut ys := by simp [bytesOut]

@[simp] theorem bytesIn_nil : bytesIn [] = [] := rfl

@[simp] theorem bytesOut_nil : bytesOut [] = [] := rfl

@[simp] theorem bytesIn_cons (ev : IoEvent) (evs : List IoEvent) :
    bytesIn (ev :: evs) = ev.bytesIn ++ bytesIn evs := rfl

@[simp] theorem bytesOut_cons (ev : IoEvent) (evs : List IoEvent) :
    bytesOut (ev :: evs) = ev.bytesOut ++ bytesOut evs := rfl

def Clean (evs : List IoEvent) : Prop := ∀ ev ∈ evs, ev.failed = false

theorem Clean.nil : Clean [] := by simp [Clean]

theorem Clean.not_failed {evs : List IoEvent} (h : Clean evs) :
    ∀ ev ∈ evs, ¬ ev.failed = true := by
  intro ev hev
  simp [h ev hev]

theorem Clean.append {xs ys : List IoEvent} (hx : Clean xs) (hy : Clean ys) : Clean (xs ++ ys) := by
  intro ev h
  rcases List.mem_append.mp h with h | h
  · exact hx ev h
  · exact hy ev h

theorem Clean.cons {ev : IoEvent} {evs : List IoEvent} (h : ev.failed = false) (hs : Clean evs) :
    Clean (ev :: evs) := by
  intro x hx
  rcases List.mem_cons.mp hx with rfl | hx
  · exact h
  · exact hs x hx

end O2k.SocketTransfer
