import O2k.SocketTransfer
import Mathlib.Tactic.Common

set_option autoImplicit false

namespace O2k.SocketTransfer
open ByteOrder ChunkedSource

def readReturn (len : ℕ) : Stop SysError → ℤ
  | .full => len
  | .ended => 0
  | .fault _ => -1

def readText (err : Bytes) : Stop SysError → Bytes
  | .fault e => GetSysErrorInfo e
  | _ => err

structure ReadsLike (len : ℕ) (before err : Bytes) (s : Sock) (f : Filled SysError UInt8)
    (t : Transfer) : Prop where
  ret : t.ret = readReturn len f.stop
  p : t.p = before ++ f.got
  text : t.szErrInfo = readText err f.stop
  incoming : t.sock.incoming = f.rest
  outgoing : t.sock.outgoing = s.outgoing
  log : ∃ evs, t.sock.log = s.log ++ evs ∧ bytesIn evs = f.got ∧ bytesOut evs = [] ∧
    (f.stop = .full → Clean evs)

theorem SocketRead.loop_full (len fuel : ℕ) (p err : Bytes) (s : Sock) (hp : p.length = len) :
    SocketRead.loop len fuel p err s = ⟨len, p, err, s⟩ := by
  cases fuel <;> simp [SocketRead.loop, hp]

theorem ReadsLike.after {len : ℕ} {before before' bs err : Bytes} {s s' : Sock}
    {f f' : Filled SysError UInt8} {t : Transfer} {ev : IoEvent}
    (h : ReadsLike len before' err s' f' t) (hp : before' = before ++ bs)
    (hlog : s'.log = s.log ++ [ev])
    (hs : s'.outgoing = s.outgoing) (hgot : f.got = bs ++ f'.got) (hstop : f.stop = f'.stop)
    (hrest : f.rest = f'.rest) (hin : ev.bytesIn = bs) (hout : ev.bytesOut = [])
    (hev : ev.failed = false) : ReadsLike len before err s f t := by
  obtain ⟨hret, hread, htext, hincoming, houtgoing, evs, hlog', hbin, hbout, hclean⟩ := h
  refine ⟨by rw [hret, hstop], by rw [hread, hp, hgot, List.append_assoc], by rw [htext, hstop],
    by rw [hincoming, hrest], houtgoing.trans hs, ev :: evs, ?_, ?_, ?_, ?_⟩
  · rw [hlog', hlog, List.append_assoc]
    rfl
  · rw [bytesIn_cons, hin, hbin, hgot]
  · rw [bytesOut_cons, hout, hbout]
    rfl
  · intro hf
    exact .cons hev (hclean (hstop ▸ hf))

theorem SocketRead.loop_reads (len fuel : ℕ) (p err : Bytes) (s : Sock)
    (hfuel : s.incoming.length < fuel) (hp : p.length ≤ len) :
    ReadsLike len p err s (fill interrupts (len - p.length) s.incoming)
      (SocketRead.loop len fuel p err s) := by
  induction fuel generalizing p s with
  | zero => omega
  | succ fuel ih =>
    obtain ⟨src, slots, log⟩ := s
    rcases hn : len - p.length with _ | n
    · have hlen : p.length = len := by omega
      rw [SocketRead.loop_full _ _ _ _ _ hlen]
      exact ⟨by simp [readReturn], by simp, by simp [readText], by simp, rfl,
        [], by simp [Clean.nil]⟩
    · have hlt : p.length < len := by omega
      cases src with
      | nil =>
        simp only [SocketRead.loop, hlt, ↓reduceIte, recv, pull, fill]
        exact ⟨rfl, by simp, rfl, rfl, rfl, [.ended], rfl, rfl, rfl, by simp⟩
      | cons x src =>
        simp only [List.length_cons] at hfuel
        cases x with
        | fault e =>
          by_cases he : e.errno = EINTR
          · have h := ih p ⟨src, slots, log ++ [.recvError e.errno]⟩ (by simpa using hfuel) hp
            have hr : interrupts e = true := by simp [interrupts, he]
            simp only [SocketRead.loop, hlt, ↓reduceIte, recv, pull, he, fill, hr, Sock.record]
            rw [hn, he] at h
            exact h.after (List.append_nil p).symm rfl rfl rfl rfl rfl rfl rfl rfl
          · have hr : interrupts e = false := by simp [interrupts, he]
            simp only [SocketRead.loop, hlt, ↓reduceIte, recv, pull, he, fill, hr,
              Bool.false_eq_true, Sock.record]
            exact ⟨rfl, by simp, rfl, rfl, rfl, [.recvError e.errno], rfl, rfl, rfl, by simp⟩
        | chunk a as =>
          simp only [SocketRead.loop, hlt, ↓reduceIte, recv, pull, hn, Nat.add_sub_cancel, fill]
          by_cases hle : n ≤ as.length
          · have hfull : (p ++ a :: as.take n).length = len := by
              simp only [List.length_append, List.length_cons, List.length_take]
              omega
            rw [SocketRead.loop_full _ _ _ _ _ hfull]
            simp only [hle, ↓reduceIte]
            exact ⟨rfl, rfl, rfl, rfl, rfl, [.received (a :: as.take n)], rfl,
              by simp [IoEvent.bytesIn], rfl, fun _ => .cons rfl .nil⟩
          · have hlt' : as.length < n := by omega
            have htake : as.take n = as := List.take_of_length_le hlt'.le
            have hdrop : as.drop n = [] := List.drop_eq_nil_of_le hlt'.le
            have hlen : (p ++ a :: as).length ≤ len := by
              simp only [List.length_append, List.length_cons]
              omega
            have hneed : len - (p ++ a :: as).length = n - as.length := by
              simp only [List.length_append, List.length_cons]
              omega
            have h := ih (p ++ a :: as) ⟨src, slots, log ++ [.received (a :: as)]⟩
              (by simpa using hfuel) hlen
            rw [hneed] at h
            simp only [hle, ↓reduceIte, htake, hdrop, unread, Sock.record]
            exact h.after rfl rfl rfl rfl rfl rfl rfl rfl rfl

theorem SocketRead_reads (s : Sock) (len : ℕ) (err : Bytes) :
    ReadsLike len [] err s (fill interrupts len s.incoming) (SocketRead s len err) :=
  SocketRead.loop_reads len _ [] err s (Nat.lt_succ_self _) (Nat.zero_le _)

structure Writes (p : Bytes) (n : ℕ) (err : Bytes) (s : Sock) (t : Transfer) : Prop where
  incoming : t.sock.incoming = s.incoming
  log : ∃ k evs, t.sock.log = s.log ++ evs ∧ bytesOut evs = (p.drop n).take k ∧ bytesIn evs = [] ∧
    ((t.ret = p.length ∧ n + k = p.length ∧ Clean evs ∧ t.szErrInfo = err) ∨
      (t.ret = -1 ∧ ∃ e evs', evs = evs' ++ [.sendError e] ∧ e ≠ EINTR ∧ Clean evs'))

theorem SocketWrite.loop_full (p : Bytes) (fuel n : ℕ) (err : Bytes) (s : Sock)
    (hn : n = p.length) : SocketWrite.loop p fuel n err s = ⟨n, p, err, s⟩ := by
  cases fuel <;> simp [SocketWrite.loop, hn]

theorem Writes.done (p : Bytes) (n : ℕ) (err : Bytes) (s : Sock) (hn : n = p.length) :
    Writes p n err s ⟨n, p, err, s⟩ :=
  ⟨rfl, 0, [], by simp, by simp, rfl, .inl ⟨by simp [hn], by simp [hn], .nil, rfl⟩⟩

theorem Writes.after_sent {p : Bytes} {n k : ℕ} {err : Bytes} {s s' : Sock} {t : Transfer}
    (hin : s'.incoming = s.incoming) (hlog : s'.log = s.log ++ [.sent ((p.drop n).take k)])
    (h : Writes p (n + k) err s' t) : Writes p n err s t := by
  obtain ⟨hin', j, evs, hlog', hout, hbin, hres⟩ := h
  refine ⟨hin'.trans hin, k + j, .sent ((p.drop n).take k) :: evs, ?_, ?_, ?_, ?_⟩
  · rw [hlog', hlog]
    simp
  · rw [bytesOut_cons, hout, IoEvent.bytesOut, List.take_add, List.drop_drop]
  · simpa [IoEvent.bytesIn] using hbin
  · rcases hres with ⟨hret, hk, hclean, herr⟩ | ⟨hret, e, evs', rfl, he, hclean⟩
    · exact .inl ⟨hret, by omega, .cons rfl hclean, herr⟩
    · exact .inr ⟨hret, e, _ :: evs', rfl, he, .cons rfl hclean⟩

theorem SocketWrite.loop_writes (p : Bytes) (fuel n : ℕ) (err : Bytes) (s : Sock)
    (hfuel : s.outgoing.length + 1 < fuel) (hn : n ≤ p.length) :
    Writes p n err s (SocketWrite.loop p fuel n err s) := by
  induction fuel generalizing n s with
  | zero => omega
  | succ fuel ih =>
    obtain ⟨src, slots, log⟩ := s
    by_cases hlt : n < p.length
    · have hlen : (p.drop n).length = p.length - n := List.length_drop
      cases slots with
      | nil =>
        have htake : (p.drop n).take (p.length - n) = p.drop n :=
          List.take_of_length_le (by omega)
        have hfull : n + (p.length - n) = p.length := by omega
        simp only [SocketWrite.loop, hlt, ↓reduceIte, send, Sock.record, hlen]
        rw [SocketWrite.loop_full _ _ _ _ _ hfull]
        refine Writes.after_sent (k := p.length - n) ?_ ?_ (Writes.done p _ err _ hfull)
        · rfl
        · simp [htake]
      | cons x slots =>
        simp only [List.length_cons] at hfuel
        cases x with
        | room more =>
          simp only [SocketWrite.loop, hlt, ↓reduceIte, send, Sock.record]
          have h := ih (n + min (more + 1) (p.drop n).length)
            ⟨src, slots, log ++ [.sent ((p.drop n).take (min (more + 1) (p.drop n).length))]⟩
            (by simpa using hfuel) (by omega)
          refine h.after_sent ?_ ?_
          · rfl
          · rfl
        | fault e =>
          by_cases he : e.errno = EINTR
          · obtain ⟨hin, k, evs, hlog, hout, hbin, hres⟩ :=
              ih n ⟨src, slots, log ++ [.sendError e.errno]⟩ (by simpa using hfuel) hn
            have hc : (IoEvent.sendError e.errno).failed = false := by simp [IoEvent.failed, he]
            simp only [SocketWrite.loop, hlt, ↓reduceIte, send, Sock.record, he] at hlog hin hres ⊢
            refine ⟨hin, k, .sendError e.errno :: evs, ?_, ?_, ?_, ?_⟩
            · simpa [he] using hlog
            · simpa [IoEvent.bytesOut] using hout
            · simpa [IoEvent.bytesIn] using hbin
            · rcases hres with ⟨hret, hk, hclean, herr⟩ | ⟨hret, e', evs', rfl, he', hclean⟩
              · exact .inl ⟨hret, hk, .cons hc hclean, herr⟩
              · exact .inr ⟨hret, e', _ :: evs', rfl, he', .cons hc hclean⟩
          · simp only [SocketWrite.loop, hlt, ↓reduceIte, send, Sock.record, he]
            exact ⟨rfl, 0, [.sendError e.errno], rfl, by simp [IoEvent.bytesOut], rfl,
              .inr ⟨rfl, e.errno, [], rfl, he, .nil⟩⟩
    · have heq : n = p.length := by omega
      rw [SocketWrite.loop_full _ _ _ _ _ heq]
      exact Writes.done p n err _ heq

theorem SocketWrite_writes (s : Sock) (p err : Bytes) : Writes p 0 err s (SocketWrite s p err) :=
  SocketWrite.loop_writes p _ 0 err s (by omega) (Nat.zero_le _)

def SteadySlots (slots : List SendSlot) : Prop := ∀ e, .fault e ∈ slots → e.errno = EINTR

theorem SteadySlots.tail {x : SendSlot} {slots : List SendSlot} (h : SteadySlots (x :: slots)) :
    SteadySlots slots := fun e he => h e (List.mem_cons_of_mem _ he)

theorem SocketWrite.loop_steady (p : Bytes) (fuel n : ℕ) (err : Bytes) (s : Sock)
    (hfuel : s.outgoing.length + 1 < fuel) (hn : n ≤ p.length) (hs : SteadySlots s.outgoing) :
    (SocketWrite.loop p fuel n err s).ret = p.length ∧
      SteadySlots (SocketWrite.loop p fuel n err s).sock.outgoing := by
  induction fuel generalizing n s with
  | zero => omega
  | succ fuel ih =>
    obtain ⟨src, slots, log⟩ := s
    by_cases hlt : n < p.length
    · cases slots with
      | nil =>
        have hfull : n + (p.drop n).length = p.length := by
          rw [List.length_drop]
          omega
        simp only [SocketWrite.loop, hlt, ↓reduceIte, send]
        rw [SocketWrite.loop_full _ _ _ _ _ hfull]
        exact ⟨congrArg Nat.cast hfull, hs⟩
      | cons x slots =>
        simp only [List.length_cons] at hfuel
        cases x with
        | room more =>
          have hk : n + min (more + 1) (p.drop n).length ≤ p.length := by
            rw [List.length_drop]
            omega
          simp only [SocketWrite.loop, hlt, ↓reduceIte, send]
          exact ih _ _ (by simpa using hfuel) hk hs.tail
        | fault e =>
          have he : e.errno = EINTR := hs e (by simp)
          simp only [SocketWrite.loop, hlt, ↓reduceIte, send, he]
          exact ih n _ (by simpa using hfuel) hn hs.tail
    · have heq : n = p.length := by omega
      rw [SocketWrite.loop_full _ _ _ _ _ heq]
      exact ⟨by simp [heq], hs⟩

theorem SocketWrite_steady (s : Sock) (p err : Bytes) (hs : SteadySlots s.outgoing) :
    (SocketWrite s p err).ret = p.length ∧ SteadySlots (SocketWrite s p err).sock.outgoing :=
  SocketWrite.loop_steady p _ 0 err s (by omega) (Nat.zero_le _) hs

theorem SendPacket_writes (host : Endian) (s : Sock) (p err : Bytes) :
    (SendPacket host s p err).sock.incoming = s.incoming ∧
    ∃ evs, (SendPacket host s p err).sock.log = s.log ++ evs ∧ bytesIn evs = [] ∧
      (((SendPacket host s p err).ret = p.length ∧ bytesOut evs = frame p ∧ Clean evs) ∨
        ((SendPacket host s p err).ret = -1 ∧ bytesOut evs <+: frame p ∧
          ∃ e evs', evs = evs' ++ [.sendError e] ∧ e ≠ EINTR ∧ Clean evs')) := by
  have hhead : host.store (host.hostToNet (UInt32.ofNat p.length)) = be32 (UInt32.ofNat p.length) :=
    host.store_hostToNet _
  simp only [SendPacket, hhead]
  obtain ⟨hin, k, evs, hlog, hout, hbin, hres⟩ := SocketWrite_writes s (be32 (UInt32.ofNat p.length)) err
  rw [List.drop_zero] at hout
  rcases hres with ⟨hret, hk, hclean, _⟩ | ⟨hret, e, evs', hevs, he, hclean⟩
  · have hneg : ¬ (SocketWrite s (be32 (UInt32.ofNat p.length)) err).ret < 0 := by
      rw [hret]
      omega
    have hall : bytesOut evs = be32 (UInt32.ofNat p.length) := by
      rw [hout, List.take_of_length_le (by omega)]
    simp only [hneg, ↓reduceIte]
    obtain ⟨hin', k', evs2, hlog', hout', hbin', hres'⟩ := SocketWrite_writes
      (SocketWrite s (be32 (UInt32.ofNat p.length)) err).sock p
      (SocketWrite s (be32 (UInt32.ofNat p.length)) err).szErrInfo
    rw [List.drop_zero] at hout'
    refine ⟨hin'.trans hin, evs ++ evs2, ?_, by simp [hbin, hbin'], ?_⟩
    · rw [hlog', hlog, List.append_assoc]
    · rcases hres' with ⟨hret', hk', hclean', _⟩ | ⟨hret', e, evs', rfl, he, hclean'⟩
      · refine .inl ⟨hret', ?_, hclean.append hclean'⟩
        rw [bytesOut_append, hall, hout', List.take_of_length_le (by omega), frame]
      · refine .inr ⟨hret', ?_, e, evs ++ evs', by simp, he, hclean.append hclean'⟩
        rw [bytesOut_append, hall, hout', frame]
        exact (List.prefix_append_right_inj _).mpr (List.take_prefix _ _)
  · have hneg : (SocketWrite s (be32 (UInt32.ofNat p.length)) err).ret < 0 := by
      rw [hret]
      decide
    simp only [hneg, ↓reduceIte]
    refine ⟨hin, evs, hlog, hbin, .inr ⟨hret, ?_, e, evs', hevs, he, hclean⟩⟩
    rw [hout, frame]
    exact (List.take_prefix _ _).trans (List.prefix_append _ _)

theorem SendPacket_steady (host : Endian) (s : Sock) (p err : Bytes)
    (hs : SteadySlots s.outgoing) :
    (SendPacket host s p err).ret = p.length ∧
      SteadySlots (SendPacket host s p err).sock.outgoing := by
  obtain ⟨hret, hsteady⟩ := SocketWrite_steady s
    (host.store (host.hostToNet (UInt32.ofNat p.length))) err hs
  have hneg : ¬ (SocketWrite s (host.store (host.hostToNet (UInt32.ofNat p.length))) err).ret < 0 := by
    rw [hret]
    omega
  simp only [SendPacket, hneg, ↓reduceIte]
  exact SocketWrite_steady _ p _ hsteady

/-- The slots that are left once `need` bytes are taken; none if an error other than an interruption
    comes before. -/
def slotsAfter : ℕ → List SendSlot → Option (List SendSlot)
  | 0, slots => some slots
  | _ + 1, [] => some []
  | n + 1, .room more :: slots => slotsAfter (n - more) slots
  | n + 1, .fault e :: slots => if interrupts e then slotsAfter (n + 1) slots else none

@[simp] theorem slotsAfter_zero (slots : List SendSlot) : slotsAfter 0 slots = some slots := by
  cases slots <;> rfl

def frameSlotsAfter (len : ℕ) (slots : List SendSlot) : Option (List SendSlot) :=
  (slotsAfter 4 slots).bind (slotsAfter len)

def EndsLike (len : ℕ) (err : Bytes) (t : Transfer) : Option (List SendSlot) → Prop
  | none => t.ret = -1 ∧ ∃ e, t.szErrInfo = GetSysErrorInfo e
  | some slots => t.ret = len ∧ t.szErrInfo = err ∧ t.sock.outgoing = slots

theorem SocketWrite.loop_ends (p : Bytes) (fuel n : ℕ) (err : Bytes) (s : Sock)
    (hfuel : s.outgoing.length + 1 < fuel) (hn : n ≤ p.length) :
    EndsLike p.length err (SocketWrite.loop p fuel n err s)
      (slotsAfter (p.length - n) s.outgoing) := by
  induction fuel generalizing n s with
  | zero => omega
  | succ fuel ih =>
    obtain ⟨src, slots, log⟩ := s
    rcases hrest : p.length - n with _ | rest
    · have heq : n = p.length := by omega
      rw [SocketWrite.loop_full _ _ _ _ _ heq, slotsAfter_zero]
      exact ⟨congrArg Nat.cast heq, rfl, rfl⟩
    · have hlt : n < p.length := by omega
      have hlen : (p.drop n).length = rest + 1 := by
        rw [List.length_drop]
        omega
      cases slots with
      | nil =>
        have hfull : n + (p.drop n).length = p.length := by omega
        simp only [SocketWrite.loop, hlt, ↓reduceIte, send]
        rw [SocketWrite.loop_full _ _ _ _ _ hfull]
        exact ⟨congrArg Nat.cast hfull, rfl, rfl⟩
      | cons x slots =>
        simp only [List.length_cons] at hfuel
        cases x with
        | room more =>
          have h := ih (n + min (more + 1) (p.drop n).length)
            ⟨src, slots, log ++ [.sent ((p.drop n).take (min (more + 1) (p.drop n).length))]⟩
            (by simpa using hfuel) (by omega)
          have hmore : p.length - (n + min (more + 1) (p.drop n).length) = rest - more := by omega
          rw [hmore] at h
          simp only [SocketWrite.loop, hlt, ↓reduceIte, send, Sock.record, slotsAfter]
          exact h
        | fault e =>
          by_cases he : e.errno = EINTR
          · have h := ih n ⟨src, slots, log ++ [.sendError e.errno]⟩ (by simpa using hfuel) hn
            have hr : interrupts e = true := by simp [interrupts, he]
            rw [hrest] at h
            simp only [SocketWrite.loop, hlt, ↓reduceIte, send, Sock.record, he, slotsAfter, hr]
            rw [← he]
            exact h
          · have hr : interrupts e = false := by simp [interrupts, he]
            simp only [SocketWrite.loop, hlt, ↓reduceIte, send, he, slotsAfter, hr,
              Bool.false_eq_true]
            exact ⟨rfl, e, rfl⟩

theorem SocketWrite_ends (s : Sock) (p err : Bytes) :
    EndsLike p.length err (SocketWrite s p err) (slotsAfter p.length s.outgoing) :=
  SocketWrite.loop_ends p _ 0 err s (by omega) (Nat.zero_le _)

theorem SendPacket_ends (host : Endian) (s : Sock) (p err : Bytes) :
    EndsLike p.length err (SendPacket host s p err) (frameSlotsAfter p.length s.outgoing) := by
  have hhead := SocketWrite_ends s (host.store (host.hostToNet (UInt32.ofNat p.length))) err
  rw [Endian.store_length] at hhead
  simp only [SendPacket, frameSlotsAfter]
  cases hslots : slotsAfter 4 s.outgoing with
  | none =>
    rw [hslots] at hhead
    obtain ⟨hret, htext⟩ := hhead
    have hneg : (-1 : ℤ) < 0 := by decide
    simp only [hret, hneg, ↓reduceIte]
    exact ⟨hret, htext⟩
  | some slots =>
    rw [hslots] at hhead
    obtain ⟨hret, htext, hout⟩ := hhead
    have hpos : ¬ ((4 : ℕ) : ℤ) < 0 := by decide
    simp only [hret, hpos, ↓reduceIte, htext, Option.bind_some]
    rw [← hout]
    exact SocketWrite_ends _ p err

end O2k.SocketTransfer
