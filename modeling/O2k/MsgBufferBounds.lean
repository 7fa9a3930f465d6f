import O2k.MealyRun
import O2k.MsgBuffer

set_option autoImplicit false

namespace O2k.MsgBuffer
open ByteOrder ChunkedSource SocketTransfer

def MemEvent.InBounds : MemEvent → Prop
  | .store _ capacity index => index < capacity
  | _ => True

instance (ev : MemEvent) : Decidable ev.InBounds := by
  cases ev <;> unfold MemEvent.InBounds <;> infer_instance

@[simp] theorem MemEvent.inBounds_store (p : MsgBuf) (capacity index : ℕ) :
    (MemEvent.store p capacity index).InBounds ↔ index < capacity := Iff.rfl

@[simp] theorem MemEvent.inBounds_new (id size : ℕ) : (MemEvent.new id size).InBounds := trivial

@[simp] theorem MemEvent.inBounds_delete (id : ℕ) : (MemEvent.delete id).InBounds := trivial

/-- `m_msgbuf` denotes `m_buf` while `m_lenbuf` is 0, and otherwise a block larger than `m_buf`. -/
def CMsgRW.Sized (w : CMsgRW) : Prop :=
  match w.m_msgbuf with
  | .m_buf => w.m_lenbuf = 0
  | .block _ => LEN_ADM_PKG + 2 < w.m_lenbuf

theorem CMsgRW.init_sized : CMsgRW.init.Sized := rfl

theorem CMsgRW.Sized.congr {w v : CMsgRW} (h : w.Sized) (hbuf : v.m_msgbuf = w.m_msgbuf)
    (hlen : v.m_lenbuf = w.m_lenbuf) : v.Sized := by
  unfold Sized at h ⊢
  rw [hbuf, hlen]
  exact h

@[simp] theorem CMsgRW.setErr_m_msgbuf (w : CMsgRW) (text : Bytes) :
    (w.setErr text).m_msgbuf = w.m_msgbuf := rfl

@[simp] theorem CMsgRW.setErr_m_lenbuf (w : CMsgRW) (text : Bytes) :
    (w.setErr text).m_lenbuf = w.m_lenbuf := rfl

@[simp] theorem CMsgRW.storeAt_m_msgbuf (w : CMsgRW) (start : ℕ) (bs : Bytes) :
    (w.storeAt start bs).m_msgbuf = w.m_msgbuf := by
  unfold storeAt
  cases w.m_msgbuf <;> rfl

@[simp] theorem CMsgRW.storeAt_m_lenbuf (w : CMsgRW) (start : ℕ) (bs : Bytes) :
    (w.storeAt start bs).m_lenbuf = w.m_lenbuf := by
  unfold storeAt
  cases w.m_msgbuf <;> rfl

@[simp] theorem CMsgRW.storeAt_m_errbuf (w : CMsgRW) (start : ℕ) (bs : Bytes) :
    (w.storeAt start bs).m_errbuf = w.m_errbuf := by
  unfold storeAt
  cases w.m_msgbuf <;> rfl

@[simp] theorem CMsgRW.storeAt_m_lenmsg (w : CMsgRW) (start : ℕ) (bs : Bytes) :
    (w.storeAt start bs).m_lenmsg = w.m_lenmsg := by
  unfold storeAt
  cases w.m_msgbuf <;> rfl

theorem CMsgRW.capacity_congr {w v : CMsgRW} (hbuf : v.m_msgbuf = w.m_msgbuf)
    (hlen : v.m_lenbuf = w.m_lenbuf) : v.capacity = w.capacity := by
  unfold capacity
  rw [hbuf, hlen]

theorem CMsgRW.stores_congr {w v : CMsgRW} (hbuf : v.m_msgbuf = w.m_msgbuf)
    (hlen : v.m_lenbuf = w.m_lenbuf) (start n : ℕ) : v.stores start n = w.stores start n := by
  rw [stores, stores, hbuf, capacity_congr hbuf hlen]

@[simp] theorem CMsgRW.Clear_false_m_msgbuf (w : CMsgRW) :
    (w.Clear false).1.m_msgbuf = w.m_msgbuf := rfl

@[simp] theorem CMsgRW.Clear_false_m_lenbuf (w : CMsgRW) :
    (w.Clear false).1.m_lenbuf = w.m_lenbuf := rfl

theorem CMsgRW.Clear_sized (w : CMsgRW) (b : Bool) (h : w.Sized) : (w.Clear b).1.Sized := by
  cases b with
  | false => exact h.congr rfl rfl
  | true =>
    simp only [Clear, ↓reduceIte]
    split
    · exact h.congr rfl rfl
    · exact rfl

theorem CMsgRW.Clear_inBounds (w : CMsgRW) (b : Bool) :
    ∀ ev ∈ (w.Clear b).2, ev.InBounds := by
  cases b with
  | false => simp [Clear]
  | true =>
    simp only [Clear, ↓reduceIte]
    split <;> simp

theorem CMsgRW.grow_capacity (w : CMsgRW) (len : ℕ) (h : w.Sized) :
    (w.grow len true).2.1.Sized ∧ len ≤ (w.grow len true).2.1.capacity ∧
      (len < (w.grow len true).2.1.capacity ↔ (len ≤ LEN_ADM_PKG ∨ len ≠ w.m_lenbuf)) := by
  by_cases hg : len > LEN_ADM_PKG ∧ len > w.m_lenbuf
  · simp only [grow, hg, and_self, ↓reduceIte, Sized, capacity]
    unfold LEN_ADM_PKG at *
    omega
  · simp only [grow, hg, ↓reduceIte]
    refine ⟨h, ?_⟩
    unfold Sized at h
    unfold capacity
    cases hbuf : w.m_msgbuf with
    | m_buf =>
      simp only [hbuf] at h
      simp only []
      unfold LEN_ADM_PKG at *
      omega
    | block id =>
      simp only [hbuf] at h
      simp only []
      unfold LEN_ADM_PKG at *
      omega

theorem CMsgRW.grow_inBounds (w : CMsgRW) (len : ℕ) (newOk : Bool) :
    ∀ ev ∈ (w.grow len newOk).2.2, ev.InBounds := by
  have hfreed : ∀ ev ∈ (w.ownsBlock.map MemEvent.delete).toList, ev.InBounds := by
    cases w.ownsBlock <;> simp
  by_cases hg : len > LEN_ADM_PKG ∧ len > w.m_lenbuf
  · cases newOk with
    | false => simpa only [grow, hg, and_self, ↓reduceIte, Bool.false_eq_true] using hfreed
    | true =>
      simp only [grow, hg, and_self, ↓reduceIte, List.mem_append, List.mem_singleton]
      rintro ev (hev | rfl)
      · exact hfreed ev hev
      · trivial
  · simp [grow, hg]

theorem CMsgRW.stores_inBounds (w : CMsgRW) (start n : ℕ) :
    (∀ ev ∈ w.stores start n, ev.InBounds) ↔ (n = 0 ∨ start + n ≤ w.capacity) := by
  simp only [stores, List.forall_mem_map, List.mem_range'_1, MemEvent.inBounds_store]
  constructor
  · intro h
    rcases Nat.eq_zero_or_pos n with hn | hn
    · exact .inl hn
    · have hlast := h (start + (n - 1)) ⟨by omega, by omega⟩
      exact .inr (by omega)
  · rintro (rfl | h) i ⟨hlo, hhi⟩
    · omega
    · omega

theorem CMsgRW.readPayload_mem (w : CMsgRW) (s : Sock) (len : ℕ) (mem : List MemEvent) :
    (w.readPayload s len mem).mem =
      mem ++ w.stores 0 (fill interrupts len s.incoming).got.length ++ w.stores len 1 := by
  have hp : (SocketRead s len w.m_errbuf).p = (fill interrupts len s.incoming).got := by
    simpa using (SocketRead_reads s len w.m_errbuf).p
  have hstores : ∀ a n, (((w.setErr (SocketRead s len w.m_errbuf).szErrInfo).storeAt 0
      (SocketRead s len w.m_errbuf).p).storeAt len [0]).stores a n = w.stores a n :=
    fun a n => stores_congr (by simp) (by simp) a n
  simp only [readPayload, fail, hstores]
  split <;> rw [hp]

theorem CMsgRW.readPayload_sized (w : CMsgRW) (s : Sock) (len : ℕ) (mem : List MemEvent)
    (h : w.Sized) : (w.readPayload s len mem).rw.Sized := by
  simp only [readPayload, fail]
  split
  · exact h.congr (by simp) (by simp)
  · exact h.congr (by simp) (by simp)

/-- The length in front of an incoming stream, over the stale bytes of `header`; none
    when an error comes before the header is read. -/
def arrivingLen (host : Endian) (stale : UInt32) (src : Source SysError UInt8) : Option ℤ :=
  let f := fill interrupts 4 src
  match f.stop with
  | .fault _ => none
  | _ => some (frameLen host stale f.got)

def CMsgRW.headerRead (w : CMsgRW) (s : Sock) : CMsgRW × Sock :=
  let w := (w.Clear false).1
  let t := SocketRead s 4 w.m_errbuf
  (w.setErr t.szErrInfo, t.sock)

@[simp] theorem CMsgRW.headerRead_m_lenbuf (w : CMsgRW) (s : Sock) :
    (w.headerRead s).1.m_lenbuf = w.m_lenbuf := rfl

theorem CMsgRW.headerRead_sized (w : CMsgRW) (s : Sock) (h : w.Sized) :
    (w.headerRead s).1.Sized := h.congr rfl rfl

theorem CMsgRW.ReadPacket_cases (host : Endian) (amb : Ambient) (w : CMsgRW) (s : Sock) :
    (arrivingLen host amb.header s.incoming = none ∧
      w.ReadPacket host amb s =
        ⟨.ret (-1), (w.headerRead s).1, (w.headerRead s).2.record (.packetRead (-1)), []⟩) ∨
    ∃ len, arrivingLen host amb.header s.incoming = some len ∧
      ((len < 0 ∧ w.ReadPacket host amb s =
          (w.headerRead s).1.fail (w.headerRead s).2 (ascii "Invalid packet data format!") []) ∨
        (MAX_ADM_PKG < len ∧ w.ReadPacket host amb s =
          (w.headerRead s).1.fail (w.headerRead s).2
            (ascii "message size is too long! " ++ decimal len.toNat) []) ∨
        (0 ≤ len ∧ len ≤ MAX_ADM_PKG ∧
          ((((w.headerRead s).1.grow len.toNat amb.newOk).1 = false ∧
            w.ReadPacket host amb s = ⟨.bad_alloc, ((w.headerRead s).1.grow len.toNat amb.newOk).2.1,
              (w.headerRead s).2, ((w.headerRead s).1.grow len.toNat amb.newOk).2.2⟩) ∨
          (((w.headerRead s).1.grow len.toNat amb.newOk).1 = true ∧
            w.ReadPacket host amb s =
              ((w.headerRead s).1.grow len.toNat amb.newOk).2.1.readPayload (w.headerRead s).2
                len.toNat ((w.headerRead s).1.grow len.toNat amb.newOk).2.2)))) := by
  have hread := SocketRead_reads s 4 (w.Clear false).1.m_errbuf
  have hp : (SocketRead s 4 (w.Clear false).1.m_errbuf).p = (fill interrupts 4 s.incoming).got := by
    simpa using hread.p
  have hret := hread.ret
  simp only [ReadPacket, arrivingLen, headerRead, hp]
  rw [hret]
  cases hstop : (fill interrupts 4 s.incoming).stop with
  | fault e => exact .inl ⟨rfl, by simp [readReturn]⟩
  | full | ended =>
    refine .inr ⟨_, rfl, ?_⟩
    generalize frameLen host amb.header (fill interrupts 4 s.incoming).got = len
    have hpos : ¬ readReturn 4 .full < 0 ∧ ¬ readReturn 4 .ended < 0 := by decide
    simp only [hpos, ↓reduceIte]
    by_cases hneg : len < 0
    · exact .inl ⟨hneg, by simp [hneg]⟩
    · by_cases hbig : len > MAX_ADM_PKG
      · exact .inr (.inl ⟨hbig, by simp [hneg, hbig]⟩)
      · refine .inr (.inr ⟨by omega, by omega, ?_⟩)
        simp only [hneg, hbig, ↓reduceIte]
        generalize CMsgRW.grow _ _ _ = g
        obtain ⟨ok, v, mem⟩ := g
        cases ok with
        | false => exact .inl ⟨rfl, rfl⟩
        | true => exact .inr ⟨rfl, rfl⟩

def CMsgRW.NulFits (host : Endian) (w : CMsgRW) (s : Sock) (amb : Ambient) : Prop :=
  ∀ len, arrivingLen host amb.header s.incoming = some len →
    len ≤ LEN_ADM_PKG ∨ MAX_ADM_PKG < len ∨ len ≠ w.m_lenbuf

theorem CMsgRW.readPayload_inBounds (w : CMsgRW) (s : Sock) (len : ℕ) (mem : List MemEvent)
    (hmem : ∀ ev ∈ mem, ev.InBounds) (hcap : len ≤ w.capacity) :
    (∀ ev ∈ (w.readPayload s len mem).mem, ev.InBounds) ↔ len < w.capacity := by
  have hgot := fill_length_le interrupts len s.incoming
  have hfirst : ∀ ev ∈ w.stores 0 (fill interrupts len s.incoming).got.length, ev.InBounds :=
    (w.stores_inBounds _ _).mpr (.inr (by omega))
  have hnul := w.stores_inBounds len 1
  rw [readPayload_mem]
  simp only [List.mem_append]
  constructor
  · intro h
    have hlast := hnul.mp (fun ev hev => h ev (.inr hev))
    omega
  · rintro h ev ((hev | hev) | hev)
    · exact hmem ev hev
    · exact hfirst ev hev
    · exact hnul.mpr (.inr h) ev hev

theorem CMsgRW.ReadPacket_inBounds_iff (host : Endian) (amb : Ambient) (w : CMsgRW) (s : Sock)
    (h : w.Sized) :
    (∀ ev ∈ (w.ReadPacket host amb s).mem, ev.InBounds) ↔ w.NulFits host s amb := by
  have hv := w.headerRead_sized s h
  have hlenbuf := w.headerRead_m_lenbuf s
  unfold NulFits
  rcases w.ReadPacket_cases host amb s with ⟨harr, heq⟩ | ⟨len, harr, hcase⟩
  · simp [heq, harr]
  · simp only [harr, Option.some.injEq, forall_eq']
    rcases hcase with ⟨hneg, heq⟩ | ⟨hbig, heq⟩ | ⟨hlo, hhi, hcase⟩
    · rw [heq]
      simp only [fail, List.not_mem_nil, false_implies, implies_true, true_iff]
      unfold LEN_ADM_PKG
      omega
    · rw [heq]
      simp only [fail, List.not_mem_nil, false_implies, implies_true, true_iff]
      exact .inr (.inl hbig)
    · rcases hcase with ⟨hgrow, heq⟩ | ⟨hgrow, heq⟩
      · -- `new` has thrown: the length was beyond `m_lenbuf`, and nothing was stored
        rw [heq]
        have hmore : len.toNat > w.m_lenbuf := by
          by_contra hle
          simp [grow, hle] at hgrow
        have hin := (w.headerRead s).1.grow_inBounds len.toNat amb.newOk
        constructor
        · intro _
          exact .inr (.inr (by omega))
        · intro _
          exact hin
      · have hok : (w.headerRead s).1.grow len.toNat amb.newOk =
            (w.headerRead s).1.grow len.toNat true := by
          cases hnew : amb.newOk with
          | true => rfl
          | false =>
            rw [hnew] at hgrow
            unfold grow at hgrow ⊢
            split at hgrow
            · simp at hgrow
            · rename_i hno
              simp only [hno, ↓reduceIte]
        rw [heq, hok]
        obtain ⟨_, hcap, hfits⟩ := (w.headerRead s).1.grow_capacity len.toNat hv
        rw [readPayload_inBounds _ _ _ _ ((w.headerRead s).1.grow_inBounds _ _) hcap, hfits, hlenbuf]
        omega

theorem CMsgRW.ReadPacket_sized (host : Endian) (amb : Ambient) (w : CMsgRW) (s : Sock)
    (h : w.Sized) (hret : (w.ReadPacket host amb s).outcome ≠ .bad_alloc) :
    (w.ReadPacket host amb s).rw.Sized := by
  have hv := w.headerRead_sized s h
  rcases w.ReadPacket_cases host amb s with ⟨_, heq⟩ | ⟨len, _, hcase⟩
  · rw [heq]
    exact hv
  · rcases hcase with ⟨_, heq⟩ | ⟨_, heq⟩ | ⟨_, _, hcase⟩
    · rw [heq]
      exact hv.congr rfl rfl
    · rw [heq]
      exact hv.congr rfl rfl
    · rcases hcase with ⟨_, heq⟩ | ⟨hgrow, heq⟩
      · rw [heq] at hret
        exact absurd rfl hret
      · rw [heq]
        apply readPayload_sized
        unfold grow at hgrow ⊢
        split at hgrow
        · rename_i hg
          cases hnew : amb.newOk with
          | false => simp [hnew] at hgrow
          | true =>
            simp only [hg, and_self, ↓reduceIte, Sized]
            unfold LEN_ADM_PKG at *
            omega
        · rename_i hno
          simpa only [hno, ↓reduceIte] using hv

inductive Op where
  | readPacket (amb : Ambient)
  | clear (bFreeBuf : Bool)

/-- One operation on the object and its socket. No caller catches `bad_alloc`, so it ends
    the process. -/
def opStep (host : Endian) : Option (CMsgRW × Sock) → Op → Option (CMsgRW × Sock) × List MemEvent
  | none, _ => (none, [])
  | some (w, s), .clear bFreeBuf => (some ((w.Clear bFreeBuf).1, s), (w.Clear bFreeBuf).2)
  | some (w, s), .readPacket amb =>
    let r := w.ReadPacket host amb s
    (match r.outcome with
      | .ret _ => some (r.rw, r.sock)
      | .bad_alloc => none, r.mem)

def StepFits (host : Endian) : Option (CMsgRW × Sock) → Op → Prop
  | some (w, s), .readPacket amb => w.NulFits host s amb
  | _, _ => True

def AllSized (st : Option (CMsgRW × Sock)) : Prop := ∀ ws ∈ st, ws.1.Sized

theorem opStep_sized (host : Endian) (st : Option (CMsgRW × Sock)) (op : Op) (h : AllSized st) :
    AllSized (opStep host st op).1 := by
  cases st with
  | none => simp [opStep, AllSized]
  | some ws =>
    obtain ⟨w, s⟩ := ws
    have hw : w.Sized := h (w, s) rfl
    cases op with
    | clear b =>
      simpa [opStep, AllSized] using w.Clear_sized b hw
    | readPacket amb =>
      have hr := w.ReadPacket_sized host amb s hw
      simp only [opStep, AllSized]
      cases hout : (w.ReadPacket host amb s).outcome with
      | bad_alloc => simp
      | ret n =>
        rintro ws ⟨⟩
        exact hr (by simp [hout])

theorem opStep_inBounds_iff (host : Endian) (st : Option (CMsgRW × Sock)) (op : Op)
    (h : AllSized st) : (∀ ev ∈ (opStep host st op).2, ev.InBounds) ↔ StepFits host st op := by
  cases st with
  | none => simp [opStep, StepFits]
  | some ws =>
    obtain ⟨w, s⟩ := ws
    cases op with
    | clear b => simpa [opStep, StepFits] using w.Clear_inBounds b
    | readPacket amb => exact w.ReadPacket_inBounds_iff host amb s (h (w, s) rfl)

/-- From construction on, over any run on any incoming stream: every index written through
    `m_msgbuf` is below its capacity exactly when each frame that is read has a length other
    than the capacity of the heap block then in place. -/
theorem run_inBounds_iff (host : Endian) (s : Sock) (ops : List Op) :
    (∀ ev ∈ (MealyRun.run (opStep host) (some (CMsgRW.init, s)) ops).2, ev.InBounds) ↔
      MealyRun.Along (opStep host) (StepFits host) (some (CMsgRW.init, s)) ops :=
  MealyRun.run_outputs_iff (I := AllSized) (opStep_sized host) (opStep_inBounds_iff host) _ ops
    (by simp [AllSized, CMsgRW.init_sized])

def boundaryFrames : Sock where
  incoming := unread (frames [List.replicate 1025 97, List.replicate 1027 97]) []
  outgoing := []
  log := []

theorem boundaryFrames_out_of_bounds :
    ¬ ∀ ev ∈ (MealyRun.run (opStep .little) (some (CMsgRW.init, boundaryFrames))
      [.readPacket ⟨0, true⟩, .readPacket ⟨0, true⟩]).2, ev.InBounds := by
  decide +kernel

end O2k.MsgBuffer
