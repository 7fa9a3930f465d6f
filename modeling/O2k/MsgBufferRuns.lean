import O2k.AdminReaders
import Mathlib.Logic.Function.Basic

set_option autoImplicit false

namespace O2k.MsgBuffer
open ByteOrder ChunkedSource SocketTransfer WireFormat AdminMessage GatedTrace MealyRun

abbrev Heap := ℕ → Option ℕ

def MemEvent.apply (h : Heap) : MemEvent → Heap
  | .new id size => Function.update h id (some size)
  | .delete id => Function.update h id none
  | .store _ _ _ => h

def heapAfter (h : Heap) (mem : List MemEvent) : Heap := mem.foldl MemEvent.apply h

theorem heapAfter_append (h : Heap) (xs ys : List MemEvent) :
    heapAfter h (xs ++ ys) = heapAfter (heapAfter h xs) ys :=
  List.foldl_append

theorem heapAfter_stores (h : Heap) (w : CMsgRW) (start n : ℕ) :
    heapAfter h (w.stores start n) = h := by
  unfold CMsgRW.stores
  generalize List.range' start n = is
  induction is with
  | nil => rfl
  | cons i is ih => exact ih

def CMsgRW.Placed (w : CMsgRW) (h : Heap) : Prop :=
  (w.m_msgbuf = .m_buf ∧ w.m_lenbuf = 0) ∨
    ∃ id, w.m_msgbuf = .block id ∧ h id = some w.m_lenbuf

theorem CMsgRW.Placed.congr {w v : CMsgRW} {h : Heap} (hw : w.Placed h)
    (hbuf : v.m_msgbuf = w.m_msgbuf) (hlen : v.m_lenbuf = w.m_lenbuf) : v.Placed h := by
  unfold Placed at hw ⊢
  rw [hbuf, hlen]
  exact hw

theorem CMsgRW.Clear_placed (w : CMsgRW) (b : Bool) {h : Heap} (hw : w.Placed h) :
    (w.Clear b).1.Placed (heapAfter h (w.Clear b).2) := by
  cases b with
  | false => exact hw.congr rfl rfl
  | true =>
    simp only [Clear, ↓reduceIte]
    split
    · exact hw.congr rfl rfl
    · exact .inl ⟨rfl, rfl⟩

theorem CMsgRW.grow_placed (w : CMsgRW) (len : ℕ) {newOk : Bool} {h : Heap} (hw : w.Placed h)
    (hok : (w.grow len newOk).1 = true) :
    (w.grow len newOk).2.1.Placed (heapAfter h (w.grow len newOk).2.2) := by
  by_cases hg : len > LEN_ADM_PKG ∧ len > w.m_lenbuf
  · cases newOk with
    | false => simp [grow, hg] at hok
    | true =>
      simp only [grow, hg, and_self, ↓reduceIte, heapAfter_append]
      exact .inr ⟨w.blocks, rfl, Function.update_self _ _ _⟩
  · simp only [grow, hg, ↓reduceIte]
    exact hw

theorem CMsgRW.readPayload_placed (w : CMsgRW) (s : Sock) (len : ℕ) (mem : List MemEvent) {h : Heap}
    (hw : w.Placed (heapAfter h mem)) :
    (w.readPayload s len mem).rw.Placed (heapAfter h (w.readPayload s len mem).mem) := by
  rw [readPayload_mem, heapAfter_append, heapAfter_append, heapAfter_stores, heapAfter_stores]
  simp only [readPayload, fail]
  split
  · exact hw.congr (by simp) (by simp)
  · exact hw.congr (by simp) (by simp)

theorem CMsgRW.ReadPacket_placed (host : Endian) (amb : Ambient) (w : CMsgRW) (s : Sock) {h : Heap}
    (hw : w.Placed h) (hret : (w.ReadPacket host amb s).outcome ≠ .bad_alloc) :
    (w.ReadPacket host amb s).rw.Placed (heapAfter h (w.ReadPacket host amb s).mem) := by
  have hv : (w.headerRead s).1.Placed h := hw.congr rfl rfl
  rcases w.ReadPacket_cases host amb s with ⟨_, heq⟩ | ⟨len, _, hcase⟩
  · rw [heq]
    exact hv
  · rcases hcase with ⟨_, heq⟩ | ⟨_, heq⟩ | ⟨_, _, ⟨_, heq⟩ | ⟨hgrow, heq⟩⟩
    · rw [heq]
      exact hv.congr rfl rfl
    · rw [heq]
      exact hv.congr rfl rfl
    · rw [heq] at hret
      exact absurd rfl hret
    · rw [heq]
      exact readPayload_placed _ _ _ _ (grow_placed _ _ hv hgrow)

theorem CMsgRW.readPayload_lenmsg (w : CMsgRW) (s : Sock) (len : ℕ) (mem : List MemEvent)
    (hmsg : w.m_lenmsg = 0) {n : ℤ} (hret : (w.readPayload s len mem).outcome = .ret n)
    (hn : n ≤ 0) : (w.readPayload s len mem).rw.m_lenmsg = 0 := by
  by_cases hfull : (SocketRead s len w.m_errbuf).ret = len
  · simp only [readPayload, hfull, ne_eq, not_true_eq_false, ↓reduceIte, Outcome.ret.injEq] at hret ⊢
    omega
  · simp only [readPayload, hfull, ne_eq, not_false_eq_true, ↓reduceIte, fail]
    exact (storeAt_m_lenmsg _ _ _).trans ((storeAt_m_lenmsg _ _ _).trans hmsg)

theorem CMsgRW.ReadPacket_lenmsg (host : Endian) (amb : Ambient) (w : CMsgRW) (s : Sock) {n : ℤ}
    (hret : (w.ReadPacket host amb s).outcome = .ret n) (hn : n ≤ 0) :
    (w.ReadPacket host amb s).rw.m_lenmsg = 0 := by
  have hgrown (v : CMsgRW) (len : ℕ) (newOk : Bool) :
      (v.grow len newOk).2.1.m_lenmsg = v.m_lenmsg := by
    unfold grow
    split
    · cases newOk <;> rfl
    · rfl
  rcases w.ReadPacket_cases host amb s with ⟨_, heq⟩ | ⟨len, _, hcase⟩
  · rw [heq]
    rfl
  · rcases hcase with ⟨_, heq⟩ | ⟨_, heq⟩ | ⟨_, _, ⟨_, heq⟩ | ⟨_, heq⟩⟩
    · rw [heq]
      rfl
    · rw [heq]
      rfl
    · rw [heq] at hret
      cases hret
    · rw [heq] at hret ⊢
      exact readPayload_lenmsg _ _ _ _ ((hgrown _ _ _).trans rfl) hret hn

inductive RwOp where
  | readPacket (amb : Ambient)
  | clear (bFreeBuf : Bool)
  | getPacket
  | parseMsgHeader
  | parseCommand
  | parseResult

/-- `GetPacket` refuses, or hands out the bytes that its pointer and its length denote. The
    parsers return their argument as well, none if they stopped in the middle of it. -/
inductive Returned where
  | read (outcome : Outcome)
  | cleared
  | packet (got : Option (Option Bytes))
  | header (ret : ℤ) (out : Option MsgHeaderWrap)
  | command (ret : ℤ) (out : Option MsgCmd)
  | result (ret : ℤ) (out : Option MsgResult)

structure Made where
  op : RwOp
  ret : Returned
  received : Bytes
  mem : List MemEvent

/-- No caller catches `bad_alloc`, so it ends the process. -/
def rwStep (host : Endian) (rt : Runtime) :
    Option (CMsgRW × Sock) → RwOp → Option (CMsgRW × Sock) × List Made
  | none, _ => (none, [])
  | some (w, s), .readPacket amb =>
    let r := w.ReadPacket host amb s
    (match r.outcome with
      | .ret _ => some (r.rw, r.sock)
      | .bad_alloc => none,
      [⟨.readPacket amb, .read r.outcome, bytesIn (r.sock.log.drop s.log.length), r.mem⟩])
  | some (w, s), .clear bFreeBuf =>
    (some ((w.Clear bFreeBuf).1, s), [⟨.clear bFreeBuf, .cleared, [], (w.Clear bFreeBuf).2⟩])
  | some (w, s), .getPacket =>
    (some (w, s), [⟨.getPacket, .packet (w.GetPacket.map fun (buf, len) => buf.read len), [], []⟩])
  | some (w, s), .parseMsgHeader =>
    match w.ParseMsgHeader rt {} with
    | (ret, out, w) => (some (w, s), [⟨.parseMsgHeader, .header ret out, [], []⟩])
  | some (w, s), .parseCommand =>
    match w.ParseCommand rt {} with
    | (ret, out, w) => (some (w, s), [⟨.parseCommand, .command ret out, [], []⟩])
  | some (w, s), .parseResult =>
    match w.ParseResult rt {} with
    | (ret, out, w) => (some (w, s), [⟨.parseResult, .result ret out, [], []⟩])

def RwOp.handles : RwOp → Bool
  | .readPacket _ | .clear _ => true
  | _ => false

def lastHandled (us : List Made) : Option Made := (us.filter fun d => d.op.handles).getLast?

def Made.Succeeds (d : Made) : Prop := ∃ n, 0 < n ∧ d.ret = .read (.ret n)

structure Made.Reads (d : Made) (p : Bytes) : Prop where
  pos : 0 < p.length
  ret : d.ret = .read (.ret p.length)
  received : d.received = frame p

def Made.Refuses (d : Made) : Prop :=
  d.ret = .packet none ∨ (∃ out, d.ret = .header (-1) out) ∨ (∃ out, d.ret = .command (-1) out) ∨
    ∃ out, d.ret = .result (-1) out

def answer (rt : Runtime) (p : Bytes) : RwOp → Option Returned
  | .readPacket _ | .clear _ => none
  | .getPacket => some (.packet (some (some p)))
  | .parseMsgHeader =>
    match parsePayload (MsgHeaderWrap.parse rt) p with
    | none => some (.header (-1) none)
    | some m => some (.header 0 (some m))
  | .parseCommand =>
    match parsePayload (MsgCmd.parse rt) p with
    | none => some (.command (-1) none)
    | some m => some (.command 0 (some m))
  | .parseResult =>
    match parsePayload (MsgResult.parse rt) p with
    | none => some (.result (-1) none)
    | some m => some (.result 0 (some m))

structure Settles (us : List Made) (w : CMsgRW) : Prop where
  placed : w.Placed (heapAfter (fun _ => none) (us.flatMap Made.mem))
  packet : (w.m_lenmsg = 0 ∧ ∀ d, lastHandled us = some d → ¬ d.Succeeds) ∨
    ∃ d p, lastHandled us = some d ∧ d.Reads p ∧ w.Carries p

def SettlesRun (us : List Made) (st : Option (CMsgRW × Sock)) : Prop :=
  ∀ w s, st = some (w, s) → Settles us w

/-- An operation that looks at the packet is refused after a read that failed and after `Clear`,
    and else shows the packet last read. -/
structure Looks (rt : Runtime) (us : List Made) (d : Made) : Prop where
  refuses : d.op.handles = false → (∀ e, lastHandled us = some e → ¬ e.Succeeds) → d.Refuses
  shows : d.op.handles = false → ∀ e p, lastHandled us = some e → e.Reads p →
    answer rt p d.op = some d.ret

theorem lastHandled_concat {us : List Made} {d : Made} (h : d.op.handles = true) :
    lastHandled (us ++ [d]) = some d := by
  rw [lastHandled, List.filter_append, List.filter_cons_of_pos (by simpa using h)]
  exact List.getLast?_concat

theorem lastHandled_look {us : List Made} {d : Made} (h : d.op.handles = false) :
    lastHandled (us ++ [d]) = lastHandled us := by
  rw [lastHandled, List.filter_append, List.filter_cons_of_neg (by simp [h]), List.filter_nil,
    List.append_nil, lastHandled]

theorem CMsgRW.Carries.congr {w v : CMsgRW} {p : Bytes} (h : w.Carries p)
    (hcells : v.cells = w.cells) (hlen : v.m_lenmsg = w.m_lenmsg) : v.Carries p where
  lenmsg := hlen.trans h.lenmsg
  holds := by
    rw [hcells]
    exact h.holds
  nul := by
    rw [hcells]
    exact h.nul

theorem Settles.look {us : List Made} {w : CMsgRW} {d : Made} (h : Settles us w)
    (hop : d.op.handles = false) (hmem : d.mem = []) (text : Bytes) :
    Settles (us ++ [d]) w ∧ Settles (us ++ [d]) (w.setErr text) := by
  have hheap : (us ++ [d]).flatMap Made.mem = us.flatMap Made.mem := by
    simp [List.flatMap_append, hmem]
  refine ⟨⟨?_, ?_⟩, ⟨?_, ?_⟩⟩
  · rw [hheap]
    exact h.placed
  · rw [lastHandled_look hop]
    exact h.packet
  · rw [hheap]
    exact h.placed.congr rfl rfl
  · rw [lastHandled_look hop]
    exact h.packet.imp_right fun ⟨e, p, he, hreads, hcarries⟩ =>
      ⟨e, p, he, hreads, hcarries.congr rfl rfl⟩

theorem Looks.of_handles {rt : Runtime} {us : List Made} {d : Made} (h : d.op.handles = true) :
    Looks rt us d := by
  constructor
  · intro hno
    rw [h] at hno
    cases hno
  · intro hno
    rw [h] at hno
    cases hno

theorem Made.Reads.succeeds {d : Made} {p : Bytes} (h : d.Reads p) : d.Succeeds :=
  ⟨p.length, by have := h.pos; omega, h.ret⟩

theorem Made.Reads.unique {d : Made} {p q : Bytes} (hp : d.Reads p) (hq : d.Reads q) : p = q := by
  have hpayload (r : Bytes) : (frame r).drop 4 = r := List.drop_left' rfl
  rw [← hpayload p, ← hpayload q, ← hp.received, ← hq.received]

theorem Settles.looks {rt : Runtime} {us : List Made} {w w' : CMsgRW} {d : Made}
    (h : Settles us w) (hop : d.op.handles = false) (hmem : d.mem = [])
    (hw' : w' = w ∨ ∃ text, w' = w.setErr text) (hempty : w.m_lenmsg = 0 → d.Refuses)
    (hfull : ∀ p, 1 ≤ p.length → w.Carries p → answer rt p d.op = some d.ret) :
    Settles (us ++ [d]) w' ∧ Looks rt us d := by
  refine ⟨?_, ?_, ?_⟩
  · rcases hw' with rfl | ⟨text, rfl⟩
    · exact (h.look hop hmem []).1
    · exact (h.look hop hmem text).2
  · intro _ hfailed
    rcases h.packet with ⟨hzero, _⟩ | ⟨e, p, he, hreads, _⟩
    · exact hempty hzero
    · exact absurd hreads.succeeds (hfailed e he)
  · intro _ e p he hreads
    rcases h.packet with ⟨_, hfailed⟩ | ⟨e', q, he', hreads', hcarries⟩
    · exact absurd hreads.succeeds (hfailed e he)
    · obtain rfl := Option.some.inj (he.symm.trans he')
      obtain rfl := hreads.unique hreads'
      exact hfull p hreads.pos hcarries

section Parse

variable {μ : Type} {w : CMsgRW} (parse : Bytes → Option μ) (out : μ)

theorem parseInto_rw (w : CMsgRW) :
    (w.parseInto parse out).2.2 = w ∨ ∃ text, (w.parseInto parse out).2.2 = w.setErr text := by
  unfold CMsgRW.parseInto
  split
  · exact .inl rfl
  · split
    · exact .inr ⟨_, rfl⟩
    · exact .inl rfl

theorem parseInto_empty (h : w.m_lenmsg = 0) : w.parseInto parse out = (-1, some out, w) := by
  simp [CMsgRW.parseInto, h]

end Parse

theorem Settles.parses {rt : Runtime} {us : List Made} {w : CMsgRW} {op : RwOp} {μ : Type}
    (h : Settles us w) (parse : Bytes → Option μ) (out : μ) (ret : ℤ → Option μ → Returned)
    (hop : op.handles = false) (hrefuses : ∀ o, Made.Refuses ⟨op, ret (-1) o, [], []⟩)
    (hnone : ∀ p, parsePayload parse p = none → answer rt p op = some (ret (-1) none))
    (hsome : ∀ p m, parsePayload parse p = some m → answer rt p op = some (ret 0 (some m))) :
    Settles (us ++ [⟨op, ret (w.parseInto parse out).1 (w.parseInto parse out).2.1, [], []⟩])
        (w.parseInto parse out).2.2 ∧
      Looks rt us ⟨op, ret (w.parseInto parse out).1 (w.parseInto parse out).2.1, [], []⟩ := by
  refine h.looks hop rfl (parseInto_rw parse out w) ?_ ?_
  · intro hzero
    rw [parseInto_empty parse out hzero]
    exact hrefuses _
  · intro p hpos hcarries
    rw [hcarries.parseInto hpos]
    cases hparsed : parsePayload parse p with
    | none => exact hnone p hparsed
    | some m => exact hsome p m hparsed

theorem Settles.read {us : List Made} {w : CMsgRW} {s : Sock} {amb : Ambient} {host : Endian}
    {n : ℤ} (h : Settles us w) (hret : (w.ReadPacket host amb s).outcome = .ret n) :
    Settles (us ++ [⟨.readPacket amb, .read (.ret n),
        bytesIn ((w.ReadPacket host amb s).sock.log.drop s.log.length),
        (w.ReadPacket host amb s).mem⟩])
      (w.ReadPacket host amb s).rw := by
  have hlast (d : Made) (hd : d.op.handles = true) : lastHandled (us ++ [d]) = some d :=
    lastHandled_concat hd
  refine ⟨?_, ?_⟩
  · rw [List.flatMap_append, heapAfter_append]
    have hplaced := w.ReadPacket_placed host amb s h.placed (by simp [hret])
    simpa using hplaced
  · rw [hlast _ rfl]
    by_cases hn : 0 < n
    · obtain ⟨p, rfl, _, hcarries, evs, hlog, hin, _⟩ :=
        (w.ReadPacket_logged host amb s).positive n hret hn
      refine .inr ⟨_, p, rfl, ⟨by omega, rfl, ?_⟩, hcarries⟩
      rw [hlog, List.drop_left, hin]
    · refine .inl ⟨w.ReadPacket_lenmsg host amb s hret (by omega), ?_⟩
      rintro _ ⟨⟩ ⟨m, hm, hread⟩
      obtain rfl : n = m := by simpa using hread
      exact hn hm

theorem rwStep_settles (host : Endian) (rt : Runtime) :
    KeepsHistory (rwStep host rt) (fun _ _ => True) SettlesRun (Looks rt) := by
  intro us st op hst _
  match st with
  | none =>
    refine ⟨?_, atEach_nil⟩
    intro w s hws
    cases hws
  | some (w, s) =>
    have h := hst w s rfl
    have single {d : Made} {w' : CMsgRW} {s' : Sock}
        (hd : Settles (us ++ [d]) w' ∧ Looks rt us d) :
        SettlesRun (us ++ [d]) (some (w', s')) ∧
          AtEach (fun vs e _ => Looks rt (us ++ vs) e) [d] := by
      refine ⟨?_, atEach_singleton.mpr ?_⟩
      · rintro _ _ ⟨⟩
        exact hd.1
      · rw [List.append_nil]
        exact hd.2
    cases op with
    | readPacket amb =>
      simp only [rwStep]
      cases hret : (w.ReadPacket host amb s).outcome with
      | bad_alloc =>
        refine ⟨?_, atEach_singleton.mpr (.of_handles rfl)⟩
        intro w s hws
        cases hws
      | ret n => exact single ⟨h.read hret, .of_handles rfl⟩
    | clear b =>
      simp only [rwStep]
      refine single ⟨⟨?_, .inl ⟨?_, ?_⟩⟩, .of_handles rfl⟩
      · rw [List.flatMap_append, heapAfter_append]
        simpa using w.Clear_placed b h.placed
      · cases b with
        | false => rfl
        | true =>
          simp only [CMsgRW.Clear, ↓reduceIte]
          split <;> rfl
      · rw [lastHandled_concat rfl]
        rintro _ ⟨⟩ ⟨m, _, hread⟩
        cases hread
    | getPacket =>
      simp only [rwStep]
      refine single (h.looks rfl rfl (.inl rfl) ?_ ?_)
      · intro hzero
        left
        simp [CMsgRW.GetPacket, hzero]
      · intro p hpos hcarries
        rw [hcarries.getPacket hpos, Option.map_some, hcarries.holds.read]
        rfl
    | parseMsgHeader =>
      refine single (h.parses _ {} .header rfl (fun o => .inr (.inl ⟨o, rfl⟩)) ?_ ?_)
      · intro p hp
        simp only [answer, hp]
      · intro p m hp
        simp only [answer, hp]
    | parseCommand =>
      refine single (h.parses _ {} .command rfl (fun o => .inr (.inr (.inl ⟨o, rfl⟩))) ?_ ?_)
      · intro p hp
        simp only [answer, hp]
      · intro p m hp
        simp only [answer, hp]
    | parseResult =>
      refine single (h.parses _ {} .result rfl (fun o => .inr (.inr (.inr ⟨o, rfl⟩))) ?_ ?_)
      · intro p hp
        simp only [answer, hp]
      · intro p m hp
        simp only [answer, hp]

/-- Any operations on any stream: the object is placed, a positive `m_lenmsg` is what the last
    read returned and that packet is what the buffer holds; and whoever looks is shown it, or
    is refused when the last `ReadPacket` or `Clear` was not a read that succeeded. -/
theorem run_holdsLast (host : Endian) (rt : Runtime) (s : Sock) (ops : List RwOp) :
    (∀ w s', (run (rwStep host rt) (some (CMsgRW.init, s)) ops).1 = some (w, s') →
      w.Placed (heapAfter (fun _ => none)
        ((run (rwStep host rt) (some (CMsgRW.init, s)) ops).2.flatMap Made.mem)) ∧
      (0 < w.m_lenmsg → ∃ d p,
        lastHandled (run (rwStep host rt) (some (CMsgRW.init, s)) ops).2 = some d ∧ d.Reads p ∧
        w.m_lenmsg = p.length ∧ w.cells.read w.m_lenmsg = some p)) ∧
    AtEach (fun us d _ => Looks rt us d) (run (rwStep host rt) (some (CMsgRW.init, s)) ops).2 := by
  have hinit : SettlesRun [] (some (CMsgRW.init, s)) := by
    rintro _ _ ⟨⟩
    refine ⟨.inl ⟨rfl, rfl⟩, .inl ⟨rfl, ?_⟩⟩
    intro d hd
    cases hd
  have hall : Along (rwStep host rt) (fun _ _ => True) (some (CMsgRW.init, s)) ops :=
    Along.of_forall (fun _ _ => trivial) _ _
  obtain ⟨hlast, hlooks⟩ := (rwStep_settles host rt).run_from [] _ ops hinit hall
  rw [List.nil_append] at hlast
  refine ⟨?_, hlooks⟩
  intro w s' hw
  have h := hlast w s' hw
  refine ⟨h.placed, ?_⟩
  intro hpos
  rcases h.packet with ⟨hzero, _⟩ | ⟨d, p, hd, hreads, hcarries⟩
  · omega
  · refine ⟨d, p, hd, hreads, hcarries.lenmsg, ?_⟩
    rw [hcarries.lenmsg]
    exact hcarries.holds.read

end O2k.MsgBuffer
