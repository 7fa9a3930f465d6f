import O2k.MsgBufferRuns

set_option autoImplicit false

namespace O2k.MsgBuffer
open ByteOrder ChunkedSource SocketTransfer GatedTrace MealyRun

/-- One operation on the object and its socket. A `bad_alloc` leaves the object as it is then. -/
def keepStep (host : Endian) : CMsgRW × Sock → Op → (CMsgRW × Sock) × List MemEvent
  | (w, s), .clear bFreeBuf => (((w.Clear bFreeBuf).1, s), (w.Clear bFreeBuf).2)
  | (w, s), .readPacket amb =>
    let r := w.ReadPacket host amb s
    ((r.rw, r.sock), r.mem)

def CMsgRW.destroy (w : CMsgRW) : List MemEvent := (w.ownsBlock.map MemEvent.delete).toList

def lifetime (host : Endian) (s : Sock) (ops : List Op) : List MemEvent :=
  let r := run (keepStep host) (CMsgRW.init, s) ops
  r.2 ++ r.1.1.destroy

def Live (us : List MemEvent) (id : ℕ) : Prop := (∃ size, .new id size ∈ us) ∧ .delete id ∉ us

def MemEvent.uses : MemEvent → Option ℕ
  | .new _ _ => none
  | .delete id => some id
  | .store .m_buf _ _ => none
  | .store (.block id) _ _ => some id

def UsesLive (us : List MemEvent) (ev : MemEvent) : Prop := ∀ id, ev.uses = some id → Live us id

/-- `m_lenbuf` is at most the size of what `m_msgbuf` denotes, once `us` has happened. -/
def CMsgRW.Bounded (us : List MemEvent) (w : CMsgRW) : Prop :=
  match w.m_msgbuf with
  | .m_buf => w.m_lenbuf ≤ LEN_ADM_PKG + 2
  | .block id => ∃ size, .new id size ∈ us ∧ w.m_lenbuf ≤ size

structure Safe (host : Endian) (s : Sock) (ops : List Op) : Prop where
  releasedOnce : ∀ id size, .new id size ∈ lifetime host s ops →
    (lifetime host s ops).count (.delete id) = 1
  usesLive : AtEach (fun us ev _ => UsesLive us ev) (lifetime host s ops)
  bounded : ∀ past, past <+: ops →
    (run (keepStep host) (CMsgRW.init, s) past).1.1.Bounded
      (run (keepStep host) (CMsgRW.init, s) past).2

def GrowsOk (host : Endian) : CMsgRW × Sock → Op → Prop
  | (w, s), .readPacket amb => ∀ len, arrivingLen host amb.header s.incoming = some len →
      LEN_ADM_PKG < len → len ≤ MAX_ADM_PKG → w.m_lenbuf < len → amb.newOk = true
  | _, .clear _ => True

/-- Of all blocks obtained only the one that `m_msgbuf` denotes is not released, and it has
    `m_lenbuf` bytes. -/
structure Owned (us : List MemEvent) (w : CMsgRW) : Prop where
  obtained : ∀ id size, .new id size ∈ us → id < w.blocks
  deleted : ∀ id, .delete id ∈ us → id < w.blocks
  sized : ∀ id size size', .new id size ∈ us → .new id size' ∈ us → size = size'
  released : ∀ id size, .new id size ∈ us →
    us.count (.delete id) = if w.m_msgbuf = .block id then 0 else 1
  placed : (w.m_msgbuf = .m_buf ∧ w.m_lenbuf = 0) ∨
    ∃ id, w.m_msgbuf = .block id ∧ 0 < w.m_lenbuf ∧ .new id w.m_lenbuf ∈ us

theorem Owned.init : Owned [] CMsgRW.init where
  obtained := by simp
  deleted := by simp
  sized := by simp
  released := by simp
  placed := .inl ⟨rfl, rfl⟩

section Owned

variable {us : List MemEvent} {w v : CMsgRW}

theorem Owned.congr (h : Owned us w) (hbuf : v.m_msgbuf = w.m_msgbuf)
    (hlen : v.m_lenbuf = w.m_lenbuf) (hblocks : v.blocks = w.blocks) : Owned us v where
  obtained := by
    rw [hblocks]
    exact h.obtained
  deleted := by
    rw [hblocks]
    exact h.deleted
  sized := h.sized
  released := by
    rw [hbuf]
    exact h.released
  placed := by
    rw [hbuf, hlen]
    exact h.placed

theorem Owned.live (h : Owned us w) {id : ℕ} (hid : w.m_msgbuf = .block id) : Live us id := by
  rcases h.placed with ⟨hbuf, _⟩ | ⟨id', hbuf, _, hnew⟩
  · rw [hid] at hbuf
    cases hbuf
  · obtain rfl : id = id' := by simpa [hid] using hbuf
    have hcount := h.released id _ hnew
    rw [if_pos hid] at hcount
    exact ⟨⟨_, hnew⟩, List.count_eq_zero.mp hcount⟩

theorem CMsgRW.bounded_m_buf (hbuf : w.m_msgbuf = .m_buf) :
    w.Bounded us ↔ w.m_lenbuf ≤ LEN_ADM_PKG + 2 := by
  rw [Bounded, hbuf]

theorem CMsgRW.bounded_block {id : ℕ} (hbuf : w.m_msgbuf = .block id) :
    w.Bounded us ↔ ∃ size, .new id size ∈ us ∧ w.m_lenbuf ≤ size := by
  rw [Bounded, hbuf]

theorem Owned.bounded (h : Owned us w) : w.Bounded us := by
  rcases h.placed with ⟨hbuf, hlen⟩ | ⟨id, hbuf, _, hnew⟩
  · rw [CMsgRW.bounded_m_buf hbuf, hlen]
    exact Nat.zero_le _
  · rw [CMsgRW.bounded_block hbuf]
    exact ⟨_, hnew, le_rfl⟩

theorem Owned.ownsBlock (h : Owned us w) :
    (w.ownsBlock = none ∧ w.m_msgbuf = .m_buf ∧ w.m_lenbuf = 0) ∨
      ∃ id, w.ownsBlock = some id ∧ w.m_msgbuf = .block id := by
  unfold CMsgRW.ownsBlock
  rcases h.placed with ⟨hbuf, hlen⟩ | ⟨id, hbuf, hpos, _⟩
  · exact .inl ⟨by simp [hbuf], hbuf, hlen⟩
  · exact .inr ⟨id, by simp [hbuf, hpos], hbuf⟩

structure Handled (us es : List MemEvent) (w : CMsgRW) : Prop where
  owned : Owned (us ++ es) w
  live : AtEach (fun vs ev _ => UsesLive (us ++ vs) ev) es

theorem Handled.none (h : Owned us w) : Handled us [] w where
  owned := by
    rw [List.append_nil]
    exact h
  live := atEach_nil

theorem Handled.append {xs ys : List MemEvent} (hx : Handled us xs w)
    (hy : Handled (us ++ xs) ys v) : Handled us (xs ++ ys) v where
  owned := by
    rw [← List.append_assoc]
    exact hy.owned
  live := by
    refine AtEach.append (fun _ _ _ hlive => hlive) hx.live ?_
    simpa only [List.append_assoc] using hy.live

theorem Handled.congr {es : List MemEvent} (h : Handled us es w) (hbuf : v.m_msgbuf = w.m_msgbuf)
    (hlen : v.m_lenbuf = w.m_lenbuf) (hblocks : v.blocks = w.blocks) : Handled us es v where
  owned := h.owned.congr hbuf hlen hblocks
  live := h.live

theorem Owned.store (h : Owned us w) (capacity index : ℕ) :
    Handled us [.store w.m_msgbuf capacity index] w where
  owned := by
    constructor
    · simpa using h.obtained
    · simpa using h.deleted
    · simpa using h.sized
    · simpa [List.count_append, List.count_singleton] using h.released
    · simpa using h.placed
  live := by
    rw [atEach_singleton, List.append_nil]
    intro id hid
    cases hbuf : w.m_msgbuf with
    | m_buf => simp [hbuf, MemEvent.uses] at hid
    | block id' =>
      obtain rfl : id' = id := by simpa [hbuf, MemEvent.uses] using hid
      exact h.live hbuf

theorem Owned.stores (h : Owned us w) (start n : ℕ) : Handled us (w.stores start n) w := by
  unfold CMsgRW.stores
  generalize List.range' start n = is
  induction is generalizing us with
  | nil => exact .none h
  | cons i is ih =>
    have hfirst := h.store w.capacity i
    exact hfirst.append (ih hfirst.owned)

theorem Owned.release (h : Owned us w) :
    Handled us w.destroy { w with m_msgbuf := .m_buf, m_lenbuf := 0 } := by
  unfold CMsgRW.destroy
  rcases h.ownsBlock with ⟨howns, hbuf, hlen⟩ | ⟨id, howns, hbuf⟩
  · rw [howns]
    exact (Handled.none h).congr hbuf.symm hlen.symm rfl
  · rw [howns]
    have hlive := h.live hbuf
    refine ⟨⟨?_, ?_, ?_, ?_, .inl ⟨rfl, rfl⟩⟩, ?_⟩
    · simpa using h.obtained
    · intro id' hid'
      rcases List.mem_append.mp hid' with hid' | hid'
      · exact h.deleted id' hid'
      · obtain rfl : id' = id := by simpa using hid'
        obtain ⟨size, hnew⟩ := hlive.1
        exact h.obtained _ size hnew
    · simpa using h.sized
    · intro id' size hnew
      have hcount := h.released id' size (by simpa using hnew)
      rw [List.count_append, hcount, hbuf]
      by_cases heq : id = id'
      · simp [heq]
      · simp [heq]
    · simp only [Option.map_some, Option.toList_some]
      rw [atEach_singleton, List.append_nil]
      intro id' hid'
      obtain rfl : id = id' := by simpa [MemEvent.uses] using hid'
      exact hlive

theorem Owned.allocate (h : Owned us w) (hbuf : w.m_msgbuf = .m_buf) {size : ℕ} (hsize : 0 < size)
    (hv : v.m_msgbuf = .block w.blocks ∧ v.m_lenbuf = size ∧ v.blocks = w.blocks + 1) :
    Handled us [.new w.blocks size] v := by
  obtain ⟨hvbuf, rfl, hvblocks⟩ := hv
  have hfresh (n : ℕ) : .new w.blocks n ∉ us := fun hmem => (h.obtained _ n hmem).false
  have hnew {id n : ℕ} (hmem : .new id n ∈ us ++ [.new w.blocks v.m_lenbuf]) :
      .new id n ∈ us ∨ id = w.blocks ∧ n = v.m_lenbuf := by
    simpa using hmem
  refine ⟨⟨?_, ?_, ?_, ?_, .inr ⟨w.blocks, hvbuf, hsize, by simp⟩⟩, ?_⟩
  · rw [hvblocks]
    intro id n hmem
    rcases hnew hmem with hmem | ⟨rfl, _⟩
    · exact Nat.lt_succ_of_lt (h.obtained id n hmem)
    · exact Nat.lt_succ_self _
  · rw [hvblocks]
    intro id hmem
    exact Nat.lt_succ_of_lt (h.deleted id (by simpa using hmem))
  · intro id n n' hmem hmem'
    rcases hnew hmem with hmem | ⟨rfl, rfl⟩
    · rcases hnew hmem' with hmem' | ⟨rfl, _⟩
      · exact h.sized id n n' hmem hmem'
      · exact absurd hmem (hfresh n)
    · rcases hnew hmem' with hmem' | ⟨_, rfl⟩
      · exact absurd hmem' (hfresh n')
      · rfl
  · rw [hvbuf]
    intro id n hmem
    rw [List.count_append]
    rcases hnew hmem with hmem | ⟨rfl, _⟩
    · have hid : w.blocks ≠ id := (h.obtained id n hmem).ne'
      have hcount := h.released id n hmem
      simpa [hbuf, hid] using hcount
    · have hnone : us.count (.delete w.blocks) = 0 :=
        List.count_eq_zero.mpr fun hdel => (h.deleted _ hdel).false
      simp [hnone]
  · rw [atEach_singleton]
    intro id hid
    simp [MemEvent.uses] at hid

end Owned

@[simp] theorem CMsgRW.storeAt_blocks (w : CMsgRW) (start : ℕ) (bs : Bytes) :
    (w.storeAt start bs).blocks = w.blocks := by
  unfold storeAt
  cases w.m_msgbuf <;> rfl

@[simp] theorem CMsgRW.setErr_blocks (w : CMsgRW) (text : Bytes) :
    (w.setErr text).blocks = w.blocks := rfl

section Step

variable {host : Endian} {us : List MemEvent} {w v : CMsgRW} {s : Sock}

theorem Owned.clear (h : Owned us w) (b : Bool) : Handled us (w.Clear b).2 (w.Clear b).1 := by
  cases b with
  | false => exact (Handled.none h).congr rfl rfl rfl
  | true =>
    have hrel := h.release
    unfold CMsgRW.destroy at hrel
    have howns : CMsgRW.ownsBlock { w with m_lenmsg := 0, m_errbuf := [] } = w.ownsBlock := rfl
    simp only [CMsgRW.Clear, ↓reduceIte, howns]
    cases hblock : w.ownsBlock with
    | none => exact (Handled.none h).congr rfl rfl rfl
    | some id =>
      rw [hblock] at hrel
      exact hrel.congr rfl rfl rfl

theorem Owned.grow (h : Owned us w) {len : ℕ} {newOk : Bool} (hok : (w.grow len newOk).1 = true) :
    Handled us (w.grow len newOk).2.2 (w.grow len newOk).2.1 := by
  by_cases hg : len > LEN_ADM_PKG ∧ len > w.m_lenbuf
  · cases newOk with
    | false => simp [CMsgRW.grow, hg] at hok
    | true =>
      simp only [CMsgRW.grow, hg, and_self, ↓reduceIte]
      exact h.release.append (h.release.owned.allocate rfl (Nat.succ_pos _) ⟨rfl, rfl, rfl⟩)
  · simp only [CMsgRW.grow, hg, ↓reduceIte]
    exact .none h

theorem Handled.readPayload {mem : List MemEvent} (h : Handled us mem w) (s : Sock) (len : ℕ) :
    Handled us (w.readPayload s len mem).mem (w.readPayload s len mem).rw := by
  have hfirst := h.append (h.owned.stores 0 (fill interrupts len s.incoming).got.length)
  rw [CMsgRW.readPayload_mem]
  refine Handled.congr (hfirst.append (hfirst.owned.stores len 1)) ?_ ?_ ?_
  all_goals
    simp only [CMsgRW.readPayload, CMsgRW.fail]
    split <;> simp

theorem Owned.readPacket (h : Owned us w) {amb : Ambient}
    (hok : GrowsOk host (w, s) (.readPacket amb)) :
    Handled us (w.ReadPacket host amb s).mem (w.ReadPacket host amb s).rw := by
  have hv : Owned us (w.headerRead s).1 := h.congr rfl rfl rfl
  rcases w.ReadPacket_cases host amb s with ⟨_, heq⟩ | ⟨len, harr, hcase⟩
  · rw [heq]
    exact .none hv
  · rcases hcase with ⟨_, heq⟩ | ⟨_, heq⟩ | ⟨hlo, hhi, ⟨hgrow, heq⟩ | ⟨hgrow, heq⟩⟩
    · rw [heq]
      exact (Handled.none hv).congr rfl rfl rfl
    · rw [heq]
      exact (Handled.none hv).congr rfl rfl rfl
    · -- `new` has thrown, which `hok` excludes
      unfold CMsgRW.grow at hgrow
      split at hgrow
      · rename_i hg
        have hnew := hok len harr (by omega) hhi (by
          have := hg.2
          rw [w.headerRead_m_lenbuf s] at this
          omega)
        simp [hnew] at hgrow
      · cases hgrow
    · rw [heq]
      exact (hv.grow hgrow).readPayload _ _

theorem keepStep_handled (host : Endian) :
    KeepsHistory (keepStep host) (GrowsOk host) (fun us st => Owned us st.1) UsesLive := by
  rintro us ⟨w, s⟩ op h hok
  cases op with
  | clear b =>
    have hclear := h.clear b
    exact ⟨hclear.owned, hclear.live⟩
  | readPacket amb =>
    have hread := h.readPacket hok
    exact ⟨hread.owned, hread.live⟩

theorem new_notMem_destroy (id size : ℕ) : .new id size ∉ w.destroy := by
  unfold CMsgRW.destroy
  cases w.ownsBlock <;> simp

theorem keepStep_failed {amb : Ambient} {len : ℤ}
    (harr : arrivingLen host amb.header s.incoming = some len) (hhi : len ≤ MAX_ADM_PKG)
    (hg : len.toNat > LEN_ADM_PKG ∧ len.toNat > w.m_lenbuf) (hnew : amb.newOk = false) :
    keepStep host (w, s) (.readPacket amb) =
      (({ (w.headerRead s).1 with m_lenbuf := len.toNat + 2 }, (w.headerRead s).2), w.destroy) := by
  have hgrow : (w.headerRead s).1.grow len.toNat amb.newOk =
      (false, { (w.headerRead s).1 with m_lenbuf := len.toNat + 2 }, w.destroy) := by
    have hg' : len.toNat > LEN_ADM_PKG ∧ len.toNat > (w.headerRead s).1.m_lenbuf := hg
    simp only [CMsgRW.grow, hg', and_self, ↓reduceIte, hnew]
    rfl
  rcases w.ReadPacket_cases host amb s with ⟨hnone, _⟩ | ⟨len', harr', hcase⟩
  · rw [harr] at hnone
    cases hnone
  · obtain rfl := Option.some.inj (harr.symm.trans harr')
    rcases hcase with ⟨hneg, _⟩ | ⟨hbig, _⟩ | ⟨_, _, ⟨_, heq⟩ | ⟨hgrown, _⟩⟩
    · omega
    · omega
    · simp only [keepStep, heq, hgrow]
    · rw [hgrow] at hgrown
      cases hgrown

theorem Owned.not_bounded (h : Owned us w) (hbuf : v.m_msgbuf = w.m_msgbuf)
    (hlen : w.m_lenbuf < v.m_lenbuf) (hmore : LEN_ADM_PKG + 2 < v.m_lenbuf) :
    ¬ v.Bounded (us ++ w.destroy) := by
  rcases h.placed with ⟨hplace, _⟩ | ⟨id, hplace, _, hsize⟩
  · rw [CMsgRW.bounded_m_buf (hbuf.trans hplace)]
    omega
  · rw [CMsgRW.bounded_block (hbuf.trans hplace)]
    rintro ⟨size, hmem, hle⟩
    have hmem : .new id size ∈ us :=
      (List.mem_append.mp hmem).resolve_right (new_notMem_destroy id size)
    have hsame := h.sized id _ _ hsize hmem
    omega

theorem Owned.growsOk (h : Owned us w) (op : Op)
    (hbounded : (keepStep host (w, s) op).1.1.Bounded (us ++ (keepStep host (w, s) op).2)) :
    GrowsOk host (w, s) op := by
  cases op with
  | clear b => trivial
  | readPacket amb =>
    intro len harr hlo hhi hmore
    by_contra hnew
    rw [keepStep_failed harr hhi (by omega) (Bool.eq_false_iff.mpr hnew)] at hbounded
    refine absurd hbounded (h.not_bounded rfl ?_ ?_)
    · change w.m_lenbuf < len.toNat + 2
      omega
    · change LEN_ADM_PKG + 2 < len.toNat + 2
      omega

theorem along_growsOk {ops : List Op} (h : Owned us w)
    (hbounded : ∀ past, past <+: ops →
      (run (keepStep host) (w, s) past).1.1.Bounded (us ++ (run (keepStep host) (w, s) past).2)) :
    Along (keepStep host) (GrowsOk host) (w, s) ops := by
  induction ops generalizing us w s with
  | nil => trivial
  | cons op ops ih =>
    have hop : GrowsOk host (w, s) op := by
      have hfirst := hbounded [op] (by simp)
      rw [run_cons] at hfirst
      simp only [run_nil, List.append_nil] at hfirst
      exact h.growsOk op hfirst
    refine ⟨hop, ih (keepStep_handled host us (w, s) op h hop).1 ?_⟩
    intro past hpast
    have hnext := hbounded (op :: past) (List.cons_prefix_cons.mpr ⟨rfl, hpast⟩)
    rw [run_cons, ← List.append_assoc] at hnext
    exact hnext

end Step

/-- From construction to destruction, over any run on any incoming stream: each block obtained is
    released once, none is used when it is not live, and `m_lenbuf` never exceeds the size of the
    buffer in place, exactly when each growth that the run needs gets its block. -/
theorem lifetime_safe_iff (host : Endian) (s : Sock) (ops : List Op) :
    Safe host s ops ↔ Along (keepStep host) (GrowsOk host) (CMsgRW.init, s) ops := by
  constructor
  · intro h
    apply along_growsOk Owned.init
    simpa using h.bounded
  · intro h
    have hrun {past : List Op} (hpast : past <+: ops) :
        Handled [] (run (keepStep host) (CMsgRW.init, s) past).2
          (run (keepStep host) (CMsgRW.init, s) past).1.1 := by
      obtain ⟨rest, rfl⟩ := hpast
      obtain ⟨howned, hlive⟩ := (keepStep_handled host).run_from [] (CMsgRW.init, s) past
        Owned.init h.of_append
      exact ⟨howned, hlive⟩
    have hwhole := (hrun List.prefix_rfl).append (hrun List.prefix_rfl).owned.release
    refine ⟨?_, hwhole.live, fun past hpast => (hrun hpast).owned.bounded⟩
    intro id size hnew
    exact hwhole.owned.released id size hnew

def failedGrowth : Sock where
  incoming := unread (frames [List.replicate 1025 97, List.replicate 1100 97]) []
  outgoing := []
  log := []

theorem failedGrowth_released_twice :
    ¬ Safe .little failedGrowth [.readPacket ⟨0, true⟩, .readPacket ⟨0, false⟩] := by
  intro h
  have hnew : .new 0 1027 ∈ lifetime .little failedGrowth
      [.readPacket ⟨0, true⟩, .readPacket ⟨0, false⟩] := by
    decide +kernel
  have htwice : (lifetime .little failedGrowth
      [.readPacket ⟨0, true⟩, .readPacket ⟨0, false⟩]).count (.delete 0) = 2 := by
    decide +kernel
  have honce := h.releasedOnce 0 1027 hnew
  omega

end O2k.MsgBuffer
