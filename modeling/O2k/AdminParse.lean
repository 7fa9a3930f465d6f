import O2k.AdminReaders
import O2k.WireNul

set_option autoImplicit false

namespace O2k.MsgBuffer
open ByteOrder ChunkedSource SocketTransfer WireFormat AdminMessage

def AgreesWith {μ : Type} (full : Option μ) (r : ℤ × Option μ × CMsgRW) : Prop :=
  (r.1 = 0 ↔ full.isSome = true) ∧ (r.1 = 0 → r.2.1 = full)

instance {μ : Type} [DecidableEq μ] (full : Option μ) (r : ℤ × Option μ × CMsgRW) :
    Decidable (AgreesWith full r) :=
  inferInstanceAs (Decidable (_ ∧ _))

/-- The payload has a NUL, and what stands before the first one is a message by itself. -/
def NulHidesRest {μ : Type} (parse : Bytes → Option μ) (p : Bytes) : Prop :=
  0 ∈ p ∧ (parse (cutNul p)).isSome = true

theorem exists_cutNul_append {p : Bytes} (h : 0 ∈ p) : ∃ tail, p = cutNul p ++ 0 :: tail := by
  induction p with
  | nil => cases h
  | cons b p ih =>
    rw [cutNul_cons]
    split
    · rename_i hb
      exact ⟨p, by rw [hb, List.nil_append]⟩
    · rename_i hb
      obtain ⟨tail, htail⟩ := ih ((List.mem_cons.mp h).resolve_left (Ne.symm hb))
      exact ⟨tail, by rw [List.cons_append, ← htail]⟩

section Parsers

variable (rt : Runtime)

theorem header_stopsAtNul : ∀ f ∈ MsgHeader.fields, f.kind.StopsAtNul := by
  simp [MsgHeader.fields, FieldKind.StopsAtNul]

theorem metric_stopsAtNul : ∀ f ∈ PairIntDbl.fields, f.kind.StopsAtNul := by
  simp [PairIntDbl.fields, FieldKind.StopsAtNul]

theorem pair_stopsAtNul : ∀ f ∈ PairStrStr.fields, f.kind.StopsAtNul := by
  simp [PairStrStr.fields, FieldKind.StopsAtNul]

theorem headerField_stopsAtNul {σ : Type} (get : σ → Option MsgHeader)
    (set : Option MsgHeader → σ → σ) : (headerField rt get set).kind.StopsAtNul := by
  intro budget
  exact (mergeFrom_stopsAtNul header_stopsAtNul).map (fun m => headerOf (get m))
    (fun m h => set (some h) m)

theorem repeatedField_stopsAtNul {σ τ : Type} (number : ℕ) {fields : List (FieldCase τ)}
    (hfields : ∀ f ∈ fields, f.kind.StopsAtNul) (new : τ) (add : τ → σ → σ) :
    (repeatedField rt number fields new add).kind.StopsAtNul := by
  intro budget
  exact (mergeFrom_stopsAtNul hfields).map (fun _ => new) (fun m p => add p m)

theorem MsgHeaderWrap.parse_rejectsNul : RejectsNul (MsgHeaderWrap.parse rt) := by
  have hfields : ∀ f ∈ MsgHeaderWrap.fields rt, f.kind.StopsAtNul := by
    simp only [MsgHeaderWrap.fields, List.mem_singleton, forall_eq]
    exact headerField_stopsAtNul rt _ _
  exact (mergeFrom_stopsAtNul hfields).rejects {}

theorem MsgCmd.parse_rejectsNul : RejectsNul (MsgCmd.parse rt) := by
  have hfields : ∀ f ∈ MsgCmd.fields rt, f.kind.StopsAtNul := by
    simp only [MsgCmd.fields, List.mem_cons, List.not_mem_nil, or_false, forall_eq_or_imp,
      forall_eq]
    exact ⟨headerField_stopsAtNul rt _ _, trivial,
      repeatedField_stopsAtNul rt 3 pair_stopsAtNul _ _⟩
  exact (mergeFrom_stopsAtNul hfields).rejects {}

theorem MsgResult.parse_rejectsNul : RejectsNul (MsgResult.parse rt) := by
  have hfields : ∀ f ∈ MsgResult.fields rt, f.kind.StopsAtNul := by
    simp only [MsgResult.fields, List.mem_cons, List.not_mem_nil, or_false, forall_eq_or_imp,
      forall_eq]
    exact ⟨headerField_stopsAtNul rt _ _, trivial, trivial,
      repeatedField_stopsAtNul rt 4 pair_stopsAtNul _ _⟩
  exact (mergeFrom_stopsAtNul hfields).rejects {}

theorem MsgMetrics.parse_rejectsNul : RejectsNul (MsgMetrics.parse rt) := by
  have hfields : ∀ f ∈ MsgMetrics.fields rt, f.kind.StopsAtNul := by
    simp only [MsgMetrics.fields, List.mem_cons, List.not_mem_nil, or_false, forall_eq_or_imp,
      forall_eq]
    exact ⟨headerField_stopsAtNul rt _ _, trivial,
      repeatedField_stopsAtNul rt 3 metric_stopsAtNul _ _⟩
  exact (mergeFrom_stopsAtNul hfields).rejects {}

end Parsers

section Agreement

variable {μ : Type} {parse : Bytes → Option μ}

theorem parsePayload_hidden {p : Bytes} (h : NulHidesRest parse p)
    (hrejects : RejectsNul parse) :
    (parsePayload parse p).isSome = true ∧ parse p = none := by
  obtain ⟨hzero, hcut⟩ := h
  obtain ⟨tail, htail⟩ := exists_cutNul_append hzero
  refine ⟨?_, ?_⟩
  · obtain ⟨m, hm⟩ := Option.isSome_iff_exists.mp hcut
    simp only [parsePayload, hm, Option.isSome_some]
  · rw [htail]
    exact hrejects _ tail hcut

theorem parsePayload_eq {p : Bytes} (h : ¬ NulHidesRest parse p) :
    parsePayload parse p = parse p := by
  unfold parsePayload
  by_cases hzero : 0 ∈ p
  · have hcut : parse (cutNul p) = none := by
      rw [← Option.not_isSome_iff_eq_none]
      exact fun hsome => h ⟨hzero, hsome⟩
    rw [hcut]
  · rw [cutNul_eq_self hzero]
    cases parse p <;> rfl

theorem CMsgRW.Carries.parseInto_agrees_iff {w : CMsgRW} {p : Bytes} (h : w.Carries p)
    (hpos : 1 ≤ p.length)
    (hrejects : RejectsNul parse) (out : μ) :
    AgreesWith (parse p) (w.parseInto parse out) ↔ ¬ NulHidesRest parse p := by
  rw [h.parseInto hpos]
  constructor
  · intro hagrees hidden
    obtain ⟨hsome, hnone⟩ := parsePayload_hidden hidden hrejects
    obtain ⟨m, hm⟩ := Option.isSome_iff_exists.mp hsome
    rw [hm, hnone] at hagrees
    simpa using hagrees.1
  · intro hidden
    rw [parsePayload_eq hidden]
    cases parse p with
    | none => simp [AgreesWith]
    | some m => simp [AgreesWith]

end Agreement

/-- After every successful read, each Parse function gives what a parse of the whole payload
    gives, unless the payload has a NUL with a message of the wanted type before it. -/
theorem Parse_agrees_iff (host : Endian) (rt : Runtime) (amb : Ambient) (w : CMsgRW) (s : Sock)
    (n : ℤ) (hret : (w.ReadPacket host amb s).outcome = .ret n) (hpos : 0 < n) :
    ∃ p, n = (p.length : ℤ) ∧
      (w.ReadPacket host amb s).rw.cells.read (w.ReadPacket host amb s).rw.m_lenmsg = some p ∧
      (∀ out, AgreesWith (MsgHeaderWrap.parse rt p)
          ((w.ReadPacket host amb s).rw.ParseMsgHeader rt out) ↔
        ¬ NulHidesRest (MsgHeaderWrap.parse rt) p) ∧
      (∀ out, AgreesWith (MsgCmd.parse rt p) ((w.ReadPacket host amb s).rw.ParseCommand rt out) ↔
        ¬ NulHidesRest (MsgCmd.parse rt) p) ∧
      ∀ out, AgreesWith (MsgResult.parse rt p)
          ((w.ReadPacket host amb s).rw.ParseResult rt out) ↔
        ¬ NulHidesRest (MsgResult.parse rt) p := by
  obtain ⟨p, hlen, -, hcarries, -⟩ := (w.ReadPacket_logged host amb s).positive n hret hpos
  have hp : 1 ≤ p.length := by omega
  have hread : (w.ReadPacket host amb s).rw.cells.read (w.ReadPacket host amb s).rw.m_lenmsg =
      some p := by
    rw [hcarries.lenmsg]
    exact hcarries.holds.read
  refine ⟨p, hlen, hread, ?_, ?_, ?_⟩
  · exact hcarries.parseInto_agrees_iff hp (MsgHeaderWrap.parse_rejectsNul rt)
  · exact hcarries.parseInto_agrees_iff hp (MsgCmd.parse_rejectsNul rt)
  · exact hcarries.parseInto_agrees_iff hp (MsgResult.parse_rejectsNul rt)

def headerAndNul : Bytes := [10, 2, 8, 1, 0]

def headerAndNulSock : Sock := ⟨unread (frame headerAndNul) [], [], []⟩

theorem headerAndNul_accepted :
    ¬ AgreesWith (MsgCmd.parse ⟨true⟩ headerAndNul)
      ((CMsgRW.init.ReadPacket .little ⟨0, true⟩ headerAndNulSock).rw.ParseCommand ⟨true⟩ {}) := by
  decide +kernel

theorem Parse_agrees_iff_headerAndNul :
    ∃ p, (5 : ℤ) = (p.length : ℤ) ∧
      (CMsgRW.init.ReadPacket .little ⟨0, true⟩ headerAndNulSock).rw.cells.read
        (CMsgRW.init.ReadPacket .little ⟨0, true⟩ headerAndNulSock).rw.m_lenmsg = some p ∧
      (∀ out, AgreesWith (MsgHeaderWrap.parse ⟨true⟩ p)
          ((CMsgRW.init.ReadPacket .little ⟨0, true⟩ headerAndNulSock).rw.ParseMsgHeader ⟨true⟩
            out) ↔
        ¬ NulHidesRest (MsgHeaderWrap.parse ⟨true⟩) p) := by
  obtain ⟨p, hlen, hread, hhdr, -⟩ :=
    Parse_agrees_iff .little ⟨true⟩ ⟨0, true⟩ CMsgRW.init headerAndNulSock 5 (by decide +kernel)
      (by decide)
  exact ⟨p, hlen, hread, hhdr⟩

end O2k.MsgBuffer
