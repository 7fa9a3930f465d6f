import O2k.WireFormat

set_option autoImplicit false

namespace O2k.WireFormat
open ByteOrder

theorem readVarint_append {groups : ℕ} {bs rest : Bytes} {n : ℕ} (tail : Bytes)
    (h : readVarint groups bs = some (n, rest)) :
    readVarint groups (bs ++ tail) = some (n, rest ++ tail) := by
  induction groups generalizing bs n rest with
  | zero => cases h
  | succ groups ih =>
    match bs, h with
    | b :: bs, h =>
      rw [List.cons_append]
      by_cases hb : b.toNat < 128
      · simp only [readVarint, hb, ↓reduceIte, Option.some.injEq, Prod.mk.injEq] at h ⊢
        exact ⟨h.1, by rw [h.2]⟩
      · simp only [readVarint, hb, ↓reduceIte, Option.map_eq_some_iff] at h ⊢
        obtain ⟨⟨m, rest'⟩, hm, heq⟩ := h
        obtain ⟨rfl, rfl⟩ := Prod.mk.inj heq
        exact ⟨(m, rest' ++ tail), ih hm, rfl⟩

theorem readTag_append {bs rest : Bytes} {tag : ℕ} (tail : Bytes)
    (h : readTag bs = some (tag, rest)) : readTag (bs ++ tail) = some (tag, rest ++ tail) := by
  obtain ⟨⟨n, rest'⟩, hn, heq⟩ := Option.bind_eq_some_iff.mp h
  by_cases hz : n % 2 ^ 32 = 0
  · simp only [hz, ↓reduceIte, reduceCtorEq] at heq
  · simp only [hz, ↓reduceIte, Option.some.injEq, Prod.mk.injEq] at heq
    obtain ⟨rfl, rfl⟩ := heq
    simp only [readTag, readVarint_append tail hn, Option.bind_some, hz, ↓reduceIte]

theorem readTag_nul (tail : Bytes) : readTag (0 :: tail) = none := by
  simp [readTag, MAX_VARINT, readVarint]

theorem readBytes_append_tail {n : ℕ} {bs v rest : Bytes} (tail : Bytes)
    (h : readBytes n bs = some (v, rest)) : readBytes n (bs ++ tail) = some (v, rest ++ tail) := by
  by_cases hn : n ≤ bs.length
  · simp only [readBytes, hn, ↓reduceIte, Option.some.injEq, Prod.mk.injEq] at h
    obtain ⟨rfl, rfl⟩ := h
    have hn' : n ≤ (bs ++ tail).length := by
      rw [List.length_append]
      omega
    simp only [readBytes, hn', ↓reduceIte, List.take_append_of_le_length hn,
      List.drop_append_of_le_length hn]
  · simp [readBytes, hn] at h

theorem readDelimited_append {bs v rest : Bytes} (tail : Bytes)
    (h : readDelimited bs = some (v, rest)) : readDelimited (bs ++ tail) = some (v, rest ++ tail) := by
  obtain ⟨⟨n, rest'⟩, hn, hb⟩ := Option.bind_eq_some_iff.mp h
  simp only [readDelimited, readVarint_append tail hn, Option.bind_some]
  exact readBytes_append_tail tail hb

theorem skipValue_append {wireType : ℕ} {bs rest : Bytes} (tail : Bytes)
    (h : skipValue wireType bs = some rest) :
    skipValue wireType (bs ++ tail) = some (rest ++ tail) := by
  unfold skipValue at h ⊢
  split at h
  · obtain ⟨⟨n, r⟩, hn, rfl⟩ := Option.map_eq_some_iff.mp h
    rw [readVarint_append tail hn, Option.map_some]
  · obtain ⟨⟨v, r⟩, hv, rfl⟩ := Option.map_eq_some_iff.mp h
    rw [readBytes_append_tail tail hv, Option.map_some]
  · obtain ⟨⟨v, r⟩, hv, rfl⟩ := Option.map_eq_some_iff.mp h
    rw [readDelimited_append tail hv, Option.map_some]
  · obtain ⟨⟨v, r⟩, hv, rfl⟩ := Option.map_eq_some_iff.mp h
    rw [readBytes_append_tail tail hv, Option.map_some]
  · cases h

theorem skipGroups_append {budget fuel : ℕ} (more : ℕ) {gs : List ℕ} {bs rest : Bytes}
    (tail : Bytes) (h : skipGroups budget fuel gs bs = some rest) :
    skipGroups budget (fuel + more) gs (bs ++ tail) = some (rest ++ tail) := by
  induction fuel generalizing gs bs with
  | zero =>
    cases gs with
    | nil =>
      obtain rfl : bs = rest := by simpa [skipGroups] using h
      simp [skipGroups]
    | cons g gs => cases h
  | succ fuel ih =>
    cases gs with
    | nil =>
      obtain rfl : bs = rest := by simpa [skipGroups] using h
      simp [skipGroups]
    | cons g gs =>
      obtain ⟨⟨tag, r⟩, htag, h⟩ := Option.bind_eq_some_iff.mp h
      rw [Nat.succ_add]
      simp only [skipGroups, readTag_append tail htag, Option.bind_some]
      dsimp only at h
      by_cases hend : tag % 8 = 4
      · simp only [hend, ↓reduceIte] at h ⊢
        by_cases hg : tag / 8 = g
        · simp only [hg, ↓reduceIte] at h ⊢
          exact ih h
        · simp only [hg, ↓reduceIte, reduceCtorEq] at h
      · simp only [hend, ↓reduceIte] at h ⊢
        by_cases hzero : tag / 8 = 0
        · simp only [hzero, ↓reduceIte, reduceCtorEq] at h
        · simp only [hzero, ↓reduceIte] at h ⊢
          by_cases hstart : tag % 8 = 3
          · simp only [hstart, ↓reduceIte] at h ⊢
            by_cases hdeep : gs.length + 1 < budget
            · simp only [hdeep, ↓reduceIte] at h ⊢
              exact ih h
            · simp only [hdeep, ↓reduceIte, reduceCtorEq] at h
          · simp only [hstart, ↓reduceIte] at h ⊢
            obtain ⟨r', hskip, h⟩ := Option.bind_eq_some_iff.mp h
            rw [skipValue_append tail hskip, Option.bind_some]
            exact ih h

theorem skipField_append {budget tag : ℕ} {bs rest : Bytes} (tail : Bytes)
    (h : skipField budget tag bs = some rest) :
    skipField budget tag (bs ++ tail) = some (rest ++ tail) := by
  unfold skipField at h ⊢
  by_cases hzero : tag / 8 = 0
  · simp only [hzero, ↓reduceIte, reduceCtorEq] at h
  · simp only [hzero, ↓reduceIte] at h ⊢
    by_cases hstart : tag % 8 = 3
    · simp only [hstart, ↓reduceIte] at h ⊢
      by_cases hdeep : 0 < budget
      · simp only [hdeep, ↓reduceIte, List.length_append] at h ⊢
        exact skipGroups_append tail.length tail h
      · simp only [hdeep, ↓reduceIte, reduceCtorEq] at h
    · simp only [hstart, ↓reduceIte] at h ⊢
      exact skipValue_append tail h

section Stops

variable {σ : Type}

/-- Nothing that was read as a message is one with a zero byte behind it. -/
def StopsAtNul (merge : Bytes → σ → Option σ) : Prop :=
  ∀ bs tail s s', merge bs s = some s' → merge (bs ++ 0 :: tail) s = none

def FieldKind.StopsAtNul : FieldKind σ → Prop
  | .message merge => ∀ budget, WireFormat.StopsAtNul (merge budget)
  | _ => True

/-- A submessage either ends before the tail or was clipped, and then the tail runs into it. -/
theorem readSubmessage_append {rt : Runtime} {bs body rest : Bytes} (b : UInt8) (tail : Bytes)
    (h : rt.readSubmessage bs = some (body, rest)) :
    rt.readSubmessage (bs ++ b :: tail) = some (body, rest ++ b :: tail) ∨
      ∃ k, rt.readSubmessage (bs ++ b :: tail) =
        some (body ++ b :: tail.take k, tail.drop k) := by
  obtain ⟨⟨n, r⟩, hn, hb⟩ := Option.bind_eq_some_iff.mp h
  dsimp only at hb
  by_cases hbig : 2 ^ 31 ≤ n % 2 ^ 64
  · simp only [hbig, ↓reduceIte, reduceCtorEq] at hb
  simp only [Runtime.readSubmessage, readVarint_append (b :: tail) hn, Option.bind_some, hbig,
    ↓reduceIte] at hb ⊢
  by_cases hfits : n % 2 ^ 64 ≤ r.length
  · left
    have hmin : min (n % 2 ^ 64) r.length = n % 2 ^ 64 := by omega
    have hmin' : min (n % 2 ^ 64) (r ++ b :: tail).length = n % 2 ^ 64 := by
      rw [List.length_append]
      omega
    rw [hmin, ite_self] at hb
    rw [hmin', ite_self]
    exact readBytes_append_tail (b :: tail) hb
  · right
    cases hclip : rt.clip with
    | false => simp only [hclip, Bool.false_eq_true, readBytes, hfits, ↓reduceIte, reduceCtorEq] at hb
    | true =>
      have hmin : min (n % 2 ^ 64) r.length = r.length := by omega
      simp only [hclip, ↓reduceIte, hmin, readBytes, le_refl, Option.some.injEq, Prod.mk.injEq,
        List.take_length, List.drop_length] at hb
      obtain ⟨rfl, -⟩ := hb
      obtain ⟨k, hk⟩ : ∃ k, min (n % 2 ^ 64) (r ++ b :: tail).length = r.length + (k + 1) := by
        refine ⟨min (n % 2 ^ 64) (r ++ b :: tail).length - r.length - 1, ?_⟩
        simp only [List.length_append, List.length_cons]
        omega
      refine ⟨k, ?_⟩
      have hle : r.length + (k + 1) ≤ (r ++ b :: tail).length := by
        rw [← hk]
        exact min_le_right _ _
      simp only [↓reduceIte, hk, readBytes, hle]
      rw [List.take_append, List.drop_append, List.take_of_length_le (by omega),
        List.drop_eq_nil_of_le (by omega)]
      simp

variable {rt : Runtime} {fields : List (FieldCase σ)} {budget : ℕ}

theorem FieldKind.read_nul {kind : FieldKind σ} (hkind : kind.StopsAtNul) {bs rest : Bytes}
    (tail : Bytes) {s s' : σ} (h : kind.read rt budget bs s = some (s', rest)) :
    kind.read rt budget (bs ++ 0 :: tail) s = some (s', rest ++ 0 :: tail) ∨
      kind.read rt budget (bs ++ 0 :: tail) s = none := by
  cases kind with
  | varint set =>
    obtain ⟨⟨n, r⟩, hn, heq⟩ := Option.map_eq_some_iff.mp h
    obtain ⟨rfl, rfl⟩ := Prod.mk.inj heq
    left
    rw [FieldKind.read, readVarint_append _ hn, Option.map_some]
  | fixed64 set =>
    obtain ⟨⟨v, r⟩, hv, heq⟩ := Option.map_eq_some_iff.mp h
    obtain ⟨rfl, rfl⟩ := Prod.mk.inj heq
    left
    rw [FieldKind.read, readBytes_append_tail _ hv, Option.map_some]
  | bytes set =>
    obtain ⟨⟨v, r⟩, hv, heq⟩ := Option.map_eq_some_iff.mp h
    obtain ⟨rfl, rfl⟩ := Prod.mk.inj heq
    left
    rw [FieldKind.read, readDelimited_append _ hv, Option.map_some]
  | string set =>
    obtain ⟨⟨v, r⟩, hv, h⟩ := Option.bind_eq_some_iff.mp h
    left
    by_cases hu : validUtf8 v
    · simp only [hu, ↓reduceIte, Option.some.injEq, Prod.mk.injEq] at h
      obtain ⟨rfl, rfl⟩ := h
      simp only [FieldKind.read, readDelimited_append _ hv, Option.bind_some, hu, ↓reduceIte]
    · simp [hu] at h
  | message merge =>
    obtain ⟨⟨body, r⟩, hbody, h⟩ := Option.bind_eq_some_iff.mp h
    by_cases hb : budget = 0
    · simp [hb] at h
    simp only [hb, ↓reduceIte] at h
    obtain ⟨m, hm, heq⟩ := Option.map_eq_some_iff.mp h
    obtain ⟨rfl, rfl⟩ := Prod.mk.inj heq
    rcases readSubmessage_append 0 tail hbody with hwhole | ⟨k, hclip⟩
    · left
      simp only [FieldKind.read, hwhole, Option.bind_some, hb, ↓reduceIte, hm, Option.map_some]
    · right
      have hnone := hkind (budget - 1) body (tail.take k) s m hm
      simp only [FieldKind.read, hclip, Option.bind_some, hb, ↓reduceIte, hnone, Option.map_none]

theorem mergeField_nul (hfields : ∀ f ∈ fields, f.kind.StopsAtNul) {bs rest : Bytes}
    (tail : Bytes) {s s' : σ} (h : mergeField rt fields budget bs s = some (s', rest)) :
    mergeField rt fields budget (bs ++ 0 :: tail) s = some (s', rest ++ 0 :: tail) ∨
      mergeField rt fields budget (bs ++ 0 :: tail) s = none := by
  obtain ⟨⟨tag, r⟩, htag, h⟩ := Option.bind_eq_some_iff.mp h
  simp only [mergeField, readTag_append _ htag, Option.bind_some]
  dsimp only at h
  cases hfind : fields.find? (fun f => f.tag = tag) with
  | none =>
    simp only [hfind] at h
    obtain ⟨r', hskip, heq⟩ := Option.map_eq_some_iff.mp h
    obtain ⟨rfl, rfl⟩ := Prod.mk.inj heq
    left
    simp only [skipField_append _ hskip, Option.map_some]
  | some f =>
    simp only [hfind] at h
    exact FieldKind.read_nul (hfields f (List.mem_of_find?_eq_some hfind)) tail h

theorem mergeFrom_nul_cons (tail : Bytes) (s : σ) :
    mergeFrom rt fields budget (0 :: tail) s = none := by
  rw [mergeFrom_step _ _ (by simp), mergeField, readTag_nul, Option.bind_none, Option.bind_none]

/-- Field by field: each one is read as it was, until the zero byte stands where a tag should. -/
theorem mergeFrom_stopsAtNul (hfields : ∀ f ∈ fields, f.kind.StopsAtNul) :
    StopsAtNul (mergeFrom rt fields budget) := by
  intro bs tail s s' h
  induction hlen : bs.length using Nat.strong_induction_on generalizing bs s with
  | _ n ih =>
    subst hlen
    by_cases hnil : bs = []
    · rw [hnil, List.nil_append]
      exact mergeFrom_nul_cons tail s
    · rw [mergeFrom_step _ _ hnil] at h
      obtain ⟨⟨m, rest⟩, hfield, h⟩ := Option.bind_eq_some_iff.mp h
      rw [mergeFrom_step _ _ (by simp)]
      rcases mergeField_nul hfields tail hfield with hwhole | hnone
      · rw [hwhole, Option.bind_some]
        exact ih rest.length (mergeField_length hfield) rest m h rfl
      · rw [hnone, Option.bind_none]

def RejectsNul (parse : Bytes → Option σ) : Prop :=
  ∀ bs tail, (parse bs).isSome = true → parse (bs ++ 0 :: tail) = none

theorem StopsAtNul.rejects {merge : Bytes → σ → Option σ} (h : StopsAtNul merge) (s : σ) :
    RejectsNul fun bs => merge bs s := by
  intro bs tail hsome
  obtain ⟨m, hm⟩ := Option.isSome_iff_exists.mp hsome
  exact h bs tail s m hm

theorem StopsAtNul.map {τ : Type} {merge : Bytes → τ → Option τ} (h : StopsAtNul merge)
    (get : σ → τ) (set : σ → τ → σ) :
    StopsAtNul fun bs s => (merge bs (get s)).map (set s) := by
  intro bs tail s s' hs
  obtain ⟨m, hm, -⟩ := Option.map_eq_some_iff.mp hs
  change (merge (bs ++ 0 :: tail) (get s)).map (set s) = none
  rw [h bs tail (get s) m hm, Option.map_none]

end Stops

end O2k.WireFormat
