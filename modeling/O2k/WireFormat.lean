import O2k.ByteOrder
import Mathlib.Order.Nat

set_option autoImplicit false

namespace O2k.WireFormat
open ByteOrder

def putVarint : ℕ → ℕ → Bytes
  | 0, _ => []
  | groups + 1, n =>
    if n < 128 then [UInt8.ofNat n]
    else UInt8.ofNat (n % 128 + 128) :: putVarint groups (n / 128)

def readVarint : ℕ → Bytes → Option (ℕ × Bytes)
  | 0, _ => none
  | _ + 1, [] => none
  | groups + 1, b :: bs =>
    if b.toNat < 128 then some (b.toNat, bs)
    else (readVarint groups bs).map fun (n, rest) => (b.toNat - 128 + 128 * n, rest)

def MAX_VARINT : ℕ := 10

def makeTag (number wireType : ℕ) : ℕ := 8 * number + wireType

/-- A tag is a 32-bit varint; the zero tag ends nothing but a malformed input. -/
def readTag (bs : Bytes) : Option (ℕ × Bytes) :=
  (readVarint MAX_VARINT bs).bind fun (n, rest) =>
    if n % 2 ^ 32 = 0 then none else some (n % 2 ^ 32, rest)

def readBytes (n : ℕ) (bs : Bytes) : Option (Bytes × Bytes) :=
  if n ≤ bs.length then some (bs.take n, bs.drop n) else none

def readDelimited (bs : Bytes) : Option (Bytes × Bytes) :=
  (readVarint MAX_VARINT bs).bind fun (n, rest) => readBytes (n % 2 ^ 32) rest

/-- How a runtime takes a submessage that claims more bytes than there are: it
    is cut at the end of the enclosing message, or rejected. -/
structure Runtime where
  clip : Bool

def Runtime.readSubmessage (rt : Runtime) (bs : Bytes) : Option (Bytes × Bytes) :=
  (readVarint MAX_VARINT bs).bind fun (n, rest) =>
    if 2 ^ 31 ≤ n % 2 ^ 64 then none
    else readBytes (if rt.clip then min (n % 2 ^ 64) rest.length else n % 2 ^ 64) rest

def skipValue (wireType : ℕ) (bs : Bytes) : Option Bytes :=
  match wireType with
  | 0 => (readVarint MAX_VARINT bs).map Prod.snd
  | 1 => (readBytes 8 bs).map Prod.snd
  | 2 => (readDelimited bs).map Prod.snd
  | 5 => (readBytes 4 bs).map Prod.snd
  | _ => none

def skipGroups (budget : ℕ) : ℕ → List ℕ → Bytes → Option Bytes
  | _, [], bs => some bs
  | 0, _ :: _, _ => none
  | fuel + 1, g :: gs, bs =>
    (readTag bs).bind fun (tag, rest) =>
      if tag % 8 = 4 then if tag / 8 = g then skipGroups budget fuel gs rest else none
      else if tag / 8 = 0 then none
      else if tag % 8 = 3 then
        if gs.length + 1 < budget then skipGroups budget fuel (tag / 8 :: g :: gs) rest else none
      else (skipValue (tag % 8) rest).bind (skipGroups budget fuel (g :: gs))

def skipField (budget tag : ℕ) (bs : Bytes) : Option Bytes :=
  if tag / 8 = 0 then none
  else if tag % 8 = 3 then
    if 0 < budget then skipGroups budget bs.length [tag / 8] bs else none
  else skipValue (tag % 8) bs

def validUtf8 (bs : Bytes) : Bool := (ByteArray.mk bs.toArray).validateUTF8

theorem utf8Encode_ascii {cs : List Char} (h : ∀ c ∈ cs, c.toNat < 128) :
    cs.utf8Encode = ⟨(cs.map fun c => UInt8.ofNat c.toNat).toArray⟩ := by
  induction cs with
  | nil => exact List.utf8Encode_nil
  | cons c cs ih =>
    obtain ⟨hc, hcs⟩ := List.forall_mem_cons.mp h
    have hle : c.val ≤ 127 := UInt32.le_iff_toNat_le.mpr (Nat.le_of_lt_succ hc)
    have hsize : c.utf8Size = 1 := by simp [Char.utf8Size, hle]
    rw [List.utf8Encode_cons, ih hcs, List.utf8Encode_singleton,
      String.utf8EncodeChar_eq_singleton hsize]
    ext : 1
    simp
    rfl

theorem validUtf8_ascii {cs : List Char} (h : ∀ c ∈ cs, c.toNat < 128) :
    validUtf8 (cs.map fun c => UInt8.ofNat c.toNat) = true := by
  rw [validUtf8, ← utf8Encode_ascii h]
  exact ByteArray.validateUTF8_eq_true_iff.mpr ByteArray.isValidUTF8_utf8Encode

/-- How a known field is read into a message; `merge` gets the recursion budget that is left. -/
inductive FieldKind (σ : Type) where
  | varint (set : ℕ → σ → σ)
  | fixed64 (set : Bytes → σ → σ)
  | bytes (set : Bytes → σ → σ)
  | string (set : Bytes → σ → σ)
  | message (merge : ℕ → Bytes → σ → Option σ)

def FieldKind.wireType {σ : Type} : FieldKind σ → ℕ
  | .varint _ => 0
  | .fixed64 _ => 1
  | .bytes _ => 2
  | .string _ => 2
  | .message _ => 2

structure FieldCase (σ : Type) where
  number : ℕ
  kind : FieldKind σ

def FieldCase.tag {σ : Type} (f : FieldCase σ) : ℕ := makeTag f.number f.kind.wireType

section Merge

variable {σ : Type} (rt : Runtime) (fields : List (FieldCase σ)) (budget : ℕ)

def FieldKind.read : FieldKind σ → Bytes → σ → Option (σ × Bytes)
  | .varint set, bs, s =>
    (readVarint MAX_VARINT bs).map fun (n, rest) => (set (n % 2 ^ 64) s, rest)
  | .fixed64 set, bs, s => (readBytes 8 bs).map fun (v, rest) => (set v s, rest)
  | .bytes set, bs, s => (readDelimited bs).map fun (v, rest) => (set v s, rest)
  | .string set, bs, s =>
    (readDelimited bs).bind fun (v, rest) => if validUtf8 v then some (set v s, rest) else none
  | .message merge, bs, s =>
    (rt.readSubmessage bs).bind fun (body, rest) =>
      if budget = 0 then none else (merge (budget - 1) body s).map fun s' => (s', rest)

def mergeField (bs : Bytes) (s : σ) : Option (σ × Bytes) :=
  (readTag bs).bind fun (tag, rest) =>
    match fields.find? (fun f => f.tag = tag) with
    | some f => f.kind.read rt budget rest s
    | none => (skipField budget tag rest).map fun rest => (s, rest)

def mergeLoop : ℕ → Bytes → σ → Option σ
  | _, [], s => some s
  | 0, _ :: _, _ => none
  | fuel + 1, b :: bs, s =>
    (mergeField rt fields budget (b :: bs) s).bind fun (s', rest) => mergeLoop fuel rest s'

/-- Every field takes at least its tag, so the length of the input is fuel enough. -/
def mergeFrom (bs : Bytes) (s : σ) : Option σ := mergeLoop rt fields budget bs.length bs s

end Merge

def DEFAULT_RECURSION_LIMIT : ℕ := 100

theorem readVarint_length {groups : ℕ} {bs rest : Bytes} {n : ℕ}
    (h : readVarint groups bs = some (n, rest)) : rest.length < bs.length := by
  induction groups generalizing bs n rest with
  | zero => cases h
  | succ groups ih =>
    match bs, h with
    | b :: bs, h =>
      by_cases hb : b.toNat < 128
      · simp only [readVarint, hb, ↓reduceIte, Option.some.injEq, Prod.mk.injEq] at h
        simp [← h.2]
      · simp only [readVarint, hb, ↓reduceIte, Option.map_eq_some_iff] at h
        obtain ⟨⟨m, rest'⟩, hm, heq⟩ := h
        obtain ⟨_, rfl⟩ := Prod.mk.inj heq
        have hlt := ih hm
        simp only [List.length_cons]
        omega

theorem readTag_length {bs rest : Bytes} {tag : ℕ} (h : readTag bs = some (tag, rest)) :
    rest.length < bs.length := by
  obtain ⟨⟨n, rest'⟩, hn, heq⟩ := Option.bind_eq_some_iff.mp h
  by_cases hz : n % 2 ^ 32 = 0
  · simp only [hz, ↓reduceIte, reduceCtorEq] at heq
  · simp only [hz, ↓reduceIte, Option.some.injEq, Prod.mk.injEq] at heq
    rw [← heq.2]
    exact readVarint_length hn

theorem readBytes_length {n : ℕ} {bs v rest : Bytes} (h : readBytes n bs = some (v, rest)) :
    rest.length ≤ bs.length := by
  by_cases hn : n ≤ bs.length
  · simp only [readBytes, hn, ↓reduceIte, Option.some.injEq, Prod.mk.injEq] at h
    rw [← h.2, List.length_drop]
    omega
  · simp [readBytes, hn] at h

theorem readDelimited_length {bs v rest : Bytes} (h : readDelimited bs = some (v, rest)) :
    rest.length < bs.length := by
  obtain ⟨⟨n, rest'⟩, hn, hb⟩ := Option.bind_eq_some_iff.mp h
  exact Nat.lt_of_le_of_lt (readBytes_length hb) (readVarint_length hn)

theorem readSubmessage_length {rt : Runtime} {bs v rest : Bytes}
    (h : rt.readSubmessage bs = some (v, rest)) : rest.length < bs.length := by
  obtain ⟨⟨n, rest'⟩, hn, hb⟩ := Option.bind_eq_some_iff.mp h
  by_cases hbig : 2 ^ 31 ≤ n % 2 ^ 64
  · simp only [hbig, ↓reduceIte, reduceCtorEq] at hb
  · simp only [hbig, ↓reduceIte] at hb
    exact Nat.lt_of_le_of_lt (readBytes_length hb) (readVarint_length hn)

theorem skipValue_length {wireType : ℕ} {bs rest : Bytes} (h : skipValue wireType bs = some rest) :
    rest.length ≤ bs.length := by
  unfold skipValue at h
  split at h
  · obtain ⟨⟨n, r⟩, hn, rfl⟩ := Option.map_eq_some_iff.mp h
    exact (readVarint_length hn).le
  · obtain ⟨⟨v, r⟩, hv, rfl⟩ := Option.map_eq_some_iff.mp h
    exact readBytes_length hv
  · obtain ⟨⟨v, r⟩, hv, rfl⟩ := Option.map_eq_some_iff.mp h
    exact (readDelimited_length hv).le
  · obtain ⟨⟨v, r⟩, hv, rfl⟩ := Option.map_eq_some_iff.mp h
    exact readBytes_length hv
  · cases h

theorem skipGroups_length {budget fuel : ℕ} {gs : List ℕ} {bs rest : Bytes}
    (h : skipGroups budget fuel gs bs = some rest) : rest.length ≤ bs.length := by
  induction fuel generalizing gs bs with
  | zero =>
    cases gs with
    | nil =>
      obtain rfl : bs = rest := by simpa [skipGroups] using h
      exact le_rfl
    | cons g gs => cases h
  | succ fuel ih =>
    cases gs with
    | nil =>
      obtain rfl : bs = rest := by simpa [skipGroups] using h
      exact le_rfl
    | cons g gs =>
      obtain ⟨⟨tag, r⟩, htag, h⟩ := Option.bind_eq_some_iff.mp h
      have hr := readTag_length htag
      dsimp only at h
      split at h
      · split at h
        · exact (ih h).trans hr.le
        · cases h
      · split at h
        · cases h
        · split at h
          · split at h
            · exact (ih h).trans hr.le
            · cases h
          · obtain ⟨r', hskip, h⟩ := Option.bind_eq_some_iff.mp h
            exact ((ih h).trans (skipValue_length hskip)).trans hr.le

theorem skipField_length {budget tag : ℕ} {bs rest : Bytes}
    (h : skipField budget tag bs = some rest) : rest.length ≤ bs.length := by
  unfold skipField at h
  split at h
  · cases h
  · split at h
    · split at h
      · exact skipGroups_length h
      · cases h
    · exact skipValue_length h

section Merge

variable {σ : Type} {rt : Runtime} {fields : List (FieldCase σ)} {budget : ℕ}

theorem FieldKind.read_length {kind : FieldKind σ} {bs rest : Bytes} {s s' : σ}
    (h : kind.read rt budget bs s = some (s', rest)) : rest.length ≤ bs.length := by
  cases kind with
  | varint set =>
    obtain ⟨⟨n, r⟩, hn, heq⟩ := Option.map_eq_some_iff.mp h
    obtain ⟨_, rfl⟩ := Prod.mk.inj heq
    exact (readVarint_length hn).le
  | fixed64 set =>
    obtain ⟨⟨v, r⟩, hv, heq⟩ := Option.map_eq_some_iff.mp h
    obtain ⟨_, rfl⟩ := Prod.mk.inj heq
    exact readBytes_length hv
  | bytes set =>
    obtain ⟨⟨v, r⟩, hv, heq⟩ := Option.map_eq_some_iff.mp h
    obtain ⟨_, rfl⟩ := Prod.mk.inj heq
    exact (readDelimited_length hv).le
  | string set =>
    obtain ⟨⟨v, r⟩, hv, h⟩ := Option.bind_eq_some_iff.mp h
    by_cases hu : validUtf8 v
    · simp only [hu, ↓reduceIte, Option.some.injEq, Prod.mk.injEq] at h
      rw [← h.2]
      exact (readDelimited_length hv).le
    · simp [hu] at h
  | message merge =>
    obtain ⟨⟨v, r⟩, hv, h⟩ := Option.bind_eq_some_iff.mp h
    by_cases hb : budget = 0
    · simp [hb] at h
    · simp only [hb, ↓reduceIte] at h
      obtain ⟨_, _, heq⟩ := Option.map_eq_some_iff.mp h
      obtain ⟨_, rfl⟩ := Prod.mk.inj heq
      exact (readSubmessage_length hv).le

theorem mergeField_length {bs rest : Bytes} {s s' : σ}
    (h : mergeField rt fields budget bs s = some (s', rest)) : rest.length < bs.length := by
  obtain ⟨⟨tag, r⟩, htag, h⟩ := Option.bind_eq_some_iff.mp h
  have hr := readTag_length htag
  dsimp only at h
  split at h
  · exact Nat.lt_of_le_of_lt (FieldKind.read_length h) hr
  · obtain ⟨r', hskip, heq⟩ := Option.map_eq_some_iff.mp h
    obtain ⟨_, rfl⟩ := Prod.mk.inj heq
    exact Nat.lt_of_le_of_lt (skipField_length hskip) hr

theorem mergeLoop_fuel (fuel more : ℕ) (bs : Bytes) (s : σ) (h : bs.length ≤ fuel) :
    mergeLoop rt fields budget (fuel + more) bs s = mergeLoop rt fields budget fuel bs s := by
  induction fuel generalizing bs s with
  | zero =>
    obtain rfl : bs = [] := List.length_eq_zero_iff.mp (by omega)
    cases more <;> rfl
  | succ fuel ih =>
    cases bs with
    | nil =>
      rw [Nat.succ_add]
      rfl
    | cons b bs =>
      rw [Nat.succ_add]
      simp only [mergeLoop]
      cases hf : mergeField rt fields budget (b :: bs) s with
      | none => rfl
      | some r =>
        obtain ⟨s', rest⟩ := r
        have hlt := mergeField_length hf
        simp only [List.length_cons] at h hlt
        exact ih rest s' (by omega)

theorem mergeFrom_nil (s : σ) : mergeFrom rt fields budget [] s = some s := rfl

theorem mergeFrom_step (bs : Bytes) (s : σ) (h : bs ≠ []) :
    mergeFrom rt fields budget bs s =
      (mergeField rt fields budget bs s).bind fun (s', rest) =>
        mergeFrom rt fields budget rest s' := by
  match bs, h with
  | b :: bs, _ =>
    simp only [mergeFrom, List.length_cons, mergeLoop]
    cases hf : mergeField rt fields budget (b :: bs) s with
    | none => rfl
    | some r =>
      obtain ⟨s', rest⟩ := r
      have hlt := mergeField_length hf
      simp only [List.length_cons] at hlt
      obtain ⟨more, hmore⟩ := Nat.exists_eq_add_of_le (Nat.le_of_lt_succ hlt)
      simp only [Option.bind_some, hmore]
      exact mergeLoop_fuel rest.length more rest s' le_rfl

end Merge

end O2k.WireFormat
