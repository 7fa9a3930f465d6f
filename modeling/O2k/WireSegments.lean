import O2k.WireFormat
import Mathlib.Tactic.Common

set_option autoImplicit false

namespace O2k.WireFormat
open ByteOrder

/-- What is left of some bytes when they are read as a C string. -/
def cutNul (bs : Bytes) : Bytes := bs.takeWhile (fun b => b != 0)

@[simp] theorem cutNul_nil : cutNul [] = [] := rfl

theorem cutNul_cons (b : UInt8) (bs : Bytes) :
    cutNul (b :: bs) = if b = 0 then [] else b :: cutNul bs := by
  by_cases hb : b = 0 <;> simp [cutNul, hb]

theorem cutNul_append_of_notMem {xs : Bytes} (ys : Bytes) (h : 0 ∉ xs) :
    cutNul (xs ++ ys) = xs ++ cutNul ys := by
  induction xs with
  | nil => rfl
  | cons x xs ih =>
    simp only [List.mem_cons, not_or] at h
    rw [List.cons_append, cutNul_cons, if_neg (Ne.symm h.1), ih h.2, List.cons_append]

theorem cutNul_eq_self {bs : Bytes} (h : 0 ∉ bs) : cutNul bs = bs := by
  have := cutNul_append_of_notMem [] h
  simpa using this

theorem cutNul_append_of_mem {xs : Bytes} (ys : Bytes) (h : 0 ∈ xs) :
    cutNul (xs ++ ys) = cutNul xs := by
  induction xs with
  | nil => cases h
  | cons x xs ih =>
    rw [List.cons_append, cutNul_cons, cutNul_cons]
    split
    · rfl
    · rename_i hx
      have hmem : 0 ∈ xs := by
        rcases List.mem_cons.mp h with h | h
        · exact absurd h.symm hx
        · exact h
      rw [ih hmem]

theorem cutNul_length_lt {bs : Bytes} (h : 0 ∈ bs) : (cutNul bs).length < bs.length := by
  induction bs with
  | nil => cases h
  | cons b bs ih =>
    rw [cutNul_cons]
    split
    · simp
    · rename_i hb
      have hmem : 0 ∈ bs := by
        rcases List.mem_cons.mp h with h | h
        · exact absurd h.symm hb
        · exact h
      simpa using ih hmem

theorem readVarint_putVarint (groups n : ℕ) (tail : Bytes) (h : n < 128 ^ (groups + 1)) :
    readVarint (groups + 1) (putVarint (groups + 1) n ++ tail) = some (n, tail) := by
  induction groups generalizing n with
  | zero =>
    have hn : n < 128 := by simpa using h
    have hb : (UInt8.ofNat n).toNat = n := by
      rw [UInt8.toNat_ofNat']
      omega
    simp [putVarint, hn, readVarint, hb]
  | succ groups ih =>
    rw [putVarint]
    by_cases hn : n < 128
    · have hb : (UInt8.ofNat n).toNat = n := by
        rw [UInt8.toNat_ofNat']
        omega
      simp [hn, readVarint, hb]
    · have hb : (UInt8.ofNat (n % 128 + 128)).toNat = n % 128 + 128 := by
        rw [UInt8.toNat_ofNat']
        omega
      have hbig : ¬ n % 128 + 128 < 128 := by omega
      have hdiv : n / 128 < 128 ^ (groups + 1) := by
        rw [Nat.pow_succ] at h
        omega
      rw [if_neg hn, List.cons_append, readVarint, hb, if_neg hbig, ih _ hdiv]
      simp only [Option.map_some, Option.some.injEq, Prod.mk.injEq, and_true]
      omega

theorem zero_notMem_putVarint (groups n : ℕ) (h : 0 < n) : 0 ∉ putVarint groups n := by
  induction groups generalizing n with
  | zero => simp [putVarint]
  | succ groups ih =>
    have hne (m : ℕ) (hpos : 0 < m) (hm : m < 256) : (0 : UInt8) ≠ UInt8.ofNat m := by
      intro heq
      have := congrArg UInt8.toNat heq
      rw [UInt8.toNat_ofNat'] at this
      simp at this
      omega
    rw [putVarint]
    split
    · simpa using hne n h (by omega)
    · simp only [List.mem_cons, not_or]
      exact ⟨hne _ (by omega) (by omega), ih _ (by omega)⟩

def putTag (number wireType : ℕ) : Bytes := putVarint MAX_VARINT (makeTag number wireType)

def putVarintField (number v : ℕ) : Bytes := putTag number 0 ++ putVarint MAX_VARINT v

def putDelimited (number : ℕ) (v : Bytes) : Bytes :=
  putTag number 2 ++ (putVarint MAX_VARINT v.length ++ v)

def putString (number : ℕ) (v : Bytes) : Bytes :=
  if v.length > 0 then putDelimited number v else []

/-- A 32-bit number and an enum are written as a sign-extended `int`. -/
def signExtend (n : ℕ) : ℕ := if n < 2 ^ 31 then n else n + (2 ^ 64 - 2 ^ 32)

theorem readVarint_put (n : ℕ) (tail : Bytes) (h : n < 2 ^ 64) :
    readVarint MAX_VARINT (putVarint MAX_VARINT n ++ tail) = some (n, tail) :=
  readVarint_putVarint 9 n tail (by omega)

theorem readBytes_append (v tail : Bytes) : readBytes v.length (v ++ tail) = some (v, tail) := by
  simp [readBytes]

theorem readDelimited_put (v tail : Bytes) (h : v.length < 2 ^ 31) :
    readDelimited (putVarint MAX_VARINT v.length ++ (v ++ tail)) = some (v, tail) := by
  have hmod : v.length % 2 ^ 32 = v.length := by omega
  simp only [readDelimited, readVarint_put v.length (v ++ tail) (by omega), Option.bind_some, hmod,
    readBytes_append]

theorem readDelimited_short (n : ℕ) (v : Bytes) (h : n < 2 ^ 31) (hv : v.length < n) :
    readDelimited (putVarint MAX_VARINT n ++ v) = none := by
  have hmod : n % 2 ^ 32 = n := by omega
  have hno : ¬ n ≤ v.length := by omega
  simp only [readDelimited, readVarint_put n v (by omega), Option.bind_some, hmod, readBytes, hno,
    ↓reduceIte]

theorem readSubmessage_put (rt : Runtime) (v tail : Bytes) (h : v.length < 2 ^ 31) :
    rt.readSubmessage (putVarint MAX_VARINT v.length ++ (v ++ tail)) = some (v, tail) := by
  have hmod : v.length % 2 ^ 64 = v.length := by omega
  have hbig : ¬ 2 ^ 31 ≤ v.length := by omega
  have hmin : min v.length (v ++ tail).length = v.length := by
    rw [List.length_append]
    omega
  simp only [Runtime.readSubmessage, readVarint_put v.length (v ++ tail) (by omega),
    Option.bind_some, hmod, hbig, hmin, ↓reduceIte, ite_self, readBytes_append]

theorem readSubmessage_short (rt : Runtime) (n : ℕ) (v : Bytes) (h : n < 2 ^ 31)
    (hv : v.length < n) :
    rt.readSubmessage (putVarint MAX_VARINT n ++ v) = if rt.clip then some (v, []) else none := by
  have hmod : n % 2 ^ 64 = n := by omega
  have hbig : ¬ 2 ^ 31 ≤ n := by omega
  have hmin : min n v.length = v.length := by omega
  have hno : ¬ n ≤ v.length := by omega
  simp only [Runtime.readSubmessage, readVarint_put n v (by omega), Option.bind_some, hmod, hbig,
    hmin, ↓reduceIte]
  cases rt.clip with
  | true => simpa using readBytes_append v []
  | false => simp [readBytes, hno]

section Segments

variable {σ : Type} {rt : Runtime} {fields : List (FieldCase σ)} {budget : ℕ}

structure Segment (rt : Runtime) (fields : List (FieldCase σ)) (budget : ℕ) (bs : Bytes)
    (set : σ → σ) : Prop where
  merges : ∀ tail s, mergeFrom rt fields budget (bs ++ tail) s =
    mergeFrom rt fields budget tail (set s)
  stuck : 0 ∈ bs → ∀ s, mergeFrom rt fields budget (cutNul bs) s = none

theorem Segment.merge {bs : Bytes} {set : σ → σ} (h : Segment rt fields budget bs set) (s : σ) :
    mergeFrom rt fields budget bs s = some (set s) := by
  have := h.merges [] s
  rwa [List.append_nil, mergeFrom_nil] at this

theorem Segment.nil : Segment rt fields budget [] (id : σ → σ) where
  merges _ _ := rfl
  stuck h := by cases h

theorem Segment.append {xs ys : Bytes} {f g : σ → σ} (hx : Segment rt fields budget xs f)
    (hy : Segment rt fields budget ys g) : Segment rt fields budget (xs ++ ys) (g ∘ f) where
  merges tail s := by
    rw [List.append_assoc, hx.merges, hy.merges, Function.comp_apply]
  stuck h s := by
    by_cases hzero : 0 ∈ xs
    · rw [cutNul_append_of_mem ys hzero]
      exact hx.stuck hzero s
    · have hmem : 0 ∈ ys := (List.mem_append.mp h).resolve_left hzero
      rw [cutNul_append_of_notMem ys hzero, hx.merges]
      exact hy.stuck hmem (f s)

theorem Segment.flatMap {α : Type} {enc : α → Bytes} {set : α → σ → σ} (xs : List α)
    (h : ∀ x ∈ xs, Segment rt fields budget (enc x) (set x)) :
    Segment rt fields budget (xs.flatMap enc) (fun s => xs.foldl (fun s x => set x s) s) := by
  induction xs with
  | nil => exact Segment.nil
  | cons x xs ih =>
    exact (h x (by simp)).append (ih (fun y hy => h y (by simp [hy])))

theorem Segment.of_field {bs : Bytes} {set : σ → σ} (hne : cutNul bs ≠ [])
    (hreads : ∀ tail s, mergeField rt fields budget (bs ++ tail) s = some (set s, tail))
    (hstuck : 0 ∈ bs → ∀ s, mergeField rt fields budget (cutNul bs) s = none) :
    Segment rt fields budget bs set where
  merges tail s := by
    have hbs : bs ++ tail ≠ [] := by
      intro hnil
      obtain ⟨rfl, _⟩ := List.append_eq_nil_iff.mp hnil
      exact hne rfl
    rw [mergeFrom_step _ _ hbs, hreads, Option.bind_some]
  stuck h s := by
    rw [mergeFrom_step _ _ hne, hstuck h, Option.bind_none]

theorem readTag_put {number wireType : ℕ} (bs : Bytes) (hpos : 0 < makeTag number wireType)
    (hlt : makeTag number wireType < 2 ^ 32) :
    readTag (putTag number wireType ++ bs) = some (makeTag number wireType, bs) := by
  have hmod : makeTag number wireType % 2 ^ 32 = makeTag number wireType := by omega
  have hne : ¬ makeTag number wireType = 0 := by omega
  simp only [readTag, putTag, readVarint_put (makeTag number wireType) bs (by omega),
    Option.bind_some, hmod, hne, ↓reduceIte]

def fieldReader (rt : Runtime) (fields : List (FieldCase σ)) (budget tag : ℕ) (bs : Bytes) (s : σ) :
    Option (σ × Bytes) :=
  match fields.find? (fun f => f.tag = tag) with
  | some f => f.kind.read rt budget bs s
  | none => (skipField budget tag bs).map fun rest => (s, rest)

theorem mergeField_put {number wireType : ℕ} (bs : Bytes) (s : σ)
    (hpos : 0 < makeTag number wireType) (hlt : makeTag number wireType < 2 ^ 32) :
    mergeField rt fields budget (putTag number wireType ++ bs) s =
      fieldReader rt fields budget (makeTag number wireType) bs s := by
  rw [mergeField, readTag_put bs hpos hlt]
  rfl

theorem tag_bounds {number wireType : ℕ} (hpos : 0 < number) (hlt : number < 2 ^ 29)
    (hwire : wireType < 8) : 0 < makeTag number wireType ∧ makeTag number wireType < 2 ^ 32 := by
  unfold makeTag
  omega

theorem putTag_ne_nil (number wireType : ℕ) : putTag number wireType ≠ [] := by
  unfold putTag MAX_VARINT putVarint
  split <;> simp

theorem mergeFrom_tagged {number wireType : ℕ} (bs : Bytes) (s : σ) (hpos : 0 < number)
    (hlt : number < 2 ^ 29) (hwire : wireType < 8) :
    mergeFrom rt fields budget (putTag number wireType ++ bs) s =
      (fieldReader rt fields budget (makeTag number wireType) bs s).bind fun (s', rest) =>
        mergeFrom rt fields budget rest s' := by
  obtain ⟨htag, hmax⟩ := tag_bounds hpos hlt hwire
  rw [mergeFrom_step _ _ (by simp [putTag_ne_nil]), mergeField_put bs s htag hmax]

/-- Bytes that no message begins with, or goes on with. -/
def Breaks (rt : Runtime) (fields : List (FieldCase σ)) (budget : ℕ) (bs : Bytes) : Prop :=
  ∀ tail s, mergeFrom rt fields budget (bs ++ tail) s = none

theorem Breaks.merge {bs : Bytes} (h : Breaks rt fields budget bs) (s : σ) :
    mergeFrom rt fields budget bs s = none := by
  have hnone := h [] s
  rwa [List.append_nil] at hnone

theorem Breaks.append {xs : Bytes} (h : Breaks rt fields budget xs) (ys : Bytes) :
    Breaks rt fields budget (xs ++ ys) := by
  intro tail s
  rw [List.append_assoc]
  exact h (ys ++ tail) s

theorem Segment.append_breaks {xs ys : Bytes} {f : σ → σ} (hx : Segment rt fields budget xs f)
    (hy : Breaks rt fields budget ys) : Breaks rt fields budget (xs ++ ys) := by
  intro tail s
  rw [List.append_assoc, hx.merges]
  exact hy tail (f s)

/-- The first of a list of fields that breaks is reached when those before it do not. -/
theorem Breaks.flatMap {α : Type} {enc : α → Bytes} {ok : α → Bool} {set : α → σ → σ}
    {xs : List α} (hreads : ∀ x ∈ xs, ok x = true → Segment rt fields budget (enc x) (set x))
    (hbreaks : ∀ x ∈ xs, ¬ ok x = true → Breaks rt fields budget (enc x))
    (h : ¬ xs.all ok = true) : Breaks rt fields budget (xs.flatMap enc) := by
  induction xs with
  | nil => exact absurd rfl h
  | cons x xs ih =>
    obtain ⟨hread, hreads⟩ := List.forall_mem_cons.mp hreads
    obtain ⟨hbreak, hbreaks⟩ := List.forall_mem_cons.mp hbreaks
    rw [List.flatMap_cons]
    by_cases hx : ok x = true
    · refine (hread hx).append_breaks (ih hreads hbreaks ?_)
      simpa [hx] using h
    · exact (hbreak hx).append _

theorem mergeFrom_text {number : ℕ} {v : Bytes} {set : Bytes → σ → σ}
    (hfind : fields.find? (fun f => f.tag = makeTag number 2) = some ⟨number, .string set⟩)
    (hpos : 0 < number) (hlt : number < 2 ^ 29) (hlen : v.length < 2 ^ 31) (tail : Bytes) (s : σ) :
    mergeFrom rt fields budget (putDelimited number v ++ tail) s =
      if validUtf8 v then mergeFrom rt fields budget tail (set v s) else none := by
  rw [putDelimited, List.append_assoc, List.append_assoc,
    mergeFrom_tagged _ _ hpos hlt (by decide)]
  simp only [fieldReader, hfind, FieldKind.read, readDelimited_put v tail hlen, Option.bind_some]
  split <;> rfl

theorem mergeFrom_message {number : ℕ} {body : Bytes} {merge : ℕ → Bytes → σ → Option σ}
    (hfind : fields.find? (fun f => f.tag = makeTag number 2) = some ⟨number, .message merge⟩)
    (hpos : 0 < number) (hlt : number < 2 ^ 29) (hlen : body.length < 2 ^ 31) (hbudget : 0 < budget)
    (tail : Bytes) (s : σ) :
    mergeFrom rt fields budget (putDelimited number body ++ tail) s =
      (merge (budget - 1) body s).bind (mergeFrom rt fields budget tail) := by
  have hb : ¬ budget = 0 := by omega
  rw [putDelimited, List.append_assoc, List.append_assoc,
    mergeFrom_tagged _ _ hpos hlt (by decide)]
  simp only [fieldReader, hfind, FieldKind.read, readSubmessage_put rt body tail hlen,
    Option.bind_some, hb, ↓reduceIte]
  cases merge (budget - 1) body s <;> rfl

theorem zero_notMem_putTag {number wireType : ℕ} (h : 0 < makeTag number wireType) :
    0 ∉ putTag number wireType :=
  zero_notMem_putVarint _ _ h

theorem cutNul_putTag_append {number wireType : ℕ} (h : 0 < makeTag number wireType) (bs : Bytes) :
    cutNul (putTag number wireType ++ bs) = putTag number wireType ++ cutNul bs :=
  cutNul_append_of_notMem bs (zero_notMem_putTag h)

theorem Segment.of_tagged {number wireType : ℕ} {bs : Bytes} {set : σ → σ}
    (hpos : 0 < number) (hlt : number < 2 ^ 29) (hwire : wireType < 8)
    (hreads : ∀ tail s, fieldReader rt fields budget (makeTag number wireType) (bs ++ tail) s =
      some (set s, tail))
    (hstuck : 0 ∈ bs → ∀ s,
      fieldReader rt fields budget (makeTag number wireType) (cutNul bs) s = none) :
    Segment rt fields budget (putTag number wireType ++ bs) set := by
  obtain ⟨htag, hmax⟩ := tag_bounds hpos hlt hwire
  apply Segment.of_field
  · rw [cutNul_putTag_append htag]
    simp [putTag_ne_nil]
  · intro tail s
    rw [List.append_assoc, mergeField_put _ s htag hmax, hreads]
  · intro hmem s
    have hbs : 0 ∈ bs := (List.mem_append.mp hmem).resolve_left (zero_notMem_putTag htag)
    rw [cutNul_putTag_append htag, mergeField_put _ s htag hmax, hstuck hbs]

theorem Segment.varint (number v : ℕ) {set : ℕ → σ → σ}
    (hfind : fields.find? (fun f => f.tag = makeTag number 0) = some ⟨number, .varint set⟩)
    (hpos : 0 < number) (hlt : number < 2 ^ 29) (hv : v < 2 ^ 64) :
    Segment rt fields budget (putVarintField number v) (set v) := by
  apply Segment.of_tagged hpos hlt (by decide)
  · intro tail s
    have hmod : v % 2 ^ 64 = v := by omega
    simp only [fieldReader, hfind, FieldKind.read, readVarint_put v tail hv, Option.map_some, hmod]
  · intro hmem s
    rcases Nat.eq_zero_or_pos v with rfl | hpos
    · simp only [fieldReader, hfind, FieldKind.read]
      rfl
    · exact absurd hmem (zero_notMem_putVarint _ _ hpos)

/-- The length of a delimited value that is not empty has no NUL, so a cut falls into the value. -/
theorem cutNul_delimited (v : Bytes) (h : 0 < v.length) :
    cutNul (putVarint MAX_VARINT v.length ++ v) = putVarint MAX_VARINT v.length ++ cutNul v :=
  cutNul_append_of_notMem v (zero_notMem_putVarint _ _ h)

theorem readDelimited_cut {v : Bytes} (hlen : v.length < 2 ^ 31)
    (h : 0 ∈ putVarint MAX_VARINT v.length ++ v) :
    readDelimited (cutNul (putVarint MAX_VARINT v.length ++ v)) = none := by
  cases v with
  | nil => rfl
  | cons b v =>
    have hcut : 0 ∈ b :: v :=
      (List.mem_append.mp h).resolve_left (zero_notMem_putVarint _ _ (by simp))
    rw [cutNul_delimited _ (by simp)]
    exact readDelimited_short _ _ hlen (cutNul_length_lt hcut)

theorem Segment.string {number : ℕ} {v : Bytes} {set : Bytes → σ → σ}
    (hfind : fields.find? (fun f => f.tag = makeTag number 2) = some ⟨number, .string set⟩)
    (hpos : 0 < number) (hlt : number < 2 ^ 29) (hlen : v.length < 2 ^ 31)
    (hutf : validUtf8 v = true) : Segment rt fields budget (putDelimited number v) (set v) := by
  apply Segment.of_tagged hpos hlt (by decide)
  · intro tail s
    rw [List.append_assoc]
    simp only [fieldReader, hfind, FieldKind.read, readDelimited_put v tail hlen, Option.bind_some,
      hutf, ↓reduceIte]
  · intro hmem s
    simp only [fieldReader, hfind, FieldKind.read, readDelimited_cut hlen hmem, Option.bind_none]

theorem Segment.bytes {number : ℕ} {v : Bytes} {set : Bytes → σ → σ}
    (hfind : fields.find? (fun f => f.tag = makeTag number 2) = some ⟨number, .bytes set⟩)
    (hpos : 0 < number) (hlt : number < 2 ^ 29) (hlen : v.length < 2 ^ 31) :
    Segment rt fields budget (putDelimited number v) (set v) := by
  apply Segment.of_tagged hpos hlt (by decide)
  · intro tail s
    rw [List.append_assoc]
    simp only [fieldReader, hfind, FieldKind.read, readDelimited_put v tail hlen, Option.map_some]
  · intro hmem s
    simp only [fieldReader, hfind, FieldKind.read, readDelimited_cut hlen hmem, Option.map_none]

theorem Segment.unknown {number : ℕ} {v : Bytes}
    (hfind : fields.find? (fun f => f.tag = makeTag number 2) = none)
    (hpos : 0 < number) (hlt : number < 2 ^ 29) (hlen : v.length < 2 ^ 31) :
    Segment rt fields budget (putDelimited number v) id := by
  have hnum : makeTag number 2 / 8 = number := by
    unfold makeTag
    omega
  have hwire : makeTag number 2 % 8 = 2 := by
    unfold makeTag
    omega
  have hno : ¬ number = 0 := by omega
  apply Segment.of_tagged hpos hlt (by decide)
  · intro tail s
    rw [List.append_assoc]
    simp [fieldReader, hfind, skipField, hnum, hwire, hno, skipValue, readDelimited_put v tail hlen]
  · intro hmem s
    simp [fieldReader, hfind, skipField, hnum, hwire, hno, skipValue, readDelimited_cut hlen hmem]

theorem Segment.message {number : ℕ} {body : Bytes} {merge : ℕ → Bytes → σ → Option σ}
    {set : σ → σ}
    (hfind : fields.find? (fun f => f.tag = makeTag number 2) = some ⟨number, .message merge⟩)
    (hpos : 0 < number) (hlt : number < 2 ^ 29) (hlen : body.length < 2 ^ 31) (hbudget : 0 < budget)
    (hmerge : ∀ s, merge (budget - 1) body s = some (set s))
    (hcut : 0 ∈ body → ∀ s, merge (budget - 1) (cutNul body) s = none) :
    Segment rt fields budget (putDelimited number body) set := by
  have hb : ¬ budget = 0 := by omega
  apply Segment.of_tagged hpos hlt (by decide)
  · intro tail s
    rw [List.append_assoc]
    simp only [fieldReader, hfind, FieldKind.read, readSubmessage_put rt body tail hlen,
      Option.bind_some, hb, ↓reduceIte, hmerge, Option.map_some]
  · intro hmem s
    cases body with
    | nil =>
      simp only [fieldReader, hfind, FieldKind.read]
      rfl
    | cons b body =>
      have hzero : 0 ∈ b :: body :=
        (List.mem_append.mp hmem).resolve_left (zero_notMem_putVarint _ _ (by simp))
      rw [cutNul_delimited _ (by simp)]
      simp only [fieldReader, hfind, FieldKind.read,
        readSubmessage_short rt _ _ hlen (cutNul_length_lt hzero)]
      -- a clipping runtime goes on into the cut body, which is no message either
      cases rt.clip with
      | true => simp only [↓reduceIte, Option.bind_some, hb, hcut hzero, Option.map_none]
      | false => rfl

theorem putDelimited_length (number : ℕ) (v : Bytes) : v.length ≤ (putDelimited number v).length := by
  simp only [putDelimited, List.length_append]
  omega

theorem putString_length (number : ℕ) (v : Bytes) : v.length ≤ (putString number v).length := by
  unfold putString
  split
  · exact putDelimited_length number v
  · omega

def storeString (set : Bytes → σ → σ) (v : Bytes) (s : σ) : σ := if v.length > 0 then set v s else s

theorem putString_segment {number : ℕ} {v : Bytes} {set : Bytes → σ → σ}
    (h : Segment rt fields budget (putDelimited number v) (set v)) :
    Segment rt fields budget (putString number v) (storeString set v) := by
  by_cases hv : v.length > 0
  · have hput : putString number v = putDelimited number v := if_pos hv
    have hset : storeString set v = set v := by
      funext s
      exact if_pos hv
    rwa [hput, hset]
  · have hput : putString number v = [] := if_neg hv
    have hset : storeString set v = id := by
      funext s
      exact if_neg hv
    rw [hput, hset]
    exact Segment.nil

theorem string_segment (number : ℕ) (v : Bytes) {set : Bytes → σ → σ}
    (hfind : fields.find? (fun f => f.tag = makeTag number 2) = some ⟨number, .string set⟩)
    (hpos : 0 < number) (hlt : number < 2 ^ 29) (hlen : v.length < 2 ^ 31)
    (hutf : validUtf8 v = true) :
    Segment rt fields budget (putString number v) (storeString set v) :=
  putString_segment (Segment.string hfind hpos hlt hlen hutf)

theorem bytes_segment (number : ℕ) (v : Bytes) {set : Bytes → σ → σ}
    (hfind : fields.find? (fun f => f.tag = makeTag number 2) = some ⟨number, .bytes set⟩)
    (hpos : 0 < number) (hlt : number < 2 ^ 29) (hlen : v.length < 2 ^ 31) :
    Segment rt fields budget (putString number v) (storeString set v) :=
  putString_segment (Segment.bytes hfind hpos hlt hlen)

theorem storeString_eq {set : Bytes → σ → σ} (get : σ → Bytes) (v : Bytes) (s : σ)
    (hget : get s = []) (hset : set (get s) s = s) : storeString set v s = set v s := by
  unfold storeString
  split
  · rfl
  · have hnil : v = [] := List.length_eq_zero_iff.mp (by omega)
    rw [hnil, ← hget, hset]

theorem unknown_string_segment (number : ℕ) (v : Bytes)
    (hfind : fields.find? (fun f => f.tag = makeTag number 2) = none)
    (hpos : 0 < number) (hlt : number < 2 ^ 29) (hlen : v.length < 2 ^ 31) :
    Segment rt fields budget (putString number v) id := by
  unfold putString
  split
  · exact Segment.unknown hfind hpos hlt hlen
  · exact Segment.nil

structure ParsesTo {σ : Type} (parse : Bytes → Option σ) (bs : Bytes) (m : σ) : Prop where
  whole : parse bs = some m
  cut : 0 ∈ bs → parse (cutNul bs) = none

theorem Segment.parsesTo {bs : Bytes} {set : σ → σ} {m new : σ}
    (h : Segment rt fields budget bs set) (hm : set new = m) :
    ParsesTo (fun bs => mergeFrom rt fields budget bs new) bs m where
  whole := by rw [h.merge, hm]
  cut hzero := h.stuck hzero new

end Segments

end O2k.WireFormat
