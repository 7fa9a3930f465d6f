import O2k.WireSegments
import Mathlib.Tactic.Simps.Basic

set_option autoImplicit false

/-!
# Message codecs

A message type is a list of field codecs. A field codec writes its part of a
message, says how that part is read, and carries the proofs that reading what
was written stores the field, or fails when a text in it is not UTF-8. What
becomes of a message follows once: its fields have different tags, and copying
them one by one makes up the message.
-/
namespace O2k.WireFormat
open ByteOrder

/-- A value that travels as a varint; `zero` is not written. -/
structure Scalar (α : Type) where
  enc : α → ℕ
  dec : ℕ → α
  zero : α
  enc_lt : ∀ a, enc a < 2 ^ 64
  dec_enc : ∀ a, dec (enc a) = a
  enc_zero : ∀ a, enc a = 0 ↔ a = zero

theorem signExtend_toNat_lt (n : UInt32) : signExtend n.toNat < 2 ^ 64 := by
  have hlt := n.toNat_lt
  unfold signExtend
  split <;> omega

theorem ofNat_signExtend_toNat (n : UInt32) : UInt32.ofNat (signExtend n.toNat) = n := by
  apply UInt32.toNat_inj.mp
  have hlt := n.toNat_lt
  rw [UInt32.toNat_ofNat', signExtend]
  split <;> omega

@[simps]
def Scalar.int32 : Scalar UInt32 where
  enc n := signExtend n.toNat
  dec := UInt32.ofNat
  zero := 0
  enc_lt := signExtend_toNat_lt
  dec_enc := ofNat_signExtend_toNat
  enc_zero n := by
    constructor
    · intro h
      rw [← ofNat_signExtend_toNat n, h]
      rfl
    · rintro rfl
      rfl

@[simps]
def Scalar.int64 : Scalar UInt64 where
  enc := UInt64.toNat
  dec := UInt64.ofNat
  zero := 0
  enc_lt := UInt64.toNat_lt
  dec_enc _ := UInt64.ofNat_toNat
  enc_zero n := by
    constructor
    · intro h
      exact UInt64.toNat_inj.mp h
    · rintro rfl
      rfl

@[simps]
def Scalar.bool : Scalar Bool where
  enc := Bool.toNat
  dec n := n ≠ 0
  zero := false
  enc_lt b := by cases b <;> decide
  dec_enc b := by cases b <;> rfl
  enc_zero b := by cases b <;> decide

/-- A field of a message type. `store m s` is what reading the field of `m` makes of `s`; on a
    message that does not have the field yet it is the copy of the field. -/
structure FieldCodec (depth : ℕ) (σ : Type) where
  tag : ℕ
  case : Runtime → FieldCase σ
  case_tag : ∀ rt, (case rt).tag = tag
  put : σ → Bytes
  store : σ → σ → σ
  copy : σ → σ → σ
  Empty : σ → Prop
  utf8 : σ → Bool
  store_copy : ∀ m s, Empty s → store m s = copy m s
  reads : ∀ {rt : Runtime} {table : List (FieldCase σ)} {budget : ℕ}, depth ≤ budget →
    table.find? (fun f => f.tag = tag) = some (case rt) → ∀ m, (put m).length < 2 ^ 31 →
      utf8 m = true → Segment rt table budget (put m) (store m)
  breaks : ∀ {rt : Runtime} {table : List (FieldCase σ)} {budget : ℕ}, depth ≤ budget →
    table.find? (fun f => f.tag = tag) = some (case rt) → ∀ m, (put m).length < 2 ^ 31 →
      ¬ utf8 m = true → Breaks rt table budget (put m)

def IsNumber (number : ℕ) : Prop := 0 < number ∧ number < 2 ^ 29

instance (number : ℕ) : Decidable (IsNumber number) := inferInstanceAs (Decidable (_ ∧ _))

theorem Segment.optional {σ : Type} {rt : Runtime} {fields : List (FieldCase σ)} {budget : ℕ}
    {p : Prop} [Decidable p] {bs : Bytes} {set : σ → σ}
    (h : p → Segment rt fields budget bs set) :
    Segment rt fields budget (if p then bs else []) (fun s => if p then set s else s) := by
  by_cases hp : p
  · simpa only [if_pos hp] using h hp
  · simp only [if_neg hp]
    exact Segment.nil

def putOption {α : Type} (put : α → Bytes) : Option α → Bytes
  | none => []
  | some a => put a

section Fields

variable {σ α : Type} {depth : ℕ} (number : ℕ) (hnumber : IsNumber number)

@[simps copy Empty]
def scalarField (c : Scalar α) (get : σ → α) (set : α → σ → σ) (hset : ∀ s, set (get s) s = s) :
    FieldCodec depth σ where
  tag := makeTag number 0
  case _ := ⟨number, .varint fun n s => set (c.dec n) s⟩
  case_tag _ := rfl
  put m := if c.enc (get m) ≠ 0 then putVarintField number (c.enc (get m)) else []
  store m s := if c.enc (get m) ≠ 0 then set (get m) s else s
  copy m s := set (get m) s
  Empty s := get s = c.zero
  utf8 _ := true
  store_copy m s hempty := by
    split
    · rfl
    · rename_i hzero
      have hm : get m = c.zero := (c.enc_zero _).mp (not_not.mp hzero)
      rw [hm, ← hempty, hset]
  reads {rt table budget} _ hfind m _ _ := by
    refine Segment.optional fun _ => ?_
    have hseg : Segment rt table budget (putVarintField number (c.enc (get m)))
        (set (c.dec (c.enc (get m)))) :=
      Segment.varint number (c.enc (get m)) hfind hnumber.1 hnumber.2 (c.enc_lt _)
    rwa [c.dec_enc] at hseg
  breaks _ _ _ _ hutf := absurd rfl hutf

@[simps copy Empty]
def oneofField (c : Scalar α) (get : σ → Option α) (set : Option α → σ → σ)
    (hset : ∀ s, set (get s) s = s) : FieldCodec depth σ where
  tag := makeTag number 0
  case _ := ⟨number, .varint fun n s => set (some (c.dec n)) s⟩
  case_tag _ := rfl
  put m := putOption (fun a => putVarintField number (c.enc a)) (get m)
  store m s := if (get m).isSome then set (get m) s else s
  copy m s := set (get m) s
  Empty s := get s = none
  utf8 _ := true
  store_copy m s hempty := by
    cases hm : get m with
    | none => rw [if_neg (by simp), ← hempty, hset]
    | some a => exact if_pos rfl
  reads {rt table budget} _ hfind m _ _ := by
    cases hm : get m with
    | none => exact Segment.nil
    | some a =>
      have hseg : Segment rt table budget (putVarintField number (c.enc a))
          (set (some (c.dec (c.enc a)))) :=
        Segment.varint number (c.enc a) hfind hnumber.1 hnumber.2 (c.enc_lt _)
      rwa [c.dec_enc] at hseg
  breaks _ _ _ _ hutf := absurd rfl hutf

@[simps copy Empty]
def textField (get : σ → Bytes) (set : Bytes → σ → σ) (hset : ∀ s, set (get s) s = s) :
    FieldCodec depth σ where
  tag := makeTag number 2
  case _ := ⟨number, .string set⟩
  case_tag _ := rfl
  put m := putString number (get m)
  store m s := storeString set (get m) s
  copy m s := set (get m) s
  Empty s := get s = []
  utf8 m := validUtf8 (get m)
  store_copy m s hempty := storeString_eq get (get m) s hempty (hset s)
  reads _ hfind m hlen hutf :=
    string_segment number (get m) hfind hnumber.1 hnumber.2
      ((putString_length number (get m)).trans_lt hlen) hutf
  breaks {rt table budget} _ hfind m hlen hutf tail s := by
    have hsome : (get m).length > 0 := by
      rw [gt_iff_lt, List.length_pos_iff]
      intro hnil
      exact hutf (by rw [hnil]; rfl)
    have hshort := (putString_length number (get m)).trans_lt hlen
    rw [putString, if_pos hsome, mergeFrom_text hfind hnumber.1 hnumber.2 hshort, if_neg hutf]

@[simps copy Empty]
def bytesField (get : σ → Bytes) (set : Bytes → σ → σ) (hset : ∀ s, set (get s) s = s) :
    FieldCodec depth σ where
  tag := makeTag number 2
  case _ := ⟨number, .bytes set⟩
  case_tag _ := rfl
  put m := putString number (get m)
  store m s := storeString set (get m) s
  copy m s := set (get m) s
  Empty s := get s = []
  utf8 _ := true
  store_copy m s hempty := storeString_eq get (get m) s hempty (hset s)
  reads _ hfind m hlen _ :=
    bytes_segment number (get m) hfind hnumber.1 hnumber.2
      ((putString_length number (get m)).trans_lt hlen)
  breaks _ _ _ _ hutf := absurd rfl hutf

end Fields

/-- Copied into `s` one by one, the fields make up `m`, and none is there before its copy. -/
def Assembles {depth : ℕ} {σ : Type} (m : σ) :
    List (FieldCodec depth σ) → σ → Prop
  | [], s => s = m
  | f :: fs, s => f.Empty s ∧ Assembles m fs (f.copy m s)

@[simp] theorem assembles_nil {depth : ℕ} {σ : Type} {m s : σ} :
    Assembles m ([] : List (FieldCodec depth σ)) s ↔ s = m :=
  Iff.rfl

@[simp] theorem assembles_cons {depth : ℕ} {σ : Type} {m s : σ}
    {f : FieldCodec depth σ} {fs : List (FieldCodec depth σ)} :
    Assembles m (f :: fs) s ↔ f.Empty s ∧ Assembles m fs (f.copy m s) :=
  Iff.rfl

structure MessageCodec (depth : ℕ) (σ : Type) where
  new : σ
  fields : List (FieldCodec depth σ)
  distinct : (fields.map FieldCodec.tag).Nodup
  assembles : ∀ m, Assembles m fields new

namespace MessageCodec

variable {depth : ℕ} {σ : Type} (M : MessageCodec depth σ) (rt : Runtime)

def table : List (FieldCase σ) := M.fields.map fun f => f.case rt

def serialize (m : σ) : Bytes := M.fields.flatMap fun f => f.put m

def utf8 (m : σ) : Bool := M.fields.all fun f => f.utf8 m

def apply (m s : σ) : σ := M.fields.foldl (fun s f => f.store m s) s

def parse (bs : Bytes) : Option σ := mergeFrom rt (M.table rt) DEFAULT_RECURSION_LIMIT bs M.new

theorem find_case {fields : List (FieldCodec depth σ)}
    (hdistinct : (fields.map FieldCodec.tag).Nodup) {f : FieldCodec depth σ} (hf : f ∈ fields) :
    (fields.map fun g => g.case rt).find? (fun g => g.tag = f.tag) = some (f.case rt) := by
  induction fields with
  | nil => cases hf
  | cons g fields ih =>
    rw [List.map_cons, List.nodup_cons] at hdistinct
    rcases List.mem_cons.mp hf with rfl | hf
    · simp [f.case_tag]
    · have hne : g.tag ≠ f.tag := by
        intro heq
        exact hdistinct.1 (heq ▸ List.mem_map_of_mem hf)
      rw [List.map_cons, List.find?_cons_of_neg (by simpa [g.case_tag] using hne)]
      exact ih hdistinct.2 hf

theorem put_length {f : FieldCodec depth σ} (hf : f ∈ M.fields) (m : σ) :
    (f.put m).length ≤ (M.serialize m).length := by
  obtain ⟨xs, ys, heq⟩ := List.append_of_mem hf
  rw [serialize, heq, List.flatMap_append, List.flatMap_cons, List.length_append,
    List.length_append]
  omega

theorem segment {budget : ℕ} (hdepth : depth ≤ budget) {m : σ}
    (hlen : (M.serialize m).length < 2 ^ 31) (hutf : M.utf8 m = true) :
    Segment rt (M.table rt) budget (M.serialize m) (M.apply m) :=
  Segment.flatMap M.fields fun f hf =>
    f.reads hdepth (find_case rt M.distinct hf) m ((M.put_length hf m).trans_lt hlen)
      (List.all_eq_true.mp hutf f hf)

theorem breaks {budget : ℕ} (hdepth : depth ≤ budget) {m : σ}
    (hlen : (M.serialize m).length < 2 ^ 31) (hutf : ¬ M.utf8 m = true) :
    Breaks rt (M.table rt) budget (M.serialize m) :=
  Breaks.flatMap
    (fun f hf => f.reads hdepth (find_case rt M.distinct hf) m
      ((M.put_length hf m).trans_lt hlen))
    (fun f hf => f.breaks hdepth (find_case rt M.distinct hf) m
      ((M.put_length hf m).trans_lt hlen)) hutf

theorem foldl_store {m s : σ} {fields : List (FieldCodec depth σ)}
    (h : Assembles m fields s) : fields.foldl (fun s f => f.store m s) s = m := by
  induction fields generalizing s with
  | nil => exact h
  | cons f fields ih =>
    rw [List.foldl_cons, f.store_copy m s h.1]
    exact ih h.2

theorem apply_new (m : σ) : M.apply m M.new = m := foldl_store (M.assembles m)

/-- A message that was written is read back if its texts are UTF-8, and is not read otherwise. -/
theorem parse_serialize (hdepth : depth ≤ DEFAULT_RECURSION_LIMIT) {m : σ}
    (hlen : (M.serialize m).length < 2 ^ 31) :
    M.parse rt (M.serialize m) = if M.utf8 m = true then some m else none := by
  rw [parse]
  split
  · rename_i hutf
    rw [(M.segment rt hdepth hlen hutf).merge, M.apply_new]
  · rename_i hutf
    exact (M.breaks rt hdepth hlen hutf).merge M.new

end MessageCodec

section Messages

variable {σ τ : Type} {depth sub : ℕ} (number : ℕ) (hnumber : IsNumber number)
  (M : MessageCodec sub τ) (hsub : sub < depth)

section Submessage

variable {rt : Runtime} {table : List (FieldCase σ)} {budget : ℕ}
  {merge : ℕ → Bytes → σ → Option σ} (start : σ → τ) (put : τ → σ → σ) {x : τ}
  (hdepth : depth ≤ budget)
  (hfind : table.find? (fun f => f.tag = makeTag number 2) = some ⟨number, .message merge⟩)
  (hmerge : ∀ b bs s,
    merge b bs s = (mergeFrom rt (M.table rt) b bs (start s)).map fun y => put y s)
  (hlen : (putDelimited number (M.serialize x)).length < 2 ^ 31)

include hnumber hsub hdepth hfind hmerge hlen

theorem submessage_segment (hutf : M.utf8 x = true) :
    Segment rt table budget (putDelimited number (M.serialize x))
      (fun s => put (M.apply x (start s)) s) := by
  have hshort := (putDelimited_length number (M.serialize x)).trans_lt hlen
  have hseg : Segment rt (M.table rt) (budget - 1) (M.serialize x) (M.apply x) :=
    M.segment rt (by omega) hshort hutf
  apply Segment.message hfind hnumber.1 hnumber.2 hshort (by omega)
  · intro s
    rw [hmerge, hseg.merge, Option.map_some]
  · intro hzero s
    rw [hmerge, hseg.stuck hzero, Option.map_none]

theorem submessage_breaks (hutf : ¬ M.utf8 x = true) :
    Breaks rt table budget (putDelimited number (M.serialize x)) := by
  have hshort := (putDelimited_length number (M.serialize x)).trans_lt hlen
  have hbreaks : Breaks rt (M.table rt) (budget - 1) (M.serialize x) :=
    M.breaks rt (by omega) hshort hutf
  intro tail s
  rw [mergeFrom_message hfind hnumber.1 hnumber.2 hshort (by omega), hmerge, hbreaks.merge]
  rfl

end Submessage

theorem flatMap_length_le {α : Type} {enc : α → Bytes} {xs : List α} {x : α} (hx : x ∈ xs) :
    (enc x).length ≤ (xs.flatMap enc).length := by
  obtain ⟨us, vs, rfl⟩ := List.append_of_mem hx
  rw [List.flatMap_append, List.flatMap_cons, List.length_append, List.length_append]
  omega

@[simps copy Empty]
def messagesField (get : σ → List τ) (set : List τ → σ → σ) (hset : ∀ s, set (get s) s = s)
    (hget : ∀ xs s, get (set xs s) = xs) (hover : ∀ xs ys s, set xs (set ys s) = set xs s) :
    FieldCodec depth σ where
  tag := makeTag number 2
  case rt := ⟨number, .message fun budget bs s =>
    (mergeFrom rt (M.table rt) budget bs M.new).map fun x => set (get s ++ [x]) s⟩
  case_tag _ := rfl
  put m := (get m).flatMap fun x => putDelimited number (M.serialize x)
  store m s := (get m).foldl (fun s x => set (get s ++ [x]) s) s
  copy m s := set (get m) s
  Empty s := get s = []
  utf8 m := (get m).all M.utf8
  store_copy m s hempty := by
    have hall : ∀ (xs : List τ) (s : σ),
        xs.foldl (fun s x => set (get s ++ [x]) s) s = set (get s ++ xs) s := by
      intro xs
      induction xs with
      | nil =>
        intro s
        rw [List.append_nil, hset]
        rfl
      | cons x xs ih =>
        intro s
        rw [List.foldl_cons, ih, hget, hover, List.append_assoc]
        rfl
    rw [hall, hempty, List.nil_append]
  reads {rt table budget} hdepth hfind m hlen hutf := by
    refine Segment.flatMap (get m) fun x hx => ?_
    have hseg := submessage_segment number hnumber M hsub (fun _ => M.new)
      (fun y s => set (get s ++ [y]) s) hdepth hfind (fun _ _ _ => rfl)
      ((flatMap_length_le hx).trans_lt hlen) (List.all_eq_true.mp hutf x hx)
    simpa only [M.apply_new] using hseg
  breaks {rt table budget} hdepth hfind m hlen hutf := by
    refine Breaks.flatMap (fun x hx => submessage_segment number hnumber M hsub (fun _ => M.new)
      (fun y s => set (get s ++ [y]) s) hdepth hfind (fun _ _ _ => rfl)
      ((flatMap_length_le hx).trans_lt hlen)) (fun x hx => ?_) hutf
    exact submessage_breaks number hnumber M hsub (fun _ => M.new)
      (fun y s => set (get s ++ [y]) s) hdepth hfind (fun _ _ _ => rfl)
      ((flatMap_length_le hx).trans_lt hlen)

@[simps copy Empty]
def messageField (get : σ → Option τ) (set : Option τ → σ → σ) (hset : ∀ s, set (get s) s = s) :
    FieldCodec depth σ where
  tag := makeTag number 2
  case rt := ⟨number, .message fun budget bs s =>
    (mergeFrom rt (M.table rt) budget bs ((get s).getD M.new)).map fun x => set (some x) s⟩
  case_tag _ := rfl
  put m := putOption (fun x => putDelimited number (M.serialize x)) (get m)
  store m s :=
    match get m with
    | none => s
    | some x => set (some (M.apply x ((get s).getD M.new))) s
  copy m s := set (get m) s
  Empty s := get s = none
  utf8 m := (get m).all M.utf8
  store_copy m s hempty := by
    cases hm : get m with
    | none =>
      dsimp only
      rw [← hempty, hset]
    | some x =>
      dsimp only
      rw [hempty, Option.getD_none, M.apply_new]
  reads {rt table budget} hdepth hfind m hlen hutf := by
    cases hm : get m with
    | none => exact Segment.nil
    | some x =>
      rw [hm] at hlen hutf
      exact submessage_segment number hnumber M hsub (fun s => (get s).getD M.new)
        (fun y s => set (some y) s) hdepth hfind (fun _ _ _ => rfl) hlen hutf
  breaks {rt table budget} hdepth hfind m hlen hutf := by
    cases hm : get m with
    | none =>
      rw [hm] at hutf
      exact absurd rfl hutf
    | some x =>
      rw [hm] at hlen hutf
      exact submessage_breaks number hnumber M hsub (fun s => (get s).getD M.new)
        (fun y s => set (some y) s) hdepth hfind (fun _ _ _ => rfl) hlen hutf

end Messages

end O2k.WireFormat
