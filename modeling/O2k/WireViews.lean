import O2k.WireFormat

set_option autoImplicit false

namespace O2k.WireFormat
open ByteOrder

section Views

variable {σ τ : Type} (view : σ → τ)

def KindView : FieldKind σ → FieldKind τ → Prop
  | .varint set, .varint set' => ∀ n < 2 ^ 64, ∀ s, view (set n s) = set' n (view s)
  | .fixed64 set, .fixed64 set' => ∀ v s, view (set v s) = set' v (view s)
  | .bytes set, .bytes set' => ∀ v s, view (set v s) = set' v (view s)
  | .string set, .string set' => ∀ v s, validUtf8 v = true → view (set v s) = set' v (view s)
  | .message merge, .message merge' =>
    ∀ budget bs s, merge' budget bs (view s) = (merge budget bs s).map view
  | _, _ => False

structure FieldView (f : FieldCase σ) (f' : FieldCase τ) : Prop where
  number : f.number = f'.number
  kind : KindView view f.kind f'.kind

def viewFst (r : σ × Bytes) : τ × Bytes := (view r.1, r.2)

variable {view} {rt : Runtime}

theorem KindView.wireType {k : FieldKind σ} {k' : FieldKind τ} (h : KindView view k k') :
    k.wireType = k'.wireType := by
  cases k <;> cases k' <;> first | rfl | cases h

theorem FieldView.tag {f : FieldCase σ} {f' : FieldCase τ} (h : FieldView view f f') :
    f.tag = f'.tag := by
  rw [FieldCase.tag, FieldCase.tag, h.number, h.kind.wireType]

theorem KindView.read {k : FieldKind σ} {k' : FieldKind τ} (h : KindView view k k') (budget : ℕ)
    (bs : Bytes) (s : σ) :
    k'.read rt budget bs (view s) = (k.read rt budget bs s).map (viewFst view) := by
  cases k with
  | varint set =>
    cases k' with
    | varint set' =>
      simp only [FieldKind.read, Option.map_map]
      congr 1
      funext ⟨n, rest⟩
      exact Prod.ext (h _ (Nat.mod_lt _ (by decide)) s).symm rfl
    | _ => cases h
  | fixed64 set =>
    cases k' with
    | fixed64 set' =>
      simp only [FieldKind.read, Option.map_map]
      congr 1
      funext ⟨v, rest⟩
      exact Prod.ext (h v s).symm rfl
    | _ => cases h
  | bytes set =>
    cases k' with
    | bytes set' =>
      simp only [FieldKind.read, Option.map_map]
      congr 1
      funext ⟨v, rest⟩
      exact Prod.ext (h v s).symm rfl
    | _ => cases h
  | string set =>
    cases k' with
    | string set' =>
      simp only [FieldKind.read, Option.map_bind]
      congr 1
      funext ⟨v, rest⟩
      simp only [Function.comp_apply]
      split
      · exact congrArg some (Prod.ext (h v s ‹_›).symm rfl)
      · rfl
    | _ => cases h
  | message merge =>
    cases k' with
    | message merge' =>
      simp only [FieldKind.read, Option.map_bind]
      congr 1
      funext ⟨body, rest⟩
      simp only [Function.comp_apply]
      split
      · rfl
      · rw [h, Option.map_map, Option.map_map]
        rfl
    | _ => cases h

theorem find_view {fields : List (FieldCase σ)} {fields' : List (FieldCase τ)}
    (h : List.Forall₂ (FieldView view) fields fields') (tag : ℕ) :
    (fields.find? (fun f => f.tag = tag) = none ∧ fields'.find? (fun f => f.tag = tag) = none) ∨
    ∃ f f', fields.find? (fun f => f.tag = tag) = some f ∧
      fields'.find? (fun f => f.tag = tag) = some f' ∧ FieldView view f f' := by
  induction h with
  | nil => exact .inl ⟨rfl, rfl⟩
  | @cons f f' fields fields' hf _ ih =>
    by_cases htag : f.tag = tag
    · have htag' : f'.tag = tag := hf.tag.symm.trans htag
      exact .inr ⟨f, f', List.find?_cons_of_pos (by simpa using htag),
        List.find?_cons_of_pos (by simpa using htag'), hf⟩
    · have htag' : ¬ f'.tag = tag := fun heq => htag (hf.tag.trans heq)
      rw [List.find?_cons_of_neg (by simpa using htag),
        List.find?_cons_of_neg (by simpa using htag')]
      exact ih

theorem mergeField_view {fields : List (FieldCase σ)} {fields' : List (FieldCase τ)}
    (h : List.Forall₂ (FieldView view) fields fields') (budget : ℕ) (bs : Bytes) (s : σ) :
    mergeField rt fields' budget bs (view s) =
      (mergeField rt fields budget bs s).map (viewFst view) := by
  unfold mergeField
  rw [Option.map_bind]
  congr 1
  funext ⟨tag, rest⟩
  rcases find_view h tag with ⟨hnone, hnone'⟩ | ⟨f, f', hsome, hsome', hf⟩
  · simp only [Function.comp_apply, hnone, hnone', Option.map_map]
    rfl
  · simp only [Function.comp_apply, hsome, hsome']
    exact hf.kind.read budget rest s

theorem mergeLoop_view {fields : List (FieldCase σ)} {fields' : List (FieldCase τ)}
    (h : List.Forall₂ (FieldView view) fields fields') (budget fuel : ℕ) (bs : Bytes) (s : σ) :
    mergeLoop rt fields' budget fuel bs (view s) =
      (mergeLoop rt fields budget fuel bs s).map view := by
  induction fuel generalizing bs s with
  | zero => cases bs <;> rfl
  | succ fuel ih =>
    cases bs with
    | nil => rfl
    | cons b bs =>
      rw [mergeLoop, mergeLoop, mergeField_view h, Option.bind_map, Option.map_bind]
      congr 1
      funext r
      exact ih r.2 r.1

/-- On every input, whether it is a message or not. -/
theorem mergeFrom_view {fields : List (FieldCase σ)} {fields' : List (FieldCase τ)}
    (h : List.Forall₂ (FieldView view) fields fields') (budget : ℕ) (bs : Bytes) (s : σ) :
    mergeFrom rt fields' budget bs (view s) = (mergeFrom rt fields budget bs s).map view :=
  mergeLoop_view h budget bs.length bs s

theorem KindView.submessage {α β : Type} {see : α → β} {fields : List (FieldCase α)}
    {fields' : List (FieldCase β)} {start : σ → α} {start' : τ → β} {put : α → σ → σ}
    {put' : β → τ → τ} (h : List.Forall₂ (FieldView see) fields fields')
    (hstart : ∀ s, see (start s) = start' (view s))
    (hput : ∀ a s, view (put a s) = put' (see a) (view s)) :
    KindView view
      (.message fun budget bs s => (mergeFrom rt fields budget bs (start s)).map fun a => put a s)
      (.message fun budget bs s =>
        (mergeFrom rt fields' budget bs (start' s)).map fun b => put' b s) := by
  intro budget bs s
  dsimp only
  rw [← hstart, mergeFrom_view h, Option.map_map, Option.map_map]
  congr 1
  funext a
  exact (hput a s).symm

end Views

end O2k.WireFormat
