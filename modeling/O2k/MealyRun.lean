import O2k.GatedTrace

set_option autoImplicit false

namespace O2k.MealyRun
open GatedTrace

variable {σ ι ω : Type} (step : σ → ι → σ × List ω)

def run : σ → List ι → σ × List ω
  | s, [] => (s, [])
  | s, i :: is => ((run (step s i).1 is).1, (step s i).2 ++ (run (step s i).1 is).2)

@[simp] theorem run_nil (s : σ) : run step s [] = (s, []) := rfl

theorem run_cons (s : σ) (i : ι) (is : List ι) :
    run step s (i :: is) = ((run step (step s i).1 is).1, (step s i).2 ++ (run step (step s i).1 is).2) :=
  rfl

def Along (G : σ → ι → Prop) : σ → List ι → Prop
  | _, [] => True
  | s, i :: is => G s i ∧ Along G (step s i).1 is

instance Along.decidable (G : σ → ι → Prop) [∀ s i, Decidable (G s i)] :
    ∀ s is, Decidable (Along step G s is)
  | _, [] => .isTrue trivial
  | s, i :: is =>
    have := Along.decidable G (step s i).1 is
    inferInstanceAs (Decidable (G s i ∧ Along step G (step s i).1 is))

variable {step} {I : σ → Prop} {G : σ → ι → Prop} {P : ω → Prop}

theorem run_outputs_iff (hI : ∀ s i, I s → I (step s i).1)
    (hG : ∀ s i, I s → ((∀ o ∈ (step s i).2, P o) ↔ G s i)) (s : σ) (is : List ι) (hs : I s) :
    (∀ o ∈ (run step s is).2, P o) ↔ Along step G s is := by
  induction is generalizing s with
  | nil => simp [Along]
  | cons i is ih =>
    rw [run_cons, Along, ← ih (step s i).1 (hI s i hs), ← hG s i hs]
    simp only [List.mem_append]
    constructor
    · intro h
      exact ⟨fun o ho => h o (.inl ho), fun o ho => h o (.inr ho)⟩
    · rintro ⟨hfirst, hrest⟩ o (ho | ho)
      · exact hfirst o ho
      · exact hrest o ho

theorem Along.of_forall (h : ∀ s i, G s i) (s : σ) (is : List ι) : Along step G s is := by
  induction is generalizing s with
  | nil => trivial
  | cons i is ih => exact ⟨h s i, ih (step s i).1⟩

theorem Along.and {G G' : σ → ι → Prop} {s : σ} {is : List ι} (h : Along step G s is)
    (h' : Along step G' s is) : Along step (fun s i => G s i ∧ G' s i) s is := by
  induction is generalizing s with
  | nil => trivial
  | cons i is ih => exact ⟨⟨h.1, h'.1⟩, ih h.2 h'.2⟩

theorem Along.of_append {s : σ} {is js : List ι} (h : Along step G s (is ++ js)) :
    Along step G s is := by
  induction is generalizing s with
  | nil => trivial
  | cons i is ih => exact ⟨h.1, ih h.2⟩

section History

variable {H : List ω → σ → Prop} {Q : List ω → ω → Prop}

/-- What a step keeps, with the outputs so far as `us`. -/
def KeepsHistory (step : σ → ι → σ × List ω) (G : σ → ι → Prop) (H : List ω → σ → Prop)
    (Q : List ω → ω → Prop) : Prop :=
  ∀ us s i, H us s → G s i →
    H (us ++ (step s i).2) (step s i).1 ∧ AtEach (fun vs o _ => Q (us ++ vs) o) (step s i).2

theorem KeepsHistory.run_from (h : KeepsHistory step G H Q) (us : List ω) (s : σ) (is : List ι)
    (hs : H us s) (his : Along step G s is) :
    H (us ++ (run step s is).2) (run step s is).1 ∧
      AtEach (fun vs o _ => Q (us ++ vs) o) (run step s is).2 := by
  induction is generalizing us s with
  | nil => simpa using hs
  | cons i is ih =>
    obtain ⟨hi, his⟩ := his
    obtain ⟨hnext, hfirst⟩ := h us s i hs hi
    obtain ⟨hlast, hrest⟩ := ih (us ++ (step s i).2) (step s i).1 hnext his
    rw [run_cons, ← List.append_assoc]
    refine ⟨hlast, AtEach.append (fun _ _ _ hq => hq) hfirst ?_⟩
    intro vs o ws hws
    rw [← List.append_assoc]
    exact hrest vs o ws hws

theorem KeepsHistory.run (h : KeepsHistory step G H Q) (s : σ) (is : List ι) (hs : H [] s)
    (his : Along step G s is) : AtEach (fun us o _ => Q us o) (run step s is).2 :=
  (h.run_from [] s is hs his).2

end History

end O2k.MealyRun
