import O2k.MealyRun

set_option autoImplicit false

namespace O2k.RunRefinement
open MealyRun

variable {σ ι ω τ κ ν : Type}

section Append

variable {step : τ → κ → τ × List ν} {G : τ → κ → Prop}

theorem run_append (t : τ) (is js : List κ) :
    run step t (is ++ js) =
      ((run step (run step t is).1 js).1, (run step t is).2 ++ (run step (run step t is).1 js).2) := by
  induction is generalizing t with
  | nil => rfl
  | cons i is ih => rw [List.cons_append, run_cons, ih, run_cons, List.append_assoc]

theorem along_append (t : τ) (is js : List κ) :
    Along step G t (is ++ js) ↔ Along step G t is ∧ Along step G (run step t is).1 js := by
  induction is generalizing t with
  | nil => simp [Along]
  | cons i is ih => simp only [List.cons_append, Along, ih, run_cons, and_assoc]

theorem run_singleton (t : τ) (i : κ) : run step t [i] = step t i := by
  simp [run_cons]

theorem along_singleton (t : τ) (i : κ) : Along step G t [i] ↔ G t i := by
  simp [Along]

end Append

/-- Every step, guarded by `G`, is answered by abstract steps, each guarded by `G'`. -/
def Refines (step : σ → ι → σ × List ω) (G : σ → ι → Prop) (step' : τ → κ → τ × List ν)
    (G' : τ → κ → Prop) (R : σ → τ → Prop) (view : ω → Option ν) : Prop :=
  ∀ s t i, R s t → G s i →
    ∃ js, Along step' G' t js ∧ R (step s i).1 (run step' t js).1 ∧
      (step s i).2.filterMap view = (run step' t js).2

variable {step : σ → ι → σ × List ω} {G : σ → ι → Prop} {step' : τ → κ → τ × List ν}
  {G' : τ → κ → Prop} {R : σ → τ → Prop} {view : ω → Option ν}

theorem Refines.run (h : Refines step G step' G' R view) {s : σ} {t : τ} {is : List ι}
    (hst : R s t) (his : Along step G s is) :
    ∃ js, Along step' G' t js ∧ R (run step s is).1 (MealyRun.run step' t js).1 ∧
      (MealyRun.run step s is).2.filterMap view = (MealyRun.run step' t js).2 := by
  induction is generalizing s t with
  | nil => exact ⟨[], trivial, hst, rfl⟩
  | cons i is ih =>
    obtain ⟨hi, his⟩ := his
    obtain ⟨js, hjs, hnext, hout⟩ := h s t i hst hi
    obtain ⟨ks, hks, hlast, houts⟩ := ih hnext his
    refine ⟨js ++ ks, (along_append t js ks).mpr ⟨hjs, hks⟩, ?_⟩
    rw [run_append, run_cons, List.filterMap_append, hout, houts]
    exact ⟨hlast, rfl⟩

end O2k.RunRefinement
