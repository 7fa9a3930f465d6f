import Mathlib.Data.List.Basic
import Mathlib.Tactic.Common

set_option autoImplicit false

namespace O2k.GatedTrace

variable {ω α : Type}

def written (out : ω → List α) (evs : List ω) : List α := evs.flatMap out

@[simp] theorem written_nil (out : ω → List α) : written out [] = [] := rfl

@[simp] theorem written_append (out : ω → List α) (xs ys : List ω) :
    written out (xs ++ ys) = written out xs ++ written out ys := by
  simp [written]

theorem written_cons (out : ω → List α) (ev : ω) (evs : List ω) :
    written out (ev :: evs) = out ev ++ written out evs := rfl

theorem split_append {xs ys us vs : List ω} {ev : ω} (h : xs ++ ys = us ++ ev :: vs) :
    (∃ ws, xs = us ++ ev :: ws ∧ vs = ws ++ ys) ∨ ∃ ws, us = xs ++ ws ∧ ys = ws ++ ev :: vs := by
  rcases List.append_eq_append_iff.mp h with ⟨ws, hus, hys⟩ | ⟨ws, hxs, hvs⟩
  · exact .inr ⟨ws, hus, hys⟩
  · cases ws with
    | nil =>
      refine .inr ⟨[], ?_, ?_⟩
      · simpa using hxs.symm
      · simpa using hvs.symm
    | cons w ws =>
      obtain ⟨rfl, rfl⟩ := List.cons.inj hvs
      exact .inl ⟨ws, hxs, rfl⟩

theorem exists_writing {out : ω → List α} {evs : List ω} (h : written out evs ≠ []) :
    ∃ us ev vs, evs = us ++ ev :: vs ∧ out ev ≠ [] := by
  induction evs with
  | nil => exact absurd rfl h
  | cons ev evs ih =>
    by_cases hev : out ev = []
    · rw [written_cons, hev, List.nil_append] at h
      obtain ⟨us, ev', vs, rfl, hout⟩ := ih h
      exact ⟨ev :: us, ev', vs, rfl, hout⟩
    · exact ⟨[], ev, evs, rfl, hev⟩

def AtEach (P : List ω → ω → List ω → Prop) (evs : List ω) : Prop :=
  ∀ us ev vs, evs = us ++ ev :: vs → P us ev vs

section AtEach

variable {P : List ω → ω → List ω → Prop} {xs ys : List ω} {ev : ω}

@[simp] theorem atEach_nil : AtEach P [] := by
  intro us ev vs h
  simp at h

theorem atEach_cons : AtEach P (ev :: xs) ↔ P [] ev xs ∧ AtEach (fun us => P (ev :: us)) xs := by
  constructor
  · intro h
    exact ⟨h [] ev xs rfl, fun us ev' vs hxs => h (ev :: us) ev' vs (by rw [hxs]; rfl)⟩
  · rintro ⟨hev, hxs⟩ us ev' vs h
    cases us with
    | nil =>
      obtain ⟨rfl, rfl⟩ := List.cons.inj h
      exact hev
    | cons u us =>
      obtain ⟨rfl, rfl⟩ := List.cons.inj h
      exact hxs us ev' vs rfl

theorem atEach_singleton : AtEach P [ev] ↔ P [] ev [] := by
  rw [atEach_cons]
  simp

theorem AtEach.append (hmono : ∀ us ev vs, P us ev vs → P us ev (vs ++ ys)) (hx : AtEach P xs)
    (hy : AtEach (fun us => P (xs ++ us)) ys) : AtEach P (xs ++ ys) := by
  intro us ev vs h
  rcases split_append h with ⟨ws, hxs, rfl⟩ | ⟨ws, rfl, hys⟩
  · exact hmono us ev ws (hx us ev ws hxs)
  · exact hy ws ev vs hys

theorem atEach_append {P : List ω → ω → Prop} :
    AtEach (fun us ev _ => P us ev) (xs ++ ys) ↔
      AtEach (fun us ev _ => P us ev) xs ∧ AtEach (fun us ev _ => P (xs ++ us) ev) ys := by
  constructor
  · intro h
    constructor
    · rintro us ev vs rfl
      exact h us ev (vs ++ ys) (by simp)
    · rintro us ev vs rfl
      exact h (xs ++ us) ev vs (by simp)
  · rintro ⟨hx, hy⟩
    exact AtEach.append (fun _ _ _ hev => hev) hx hy

end AtEach

variable {out : ω → List α} {n : ℕ} {ok : List ω → Prop} {bad : ω → Prop}

/-- An event that writes beyond the first `n` items has `ok` of what comes before it. -/
def Gated (out : ω → List α) (n : ℕ) (ok : List ω → Prop) (evs : List ω) : Prop :=
  ∀ us ev vs, evs = us ++ ev :: vs → out ev ≠ [] → n < (written out (us ++ [ev])).length → ok us

theorem Gated.of_short {evs : List ω} (h : (written out evs).length ≤ n) : Gated out n ok evs := by
  rintro us ev vs rfl _ hlt
  simp only [written_append, written_cons, written_nil, List.append_nil, List.length_append] at h hlt
  omega

theorem Gated.left {xs ys : List ω} (h : Gated out n ok (xs ++ ys)) : Gated out n ok xs := by
  rintro us ev vs rfl hev hlt
  exact h us ev (vs ++ ys) (by simp) hev hlt

theorem Gated.append_silent {xs ys : List ω} (hx : Gated out n ok xs) (hy : written out ys = []) :
    Gated out n ok (xs ++ ys) := by
  intro us ev vs h hev hlt
  rcases split_append h with ⟨ws, hxs, _⟩ | ⟨ws, rfl, rfl⟩
  · exact hx us ev ws hxs hev hlt
  · rw [written_append, written_cons] at hy
    exact absurd (List.append_eq_nil_iff.mp (List.append_eq_nil_iff.mp hy).2).1 hev

theorem Gated.append {xs ys : List ω} (hx : (written out xs).length ≤ n)
    (hok : ∀ us ev vs, ys = us ++ ev :: vs → ok (xs ++ us)) : Gated out n ok (xs ++ ys) := by
  intro us ev vs h hev hlt
  rcases split_append h with ⟨ws, hxs, _⟩ | ⟨ws, rfl, hys⟩
  · exact Gated.of_short hx us ev ws hxs hev hlt
  · exact hok ws ev vs hys

/-- Nothing is written after a bad event. -/
def Halts (out : ω → List α) (bad : ω → Prop) (evs : List ω) : Prop :=
  ∀ us ev vs, evs = us ++ ev :: vs → bad ev → written out vs = []

theorem Halts.of_silent {evs : List ω} (h : written out evs = []) : Halts out bad evs := by
  rintro us ev vs rfl _
  rw [written_append, written_cons] at h
  exact (List.append_eq_nil_iff.mp (List.append_eq_nil_iff.mp h).2).2

theorem Halts.left {xs ys : List ω} (h : Halts out bad (xs ++ ys)) : Halts out bad xs := by
  rintro us ev vs rfl hbad
  have hsilent := h us ev (vs ++ ys) (by simp) hbad
  rw [written_append] at hsilent
  exact (List.append_eq_nil_iff.mp hsilent).1

theorem Halts.append_silent {xs ys : List ω} (hx : Halts out bad xs) (hy : written out ys = []) :
    Halts out bad (xs ++ ys) := by
  intro us ev vs h hbad
  rcases split_append h with ⟨ws, hxs, rfl⟩ | ⟨ws, _, hys⟩
  · rw [written_append, hx us ev ws hxs hbad, hy, List.append_nil]
  · exact Halts.of_silent hy ws ev vs hys hbad

theorem Halts.good_append {xs ys : List ω} (hx : ∀ ev ∈ xs, ¬ bad ev) (hy : Halts out bad ys) :
    Halts out bad (xs ++ ys) := by
  intro us ev vs h hbad
  rcases split_append h with ⟨ws, rfl, _⟩ | ⟨ws, _, hys⟩
  · exact absurd hbad (hx ev (by simp))
  · exact hy ws ev vs hys hbad

end O2k.GatedTrace
