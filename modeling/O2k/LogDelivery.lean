import Mathlib.Data.Set.Defs
import Mathlib.Data.Int.Notation
import Mathlib.Data.List.Basic
import Mathlib.Tactic.Common

set_option autoImplicit false

namespace O2k.LogDelivery

variable {μ κ : Type} {place : μ → κ} {offset : μ → ℤ}

structure Log (place : μ → κ) (offset : μ → ℤ) where
  items : Set μ
  offset_nonneg : ∀ x ∈ items, 0 ≤ offset x
  unique : ∀ x ∈ items, ∀ y ∈ items, place x = place y → offset x = offset y → x = y

/-- Each partition is handed out from its start on: an item comes after all that stand before it.
    Going back is allowed. -/
def Gapless (L : Log place offset) (start : κ → ℤ) (xs : List μ) : Prop :=
  ∀ us x vs, xs = us ++ x :: vs → x ∈ L.items ∧ start (place x) ≤ offset x ∧
    ∀ y ∈ L.items, place y = place x → start (place y) ≤ offset y → offset y < offset x → y ∈ us

def next [DecidableEq κ] (place : μ → κ) (offset : μ → ℤ) (xs : List μ) (k : κ) : Option ℤ :=
  (xs.filter fun x => place x = k).getLast?.map fun x => offset x + 1

variable {L : Log place offset} {start : κ → ℤ} {xs ys : List μ} {x : μ} {k : κ} {n : ℤ}

theorem Gapless.of_append (h : Gapless L start (xs ++ ys)) : Gapless L start xs := by
  rintro us x vs rfl
  exact h us x (vs ++ ys) (by simp)

theorem Gapless.mem_items (h : Gapless L start xs) (hx : x ∈ xs) : x ∈ L.items := by
  obtain ⟨us, vs, rfl⟩ := List.append_of_mem hx
  exact (h us x vs rfl).1

theorem Gapless.start_le (h : Gapless L start xs) (hx : x ∈ xs) : start (place x) ≤ offset x := by
  obtain ⟨us, vs, rfl⟩ := List.append_of_mem hx
  exact (h us x vs rfl).2.1

variable [DecidableEq κ]

theorem next_concat : next place offset (xs ++ [x]) k =
    if place x = k then some (offset x + 1) else next place offset xs k := by
  unfold next
  by_cases hx : place x = k
  · simp [List.filter_append, hx]
  · simp [List.filter_append, hx]

theorem next_eq_none_iff : next place offset xs k = none ↔ ∀ x ∈ xs, place x ≠ k := by
  unfold next
  rw [Option.map_eq_none_iff, List.getLast?_eq_none_iff, List.filter_eq_nil_iff]
  simp

theorem next_eq_some (h : next place offset xs k = some n) :
    ∃ x ∈ xs, place x = k ∧ offset x + 1 = n := by
  unfold next at h
  rw [Option.map_eq_some_iff] at h
  obtain ⟨x, hlast, hn⟩ := h
  have hmem := List.mem_filter.mp (List.mem_of_getLast? hlast)
  exact ⟨x, hmem.1, by simpa using hmem.2, hn⟩

theorem Gapless.next_pos (h : Gapless L start xs) (hn : next place offset xs k = some n) : 0 < n := by
  obtain ⟨x, hx, _, rfl⟩ := next_eq_some hn
  have := L.offset_nonneg x (h.mem_items hx)
  omega

theorem Gapless.covers (h : Gapless L start xs) (hn : next place offset xs k = some n) {y : μ}
    (hy : y ∈ L.items) (hk : place y = k) (hstart : start k ≤ offset y) (hlt : offset y < n) :
    y ∈ xs := by
  obtain ⟨x, hx, hxk, rfl⟩ := next_eq_some hn
  obtain ⟨us, vs, rfl⟩ := List.append_of_mem hx
  obtain ⟨hxi, _, hbefore⟩ := h us x vs rfl
  rcases Int.lt_or_eq_of_le (Int.le_of_lt_add_one hlt) with hlt | heq
  · have := hbefore y hy (hk.trans hxk.symm) (by rw [hk]; exact hstart) hlt
    simp [this]
  · have := L.unique y hy x hxi (hk.trans hxk.symm) heq
    simp [this]

end O2k.LogDelivery
