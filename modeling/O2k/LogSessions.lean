import O2k.GatedTrace
import O2k.LogDelivery
import Mathlib.Algebra.Order.Group.Int
import Mathlib.Data.List.Induction
import Mathlib.Data.List.Nodup

set_option autoImplicit false

namespace O2k.LogDelivery
open GatedTrace

variable {μ κ : Type} {place : μ → κ} {offset : μ → ℤ} [DecidableEq κ]

def position (place : μ → κ) (offset : μ → ℤ) (start : κ → ℤ) (xs : List μ) (k : κ) : ℤ :=
  (next place offset xs k).getD (start k)

/-- The item that comes next in its partition. -/
structure Due (L : Log place offset) (pos : κ → ℤ) (x : μ) : Prop where
  mem : x ∈ L.items
  ahead : pos (place x) ≤ offset x
  first : ∀ y ∈ L.items, place y = place x → pos (place x) ≤ offset y → offset x ≤ offset y

def InOrder (L : Log place offset) (start : κ → ℤ) (xs : List μ) : Prop :=
  AtEach (fun us x _ => Due L (position place offset start us) x) xs

variable {L : Log place offset} {start : κ → ℤ} {xs ys : List μ} {x : μ} {k : κ}

theorem position_nil : position place offset start [] = start := rfl

theorem position_concat : position place offset start (xs ++ [x]) k =
    if place x = k then offset x + 1 else position place offset start xs k := by
  unfold position
  rw [next_concat]
  split <;> rfl

theorem next_append : next place offset (xs ++ ys) k =
    (next place offset ys k).or (next place offset xs k) := by
  unfold next
  rw [List.filter_append, List.getLast?_append, Option.map_or]

theorem position_append : position place offset start (xs ++ ys) =
    position place offset (position place offset start xs) ys := by
  funext k
  unfold position
  rw [next_append, Option.getD_or]

theorem inOrder_nil : InOrder L start [] := atEach_nil

/-- A session that goes on where another one stopped is part of the same. -/
theorem InOrder.append (hx : InOrder L start xs)
    (hy : InOrder L (position place offset start xs) ys) : InOrder L start (xs ++ ys) := by
  refine AtEach.append (fun _ _ _ h => h) hx ?_
  intro us x vs h
  rw [position_append]
  exact hy us x vs h

theorem InOrder.of_append (h : InOrder L start (xs ++ ys)) : InOrder L start xs := by
  rintro us x vs rfl
  exact h us x (vs ++ ys) (by simp)

theorem InOrder.due (h : InOrder L start (xs ++ [x])) : Due L (position place offset start xs) x :=
  h xs x [] rfl

theorem InOrder.mem_items (h : InOrder L start xs) (hx : x ∈ xs) : x ∈ L.items := by
  obtain ⟨us, vs, rfl⟩ := List.append_of_mem hx
  exact (h us x vs rfl).mem

theorem InOrder.behind (h : InOrder L start xs) :
    (∀ k, start k ≤ position place offset start xs k) ∧
      ∀ x ∈ xs, offset x < position place offset start xs (place x) := by
  induction xs using List.reverseRecOn with
  | nil => exact ⟨fun _ => le_rfl, fun x hx => absurd hx (by simp)⟩
  | append_singleton xs x ih =>
    obtain ⟨hstart, hpast⟩ := ih h.of_append
    have hahead := h.due.ahead
    refine ⟨fun k => ?_, fun y hy => ?_⟩
    · rw [position_concat]
      split
      · rename_i hk
        subst hk
        have := hstart (place x)
        omega
      · exact hstart k
    · rw [position_concat]
      rcases List.mem_append.mp hy with hy | hy
      · have := hpast y hy
        split
        · rename_i hk
          rw [← hk] at this
          omega
        · exact this
      · rw [List.mem_singleton.mp hy, if_pos rfl]
        exact Int.lt_succ (offset x)

theorem InOrder.start_le (h : InOrder L start xs) (hx : x ∈ xs) : start (place x) ≤ offset x := by
  obtain ⟨us, vs, rfl⟩ := List.append_of_mem hx
  have hus : InOrder L start us := InOrder.of_append h
  exact (hus.behind.1 (place x)).trans (h us x vs rfl).ahead

theorem InOrder.nodup (h : InOrder L start xs) : xs.Nodup := by
  induction xs using List.reverseRecOn with
  | nil => exact List.nodup_nil
  | append_singleton xs x ih =>
    refine List.Nodup.append (ih h.of_append) (List.nodup_singleton x) ?_
    rw [List.disjoint_singleton]
    intro hx
    have hlt := h.of_append.behind.2 x hx
    have hle := h.due.ahead
    omega

theorem InOrder.covers (h : InOrder L start xs) {y : μ} (hy : y ∈ L.items)
    (hstart : start (place y) ≤ offset y)
    (hlt : offset y < position place offset start xs (place y)) : y ∈ xs := by
  induction xs using List.reverseRecOn with
  | nil =>
    rw [position_nil] at hlt
    omega
  | append_singleton xs x ih =>
    rw [position_concat] at hlt
    by_cases hold : offset y < position place offset start xs (place y)
    · exact List.mem_append_left _ (ih h.of_append hold)
    · split at hlt
      · rename_i hk
        rw [← hk] at hold
        have hle := h.due.first y hy hk.symm (not_lt.mp hold)
        have hsame := L.unique y hy x h.due.mem hk.symm (by omega)
        simp [hsame]
      · exact absurd hlt hold

theorem InOrder.gapless (h : InOrder L start xs) : Gapless L start xs := by
  rintro us x vs rfl
  have hus : InOrder L start us := InOrder.of_append h
  have hx := h us x vs rfl
  refine ⟨hx.mem, (hus.behind.1 (place x)).trans hx.ahead, ?_⟩
  intro y hy hk hstart hlt
  refine hus.covers hy hstart ?_
  by_contra hge
  rw [hk] at hge
  have := hx.first y hy hk (not_lt.mp hge)
  omega

end O2k.LogDelivery
