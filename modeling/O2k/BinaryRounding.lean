import Mathlib.Data.Int.Log
import Mathlib.Data.Rat.Floor
import Mathlib.Tactic.Linarith

set_option autoImplicit false

/-!
# Rounding to a binary format

A format has so many significant bits, down to a least exponent. Around a number
it has the multiples of one power of two; the nearest of them is taken, and of
two that are equally near the even one. How large a number may be is left out.
-/
namespace O2k.BinaryRounding

/-- The nearest integer to a number that is not negative, of two the even one. -/
def nearestNat (q : ℚ) : ℕ :=
  let rest := q - ⌊q⌋₊
  if rest < 1 / 2 then ⌊q⌋₊
  else if 1 / 2 < rest then ⌊q⌋₊ + 1
  else if ⌊q⌋₊ % 2 = 0 then ⌊q⌋₊
  else ⌊q⌋₊ + 1

theorem nearestNat_cases (q : ℚ) :
    nearestNat q = ⌊q⌋₊ ∨ nearestNat q = ⌊q⌋₊ + 1 ∧ (⌊q⌋₊ : ℚ) < q := by
  unfold nearestNat
  dsimp only
  split
  · exact .inl rfl
  · rename_i hhalf
    have hbehind : (⌊q⌋₊ : ℚ) < q := by linarith
    split
    · exact .inr ⟨rfl, hbehind⟩
    · split
      · exact .inl rfl
      · exact .inr ⟨rfl, hbehind⟩

theorem le_nearestNat {m : ℕ} {q : ℚ} (h : m ≤ q) : m ≤ nearestNat q := by
  have hfloor : m ≤ ⌊q⌋₊ := Nat.le_floor h
  rcases nearestNat_cases q with heq | ⟨heq, _⟩
  · rwa [heq]
  · omega

theorem nearestNat_le {m : ℕ} {q : ℚ} (h : q ≤ m) : nearestNat q ≤ m := by
  rcases nearestNat_cases q with heq | ⟨heq, hbehind⟩
  · rw [heq]
    exact Nat.floor_le_of_le h
  · rw [heq]
    exact Nat.succ_le_of_lt (Nat.cast_lt.mp (hbehind.trans_le h))

/-- The bits behind the first one, and the exponent of the smallest number. -/
structure Format where
  fractionBits : ℕ
  least : ℤ

namespace Format

variable (F : Format)

/-- The exponent of the last bit of the numbers around one. -/
def quantum (q : ℚ) : ℤ := max (Int.log 2 q - F.fractionBits) F.least

def roundNonneg (q : ℚ) : ℚ := nearestNat (q / 2 ^ F.quantum q) * 2 ^ F.quantum q

def round (q : ℚ) : ℚ := if q < 0 then -F.roundNonneg (-q) else F.roundNonneg q

def Has (c : ℚ) : Prop := ∃ m : ℕ, c = m * 2 ^ F.quantum c

variable {F} {c q : ℚ}

theorem two_zpow_pos (e : ℤ) : (0 : ℚ) < 2 ^ e := zpow_pos (by norm_num) e

theorem roundNonneg_nonneg : 0 ≤ F.roundNonneg q :=
  mul_nonneg (Nat.cast_nonneg _) (two_zpow_pos _).le

theorem abs_round : |F.round q| = F.roundNonneg |q| := by
  unfold round
  split
  · rename_i hneg
    rw [abs_neg, abs_of_nonneg roundNonneg_nonneg, abs_of_neg hneg]
  · rename_i hnonneg
    rw [abs_of_nonneg roundNonneg_nonneg, abs_of_nonneg (not_lt.mp hnonneg)]

theorem mul_le_roundNonneg {m : ℕ} (h : m * 2 ^ F.quantum q ≤ q) :
    m * 2 ^ F.quantum q ≤ F.roundNonneg q := by
  have hpos := two_zpow_pos (F.quantum q)
  refine mul_le_mul_of_nonneg_right (Nat.cast_le.mpr (le_nearestNat ?_)) hpos.le
  rwa [le_div_iff₀ hpos]

theorem roundNonneg_le_mul {m : ℕ} (h : q ≤ m * 2 ^ F.quantum q) :
    F.roundNonneg q ≤ m * 2 ^ F.quantum q := by
  have hpos := two_zpow_pos (F.quantum q)
  refine mul_le_mul_of_nonneg_right (Nat.cast_le.mpr (nearestNat_le ?_)) hpos.le
  rwa [div_le_iff₀ hpos]

theorem quantum_mono (hc : 0 < c) (h : c ≤ q) : F.quantum c ≤ F.quantum q := by
  have hlog : Int.log 2 c ≤ Int.log 2 q := Int.log_mono_right hc h
  unfold quantum
  omega

theorem mul_zpow_of_le {e e' : ℤ} (h : e ≤ e') (m : ℕ) : ∃ m' : ℕ, (m : ℚ) * 2 ^ e' = m' * 2 ^ e := by
  refine ⟨m * 2 ^ (e' - e).toNat, ?_⟩
  have hsplit : (2 : ℚ) ^ e' = 2 ^ (e' - e).toNat * 2 ^ e := by
    rw [← zpow_natCast, ← zpow_add₀ (by norm_num)]
    congr 1
    omega
  rw [hsplit]
  push_cast
  ring

theorem roundNonneg_le (hc : F.Has c) (hq : 0 ≤ q) (h : q ≤ c) : F.roundNonneg q ≤ c := by
  obtain ⟨m, hm⟩ := hc
  rcases hq.eq_or_lt with rfl | hpos
  · refine (roundNonneg_le_mul (m := 0) (by simp)).trans ?_
    simpa using h
  · obtain ⟨m', hm'⟩ := mul_zpow_of_le (quantum_mono hpos h) m
    rw [hm'] at hm
    rw [hm] at h ⊢
    exact roundNonneg_le_mul h

/-- Nor from above: a larger number with another quantum has a power of two below it. -/
theorem le_roundNonneg (hc : F.Has c) (hpos : 0 < c) (h : c ≤ q) : c ≤ F.roundNonneg q := by
  obtain ⟨m, hm⟩ := hc
  rcases (quantum_mono hpos h : F.quantum c ≤ F.quantum q).eq_or_lt with heq | hlt
  · rw [heq] at hm
    rw [hm] at h ⊢
    exact mul_le_roundNonneg h
  · have hq : 0 < q := hpos.trans_le h
    have hquantum : F.quantum q = Int.log 2 q - F.fractionBits := by
      unfold quantum at hlt ⊢
      omega
    have hlog : Int.log 2 c + 1 ≤ Int.log 2 q := by
      unfold quantum at hlt
      omega
    have hpower : (2 : ℚ) ^ Int.log 2 q = (2 ^ F.fractionBits : ℕ) * 2 ^ F.quantum q := by
      rw [hquantum, Nat.cast_pow, Nat.cast_ofNat, ← zpow_natCast, ← zpow_add₀ (by norm_num)]
      congr 1
      omega
    have hbelow : (2 : ℚ) ^ Int.log 2 q ≤ q := by
      simpa using Int.zpow_log_le_self (b := 2) one_lt_two hq
    calc c ≤ 2 ^ (Int.log 2 c + 1) := by
          simpa using (Int.lt_zpow_succ_log_self (b := 2) one_lt_two c).le
      _ ≤ 2 ^ Int.log 2 q := zpow_le_zpow_right₀ one_le_two hlog
      _ = (2 ^ F.fractionBits : ℕ) * 2 ^ F.quantum q := hpower
      _ ≤ F.roundNonneg q := mul_le_roundNonneg (hpower ▸ hbelow)

end Format

end O2k.BinaryRounding
