import O2k.PacketDelivery
import O2k.WireSegments

set_option autoImplicit false

namespace O2k.MsgBuffer
open ByteOrder WireFormat

structure Cells.HasString (c : Cells) (i : ℕ) (s : Bytes) : Prop where
  noNul : 0 ∉ s
  holds : ∀ j, j < s.length → c (i + j) = s[j]?
  nul : c (i + s.length) = some 0

section HasString

variable {c : Cells} {i n : ℕ} {b : UInt8} {s p : Bytes}

theorem Cells.nul_cons : c (i + (b :: p).length) = c (i + 1 + p.length) := by
  rw [List.length_cons, ← Nat.add_assoc, Nat.add_right_comm]

theorem Cells.holds_cons :
    (∀ j, j < (b :: p).length → c (i + j) = (b :: p)[j]?) ↔
      c i = some b ∧ ∀ j, j < p.length → c (i + 1 + j) = p[j]? := by
  constructor
  · intro h
    refine ⟨h 0 (by simp), ?_⟩
    intro j hj
    have hnext := h (j + 1) (by simpa using hj)
    rwa [List.getElem?_cons_succ, ← Nat.add_assoc, Nat.add_right_comm] at hnext
  · rintro ⟨hb, h⟩ j hj
    cases j with
    | zero => exact hb
    | succ j =>
      rw [List.getElem?_cons_succ, ← Nat.add_assoc, Nat.add_right_comm]
      exact h j (by simpa using hj)

theorem Cells.hasString_nil : c.HasString i [] ↔ c i = some 0 := by
  constructor
  · exact fun h => h.nul
  · exact fun h => ⟨by simp, by simp, h⟩

theorem Cells.hasString_cons :
    c.HasString i (b :: s) ↔ b ≠ 0 ∧ c i = some b ∧ c.HasString (i + 1) s := by
  constructor
  · intro h
    obtain ⟨hb, hs⟩ := not_or.mp (List.mem_cons.not.mp h.noNul)
    obtain ⟨hc, hholds⟩ := holds_cons.mp h.holds
    exact ⟨Ne.symm hb, hc, hs, hholds, nul_cons.symm.trans h.nul⟩
  · rintro ⟨hb, hc, h⟩
    refine ⟨?_, holds_cons.mpr ⟨hc, h.holds⟩, nul_cons.trans h.nul⟩
    exact List.mem_cons.not.mpr (not_or.mpr ⟨Ne.symm hb, h.noNul⟩)

theorem Cells.cstring_eq_some_iff :
    c.cstring n i = some s ↔ s.length < n ∧ c.HasString i s := by
  induction n generalizing i s with
  | zero => simp [cstring]
  | succ n ih =>
    rw [cstring]
    cases hc : c i with
    | none =>
      refine iff_of_false (by simp) ?_
      rintro ⟨_, h⟩
      cases s with
      | nil => simp [hasString_nil, hc] at h
      | cons b s => simp [hasString_cons, hc] at h
    | some a =>
      cases s with
      | nil =>
        rw [hasString_nil, hc]
        by_cases ha : a = 0 <;> simp [ha]
      | cons b s =>
        rw [hasString_cons, hc, List.length_cons, Nat.succ_lt_succ_iff]
        by_cases ha : a = 0
        · subst ha
          refine iff_of_false (by simp) ?_
          rintro ⟨_, hb, heq, _⟩
          exact hb (Option.some.inj heq).symm
        · dsimp only
          rw [if_neg ha, Option.map_eq_some_iff]
          constructor
          · rintro ⟨s', hs, heq⟩
            obtain ⟨rfl, rfl⟩ := List.cons.inj heq
            obtain ⟨hlt, h⟩ := ih.mp hs
            exact ⟨hlt, ha, rfl, h⟩
          · rintro ⟨hlt, _, heq, h⟩
            obtain rfl := Option.some.inj heq
            exact ⟨s, ih.mpr ⟨hlt, h⟩, rfl⟩

/-- Bytes with a NUL behind them are a C string up to the first NUL. -/
theorem Cells.hasString_cutNul (h : ∀ j, j < p.length → c (i + j) = p[j]?)
    (hnul : c (i + p.length) = some 0) : c.HasString i (cutNul p) := by
  induction p generalizing i with
  | nil => exact hasString_nil.mpr hnul
  | cons b p ih =>
    obtain ⟨hb, hp⟩ := holds_cons.mp h
    rw [cutNul_cons]
    split
    · rename_i hzero
      rw [hzero] at hb
      exact hasString_nil.mpr hb
    · rename_i hne
      exact hasString_cons.mpr ⟨hne, hb, ih hp (nul_cons.symm.trans hnul)⟩

theorem Cells.Holds.hasString (h : c.Holds (s ++ 0 :: p)) (hs : 0 ∉ s) : c.HasString 0 s where
  noNul := hs
  holds j hj := by
    rw [Nat.zero_add, h j (by simp; omega), List.getElem?_append_left hj]
  nul := by
    rw [Nat.zero_add, h s.length (by simp), List.getElem?_append_right le_rfl, Nat.sub_self]
    rfl

end HasString

end O2k.MsgBuffer
