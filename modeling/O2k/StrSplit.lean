import O2k.SocketTransfer
import O2k.TextSplit

set_option autoImplicit false

namespace O2k.InputArgs
open ByteOrder SocketTransfer TextSplit

def strlen (s : Bytes) : ℤ := signed (UInt32.ofNat s.length)

def strstr (srcStr sep : Bytes) : Option ℕ := find sep srcStr

/-- The loop from `srcStr` on, with `left` for `end - srcStr`; `none` when it has not ended after
    so many rounds. -/
def splitLoop (sep : Bytes) (len2 : ℤ) : ℕ → Bytes → ℤ → List Bytes → Option (List Bytes)
  | 0, _, _, _ => none
  | rounds + 1, srcStr, left, out =>
    match strstr srcStr sep with
    | some p =>
      let one := srcStr.take p
      let out := if one.length > 0 then out ++ [one] else out
      let p := p + len2
      if p ≥ left then some out
      else splitLoop sep len2 rounds (srcStr.drop p.toNat) (left - p) out
    | none => some (if 0 < left then out ++ [srcStr] else out)

def StrSplit (srcStr sep : Bytes) (out : List Bytes) : Option (List Bytes) :=
  let len1 := strlen srcStr
  let len2 := strlen sep
  if len1 ≤ 0 then some out
  else if len2 ≤ 0 then some (out ++ [srcStr])
  else splitLoop sep len2 srcStr.length srcStr len1 out

theorem strlen_eq {s : Bytes} (h : s.length < 2 ^ 31) : strlen s = s.length := signed_ofNat _ h

theorem push_nonempty (out : List Bytes) (s : Bytes) :
    (if s.length > 0 then out ++ [s] else out) = out ++ [s].filter (· ≠ []) := by
  cases s <;> simp

/-- A round leaves less of the text, so as many rounds as it has bytes are enough. -/
theorem splitLoop_pieces {sep : Bytes} {len2 : ℤ} (hsep : sep ≠ []) (rounds : ℕ) (srcStr : Bytes)
    (out : List Bytes) (hlen2 : sep.length ≤ srcStr.length → len2 = sep.length)
    (hrounds : srcStr.length ≤ rounds) (hpos : 0 < rounds) :
    splitLoop sep len2 rounds srcStr srcStr.length out = some (out ++ pieces sep srcStr) := by
  induction rounds generalizing srcStr out with
  | zero => cases hpos
  | succ rounds ih =>
    rw [splitLoop, strstr]
    cases hfind : find sep srcStr with
    | none =>
      simp only [Int.natCast_pos]
      rw [pieces_find_none hfind, ← push_nonempty]
    | some p =>
      have hin := find_length hfind
      have hone := List.length_pos_iff.mpr hsep
      obtain rfl := hlen2 (by omega)
      have htoNat : ((p : ℤ) + (sep.length : ℤ)).toNat = p + sep.length := by omega
      simp only [htoNat]
      rw [push_nonempty, pieces_find_some hsep hfind, ← List.append_assoc]
      split
      · rename_i hend
        have hdrop : srcStr.drop (p + sep.length) = [] := List.drop_eq_nil_of_le (by omega)
        simp [hdrop, pieces, hsep, cut]
      · rename_i hend
        have hleft : (srcStr.length : ℤ) - (p + sep.length) =
            (srcStr.drop (p + sep.length)).length := by
          rw [List.length_drop]
          omega
        rw [hleft]
        refine ih _ _ (fun _ => rfl) ?_ ?_
        · rw [List.length_drop]
          omega
        · omega

theorem StrSplit_pieces (srcStr sep : Bytes) (out : List Bytes) (h : srcStr.length < 2 ^ 31) :
    StrSplit srcStr sep out = some (out ++ pieces sep srcStr) := by
  have hlen1 := strlen_eq h
  simp only [StrSplit, hlen1]
  cases srcStr with
  | nil => simp [pieces, cut]
  | cons b bs =>
    rw [if_neg (by simp only [List.length_cons]; omega)]
    by_cases hsep : sep = []
    · subst hsep
      have hlen2 : strlen [] = 0 := strlen_eq (by simp)
      rw [if_pos (by omega)]
      simp [pieces]
    · have hlen2 : sep.length ≤ (b :: bs).length → strlen sep = sep.length :=
        fun hle => strlen_eq (by omega)
      have hone := List.length_pos_iff.mpr hsep
      split
      · rename_i hwrapped
        have hlong : ¬ sep.length ≤ (b :: bs).length := by
          intro hle
          have heq := hlen2 hle
          omega
        rw [pieces_find_none (find_none_of_short (by omega))]
        simp
      · exact splitLoop_pieces hsep _ _ _ hlen2 le_rfl (by simp)

example : StrSplit (ascii ",,a,b,,,") (ascii ",,") [ascii "c"] =
    some [ascii "c", ascii "a,b", ascii ","] := by
  decide

theorem StrSplit_wrapped {srcStr : Bytes} (sep : Bytes) (out : List Bytes) (h : strlen srcStr ≤ 0) :
    StrSplit srcStr sep out = some (out ++ pieces sep srcStr) ↔ pieces sep srcStr = [] := by
  have hnothing : StrSplit srcStr sep out = some out := by
    simp only [StrSplit, if_pos h]
  rw [hnothing, Option.some_inj]
  exact List.self_eq_append_right

/-- A text whose length is an `int` is cut right. When the length wraps to zero or below, nothing is
    appended, which is right only for a text that holds no piece. -/
theorem StrSplit_appends (srcStr sep : Bytes) (out : List Bytes) :
    (srcStr.length < 2 ^ 31 → StrSplit srcStr sep out = some (out ++ pieces sep srcStr)) ∧
      (strlen srcStr ≤ 0 →
        (StrSplit srcStr sep out = some (out ++ pieces sep srcStr) ↔ pieces sep srcStr = [])) :=
  ⟨StrSplit_pieces srcStr sep out, StrSplit_wrapped sep out⟩

theorem pieces_replicate {b c : UInt8} (hne : b ≠ c) {n : ℕ} (hpos : 0 < n) :
    pieces [c] (List.replicate n b) ≠ [] := by
  intro hnone
  have hflat := flatten_pieces c (List.replicate n b)
  rw [hnone, List.filter_replicate_of_pos (by simpa using hne)] at hflat
  exact ((List.replicate_eq_nil_iff b).mp hflat.symm).not_gt hpos

theorem longText_dropped :
    ¬ ∀ srcStr sep out, StrSplit srcStr sep out = some (out ++ pieces sep srcStr) := by
  intro h
  have hwrapped : strlen (List.replicate (2 ^ 31) 97) ≤ 0 := by
    rw [strlen, List.length_replicate]
    decide
  have hnone := (StrSplit_wrapped [44] [] hwrapped).mp (h _ _ _)
  exact pieces_replicate (by decide) (Nat.two_pow_pos 31) hnone

end O2k.InputArgs
