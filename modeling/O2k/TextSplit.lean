import Mathlib.Data.List.Basic

set_option autoImplicit false

namespace O2k.TextSplit

theorem length_flatMap_append {α β : Type} (f g : β → List α) (bs : List β) :
    (bs.flatMap fun b => f b ++ g b).length = (bs.flatMap f).length + (bs.flatMap g).length := by
  induction bs with
  | nil => rfl
  | cons b bs ih =>
    simp only [List.flatMap_cons, List.length_append, ih]
    omega

variable {α : Type} [DecidableEq α]

def cut (sep : List α) : ℕ → List α → List (List α)
  | _, [] => [[]]
  | skip + 1, _ :: s => cut sep skip s
  | 0, c :: s =>
    if sep.isPrefixOf (c :: s) then [] :: cut sep (sep.length - 1) s
    else (cut sep 0 s).modifyHead (c :: ·)

/-- The pieces that are not empty; without a separator, the whole text is one piece. -/
def pieces (sep s : List α) : List (List α) :=
  (if sep = [] then [s] else cut sep 0 s).filter (· ≠ [])

def find (sep : List α) : List α → Option ℕ
  | [] => if sep = [] then some 0 else none
  | c :: s => if sep.isPrefixOf (c :: s) then some 0 else (find sep s).map (· + 1)

theorem find_length {sep s : List α} {i : ℕ} (h : find sep s = some i) :
    i + sep.length ≤ s.length := by
  induction s generalizing i with
  | nil =>
    unfold find at h
    split at h
    · obtain rfl := Option.some.inj h
      simp [*]
    · cases h
  | cons c s ih =>
    unfold find at h
    split at h
    · rename_i hprefix
      obtain rfl := Option.some.inj h
      simpa using (List.isPrefixOf_iff_prefix.mp hprefix).length_le
    · obtain ⟨j, hj, rfl⟩ := Option.map_eq_some_iff.mp h
      have hle := ih hj
      simp only [List.length_cons]
      omega

theorem find_none_of_short {sep s : List α} (h : s.length < sep.length) : find sep s = none := by
  cases hfind : find sep s with
  | none => rfl
  | some i =>
    have hle := find_length hfind
    omega

theorem cut_skip (sep : List α) (k : ℕ) (s : List α) : cut sep k s = cut sep 0 (s.drop k) := by
  induction s generalizing k with
  | nil => cases k <;> rfl
  | cons c s ih =>
    cases k with
    | zero => rfl
    | succ k => exact ih k

theorem cut_find_none {sep s : List α} (h : find sep s = none) : cut sep 0 s = [s] := by
  induction s with
  | nil => rfl
  | cons c s ih =>
    unfold find at h
    split at h
    · cases h
    · rename_i hprefix
      rw [cut, if_neg hprefix, ih (Option.map_eq_none_iff.mp h)]
      rfl

theorem cut_find_some {sep s : List α} {i : ℕ} (hsep : sep ≠ []) (h : find sep s = some i) :
    cut sep 0 s = s.take i :: cut sep 0 (s.drop (i + sep.length)) := by
  induction s generalizing i with
  | nil => simp [find, hsep] at h
  | cons c s ih =>
    unfold find at h
    split at h
    · rename_i hprefix
      obtain rfl := Option.some.inj h
      obtain ⟨d, sep, rfl⟩ := List.exists_cons_of_ne_nil hsep
      rw [cut, if_pos hprefix, cut_skip]
      simp
    · rename_i hprefix
      obtain ⟨j, hj, rfl⟩ := Option.map_eq_some_iff.mp h
      rw [cut, if_neg hprefix, ih hj, Nat.add_right_comm]
      rfl

theorem pieces_find_none {sep s : List α} (h : find sep s = none) :
    pieces sep s = [s].filter (· ≠ []) := by
  unfold pieces
  split
  · rfl
  · rw [cut_find_none h]

theorem pieces_find_some {sep s : List α} {i : ℕ} (hsep : sep ≠ []) (h : find sep s = some i) :
    pieces sep s = [s.take i].filter (· ≠ []) ++ pieces sep (s.drop (i + sep.length)) := by
  rw [pieces, if_neg hsep, cut_find_some hsep h, pieces, if_neg hsep, ← List.filter_append,
    List.singleton_append]

section Character

variable (c : α)

theorem cut_ne_nil (skip : ℕ) (sep s : List α) : cut sep skip s ≠ [] := by
  induction s generalizing skip with
  | nil => cases skip <;> simp [cut]
  | cons d s ih =>
    cases skip with
    | succ skip => exact ih skip
    | zero =>
      rw [cut]
      split
      · simp
      · exact fun h => ih 0 (List.modifyHead_eq_nil_iff.mp h)

theorem cut_character (d : α) (s : List α) :
    cut [c] 0 (d :: s) = if d = c then [] :: cut [c] 0 s else (cut [c] 0 s).modifyHead (d :: ·) := by
  rw [cut]
  by_cases hd : d = c
  · rw [if_pos hd, if_pos (by simp [hd])]
    rfl
  · rw [if_neg hd, if_neg (by simp [Ne.symm hd])]

theorem flatten_pieces (s : List α) : (pieces [c] s).flatten = s.filter (· ≠ c) := by
  have hcut : (cut [c] 0 s).flatten = s.filter (· ≠ c) := by
    induction s with
    | nil => rfl
    | cons d s ih =>
      rw [cut_character]
      by_cases hd : d = c
      · simp [hd, ih]
      · obtain ⟨p, ps, hps⟩ := List.exists_cons_of_ne_nil (cut_ne_nil 0 [c] s)
        rw [hps] at ih ⊢
        rw [if_neg hd, List.filter_cons_of_pos (by simpa using hd), ← ih]
        rfl
  rw [pieces, if_neg (by simp), ← hcut]
  generalize cut [c] 0 s = ps
  induction ps with
  | nil => rfl
  | cons p ps ih => cases p <;> simp_all

theorem pieces_append_separators (s : List α) {t : List α} (ht : ∀ d ∈ t, d = c) :
    pieces [c] (s ++ t) = pieces [c] s := by
  have hcut : ∃ n, cut [c] 0 (s ++ t) = cut [c] 0 s ++ List.replicate n [] := by
    induction s with
    | nil =>
      refine ⟨t.length, ?_⟩
      induction t with
      | nil => rfl
      | cons d t ih =>
        obtain ⟨hd, ht⟩ := List.forall_mem_cons.mp ht
        have hrest : cut [c] 0 t = [] :: List.replicate t.length [] := ih ht
        rw [List.nil_append, cut_character, if_pos hd, hrest]
        rfl
    | cons d s ih =>
      obtain ⟨n, hn⟩ := ih
      refine ⟨n, ?_⟩
      rw [List.cons_append, cut_character, cut_character, hn]
      split
      · rfl
      · obtain ⟨p, ps, hps⟩ := List.exists_cons_of_ne_nil (cut_ne_nil 0 [c] s)
        rw [hps]
        rfl
  obtain ⟨n, hn⟩ := hcut
  rw [pieces, pieces, if_neg (by simp), if_neg (by simp), hn, List.filter_append]
  simp

/-- Texts that are cut short keep their pieces when only separators are cut off. -/
theorem flatMap_pieces_take_iff (n : ℕ) (ss : List (List α)) :
    ss.flatMap (fun s => pieces [c] (s.take n)) = ss.flatMap (pieces [c]) ↔
      ∀ s ∈ ss, ∀ d ∈ s.drop n, d = c := by
  constructor
  · intro h
    have hkept : (ss.flatMap fun s => (s.take n).filter (· ≠ c)).length =
        (ss.flatMap fun s => (s.take n).filter (· ≠ c) ++ (s.drop n).filter (· ≠ c)).length := by
      have hflat := congrArg (fun ps => (ps.flatMap id).length) h
      simpa only [List.flatMap_assoc, List.flatMap_id, flatten_pieces, ← List.filter_append,
        List.take_append_drop] using hflat
    rw [length_flatMap_append] at hkept
    have hnone : (ss.flatMap fun s => (s.drop n).filter (· ≠ c)) = [] :=
      List.length_eq_zero_iff.mp (by omega)
    intro s hs d hd
    have hfilter := List.flatMap_eq_nil_iff.mp hnone s hs
    simpa using List.filter_eq_nil_iff.mp hfilter d hd
  · intro h
    refine List.flatMap_congr fun s hs => ?_
    rw [← pieces_append_separators c (s.take n) (h s hs), List.take_append_drop]

end Character

end O2k.TextSplit
