import O2k.ByteOrder

set_option autoImplicit false

namespace O2k.Getopt
open ByteOrder

/-- What one call returns before the last. An option without a value has no `optarg`, which is the
    empty one here; a `?` stands for an unknown option and for a missing value. -/
inductive Call where
  | option (c : UInt8) (optarg : Bytes)
  | unknown
  deriving DecidableEq

def DASH : UInt8 := 45
def COLON : UInt8 := 58

def options : Bytes → List (UInt8 × Bool)
  | [] => []
  | [c] => [(c, false)]
  | c :: d :: rest =>
    if d = COLON then (c, true) :: options rest else (c, false) :: options (d :: rest)

def kind (optstring : Bytes) (c : UInt8) : Option Bool :=
  ((options optstring).find? fun o => o.1 = c).map (·.2)

def cluster (optstring : Bytes) : Bytes → List Call × Option UInt8
  | [] => ([], none)
  | c :: cs =>
    match kind optstring c with
    | none => (.unknown :: (cluster optstring cs).1, (cluster optstring cs).2)
    | some false => (.option c [] :: (cluster optstring cs).1, (cluster optstring cs).2)
    | some true => if cs = [] then ([], some c) else ([.option c cs], none)

def Operand (word : Bytes) : Prop := word.head? ≠ some DASH ∨ word.length = 1

instance : DecidablePred Operand := fun _ => inferInstanceAs (Decidable (_ ∨ _))

/-- The calls on some words, when an option before them is still without its value. -/
def scan (optstring : Bytes) : Option UInt8 → List Bytes → List Call
  | none, [] => []
  | some _, [] => [.unknown]
  | some c, v :: words => .option c v :: scan optstring none words
  | none, word :: words =>
    if Operand word then scan optstring none words
    else if word = [DASH, DASH] then []
    else (cluster optstring word.tail).1 ++ scan optstring (cluster optstring word.tail).2 words

def getopt (optstring : Bytes) (args : List Bytes) : List Call := scan optstring none args

theorem kind_ne_none_iff {o : Bytes} {c : UInt8} :
    kind o c ≠ none ↔ c ∈ (options o).map (·.1) := by
  rw [kind, Ne, Option.map_eq_none_iff, ← Ne, ← Option.isSome_iff_ne_none, List.find?_isSome]
  simp only [decide_eq_true_eq, List.mem_map]

def Narrows (o o' : Bytes) : Prop :=
  ∀ c ∈ (options o).map (·.1), kind o' c = none ∨ kind o' c = kind o c

instance (o o' : Bytes) : Decidable (Narrows o o') := inferInstanceAs (Decidable (∀ c ∈ _, _))

/-- Reading with `o'` is the same as with `o`, which has all the options used, or it meets an
    option that `o'` lacks. -/
def Compared (o o' : Bytes) (used : UInt8 → Prop) (same refused : Prop) : Prop :=
  (same ∧ ∀ c, used c → kind o c ≠ none ∧ kind o' c ≠ none) ∨
    (refused ∧ ∃ c, used c ∧ kind o c ≠ none ∧ kind o' c = none)

section Narrower

variable {o o' : Bytes} {c : UInt8} {cs : Bytes}

theorem Compared.mono {used used' : UInt8 → Prop} {same same' refused refused' : Prop}
    (h : Compared o o' used same refused) (hsame : same → same') (hrefused : refused → refused')
    (hsub : ∀ d, used d → used' d)
    (hboth : ∀ d, used' d → used d ∨ (kind o d ≠ none ∧ kind o' d ≠ none)) :
    Compared o o' used' same' refused' := by
  rcases h with ⟨heq, hall⟩ | ⟨href, d, hd, hlack⟩
  · refine .inl ⟨hsame heq, ?_⟩
    intro d hd
    exact (hboth d hd).elim (hall d) id
  · exact .inr ⟨hrefused href, d, hsub d hd, hlack⟩

theorem cluster_unknown (h : kind o c = none) :
    cluster o (c :: cs) = (.unknown :: (cluster o cs).1, (cluster o cs).2) := by
  simp only [cluster, h]

theorem cluster_flag (h : kind o c = some false) :
    cluster o (c :: cs) = (.option c [] :: (cluster o cs).1, (cluster o cs).2) := by
  simp only [cluster, h]

theorem cluster_value (h : kind o c = some true) :
    cluster o (c :: cs) = if cs = [] then ([], some c) else ([.option c cs], none) := by
  simp only [cluster, h]

def Uses (r : List Call × Option UInt8) (c : UInt8) : Prop :=
  (∃ v, .option c v ∈ r.1) ∨ r.2 = some c

theorem cluster_compared (h : Narrows o o') (cs : Bytes) (hknown : .unknown ∉ (cluster o cs).1) :
    Compared o o' (Uses (cluster o cs)) (cluster o' cs = cluster o cs)
      (.unknown ∈ (cluster o' cs).1) := by
  induction cs with
  | nil => exact .inl ⟨rfl, by simp [Uses, cluster]⟩
  | cons c cs ih =>
    have hmiss : kind o c ≠ none → Uses (cluster o (c :: cs)) c → kind o' c = none →
        Compared o o' (Uses (cluster o (c :: cs))) (cluster o' (c :: cs) = cluster o (c :: cs))
          (.unknown ∈ (cluster o' (c :: cs)).1) := by
      intro hc huses hc'
      exact .inr ⟨by simp [cluster_unknown hc'], c, huses, hc, hc'⟩
    cases hkind : kind o c with
    | none => simp [cluster_unknown hkind] at hknown
    | some takes =>
      have hc : kind o c ≠ none := by simp [hkind]
      have hc' := h c (kind_ne_none_iff.mp hc)
      cases takes with
      | false =>
        rw [cluster_flag hkind] at hknown hmiss ⊢
        rcases hc' with hc' | hc'
        · exact hmiss hc (.inl ⟨[], by simp⟩) hc'
        · rw [hkind] at hc'
          rw [cluster_flag hc']
          apply (ih (List.not_mem_of_not_mem_cons hknown)).mono
          · intro heq
            rw [heq]
          · exact List.mem_cons_of_mem _
          · intro d hd
            exact hd.imp (fun ⟨v, hv⟩ => ⟨v, List.mem_cons_of_mem _ hv⟩) id
          · rintro d (⟨v, hv⟩ | hv)
            · rcases List.mem_cons.mp hv with hv | hv
              · obtain ⟨rfl, _⟩ := Call.option.inj hv
                exact .inr (by simp [hkind, hc'])
              · exact .inl (.inl ⟨v, hv⟩)
            · exact .inl (.inr hv)
      | true =>
        have huses : Uses (cluster o (c :: cs)) c := by
          rw [cluster_value hkind]
          by_cases hcs : cs = [] <;> simp [hcs, Uses]
        rcases hc' with hc' | hc'
        · exact hmiss hc huses hc'
        · rw [hkind] at hc'
          refine .inl ⟨by rw [cluster_value hkind, cluster_value hc'], ?_⟩
          have honly : ∀ d, Uses (cluster o (c :: cs)) d → d = c := by
            intro d hd
            rw [cluster_value hkind] at hd
            by_cases hcs : cs = []
            · simpa [hcs, Uses, eq_comm] using hd
            · simp only [hcs, if_false, Uses, List.mem_singleton, reduceCtorEq, or_false] at hd
              obtain ⟨v, hv⟩ := hd
              exact (Call.option.inj hv).1
          intro d hd
          obtain rfl := honly d hd
          simp [hkind, hc']

theorem scan_compared (h : Narrows o o') (args : List Bytes) (takes : Option UInt8)
    (htakes : ∀ c, takes = some c → kind o c ≠ none ∧ kind o' c ≠ none)
    (hknown : .unknown ∉ scan o takes args) :
    Compared o o' (fun c => ∃ v, .option c v ∈ scan o takes args)
      (scan o' takes args = scan o takes args) (.unknown ∈ scan o' takes args) := by
  induction args generalizing takes with
  | nil =>
    cases takes with
    | none => exact .inl ⟨rfl, by simp [scan]⟩
    | some c => simp [scan] at hknown
  | cons word words ih =>
    cases takes with
    | some c =>
      simp only [scan] at hknown ⊢
      apply (ih none (by simp) (List.not_mem_of_not_mem_cons hknown)).mono
      · intro heq
        rw [heq]
      · exact List.mem_cons_of_mem _
      · rintro d ⟨v, hv⟩
        exact ⟨v, List.mem_cons_of_mem _ hv⟩
      · rintro d ⟨v, hv⟩
        rcases List.mem_cons.mp hv with hv | hv
        · obtain ⟨rfl, _⟩ := Call.option.inj hv
          exact .inr (htakes d rfl)
        · exact .inl ⟨v, hv⟩
    | none =>
      simp only [scan] at hknown ⊢
      split at hknown
      · simp only [if_pos ‹Operand word›]
        exact ih none (by simp) hknown
      · simp only [if_neg ‹¬ Operand word›]
        split at hknown
        · simp only [if_pos ‹word = _›]
          exact .inl ⟨trivial, by simp⟩
        · simp only [if_neg ‹¬ word = _›]
          rw [List.mem_append, not_or] at hknown
          rcases cluster_compared h word.tail hknown.1 with ⟨heq, hall⟩ | ⟨href, d, hd, hlack⟩
          · rw [heq]
            apply (ih _ (fun c hc => hall c (.inr hc)) hknown.2).mono
            · intro hrest
              rw [hrest]
            · exact List.mem_append_right _
            · rintro d ⟨v, hv⟩
              exact ⟨v, List.mem_append_right _ hv⟩
            · rintro d ⟨v, hv⟩
              rcases List.mem_append.mp hv with hv | hv
              · exact .inr (hall d (.inl ⟨v, hv⟩))
              · exact .inl ⟨v, hv⟩
          · refine .inr ⟨List.mem_append_left _ href, d, ?_, hlack⟩
            rcases hd with ⟨v, hv⟩ | hd
            · exact ⟨v, List.mem_append_left _ hv⟩
            · rw [hd] at hknown ⊢
              cases words with
              | nil => simp [scan] at hknown
              | cons v words => exact ⟨v, List.mem_append_right _ List.mem_cons_self⟩

theorem getopt_compared (h : Narrows o o') (args : List Bytes) (hknown : .unknown ∉ getopt o args) :
    Compared o o' (fun c => ∃ v, .option c v ∈ getopt o args) (getopt o' args = getopt o args)
      (.unknown ∈ getopt o' args) :=
  scan_compared h args none (by simp) hknown

end Narrower

end O2k.Getopt
