import Mathlib.Data.List.Basic
import Mathlib.Data.List.Infix

set_option autoImplicit false

/-!
# Chunked sources

A source is the list of what successive read calls can meet: chunks that have
arrived, and faults. When the list runs out the source has ended, and stays
ended. `pull` is one read call, `fill` the read-until-full loop, and
`fill_steady` says that the outcome of the loop depends on the items of the
source and not on how they are split into chunks.
-/
namespace O2k.ChunkedSource

variable {ε α : Type}

inductive Arrival (ε α : Type) where
  | chunk (a : α) (as : List α)
  | fault (e : ε)
  deriving DecidableEq

abbrev Source (ε α : Type) := List (Arrival ε α)

def Arrival.items : Arrival ε α → List α
  | .chunk a as => a :: as
  | .fault _ => []

def items : Source ε α → List α
  | [] => []
  | x :: src => x.items ++ items src

@[simp] theorem items_nil : items ([] : Source ε α) = [] := rfl

@[simp] theorem items_chunk (a : α) (as : List α) (src : Source ε α) :
    items (.chunk a as :: src) = a :: as ++ items src := rfl

@[simp] theorem items_fault (e : ε) (src : Source ε α) :
    items (.fault e :: src) = items src := rfl

def unread : List α → Source ε α → Source ε α
  | [], src => src
  | a :: as, src => .chunk a as :: src

@[simp] theorem items_unread (xs : List α) (src : Source ε α) :
    items (unread xs src) = xs ++ items src := by
  cases xs <;> rfl

inductive Pulled (ε α : Type) where
  | data (a : α) (as : List α)
  | ended
  | fault (e : ε)
  deriving DecidableEq

/-- One read call with room for `room` items (at least one): it takes from the
    first chunk only, and leaves there what does not fit. -/
def pull (room : ℕ) : Source ε α → Pulled ε α × Source ε α
  | [] => (.ended, [])
  | .fault e :: src => (.fault e, src)
  | .chunk a as :: src => (.data a (as.take (room - 1)), unread (as.drop (room - 1)) src)

def available : Source ε α → ℕ
  | .chunk _ as :: _ => as.length + 1
  | _ => 0

theorem pull_short {n : ℕ} {src rest : Source ε α} {a : α} {as : List α}
    (h : available src < n) (hpull : pull n src = (.data a as, rest)) : (a :: as).length < n := by
  match src, hpull with
  | .chunk b bs :: tail, hpull =>
    simp only [pull, Prod.mk.injEq, Pulled.data.injEq] at hpull
    obtain ⟨⟨rfl, rfl⟩, _⟩ := hpull
    simp only [available] at h
    rw [List.length_cons, List.length_take]
    omega

inductive Stop (ε : Type) where
  | full
  | ended
  | fault (e : ε)
  deriving DecidableEq

structure Filled (ε α : Type) where
  got : List α
  stop : Stop ε
  rest : Source ε α

/-- The read-until-full loop: a fault that `retry` accepts is passed over. -/
def fill (retry : ε → Bool) : ℕ → Source ε α → Filled ε α
  | 0, src => ⟨[], .full, src⟩
  | _ + 1, [] => ⟨[], .ended, []⟩
  | n + 1, .fault e :: src => if retry e then fill retry (n + 1) src else ⟨[], .fault e, src⟩
  | n + 1, .chunk a as :: src =>
    if n ≤ as.length then ⟨a :: as.take n, .full, unread (as.drop n) src⟩
    else
      let more := fill retry (n - as.length) src
      ⟨a :: as ++ more.got, more.stop, more.rest⟩

@[simp] theorem fill_zero (retry : ε → Bool) (src : Source ε α) :
    fill retry 0 src = ⟨[], .full, src⟩ := by
  cases src <;> rfl

theorem fill_items (retry : ε → Bool) (n : ℕ) (src : Source ε α) :
    items src = (fill retry n src).got ++ items (fill retry n src).rest := by
  induction src generalizing n with
  | nil => cases n <;> rfl
  | cons x src ih =>
    cases n with
    | zero => simp
    | succ n =>
      cases x with
      | fault e =>
        by_cases hr : retry e
        · simpa [fill, hr] using ih (n + 1)
        · simp [fill, hr]
      | chunk a as =>
        by_cases hn : n ≤ as.length
        · simp [fill, hn, ← List.append_assoc]
        · simpa [fill, hn] using ih (n - as.length)

theorem fill_length_le (retry : ε → Bool) (n : ℕ) (src : Source ε α) :
    (fill retry n src).got.length ≤ n := by
  induction src generalizing n with
  | nil => cases n <;> simp [fill]
  | cons x src ih =>
    cases n with
    | zero => simp
    | succ n =>
      cases x with
      | fault e =>
        by_cases hr : retry e
        · simpa [fill, hr] using ih (n + 1)
        · simp [fill, hr]
      | chunk a as =>
        by_cases hn : n ≤ as.length
        · simp [fill, hn]
        · have h := ih (n - as.length)
          simp only [fill, hn, ↓reduceIte, List.length_append, List.length_cons]
          omega

theorem fill_full_iff (retry : ε → Bool) (n : ℕ) (src : Source ε α) :
    (fill retry n src).stop = .full ↔ (fill retry n src).got.length = n := by
  induction src generalizing n with
  | nil => cases n <;> simp [fill]
  | cons x src ih =>
    cases n with
    | zero => simp
    | succ n =>
      cases x with
      | fault e =>
        by_cases hr : retry e
        · simpa [fill, hr] using ih (n + 1)
        · simp [fill, hr]
      | chunk a as =>
        by_cases hn : n ≤ as.length
        · simp [fill, hn]
        · have h := ih (n - as.length)
          simp only [fill, hn, ↓reduceIte, List.length_append, List.length_cons, h]
          omega

theorem fill_ended_rest (retry : ε → Bool) (n : ℕ) (src : Source ε α)
    (h : (fill retry n src).stop = .ended) : (fill retry n src).rest = [] := by
  induction src generalizing n with
  | nil => cases n <;> simp_all [fill]
  | cons x src ih =>
    cases n with
    | zero => simp at h
    | succ n =>
      cases x with
      | fault e =>
        by_cases hr : retry e
        · simpa [fill, hr] using ih (n + 1) (by simpa [fill, hr] using h)
        · simp [fill, hr] at h
      | chunk a as =>
        by_cases hn : n ≤ as.length
        · simp [fill, hn] at h
        · simpa [fill, hn] using ih (n - as.length) (by simpa [fill, hn] using h)

def Steady (retry : ε → Bool) (src : Source ε α) : Prop :=
  ∀ e, .fault e ∈ src → retry e = true

theorem Steady.tail {retry : ε → Bool} {x : Arrival ε α} {src : Source ε α}
    (h : Steady retry (x :: src)) : Steady retry src :=
  fun e he => h e (List.mem_cons_of_mem _ he)

theorem Steady.unread {retry : ε → Bool} {src : Source ε α} (h : Steady retry src)
    (xs : List α) : Steady retry (unread xs src) := by
  cases xs with
  | nil => exact h
  | cons a as =>
    intro e he
    exact h e (by simpa [ChunkedSource.unread] using he)

/-- Chunk invariance: on a steady source the loop returns the first `n` items,
    whatever the chunks, and leaves a steady source holding the others. -/
theorem fill_steady (retry : ε → Bool) (n : ℕ) (src : Source ε α)
    (hs : Steady retry src) (hn : n ≤ (items src).length) :
    (fill retry n src).got = (items src).take n ∧ (fill retry n src).stop = .full ∧
      items (fill retry n src).rest = (items src).drop n ∧ Steady retry (fill retry n src).rest := by
  induction src generalizing n with
  | nil =>
    obtain rfl : n = 0 := by simpa using hn
    simpa using hs
  | cons x src ih =>
    cases n with
    | zero => simpa using hs
    | succ n =>
      cases x with
      | fault e =>
        have hr : retry e = true := hs e (by simp)
        simpa [fill, hr] using ih (n + 1) hs.tail (by simpa using hn)
      | chunk a as =>
        by_cases hle : n ≤ as.length
        · have hd : as.drop n ++ items src = (as ++ items src).drop n :=
            (List.drop_append_of_le_length hle).symm
          have ht : as.take n = (as ++ items src).take n :=
            (List.take_append_of_le_length hle).symm
          refine ⟨?_, ?_, ?_, ?_⟩
          · simp [fill, hle, ht]
          · simp [fill, hle]
          · simp [fill, hle, hd]
          · simpa [fill, hle] using hs.tail.unread (as.drop n)
        · have hlen : n - as.length ≤ (items src).length := by
            simp only [items_chunk, List.length_append, List.length_cons] at hn
            omega
          obtain ⟨hgot, hstop, hrest, hsteady⟩ := ih (n - as.length) hs.tail hlen
          have hlt : as.length ≤ n := by omega
          refine ⟨?_, ?_, ?_, ?_⟩
          · simp [fill, hle, hgot, List.take_append, List.take_of_length_le hlt]
          · simpa [fill, hle] using hstop
          · simp [fill, hle, hrest, List.drop_append, List.drop_eq_nil_of_le hlt]
          · simpa [fill, hle] using hsteady

theorem pull_eq_fill (retry : ε → Bool) {n : ℕ} {src : Source ε α} (hpos : 0 < n)
    (h : n ≤ available src) :
    ∃ a as, pull n src = (.data a as, (fill retry n src).rest) ∧ (fill retry n src).got = a :: as := by
  match n, src, hpos, h with
  | n + 1, .chunk a as :: tail, _, h =>
    have hle : n ≤ as.length := by
      simp only [available] at h
      omega
    exact ⟨a, as.take n, by simp [pull, fill, hle], by simp [fill, hle]⟩

theorem fill_unread (retry : ε → Bool) (n : ℕ) (xs : List α) (src : Source ε α) :
    fill retry n (unread xs src) =
      if n ≤ xs.length then ⟨xs.take n, .full, unread (xs.drop n) src⟩
      else
        let more := fill retry (n - xs.length) src
        ⟨xs ++ more.got, more.stop, more.rest⟩ := by
  cases xs with
  | nil =>
    cases n with
    | zero => simp [unread]
    | succ n => simp [unread]
  | cons a as =>
    cases n with
    | zero => simp
    | succ n => simp [unread, fill]

theorem fill_add (retry : ε → Bool) (m n : ℕ) (src : Source ε α)
    (h : (fill retry m src).stop = .full) :
    fill retry (m + n) src =
      let more := fill retry n (fill retry m src).rest
      ⟨(fill retry m src).got ++ more.got, more.stop, more.rest⟩ := by
  induction src generalizing m with
  | nil =>
    cases m with
    | zero => simp
    | succ m => simp [fill] at h
  | cons x src ih =>
    cases m with
    | zero => simp
    | succ m =>
      rw [Nat.succ_add]
      cases x with
      | fault e =>
        by_cases hr : retry e
        · have hi := ih (m + 1) (by simpa [fill, hr] using h)
          rw [Nat.succ_add] at hi
          simpa [fill, hr] using hi
        · simp [fill, hr] at h
      | chunk a as =>
        by_cases hm : m ≤ as.length
        · by_cases hmn : m + n ≤ as.length
          · have hn : n ≤ as.length - m := by omega
            simp [fill, hm, hmn, fill_unread, hn, List.take_add]
          · have hn : ¬ n ≤ as.length - m := by omega
            have he : n - (as.length - m) = m + n - as.length := by omega
            simp [fill, hm, hmn, fill_unread, hn, he, ← List.append_assoc]
        · have hi := ih (m - as.length) (by simpa [fill, hm] using h)
          have he : m + n - as.length = m - as.length + n := by omega
          have hmn : ¬ m + n ≤ as.length := by omega
          simp [fill, hm, hmn, he, hi]

theorem fill_add_of_not_full (retry : ε → Bool) (m n : ℕ) (src : Source ε α)
    (h : (fill retry m src).stop ≠ .full) : fill retry (m + n) src = fill retry m src := by
  induction src generalizing m with
  | nil =>
    cases m with
    | zero => simp at h
    | succ m =>
      rw [Nat.succ_add]
      rfl
  | cons x src ih =>
    cases m with
    | zero => simp at h
    | succ m =>
      rw [Nat.succ_add]
      cases x with
      | fault e =>
        by_cases hr : retry e
        · have hi := ih (m + 1) (by simpa [fill, hr] using h)
          rw [Nat.succ_add] at hi
          simpa [fill, hr] using hi
        · simp [fill, hr]
      | chunk a as =>
        by_cases hm : m ≤ as.length
        · simp [fill, hm] at h
        · have hi := ih (m - as.length) (by simpa [fill, hm] using h)
          have he : m + n - as.length = m - as.length + n := by omega
          have hmn : ¬ m + n ≤ as.length := by omega
          simp [fill, hm, hmn, he, hi]

theorem fill_got_append (retry : ε → Bool) (xs ys : List α) (src : Source ε α)
    (h : (fill retry (xs.length + ys.length) src).got = xs ++ ys) :
    (fill retry xs.length src).got = xs ∧ (fill retry xs.length src).stop = .full ∧
      (fill retry ys.length (fill retry xs.length src).rest).got = ys ∧
      (fill retry ys.length (fill retry xs.length src).rest).stop = .full ∧
      (fill retry ys.length (fill retry xs.length src).rest).rest =
        (fill retry (xs.length + ys.length) src).rest := by
  have hall : (fill retry (xs.length + ys.length) src).stop = .full :=
    (fill_full_iff _ _ _).mpr (by rw [h, List.length_append])
  have hfirst : (fill retry xs.length src).stop = .full := by
    by_contra hno
    rw [fill_add_of_not_full retry _ _ _ hno] at hall
    exact hno hall
  have hlen := (fill_full_iff _ _ _).mp hfirst
  rw [fill_add retry _ _ _ hfirst] at h hall ⊢
  obtain ⟨hx, hy⟩ := List.append_inj h hlen
  exact ⟨hx, hfirst, hy, hall, rfl⟩

end O2k.ChunkedSource
