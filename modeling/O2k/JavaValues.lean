import O2k.BinaryRounding

set_option autoImplicit false

/-!
# Java strings and doubles

The operations on doubles, `equalsIgnoreCase` against a name in small ASCII
letters, `Long.parseLong` and `Double.parseDouble`. What yields a double is given
the rounding of its exact result: `Double.nearest` is that of Java, and with
`Double.finite` decimals are read and subtracted exactly.
-/
namespace O2k.JavaValues
open BinaryRounding

/-- A Java `double`; the two zeros are one value. -/
inductive Double where
  | nan
  | finite (value : ℚ)
  | infinite (negative : Bool)
  deriving DecidableEq

def Double.lt : Double → Double → Bool
  | .finite a, .finite b => a < b
  | .finite _, .infinite negative => !negative
  | .infinite negative, .finite _ => negative
  | .infinite negative, .infinite negative' => negative && !negative'
  | _, _ => false

def binary64 : Format := ⟨52, -1074⟩

def Double.nearest (q : ℚ) : Double :=
  if 2 ^ 1024 ≤ |binary64.round q| then .infinite (q < 0) else .finite (binary64.round q)

def Double.rounded (rnd : ℚ → Double) : Double → Double
  | .finite q => rnd q
  | d => d

def Double.sub (rnd : ℚ → Double) : Double → Double → Double
  | .finite a, .finite b => rnd (a - b)
  | .finite _, .infinite negative => .infinite !negative
  | .infinite negative, .finite _ => .infinite negative
  | .infinite negative, .infinite negative' =>
    if negative = negative' then .nan else .infinite negative
  | _, _ => .nan

def Double.abs : Double → Double
  | .finite a => .finite |a|
  | .infinite _ => .infinite false
  | .nan => .nan

abbrev JavaString := List Char

/-- What the two case mappings of Java make of a character, where that is an ASCII letter. -/
def foldCase (c : Char) : Char :=
  if 'A' ≤ c ∧ c ≤ 'Z' then Char.ofNat (c.toNat + 32)
  else if c = 'İ' ∨ c = 'ı' then 'i'
  else if c = 'ſ' then 's'
  else if c.toNat = 0x212A then 'k'
  else c

/-- `equalsIgnoreCase`, for a literal of small ASCII letters. -/
def equalsIgnoreCase (s : JavaString) (literal : String) : Bool :=
  s.map foldCase = literal.toList

/-- The zeros of the scripts whose digits fit in a `char` (Java 8). -/
def digitZeros : List ℕ :=
  [0x30, 0x660, 0x6F0, 0x7C0, 0x966, 0x9E6, 0xA66, 0xAE6, 0xB66, 0xBE6, 0xC66, 0xCE6, 0xD66,
    0xE50, 0xED0, 0xF20, 0x1040, 0x1090, 0x17E0, 0x1810, 0x1946, 0x19D0, 0x1A80, 0x1A90, 0x1B50,
    0x1BB0, 0x1C40, 0x1C50, 0xA620, 0xA8D0, 0xA900, 0xA9D0, 0xAA50, 0xABF0, 0xFF10]

def digit (c : Char) : Option ℕ :=
  (digitZeros.find? fun first => first ≤ c.toNat ∧ c.toNat < first + 10).map (c.toNat - ·)

def magnitude (base : ℕ) (value : Char → Option ℕ) (digits : List Char) : ℕ :=
  digits.foldl (fun n c => n * base + (value c).getD 0) 0

def takeSign : JavaString → Bool × JavaString
  | '-' :: s => (true, s)
  | '+' :: s => (false, s)
  | s => (false, s)

def signed (negative : Bool) (n : ℕ) : ℤ := if negative then -n else n

def parseInteger (s : JavaString) : Option ℤ :=
  let (negative, digits) := takeSign s
  if digits ≠ [] ∧ digits.all (fun c => (digit c).isSome) then
    some (signed negative (magnitude 10 digit digits))
  else none

/-- None is a `NumberFormatException`. -/
def parseLong (s : JavaString) : Option ℤ :=
  (parseInteger s).filter fun n => -2 ^ 63 ≤ n ∧ n < 2 ^ 63

theorem parseInteger_of_parseLong {s : JavaString} {n : ℤ} (h : parseLong s = some n) :
    parseInteger s = some n :=
  (Option.filter_eq_some_iff.mp h).1

def longString (n : ℤ) : JavaString :=
  (if n < 0 then ['-'] else []) ++ Nat.toDigits 10 n.natAbs

theorem digit_of_isDigit {c : Char} (h : c.isDigit = true) : digit c = some (c.toNat - '0'.toNat) := by
  have hrange : 0x30 ≤ c.toNat ∧ c.toNat < 0x30 + 10 := by
    simp only [Char.isDigit, Bool.and_eq_true, decide_eq_true_eq] at h
    have hlow : 48 ≤ c.toNat := h.1
    have hhigh : c.toNat ≤ 57 := h.2
    omega
  rw [digit, digitZeros, List.find?_cons_of_pos (by simpa using hrange)]
  rfl

theorem magnitude_toDigits (n : ℕ) : magnitude 10 digit (Nat.toDigits 10 n) = n := by
  have hfold : ∀ cs : List Char, (∀ c ∈ cs, c.isDigit = true) → ∀ m,
      cs.foldl (fun n c => n * 10 + (digit c).getD 0) m = Nat.ofDigitChars 10 cs m := by
    intro cs
    induction cs with
    | nil => exact fun _ m => Nat.ofDigitChars_nil.symm
    | cons c cs ih =>
      intro h m
      obtain ⟨hc, hcs⟩ := List.forall_mem_cons.mp h
      rw [List.foldl_cons, ih hcs, Nat.ofDigitChars_cons, digit_of_isDigit hc, Option.getD_some,
        Nat.mul_comm]
  rw [magnitude, hfold _ fun c hc => Nat.isDigit_of_mem_toDigits (by decide) (by decide) hc,
    Nat.ofDigitChars_ten_toDigits]

theorem takeSign_longString (n : ℤ) :
    takeSign (longString n) = (decide (n < 0), Nat.toDigits 10 n.natAbs) := by
  unfold longString
  split
  · simp [takeSign, *]
  · obtain ⟨c, cs, hcs⟩ := List.exists_cons_of_ne_nil (Nat.toDigits_ne_nil (b := 10) (n := n.natAbs))
    have hdigit : c.isDigit = true :=
      Nat.isDigit_of_mem_toDigits (b := 10) (n := n.natAbs) (by decide) (by decide) (by simp [hcs])
    have hminus : c ≠ '-' := by
      rintro rfl
      cases hdigit
    have hplus : c ≠ '+' := by
      rintro rfl
      cases hdigit
    rw [hcs, List.nil_append]
    simp [takeSign, *]

theorem parseLong_longString {n : ℤ} (h : -2 ^ 63 ≤ n ∧ n < 2 ^ 63) :
    parseLong (longString n) = some n := by
  have hdigits : (Nat.toDigits 10 n.natAbs).all (fun c => (digit c).isSome) = true := by
    rw [List.all_eq_true]
    intro c hc
    rw [digit_of_isDigit (Nat.isDigit_of_mem_toDigits (by decide) (by decide) hc)]
    rfl
  have hsigned : signed (decide (n < 0)) n.natAbs = n := by
    unfold signed
    by_cases hneg : n < 0
    · rw [if_pos (decide_eq_true hneg)]
      omega
    · rw [if_neg (by simpa using hneg)]
      omega
  have hinteger : parseInteger (longString n) = some n := by
    simp [parseInteger, takeSign_longString, hdigits, Nat.toDigits_ne_nil, magnitude_toDigits,
      hsigned]
  rw [parseLong, hinteger, Option.filter_some, if_pos (by simpa using h)]

def trim (s : JavaString) : JavaString :=
  ((s.dropWhile (· ≤ ' ')).reverse.dropWhile (· ≤ ' ')).reverse

def asciiDigit (base : ℕ) (c : Char) : Option ℕ :=
  (if '0' ≤ c ∧ c ≤ '9' then some (c.toNat - '0'.toNat)
  else if 'a' ≤ c ∧ c ≤ 'f' then some (c.toNat - 'a'.toNat + 10)
  else if 'A' ≤ c ∧ c ≤ 'F' then some (c.toNat - 'A'.toNat + 10)
  else none).filter (· < base)

def takeDigits (base : ℕ) (s : JavaString) : List Char × JavaString :=
  s.span fun c => (asciiDigit base c).isSome

def takeMantissa (base : ℕ) (s : JavaString) : Option (List Char × ℕ × JavaString) :=
  let (whole, rest) := takeDigits base s
  let (fraction, rest) := match rest with
    | '.' :: rest => takeDigits base rest
    | rest => ([], rest)
  if whole ++ fraction = [] then none else some (whole ++ fraction, fraction.length, rest)

/-- The exponent behind a marker; none when the marker has no digits behind it. -/
def takeExponent (marker : Char → Bool) : JavaString → Option (Bool × ℕ × JavaString)
  | c :: rest =>
    if marker c then
      let (negative, rest) := takeSign rest
      let (digits, rest) := takeDigits 10 rest
      if digits = [] then none else some (negative, magnitude 10 (asciiDigit 10) digits, rest)
    else some (false, 0, c :: rest)
  | [] => some (false, 0, [])

def typeSuffix (s : JavaString) : Bool := s ∈ [[], ['f'], ['F'], ['d'], ['D']]

def scaled (base radix : ℕ) (negative : Bool) (digits : List Char) (behind : ℕ)
    (small : Bool) (exponent : ℕ) : Double :=
  let m := signed negative (magnitude base (asciiDigit base) digits)
  .finite (if small then mkRat m (base ^ behind * radix ^ exponent)
    else mkRat (m * radix ^ exponent) (base ^ behind))

def parseDecimal (negative : Bool) (s : JavaString) : Option Double :=
  (takeMantissa 10 s).bind fun (digits, behind, rest) =>
    (takeExponent (· ∈ ['e', 'E']) rest).bind fun (small, exponent, rest) =>
      if typeSuffix rest then some (scaled 10 10 negative digits behind small exponent) else none

def parseHexString (negative : Bool) (s : JavaString) : Option Double :=
  (takeMantissa 16 s).bind fun (digits, behind, rest) =>
    if rest.head?.all (· ∉ ['p', 'P']) then none
    else (takeExponent (· ∈ ['p', 'P']) rest).bind fun (small, exponent, rest) =>
      if typeSuffix rest then some (scaled 16 2 negative digits behind small exponent) else none

/-- The value of a text before it is rounded. -/
def readDouble (s : JavaString) : Option Double :=
  let (negative, body) := takeSign (trim s)
  match body with
  | 'N' :: _ => if body = "NaN".toList then some .nan else none
  | 'I' :: _ => if body = "Infinity".toList then some (.infinite negative) else none
  | '0' :: 'x' :: rest => parseHexString negative rest
  | '0' :: 'X' :: rest => parseHexString negative rest
  | _ => parseDecimal negative body

def parseDouble (rnd : ℚ → Double) (s : JavaString) : Option Double :=
  (readDouble s).map (Double.rounded rnd)

example : parseDouble .finite " -12.50e+1d ".toList = some (.finite (-125)) := by decide +kernel

/-- The change of a balance from 512.07 to 12.07, which is more than 500. -/
example : (do
    let new ← parseDouble .nearest "12.07".toList
    let old ← parseDouble .nearest "512.07".toList
    return (new.sub .nearest old).abs) =
      some (.finite (500 + 1 / 2 ^ 44)) := by
  decide +kernel

theorem isSome_parseDouble (rnd : ℚ → Double) (s : JavaString) :
    (parseDouble rnd s).isSome = (readDouble s).isSome :=
  Option.isSome_map

section Thresholds

variable {c q : ℚ}

theorem nearest_abs (q : ℚ) :
    (Double.nearest q).abs =
      if 2 ^ 1024 ≤ binary64.roundNonneg |q| then .infinite false
      else .finite (binary64.roundNonneg |q|) := by
  unfold Double.nearest
  rw [Format.abs_round]
  split
  · rfl
  · rw [Double.abs, Format.abs_round]

theorem of_nearest_lt (hc : binary64.Has c) (hpos : 0 < c)
    (h : (Double.nearest q).abs.lt (.finite c) = true) : |q| < c := by
  by_contra hle
  have hround := Format.le_roundNonneg hc hpos (not_lt.mp hle)
  rw [nearest_abs] at h
  split at h
  · cases h
  · rw [Double.lt, decide_eq_true_eq] at h
    exact hround.not_gt h

theorem of_lt_nearest (hc : binary64.Has c) (hmax : c < 2 ^ 1024)
    (h : (Double.finite c).lt (Double.nearest q).abs = true) : c < |q| := by
  by_contra hle
  have hround := Format.roundNonneg_le hc (abs_nonneg q) (not_lt.mp hle)
  rw [nearest_abs, if_neg (hround.trans_lt hmax).not_ge, Double.lt, decide_eq_true_eq] at h
  exact hround.not_gt h

end Thresholds

end O2k.JavaValues
