import Mathlib.Data.Rat.Floor

/-!
# Decimal numerals

Numbers with a fixed number of digits after the point, printed and read.

* `formatDecimal` : the numeral of the nearest number with so many digits. `isPlain_formatDecimal` : the characters of a
  numeral;
* `parseDecimal_formatDecimal` : it is read as that number.
-/

namespace Akita
open List

/-- The nearest integer, of two the even one. -/
def roundHalfEven (x : ℚ) : ℤ :=
  if Int.fract x < 1 / 2 then ⌊x⌋ else if 1 / 2 < Int.fract x then ⌊x⌋ + 1 else if ⌊x⌋ % 2 = 0 then ⌊x⌋ else ⌊x⌋ + 1

/-- The nearest number with so many digits after the point. -/
def roundDecimal (digits : ℕ) (x : ℚ) : ℚ := roundHalfEven (x * 10 ^ digits) / 10 ^ digits

/-- The last digits of a number, with leading zeros. -/
def lastDigits : ℕ → ℕ → List Char
  | 0, _ => []
  | digits + 1, n => lastDigits digits (n / 10) ++ [(n % 10).digitChar]

/-- `%.{digits}f`. -/
def formatDecimal (digits : ℕ) (x : ℚ) : List Char :=
  let n := (roundHalfEven (x * 10 ^ digits)).natAbs
  (if x < 0 then ['-'] else []) ++ (Nat.toDigits 10 (n / 10 ^ digits) ++ '.' :: lastDigits digits n)

def parseUnsigned (text : List Char) : Option ℚ :=
  let whole := text.takeWhile Char.isDigit
  match text.dropWhile Char.isDigit with
  | [] => if whole = [] then none else some (Nat.ofDigitChars 10 whole 0)
  | '.' :: fraction =>
    if fraction.all Char.isDigit && !(whole ++ fraction).isEmpty then
      some (Nat.ofDigitChars 10 (whole ++ fraction) 0 / 10 ^ fraction.length)
    else none
  | _ => none

/-- A number with an optional sign, without an exponent. -/
def parseDecimal : List Char → Option ℚ
  | '-' :: text => (parseUnsigned text).map fun x => -x
  | '+' :: text => parseUnsigned text
  | text => parseUnsigned text

variable {x : ℚ}

theorem roundHalfEven_nonneg (h : 0 ≤ x) : 0 ≤ roundHalfEven x := by
  have hfloor : 0 ≤ ⌊x⌋ := Int.floor_nonneg.2 h
  unfold roundHalfEven
  split_ifs <;> omega

theorem roundHalfEven_nonpos (h : x < 0) : roundHalfEven x ≤ 0 := by
  have hfloor : ⌊x⌋ < 0 := Int.floor_lt.2 (by simpa using h)
  unfold roundHalfEven
  split_ifs <;> omega

theorem length_lastDigits (digits n : ℕ) : (lastDigits digits n).length = digits := by
  induction digits generalizing n with
  | zero => rfl
  | succ _ ih => rw [lastDigits, length_append, ih, length_singleton]

variable {c : Char}

theorem isDigit_of_mem_lastDigits {digits n : ℕ} (h : c ∈ lastDigits digits n) : c.isDigit = true := by
  induction digits generalizing n with
  | zero => cases h
  | succ _ ih =>
    rcases mem_append.1 h with h | h
    · exact ih h
    · have hdigit : (n % 10).digitChar ∈ Nat.toDigits 10 (n % 10) := by
        rw [Nat.toDigits_of_lt_base (Nat.mod_lt n (by decide))]
        exact mem_singleton_self _
      rw [mem_singleton.1 h]
      exact Nat.isDigit_of_mem_toDigits (by decide) (by decide) hdigit

theorem ofDigitChars_append_lastDigits (digits n : ℕ) :
    Nat.ofDigitChars 10 (Nat.toDigits 10 (n / 10 ^ digits) ++ lastDigits digits n) 0 = n := by
  induction digits generalizing n with
  | zero => rw [lastDigits, append_nil, pow_zero, Nat.div_one, Nat.ofDigitChars_ten_toDigits]
  | succ _ ih =>
    rw [lastDigits, ← append_assoc, Nat.ofDigitChars_append, pow_succ', ← Nat.div_div_eq_div_mul, ih,
      Nat.ofDigitChars_cons_digitChar_of_lt_ten (Nat.mod_lt n (by decide)), Nat.ofDigitChars_nil]
    exact Nat.div_add_mod n 10

/-- The characters of numerals. -/
def IsPlain (c : Char) : Prop := c.isDigit = true ∨ c = '.' ∨ c = '-'

theorem isPlain_formatDecimal {digits : ℕ} (h : c ∈ formatDecimal digits x) : IsPlain c := by
  rcases mem_append.1 h with h | h
  · split at h
    · exact .inr (.inr (mem_singleton.1 h))
    · cases h
  · rcases mem_append.1 h with h | h
    · exact .inl (Nat.isDigit_of_mem_toDigits (by decide) (by decide) h)
    · rcases mem_cons.1 h with h | h
      · exact .inr (.inl h)
      · exact .inl (isDigit_of_mem_lastDigits h)

theorem parseUnsigned_digits (digits n : ℕ) :
    parseUnsigned (Nat.toDigits 10 (n / 10 ^ digits) ++ '.' :: lastDigits digits n) = some ((n : ℚ) / 10 ^ digits) := by
  have hwhole : ∀ c ∈ Nat.toDigits 10 (n / 10 ^ digits), c.isDigit = true :=
    fun c => Nat.isDigit_of_mem_toDigits (by decide) (by decide)
  have hpoint : ¬ Char.isDigit '.' = true := by decide
  have htake : (Nat.toDigits 10 (n / 10 ^ digits) ++ '.' :: lastDigits digits n).takeWhile Char.isDigit =
      Nat.toDigits 10 (n / 10 ^ digits) := by
    rw [takeWhile_append_of_pos hwhole, takeWhile_cons_of_neg hpoint, append_nil]
  have hdrop : (Nat.toDigits 10 (n / 10 ^ digits) ++ '.' :: lastDigits digits n).dropWhile Char.isDigit =
      '.' :: lastDigits digits n := by
    rw [dropWhile_append_of_pos hwhole, dropWhile_cons_of_neg hpoint]
  have hall : (lastDigits digits n).all Char.isDigit = true := all_eq_true.2 fun c => isDigit_of_mem_lastDigits
  have hsome : (Nat.toDigits 10 (n / 10 ^ digits) ++ lastDigits digits n).isEmpty = false := by
    cases h : Nat.toDigits 10 (n / 10 ^ digits) with
    | nil => exact absurd h Nat.toDigits_ne_nil
    | cons => rfl
  unfold parseUnsigned
  simp only [htake, hdrop, hall, hsome, Bool.not_false, Bool.and_self, if_true, length_lastDigits,
    ofDigitChars_append_lastDigits]

theorem parseDecimal_of_digit (h : c.isDigit = true) (text : List Char) :
    parseDecimal (c :: text) = parseUnsigned (c :: text) := by
  unfold parseDecimal
  split
  · next heq =>
    cases heq
    exact absurd h (by decide)
  · next heq =>
    cases heq
    exact absurd h (by decide)
  · rfl

/-- A numeral is read as the number that it was rounded to. -/
theorem parseDecimal_formatDecimal (digits : ℕ) (x : ℚ) :
    parseDecimal (formatDecimal digits x) = some (roundDecimal digits x) := by
  have hpow : (0 : ℚ) < 10 ^ digits := by positivity
  by_cases hx : x < 0
  · have hround : roundHalfEven (x * 10 ^ digits) ≤ 0 := roundHalfEven_nonpos (mul_neg_of_neg_of_pos hx hpow)
    have hcast : ((roundHalfEven (x * 10 ^ digits)).natAbs : ℚ) = -(roundHalfEven (x * 10 ^ digits) : ℚ) := by
      rw [Nat.cast_natAbs, abs_of_nonpos hround, Int.cast_neg]
    unfold formatDecimal
    dsimp only
    rw [if_pos hx]
    show (parseUnsigned (Nat.toDigits 10 _ ++ '.' :: lastDigits digits _)).map _ = _
    rw [parseUnsigned_digits, Option.map_some, hcast, neg_div, neg_neg, roundDecimal]
  · have hround : 0 ≤ roundHalfEven (x * 10 ^ digits) := roundHalfEven_nonneg (mul_nonneg (not_lt.1 hx) hpow.le)
    have hcast : ((roundHalfEven (x * 10 ^ digits)).natAbs : ℚ) = (roundHalfEven (x * 10 ^ digits) : ℚ) := by
      rw [Nat.cast_natAbs, abs_of_nonneg hround]
    have hsame := parseUnsigned_digits digits (roundHalfEven (x * 10 ^ digits)).natAbs
    unfold formatDecimal
    dsimp only
    rw [if_neg hx, nil_append]
    cases htext : Nat.toDigits 10 ((roundHalfEven (x * 10 ^ digits)).natAbs / 10 ^ digits) with
    | nil => exact absurd htext Nat.toDigits_ne_nil
    | cons c =>
      have hdigit : c.isDigit = true := Nat.isDigit_of_mem_toDigits (by decide) (by decide) (htext ▸ mem_cons_self)
      rw [htext] at hsame
      rw [cons_append, parseDecimal_of_digit hdigit, ← cons_append, hsame, hcast, roundDecimal]

end Akita
