import Mathlib.Algebra.Order.Field.Rat
import Mathlib.Algebra.Order.Ring.Abs
import Mathlib.Data.Int.Log
import Mathlib.Data.List.TakeWhile
import Mathlib.Data.Rat.Floor
import Mathlib.Tactic.FieldSimp
import Mathlib.Tactic.Linarith

/-!
# Decimals in text

What `%.<d>f` makes of a number, with the digits rounded to nearest and ties to even.
-/

namespace Decimal

def roundEven (x : ℚ) : Int :=
  if x - ⌊x⌋ < 1 / 2 then ⌊x⌋
  else if 1 / 2 < x - ⌊x⌋ then ⌊x⌋ + 1
  else if ⌊x⌋ % 2 = 0 then ⌊x⌋ else ⌊x⌋ + 1

/-- At least `w` digits. -/
def padded (w n : Nat) : List Char :=
  List.replicate (w - (Nat.toDigits 10 n).length) '0' ++ Nat.toDigits 10 n

/-- `%.<d>f`, for a positive `d`. -/
def fixed (d : Nat) (x : ℚ) : List Char :=
  let n := (roundEven (|x| * 10 ^ d)).toNat
  (if x < 0 then ['-'] else []) ++ Nat.toDigits 10 (n / 10 ^ d) ++ '.' :: padded d (n % 10 ^ d)

example : (fixed 1 (-5 / 4), fixed 3 (1 / 16)) = ("-1.2".toList, "0.062".toList) := by
  decide +kernel

/-- `%.0f` -/
def whole (x : ℚ) : List Char :=
  (if x < 0 then ['-'] else []) ++ Nat.toDigits 10 (roundEven |x|).toNat

/-- `%+.<d>f`, for a positive `d`. -/
def signed (d : Nat) (x : ℚ) : List Char := (if x < 0 then [] else ['+']) ++ fixed d x

/-- `%.<d>e`, for a positive `d`. The digits may round up to the next power of ten. -/
def scientific (d : Nat) (x : ℚ) : List Char :=
  let e := Int.log 10 |x|
  let n := (roundEven (|x| / 10 ^ e * 10 ^ d)).toNat
  let carry := 10 ^ (d + 1) ≤ n
  let n := if carry then n / 10 else n
  let e := if carry then e + 1 else e
  (if x < 0 then ['-'] else []) ++ Nat.toDigits 10 (n / 10 ^ d) ++ '.' :: padded d (n % 10 ^ d) ++
    'e' :: (if e < 0 then '-' else '+') :: padded 2 e.natAbs

theorem padded_isDigit {w n : Nat} {c : Char} (h : c ∈ padded w n) : c.isDigit = true := by
  unfold padded at h
  rcases List.mem_append.mp h with h | h
  · rw [List.eq_of_mem_replicate h]
    rfl
  · exact Nat.isDigit_of_mem_toDigits (by omega) (by omega) h

/-- The characters of a number. -/
def IsNumeral (c : Char) : Prop := c.isDigit = true ∨ c ∈ ['.', '-', '+', 'e']

theorem digits_isNumeral {n : Nat} {c : Char} (h : c ∈ Nat.toDigits 10 n) : IsNumeral c :=
  Or.inl (Nat.isDigit_of_mem_toDigits (by omega) (by omega) h)

theorem padded_isNumeral {w n : Nat} {c : Char} (h : c ∈ padded w n) : IsNumeral c :=
  Or.inl (padded_isDigit h)

theorem sign_isNumeral {x : ℚ} {c : Char} (h : c ∈ if x < 0 then ['-'] else []) : IsNumeral c := by
  split_ifs at h
  · exact Or.inr (by simp [List.mem_singleton.mp h])
  · simp at h

theorem fixed_isNumeral {d : Nat} {x : ℚ} {c : Char} (h : c ∈ fixed d x) : IsNumeral c := by
  unfold fixed at h
  simp only [List.mem_append, List.mem_cons] at h
  rcases h with (h | h) | rfl | h
  · exact sign_isNumeral h
  · exact digits_isNumeral h
  · exact Or.inr (by simp)
  · exact padded_isNumeral h

theorem signed_isNumeral {d : Nat} {x : ℚ} {c : Char} (h : c ∈ signed d x) : IsNumeral c := by
  unfold signed at h
  rcases List.mem_append.mp h with h | h
  · split_ifs at h
    · simp at h
    · exact Or.inr (by simp [List.mem_singleton.mp h])
  · exact fixed_isNumeral h

theorem scientific_isNumeral {d : Nat} {x : ℚ} {c : Char} (h : c ∈ scientific d x) :
    IsNumeral c := by
  unfold scientific at h
  simp only [List.mem_append, List.mem_cons] at h
  rcases h with ((h | h) | rfl | h) | rfl | rfl | h
  · exact sign_isNumeral h
  · exact digits_isNumeral h
  · exact Or.inr (by simp)
  · exact padded_isNumeral h
  · exact Or.inr (by simp)
  · split_ifs <;> exact Or.inr (by simp)
  · exact padded_isNumeral h

theorem padded_ne_nil (w n : Nat) : padded w n ≠ [] := by
  unfold padded
  simp [Nat.toDigits_ne_nil]

theorem padded_injective {w n n' : Nat} (h : padded w n = padded w n') : n = n' := by
  have hread : ∀ n, Nat.ofDigitChars 10 (padded w n) 0 = n := by
    intro n
    unfold padded
    rw [Nat.ofDigitChars_append, Nat.ofDigitChars_replicate_zero, Nat.mul_zero,
      Nat.ofDigitChars_ten_toDigits]
  rw [← hread n, h, hread n']

/-! ## Reading -/

/-- What is left of a number in `%.<d>f`. -/
def rounded (d : Nat) (x : ℚ) : ℚ :=
  (if x < 0 then -1 else 1) * ((roundEven (|x| * 10 ^ d)).toNat / 10 ^ d)

def splitSign : List Char → Bool × List Char
  | '-' :: t => (true, t)
  | '+' :: t => (false, t)
  | t => (false, t)

def isExponent (c : Char) : Bool := c == 'e' || c == 'E'

/-- Behind the `e`, or nothing. -/
def readExponent (t : List Char) : Option Int :=
  let (negative, ds) := splitSign (t.drop 1)
  if t = [] then some 0
  else if ds ≠ [] ∧ ds.all Char.isDigit then
    some (if negative then -(Nat.ofDigitChars 10 ds 0 : Int) else Nat.ofDigitChars 10 ds 0)
  else none

/-- `float(t)` of digits with a point or an exponent, where it is a number. -/
def read (t : List Char) : Option ℚ :=
  let (negative, body) := splitSign t
  let mantissa := body.takeWhile fun c => !isExponent c
  let whole := mantissa.takeWhile (· ≠ '.')
  let fraction := (mantissa.dropWhile (· ≠ '.')).drop 1
  if whole ++ fraction ≠ [] ∧ (whole ++ fraction).all Char.isDigit then
    (readExponent (body.dropWhile fun c => !isExponent c)).map fun e =>
      (if negative then -1 else 1) *
        (Nat.ofDigitChars 10 (whole ++ fraction) 0 / 10 ^ fraction.length) * 10 ^ e
  else none

theorem padded_length {w n : Nat} (hw : 0 < w) (h : n < 10 ^ w) : (padded w n).length = w := by
  have hlength := (Nat.length_toDigits_le_iff (b := 10) (by decide) hw).mpr h
  unfold padded
  rw [List.length_append, List.length_replicate]
  omega

theorem ofDigitChars_padded (w n : Nat) : Nat.ofDigitChars 10 (padded w n) 0 = n := by
  unfold padded
  rw [Nat.ofDigitChars_append, Nat.ofDigitChars_replicate_zero, Nat.mul_zero,
    Nat.ofDigitChars_ten_toDigits]

/-- The digits of both sides of the point are one number. -/
theorem ofDigitChars_fixed {d : Nat} (hd : 0 < d) (n : Nat) :
    Nat.ofDigitChars 10 (Nat.toDigits 10 (n / 10 ^ d) ++ padded d (n % 10 ^ d)) 0 = n := by
  have hlt : n % 10 ^ d < 10 ^ d := Nat.mod_lt n (by positivity)
  rw [Nat.ofDigitChars_append, Nat.ofDigitChars_ten_toDigits,
    Nat.ofDigitChars_eq_ofDigitChars_zero, padded_length hd hlt, ofDigitChars_padded]
  exact Nat.div_add_mod n (10 ^ d)

theorem isDigit_ne {c d : Char} (hc : c.isDigit = true) (hd : d.isDigit = false) : c ≠ d := by
  rintro rfl
  exact Bool.noConfusion (hc.symm.trans hd)

/-- **What is printed is read as what it was rounded to.** -/
theorem read_fixed {d : Nat} (hd : 0 < d) (x : ℚ) : read (fixed d x) = some (rounded d x) := by
  have hdigits : ∀ n, ∀ c ∈ Nat.toDigits 10 n, c.isDigit = true := fun _ _ hc =>
    Nat.isDigit_of_mem_toDigits (by omega) (by omega) hc
  obtain ⟨n, hn⟩ : ∃ n, (roundEven (|x| * 10 ^ d)).toNat = n := ⟨_, rfl⟩
  have hbody : ∀ c ∈ Nat.toDigits 10 (n / 10 ^ d) ++ '.' :: padded d (n % 10 ^ d),
      isExponent c = false := by
    intro c hc
    rcases List.mem_append.mp hc with hc | hc
    · have hdigit := hdigits _ c hc
      simp [isExponent, isDigit_ne hdigit]
    · rcases List.mem_cons.mp hc with rfl | hc
      · rfl
      · have hdigit := padded_isDigit hc
        simp [isExponent, isDigit_ne hdigit]
  have hsplit : splitSign (fixed d x) =
      (decide (x < 0), Nat.toDigits 10 (n / 10 ^ d) ++ '.' :: padded d (n % 10 ^ d)) := by
    unfold fixed
    rw [hn]
    by_cases hx : x < 0
    · simp [hx, splitSign]
    · obtain ⟨c, t, hcons⟩ := List.exists_cons_of_ne_nil
        (Nat.toDigits_ne_nil (b := 10) (n := n / 10 ^ d))
      have hdigit := hdigits _ c (by rw [hcons]; exact List.mem_cons_self)
      simp only [hx, if_false, List.nil_append, decide_false, hcons, List.cons_append]
      unfold splitSign
      split
      · rename_i heq
        exact absurd (List.cons.inj heq).1 (isDigit_ne hdigit rfl)
      · rename_i heq
        exact absurd (List.cons.inj heq).1 (isDigit_ne hdigit rfl)
      · rfl
  have hpoint : ∀ c ∈ Nat.toDigits 10 (n / 10 ^ d), (decide (c ≠ '.')) = true := fun c hc =>
    decide_eq_true (isDigit_ne (hdigits _ c hc) rfl)
  have hmantissa : (Nat.toDigits 10 (n / 10 ^ d) ++ '.' :: padded d (n % 10 ^ d)).takeWhile
      (fun c => !isExponent c) = Nat.toDigits 10 (n / 10 ^ d) ++ '.' :: padded d (n % 10 ^ d) :=
    List.takeWhile_eq_self_iff.mpr fun c hc => by rw [hbody c hc]; rfl
  have hrest : (Nat.toDigits 10 (n / 10 ^ d) ++ '.' :: padded d (n % 10 ^ d)).dropWhile
      (fun c => !isExponent c) = [] :=
    List.dropWhile_eq_nil_iff.mpr fun c hc => by rw [hbody c hc]; rfl
  have hwhole : (Nat.toDigits 10 (n / 10 ^ d) ++ '.' :: padded d (n % 10 ^ d)).takeWhile
      (fun c => decide (c ≠ '.')) = Nat.toDigits 10 (n / 10 ^ d) := by
    rw [List.takeWhile_append_of_pos hpoint, List.takeWhile_cons_of_neg (by simp), List.append_nil]
  have hfraction : (Nat.toDigits 10 (n / 10 ^ d) ++ '.' :: padded d (n % 10 ^ d)).dropWhile
      (fun c => decide (c ≠ '.')) = '.' :: padded d (n % 10 ^ d) := by
    rw [List.dropWhile_append_of_pos hpoint, List.dropWhile_cons_of_neg (by simp)]
  have hall : Nat.toDigits 10 (n / 10 ^ d) ++ padded d (n % 10 ^ d) ≠ [] ∧
      (Nat.toDigits 10 (n / 10 ^ d) ++ padded d (n % 10 ^ d)).all Char.isDigit = true := by
    refine ⟨by simp [Nat.toDigits_ne_nil], List.all_eq_true.mpr fun c hc => ?_⟩
    exact (List.mem_append.mp hc).elim (hdigits _ c) padded_isDigit
  have hlt : n % 10 ^ d < 10 ^ d := Nat.mod_lt n (by positivity)
  unfold read rounded
  simp only [hsplit, hmantissa, hrest, hwhole, hfraction, List.drop_one, List.tail_cons,
    if_pos hall, ofDigitChars_fixed hd, padded_length hd hlt, hn]
  simp [readExponent]

theorem abs_roundEven_sub_le (x : ℚ) : |(roundEven x : ℚ) - x| ≤ 1 / 2 := by
  have hlow := Int.floor_le x
  have hhigh := Int.lt_floor_add_one x
  unfold roundEven
  rw [abs_le]
  split_ifs with hbelow habove heven
  · constructor <;> linarith
  · push_cast
    constructor <;> linarith
  · constructor <;> linarith
  · push_cast
    constructor <;> linarith

theorem roundEven_nonneg {x : ℚ} (h : 0 ≤ x) : 0 ≤ roundEven x := by
  have hfloor := Int.floor_nonneg.mpr h
  unfold roundEven
  split_ifs <;> omega

/-- Half a unit of the last digit is lost at most. -/
theorem abs_rounded_sub_le (d : Nat) (x : ℚ) : |rounded d x - x| ≤ 1 / 2 / 10 ^ d := by
  have hpow : (0 : ℚ) < 10 ^ d := by positivity
  have hnonneg : 0 ≤ roundEven (|x| * 10 ^ d) :=
    roundEven_nonneg (mul_nonneg (abs_nonneg x) hpow.le)
  have hcast : ((roundEven (|x| * 10 ^ d)).toNat : ℚ) = (roundEven (|x| * 10 ^ d) : ℚ) := by
    exact_mod_cast Int.toNat_of_nonneg hnonneg
  have hround := abs_roundEven_sub_le (|x| * 10 ^ d)
  have habs : |((roundEven (|x| * 10 ^ d) : ℚ) / 10 ^ d - |x|)| ≤ 1 / 2 / 10 ^ d := by
    have hsame : (roundEven (|x| * 10 ^ d) : ℚ) / 10 ^ d - |x| =
        ((roundEven (|x| * 10 ^ d) : ℚ) - |x| * 10 ^ d) / 10 ^ d := by
      field_simp
    rw [hsame, abs_div, abs_of_pos hpow]
    exact div_le_div_of_nonneg_right hround hpow.le
  unfold rounded
  rw [hcast]
  split_ifs with hx
  · have hneg : -1 * ((roundEven (|x| * 10 ^ d) : ℚ) / 10 ^ d) - x =
        -((roundEven (|x| * 10 ^ d) : ℚ) / 10 ^ d - |x|) := by
      rw [abs_of_neg hx]
      ring
    rw [hneg, abs_neg]
    exact habs
  · rw [one_mul]
    rwa [abs_of_nonneg (not_lt.mp hx)] at habs ⊢

end Decimal
