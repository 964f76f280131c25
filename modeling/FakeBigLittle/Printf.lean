import FakeBigLittle.Decimal
import FakeBigLittle.Json.Proofs

/-!
# Numbers on the wire

What `printf` writes for a number of a JSON record. Whatever it is, it is printable, and it is
read unless it is the text of a NaN.
-/

namespace Printf

open Json

def nat (n : Nat) : Text := Nat.toDigits 10 n

-- `%d`, `%ld`
def int (i : Int) : Text := sign (i < 0) ++ Nat.toDigits 10 i.natAbs

theorem int_chars {i : Int} {c : Char} (h : c ∈ int i) : c.isDigit = true ∨ c = '-' := by
  unfold int sign at h
  rcases List.mem_append.mp h with h | h
  · split_ifs at h
    · exact .inr (List.mem_singleton.mp h)
    · exact absurd h (by simp)
  · exact .inl (toDigits_isDigit h)

theorem int_injective : Function.Injective int := by
  intro i j h
  -- A digit is no minus sign.
  have hsign : ∀ n m, '-' :: Nat.toDigits 10 n ≠ Nat.toDigits 10 m := by
    intro n m heq
    have hminus : '-' ∈ Nat.toDigits 10 m := heq ▸ List.mem_cons_self
    exact absurd (toDigits_isDigit hminus) (by decide)
  have hdigits : ∀ n m, Nat.toDigits 10 n = Nat.toDigits 10 m → n = m := by
    intro n m heq
    rw [← Nat.ofDigitChars_ten_toDigits (n := n), heq, Nat.ofDigitChars_ten_toDigits]
  unfold int sign at h
  by_cases hi : i < 0
  · by_cases hj : j < 0
    · simp only [hi, hj, decide_true, if_true] at h
      have := hdigits _ _ (List.append_cancel_left h)
      omega
    · simp only [hi, hj, decide_true, if_true, decide_false, Bool.false_eq_true, if_false] at h
      exact absurd h (hsign _ _)
  · by_cases hj : j < 0
    · simp only [hi, hj, decide_true, if_true, decide_false, Bool.false_eq_true, if_false] at h
      exact absurd h.symm (hsign _ _)
    · simp only [hi, hj, decide_false, Bool.false_eq_true, if_false] at h
      have := hdigits _ _ (List.append_cancel_left h)
      omega

/-- `%.<d>f` of a double; `none` is NaN, with the text `nan`. -/
def fixed (nan : Text) (d : Nat) : Option ℚ → Text
  | none => nan
  | some x => Decimal.fixed d x

/-- How a NaN is written. -/
def IsNan (nan : Text) : Prop := nan = "nan".toList ∨ nan = "-nan".toList

/-- A double as a text may give it; the two zeros are one. -/
inductive Double
  | finite (x : ℚ)
  | inf (negative : Bool)
  | nan

namespace Double

-- `d <= x`
def le : Double → ℚ → Bool
  | finite y, x => y ≤ x
  | inf negative, _ => negative
  | nan, _ => false

def mul : Double → Double → Double
  | finite x, finite y => finite (x * y)
  | finite x, inf negative => if x = 0 then nan else inf (negative != decide (x < 0))
  | inf negative, finite y => if y = 0 then nan else inf (negative != decide (y < 0))
  | inf left, inf right => inf (left != right)
  | nan, _ => nan
  | _, nan => nan

/-- `x / d` -/
def under (x : ℚ) : Double → Double
  | finite y => if y = 0 then (if x = 0 then nan else inf (x < 0)) else finite (x / y)
  | inf _ => finite 0
  | nan => nan

def IsFinite (d : Double) : Prop := ∃ x, d = finite x

end Double

/-- `%.<d>f` of any double, with `nan` for a NaN. -/
def double (nan : Text) (d : Nat) : Double → Text
  | .finite x => Decimal.fixed d x
  | .inf negative => sign negative ++ "inf".toList
  | .nan => nan

def printable (c : Char) : Bool := decide (0x20 ≤ c.toNat) && decide (c.toNat < 0x7f)

/-- A key that needs no escape. -/
def isKey (key : Text) : Bool :=
  key.all plain && key.all printable && key.head?.any Char.isAlpha

/-- A text that a record may hold in the place of a value. -/
structure Slot (t : Text) : Prop where
  judged : Judged t
  printable : t.all printable = true

theorem isKey_named {key : Text} (h : isKey key = true) : Named key := by
  simp only [isKey, Bool.and_eq_true] at h
  obtain ⟨⟨hplain, -⟩, halpha⟩ := h
  cases key with
  | nil => exact Bool.noConfusion halpha
  | cons c rest => exact ⟨hplain, c, rest, rfl, halpha⟩

theorem isKey_printable {key : Text} (h : isKey key = true) : key.all printable = true := by
  simp only [isKey, Bool.and_eq_true] at h
  exact h.1.2

theorem digit_printable {c : Char} (h : c.isDigit = true) : printable c = true := by
  simp only [Char.isDigit, Bool.and_eq_true, decide_eq_true_eq, UInt32.le_iff_toNat_le] at h
  have hlow : 48 ≤ c.toNat := h.1
  have hhigh : c.toNat ≤ 57 := h.2
  simp only [printable, Bool.and_eq_true, decide_eq_true_eq]
  omega

theorem sign_printable (negative : Bool) : (sign negative).all printable = true := by
  cases negative <;> rfl

theorem digits_printable (n : Nat) : (Nat.toDigits 10 n).all printable = true :=
  List.all_eq_true.mpr fun _ hc => digit_printable (toDigits_isDigit hc)

theorem num_nat (n : Nat) : Reads (nat n) (.num (nat n)) := reads_int false n

theorem num_int (i : Int) : Reads (int i) (.num (int i)) := Json.reads_int _ _

theorem reads_nat (n : Nat) : ∃ v, Reads (nat n) v := ⟨_, num_nat n⟩

theorem reads_int (i : Int) : ∃ v, Reads (int i) v := ⟨_, num_int i⟩

/-- A sign, digits, and digits behind the point. -/
theorem decimal_eq (d : Nat) (x : ℚ) : ∃ n m, Decimal.fixed d x =
    sign (x < 0) ++ (Nat.toDigits 10 n ++ '.' :: Decimal.padded d m) := by
  unfold Decimal.fixed sign
  simp only [decide_eq_true_eq, List.append_assoc]
  exact ⟨_, _, rfl⟩

theorem num_decimal (d : Nat) (x : ℚ) : Reads (Decimal.fixed d x) (.num (Decimal.fixed d x)) := by
  obtain ⟨n, m, heq⟩ := decimal_eq d x
  rw [heq]
  exact Json.reads_decimal _ n (Decimal.padded_ne_nil d m) fun c hc => Decimal.padded_isDigit hc

theorem reads_decimal (d : Nat) (x : ℚ) : ∃ v, Reads (Decimal.fixed d x) v := ⟨_, num_decimal d x⟩

theorem rejected_nan {nan : Text} (h : IsNan nan) : Rejected nan := by
  rcases h with rfl | rfl
  · exact ⟨⟨'n', "an".toList, rfl, rfl, by decide⟩, fun stack => rfl⟩
  · exact ⟨⟨'-', "nan".toList, rfl, rfl, by decide⟩, fun stack => rfl⟩

/-- Only a number is read. -/
theorem fixed_reads_iff {nan : Text} (h : IsNan nan) (d : Nat) (x : Option ℚ) :
    (∃ v, Reads (fixed nan d x) v) ↔ x ≠ none := by
  cases x with
  | none => exact iff_of_false (rejected_nan h).not_reads (not_not.mpr rfl)
  | some x => exact iff_of_true (reads_decimal d x) (Option.some_ne_none x)

theorem rejected_inf (negative : Bool) : Rejected (sign negative ++ "inf".toList) := by
  cases negative with
  | false => exact ⟨⟨'i', "nf".toList, rfl, rfl, by decide⟩, fun stack => rfl⟩
  | true => exact ⟨⟨'-', "inf".toList, rfl, rfl, by decide⟩, fun stack => rfl⟩

/-- Python reads `Infinity`, not what `printf` writes. -/
theorem double_reads_iff {nan : Text} (h : IsNan nan) (d : Nat) (x : Double) :
    (∃ v, Reads (double nan d x) v) ↔ x.IsFinite := by
  unfold Double.IsFinite
  cases x with
  | finite x => exact iff_of_true (reads_decimal d x) ⟨x, rfl⟩
  | inf negative => exact iff_of_false (rejected_inf negative).not_reads (by simp)
  | nan => exact iff_of_false (rejected_nan h).not_reads (by simp)

theorem slot_null : Slot "null".toList := ⟨Or.inl ⟨_, reads_null⟩, rfl⟩

theorem slot_nat (n : Nat) : Slot (nat n) := ⟨Or.inl (reads_nat n), digits_printable n⟩

theorem slot_int (i : Int) : Slot (int i) := by
  refine ⟨Or.inl (reads_int i), ?_⟩
  rw [int, List.all_append, sign_printable, digits_printable]
  rfl

theorem slot_decimal (d : Nat) (x : ℚ) : Slot (Decimal.fixed d x) := by
  refine ⟨Or.inl (reads_decimal d x), ?_⟩
  obtain ⟨n, m, heq⟩ := decimal_eq d x
  have hpadded : (Decimal.padded d m).all printable = true :=
    List.all_eq_true.mpr fun c hc => digit_printable (Decimal.padded_isDigit hc)
  rw [heq, List.all_append, List.all_append, List.all_cons, sign_printable, digits_printable,
    hpadded]
  rfl

theorem slot_fixed {nan : Text} (h : IsNan nan) (d : Nat) (x : Option ℚ) :
    Slot (fixed nan d x) := by
  cases x with
  | none =>
    refine ⟨Or.inr (rejected_nan h), ?_⟩
    rcases h with rfl | rfl <;> rfl
  | some x => exact slot_decimal d x

theorem slot_double {nan : Text} (h : IsNan nan) (d : Nat) (x : Double) :
    Slot (double nan d x) := by
  cases x with
  | finite x => exact slot_decimal d x
  | inf negative =>
    refine ⟨Or.inr (rejected_inf negative), ?_⟩
    cases negative <;> rfl
  | nan =>
    refine ⟨Or.inr (rejected_nan h), ?_⟩
    rcases h with rfl | rfl <;> rfl

theorem slot_array {elements : List Text} (h : ∀ t ∈ elements, Slot t) : Slot (array elements) := by
  refine ⟨judged_array fun t ht => (h t ht).judged, ?_⟩
  cases elements with
  | nil => rfl
  | cons t elements =>
    obtain ⟨ht, hrest⟩ := List.forall_mem_cons.mp h
    have hmore : (more elements).all printable = true := by
      unfold more
      rw [List.all_append, List.all_flatMap]
      simp only [List.all_cons, Bool.and_eq_true, List.all_eq_true]
      exact ⟨fun u hu => ⟨rfl, List.all_eq_true.mp (hrest u hu).printable⟩, rfl,
        List.forall_mem_nil _⟩
    rw [array, List.all_cons, List.all_append, ht.printable, hmore]
    rfl

theorem slot_quoted {t : Text} (hplain : t.all plain = true)
    (hprintable : t.all printable = true) : Slot (quoted t) := by
  refine ⟨Or.inl ⟨_, reads_quoted hplain⟩, ?_⟩
  unfold quoted
  rw [List.all_cons, List.all_append, hprintable]
  rfl

end Printf
