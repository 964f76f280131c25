import Mathlib.Data.List.Basic
import Mathlib.Data.List.GetD
import Mathlib.Algebra.Order.Group.Int

/-!
# C strings

A C string is a list of characters, one for each byte before the NUL. The functions are
those of the C library that read numbers and lists out of one.
-/

namespace CString

abbrev Text := List Char

-- `isspace` in the C locale
def isSpace (c : Char) : Bool :=
  c == ' ' || c == '\t' || c == '\n' || c == '\x0b' || c == '\x0c' || c == '\r'

def longMax : Int := 2 ^ 63 - 1
def longMin : Int := -2 ^ 63

/-- The sign in front of a number, and the rest. -/
def sign : Text → Bool × Text
  | '-' :: s => (true, s)
  | '+' :: s => (false, s)
  | s => (false, s)

/-- `strtol(s, &end, 10)`: the value and the text at `end`, or `none` when there is no
number, which leaves `end` at `s`. -/
def strtol (s : Text) : Option (Int × Text) :=
  let (neg, t) := sign (s.dropWhile isSpace)
  let digits := t.takeWhile Char.isDigit
  if digits = [] then none
  else
    let value : Int := Nat.ofDigitChars 10 digits 0
    some (max longMin (min longMax (if neg then -value else value)), t.dropWhile Char.isDigit)

-- `(int) strtol(s, NULL, 10)`
def atoi (s : Text) : Int := Int.bmod (((strtol s).map (·.1)).getD 0) 4294967296

/-- The tokens that `strtok_r` finds: what is between the separators, if anything is. -/
def strtok (sep : Char) (s : Text) : List Text := (s.splitOn sep).filter fun token => !token.isEmpty

/-- An element of `argv`: bytes, none of them NUL. -/
structure Arg where
  text : Text
  bytes : ∀ c ∈ text, 0 < c.toNat ∧ c.toNat < 256

def toBytes (s : Text) : List UInt8 := s.map fun c => UInt8.ofNat c.toNat

/-! ## Tokens and prefixes -/

theorem mem_of_mem_strtok {sep c : Char} {s token : Text} (htoken : token ∈ strtok sep s)
    (hc : c ∈ token) : c ∈ s := by
  have hsplit : token ∈ s.splitOn sep := (List.mem_filter.mp htoken).1
  have hjoin : [sep].intercalate (s.splitOn sep) = s := List.intercalate_splitOn sep
  obtain ⟨i, hi⟩ := List.mem_iff_getElem?.mp hsplit
  rw [← hjoin, List.intercalate, List.mem_flatten]
  refine ⟨token, List.mem_of_getElem? (i := 2 * i) ?_, hc⟩
  rw [List.getElem?_intersperse_two_mul, hi]

theorem ne_nil_of_mem_strtok {sep : Char} {s token : Text} (h : token ∈ strtok sep s) :
    token ≠ [] := by
  have hne := (List.mem_filter.mp h).2
  rintro rfl
  simp at hne

theorem noNul_of_mem_strtok {sep : Char} {list : Arg} {token : Text}
    (h : token ∈ strtok sep list.text) : 0 ∉ toBytes token := by
  intro hzero
  obtain ⟨c, hc, hbyte⟩ := List.mem_map.mp hzero
  have hrange := list.bytes c (mem_of_mem_strtok h hc)
  have hmod : c.toNat % 256 = 0 := by simpa using congrArg UInt8.toNat hbyte
  omega

/-- Comparing as many characters as there are in front of the terminator of `s` is asking
whether `s` is a prefix. -/
theorem prefix_iff_getD {s t : List UInt8} (hs : 0 ∉ s) :
    s <+: t ↔ ∀ j < s.length, t.getD j 0 = s.getD j 0 := by
  rw [List.prefix_iff_getElem?]
  constructor
  · intro h j hj
    simp [List.getD_eq_getElem?_getD, h j hj, hj]
  · intro h j hj
    have heq := h j hj
    rw [List.getD_eq_getElem _ _ hj] at heq
    have hne : s[j] ≠ 0 := fun hzero => hs (hzero ▸ List.getElem_mem hj)
    have hlt : j < t.length := by
      by_contra hge
      rw [List.getD_eq_default _ _ (by omega)] at heq
      exact hne heq.symm
    rw [List.getD_eq_getElem _ _ hlt] at heq
    rw [List.getElem?_eq_getElem hlt, heq]

/-- The parts around the first separator. -/
theorem sep_injective {α : Type} {a : α} {x y u v : List α} (hx : a ∉ x) (hy : a ∉ y)
    (h : x ++ a :: u = y ++ a :: v) : x = y ∧ u = v := by
  rcases List.append_eq_append_iff.mp h with ⟨c, rfl, hc⟩ | ⟨c, rfl, hc⟩
  · cases c with
    | nil => simpa using hc
    | cons d c => simp_all
  · cases c with
    | nil => simpa [eq_comm] using hc
    | cons d c => simp_all

/-! ## Reading back a decimal number -/

theorem isDigit_not_space {c : Char} (h : c.isDigit = true) : isSpace c = false := by
  simp only [Char.isDigit, Bool.and_eq_true, decide_eq_true_eq] at h
  unfold isSpace
  simp only [Bool.or_eq_false_iff, beq_eq_false_iff_ne, ne_eq]
  refine ⟨⟨⟨⟨⟨?_, ?_⟩, ?_⟩, ?_⟩, ?_⟩, ?_⟩ <;>
  · rintro rfl
    exact absurd h.1 (by decide)

theorem sign_digit {c : Char} (h : c.isDigit = true) (s : Text) :
    sign (c :: s) = (false, c :: s) := by
  unfold sign
  split
  · rename_i heq
    rw [(List.cons.inj heq).1] at h
    exact absurd h (by decide)
  · rename_i heq
    rw [(List.cons.inj heq).1] at h
    exact absurd h (by decide)
  · rfl

/-- A text does not go on with a digit. -/
def NoDigit (s : Text) : Prop := ∀ c, s.head? = some c → c.isDigit = false

theorem takeWhile_digits {ds rest : Text} (hds : ∀ c ∈ ds, c.isDigit = true)
    (hrest : NoDigit rest) : (ds ++ rest).takeWhile Char.isDigit = ds ∧
      (ds ++ rest).dropWhile Char.isDigit = rest := by
  rw [List.takeWhile_append_of_pos hds, List.dropWhile_append_of_pos hds]
  cases rest with
  | nil => simp
  | cons c rest =>
    have hc := hrest c rfl
    simp [hc]

/-- `strtol` reads the digits in front of it and stops behind them. -/
theorem strtol_digits {ds rest : Text} (hne : ds ≠ []) (hds : ∀ c ∈ ds, c.isDigit = true)
    (hrest : NoDigit rest) :
    strtol (ds ++ rest) = some (min longMax (Nat.ofDigitChars 10 ds 0 : Nat), rest) := by
  obtain ⟨htake, hdrop⟩ := takeWhile_digits hds hrest
  obtain ⟨c, cs, rfl⟩ := List.exists_cons_of_ne_nil hne
  have hc : c.isDigit = true := hds c List.mem_cons_self
  have hspace : (c :: cs ++ rest).dropWhile isSpace = c :: cs ++ rest := by
    rw [List.cons_append, List.dropWhile_cons_of_neg (by simp [isDigit_not_space hc])]
  have hsign : sign (c :: cs ++ rest) = (false, c :: cs ++ rest) := sign_digit hc _
  unfold strtol
  rw [hspace, hsign]
  simp only [htake, hdrop, hne, if_false, Bool.false_eq_true, Option.some.injEq, Prod.mk.injEq,
    and_true]
  have : longMin ≤ min longMax ((Nat.ofDigitChars 10 (c :: cs) 0 : Nat) : Int) := by
    unfold longMin longMax
    omega
  omega

/-- `strtol` reads a number that was printed in decimal and stops behind it. -/
theorem strtol_toDigits (n : Nat) (rest : Text) (hrest : NoDigit rest) :
    strtol (Nat.toDigits 10 n ++ rest) = some (min longMax n, rest) := by
  have hdigits : ∀ c ∈ Nat.toDigits 10 n, c.isDigit = true :=
    fun c hc => Nat.isDigit_of_mem_toDigits (by omega) (by omega) hc
  rw [strtol_digits Nat.toDigits_ne_nil hdigits hrest, Nat.ofDigitChars_ten_toDigits]

theorem sign_length_le (s : Text) : (sign s).2.length ≤ s.length := by
  unfold sign
  split <;> simp

/-- Where `strtol` finds a number it consumes a character. -/
theorem strtol_length_lt {s rest : Text} {v : Int} (h : strtol s = some (v, rest)) :
    rest.length < s.length := by
  unfold strtol at h
  simp only [Option.ite_none_left_eq_some, Option.some.injEq, Prod.mk.injEq] at h
  obtain ⟨hne, -, rfl⟩ := h
  have hspace := (List.dropWhile_suffix isSpace (l := s)).length_le
  have hsign := sign_length_le (s.dropWhile isSpace)
  have hdigits := List.length_pos_iff.mpr hne
  have hsplit := congrArg List.length (List.takeWhile_append_dropWhile (p := Char.isDigit)
    (l := (sign (s.dropWhile isSpace)).2))
  rw [List.length_append] at hsplit
  omega

end CString
