import FakeBigLittle.Json.Proofs
import Mathlib.Tactic.IntervalCases

/-!
# Strings of Python

What `json.dumps` writes for a string, and what `json.loads` makes of the text between two
quotation marks. A character past the first plane is a pair of surrogates.
-/

namespace Json

/-! ## Writing -/

-- `'\\u{0:04x}'`
def uXXXX (n : Nat) : Text :=
  ['\\', 'u', (n / 4096 % 16).digitChar, (n / 256 % 16).digitChar, (n / 16 % 16).digitChar,
    (n % 16).digitChar]

def escapeChar (c : Char) : Text :=
  let n := c.toNat
  if c = '"' then ['\\', '"']
  else if c = '\\' then ['\\', '\\']
  else if n = 8 then ['\\', 'b']
  else if n = 9 then ['\\', 't']
  else if n = 10 then ['\\', 'n']
  else if n = 12 then ['\\', 'f']
  else if n = 13 then ['\\', 'r']
  else if 0x20 ≤ n ∧ n ≤ 0x7e then [c]
  else if n < 0x10000 then uXXXX n
  else uXXXX (0xd800 + (n - 0x10000) / 1024) ++ uXXXX (0xdc00 + (n - 0x10000) % 1024)

def escape (s : Text) : Text := s.flatMap escapeChar

/-! ## Reading -/

def hexVal (c : Char) : Nat :=
  if c.isDigit then c.toNat - 48 else if 'a' ≤ c then c.toNat - 87 else c.toNat - 55

def isHigh (n : Nat) : Bool := decide (0xd800 ≤ n) && decide (n < 0xdc00)

def isLow (n : Nat) : Bool := decide (0xdc00 ≤ n) && decide (n < 0xe000)

/-- Where the reader is inside an escape. -/
inductive Scan where
  | plain
  | slash
  | hex (left acc : Nat)
  /-- behind the first half of a pair -/
  | high (n : Nat)
  | highSlash (n : Nat)
  | low (n left acc : Nat)
  /-- a half of a pair on its own, which a `Char` cannot be -/
  | lone

structure Scanned where
  scan : Scan
  text : Text

/-- The code unit `n` is complete. -/
def unit (n : Nat) (text : Text) : Scanned :=
  if isHigh n then ⟨.high n, text⟩
  else if isLow n then ⟨.lone, text⟩ else ⟨.plain, text ++ [Char.ofNat n]⟩

def pair (n m : Nat) (text : Text) : Scanned :=
  if isLow m then
    ⟨.plain, text ++ [Char.ofNat (0x10000 + (n - 0xd800) * 1024 + (m - 0xdc00))]⟩
  else ⟨.lone, text⟩

-- `BACKSLASH`
def unescapeChar (c : Char) : Char :=
  if c = 'b' then Char.ofNat 8 else if c = 't' then Char.ofNat 9
  else if c = 'n' then Char.ofNat 10 else if c = 'f' then Char.ofNat 12
  else if c = 'r' then Char.ofNat 13 else c

def scanStep : Scanned → Char → Scanned
  | ⟨.plain, text⟩, c => if c = '\\' then ⟨.slash, text⟩ else ⟨.plain, text ++ [c]⟩
  | ⟨.slash, text⟩, c =>
    if c = 'u' then ⟨.hex 4 0, text⟩ else ⟨.plain, text ++ [unescapeChar c]⟩
  | ⟨.hex left acc, text⟩, c =>
    let acc := acc * 16 + hexVal c
    if left = 1 then unit acc text else ⟨.hex (left - 1) acc, text⟩
  | ⟨.high n, text⟩, c => if c = '\\' then ⟨.highSlash n, text⟩ else ⟨.lone, text⟩
  | ⟨.highSlash n, text⟩, c => if c = 'u' then ⟨.low n 4 0, text⟩ else ⟨.lone, text⟩
  | ⟨.low n left acc, text⟩, c =>
    let acc := acc * 16 + hexVal c
    if left = 1 then pair n acc text else ⟨.low n (left - 1) acc, text⟩
  | ⟨.lone, text⟩, _ => ⟨.lone, text⟩

/-- The string between two quotation marks; `none` where half a pair stands on its own. -/
def unescape (t : Text) : Option Text :=
  match t.foldl scanStep ⟨.plain, []⟩ with
  | ⟨.plain, text⟩ => some text
  | _ => none

/-! ## A string comes back -/

section RoundTrip

variable {c : Char} {n : Nat}

theorem hexVal_digitChar (h : n < 16) : hexVal n.digitChar = n := by
  interval_cases n <;> rfl

theorem digitChar_isHex (h : n < 16) : isHex n.digitChar = true := by
  interval_cases n <;> rfl

/-- Four digits are a number below 65536. -/
theorem hex4 (n : Nat) (h : n < 0x10000) :
    (((0 * 16 + n / 4096 % 16) * 16 + n / 256 % 16) * 16 + n / 16 % 16) * 16 + n % 16 = n := by
  omega

theorem scan_uXXXX (h : n < 0x10000) (text : Text) :
    (uXXXX n).foldl scanStep ⟨.plain, text⟩ = unit n text := by
  have hdigit : ∀ m, hexVal (m % 16).digitChar = m % 16 := fun m =>
    hexVal_digitChar (Nat.mod_lt m (by decide))
  have hmore : ∀ left acc c, scanStep ⟨.hex (left + 2) acc, text⟩ c =
      ⟨.hex (left + 1) (acc * 16 + hexVal c), text⟩ := fun _ _ _ => rfl
  have hlast : ∀ acc c, scanStep ⟨.hex 1 acc, text⟩ c = unit (acc * 16 + hexVal c) text :=
    fun _ _ => rfl
  have hopen : scanStep (scanStep ⟨.plain, text⟩ '\\') 'u' = ⟨.hex 4 0, text⟩ := rfl
  simp only [uXXXX, List.foldl_cons, List.foldl_nil, hopen, hmore, hlast, hdigit]
  rw [hex4 n h]

theorem scan_low {m : Nat} (h : m < 0x10000) (text : Text) :
    (uXXXX m).foldl scanStep ⟨.high n, text⟩ = pair n m text := by
  have hdigit : ∀ m, hexVal (m % 16).digitChar = m % 16 := fun m =>
    hexVal_digitChar (Nat.mod_lt m (by decide))
  have hmore : ∀ left acc c, scanStep ⟨.low n (left + 2) acc, text⟩ c =
      ⟨.low n (left + 1) (acc * 16 + hexVal c), text⟩ := fun _ _ _ => rfl
  have hlast : ∀ acc c, scanStep ⟨.low n 1 acc, text⟩ c = pair n (acc * 16 + hexVal c) text :=
    fun _ _ => rfl
  have hopen : scanStep (scanStep ⟨.high n, text⟩ '\\') 'u' = ⟨.low n 4 0, text⟩ := rfl
  simp only [uXXXX, List.foldl_cons, List.foldl_nil, hopen, hmore, hlast, hdigit]
  rw [hex4 m h]

/-- A `Char` is no half of a pair. -/
theorem char_not_surrogate (c : Char) : isHigh c.toNat = false ∧ isLow c.toNat = false := by
  have hvalid : c.toNat < 0xd800 ∨ (0xdfff < c.toNat ∧ c.toNat < 0x110000) := c.valid
  constructor
  · simp only [isHigh, Bool.and_eq_false_iff, decide_eq_false_iff_not]
    omega
  · simp only [isLow, Bool.and_eq_false_iff, decide_eq_false_iff_not]
    omega

theorem scan_escapeChar (c : Char) (text : Text) :
    (escapeChar c).foldl scanStep ⟨.plain, text⟩ = ⟨.plain, text ++ [c]⟩ := by
  have hof : Char.ofNat c.toNat = c := Char.ofNat_toNat c
  have hctl : ∀ n d, c.toNat = n → unescapeChar d = Char.ofNat n → d ≠ 'u' →
      ['\\', d].foldl scanStep ⟨.plain, text⟩ = ⟨.plain, text ++ [c]⟩ := by
    intro n d hn hd hu
    simp only [List.foldl_cons, List.foldl_nil, scanStep, if_true, if_neg hu, hd]
    rw [← hn, hof]
  have hvalid : c.toNat < 0xd800 ∨ (0xdfff < c.toNat ∧ c.toNat < 0x110000) := c.valid
  unfold escapeChar
  simp only
  split_ifs with h1 h2 h3 h4 h5 h6 h7 h8 h9
  · subst h1
    rfl
  · subst h2
    rfl
  · exact hctl _ _ h3 rfl (by decide)
  · exact hctl _ _ h4 rfl (by decide)
  · exact hctl _ _ h5 rfl (by decide)
  · exact hctl _ _ h6 rfl (by decide)
  · exact hctl _ _ h7 rfl (by decide)
  · simp [scanStep, h2]
  · obtain ⟨hhigh, hlow⟩ := char_not_surrogate c
    rw [scan_uXXXX h9]
    unfold unit
    rw [hhigh, hlow, hof]
    rfl
  · -- Past the first plane the two halves add up to the character.
    have hhigh : isHigh (0xd800 + (c.toNat - 0x10000) / 1024) = true := by
      simp only [isHigh, Bool.and_eq_true, decide_eq_true_eq]
      omega
    have hlow : isLow (0xdc00 + (c.toNat - 0x10000) % 1024) = true := by
      simp only [isLow, Bool.and_eq_true, decide_eq_true_eq]
      omega
    have hsum : 0x10000 + (0xd800 + (c.toNat - 0x10000) / 1024 - 0xd800) * 1024 +
        (0xdc00 + (c.toNat - 0x10000) % 1024 - 0xdc00) = c.toNat := by omega
    rw [List.foldl_append, scan_uXXXX (by omega), unit, if_pos hhigh, scan_low (by omega), pair,
      if_pos hlow, hsum, hof]

/-- A string that is written is read as it was. -/
theorem unescape_escape (s : Text) : unescape (escape s) = some s := by
  have hscan : ∀ text, (escape s).foldl scanStep ⟨.plain, text⟩ = ⟨.plain, text ++ s⟩ := by
    induction s with
    | nil => simp [escape]
    | cons c s ih =>
      intro text
      have hcons : escape (c :: s) = escapeChar c ++ escape s := rfl
      rw [hcons, List.foldl_append, scan_escapeChar, ih, List.append_assoc,
        List.singleton_append]
  unfold unescape
  rw [hscan []]
  rfl

/-! ## What is written stands between quotation marks -/

theorem run_uXXXX (n : Nat) (key : Bool) (text : Text) (stack : List Frame) :
    run ⟨.str key .plain text, stack⟩ (uXXXX n) = ⟨.str key .plain (text ++ uXXXX n), stack⟩ := by
  have hhex : ∀ m, isHex (m % 16).digitChar = true := fun m =>
    digitChar_isHex (Nat.mod_lt m (by decide))
  simp [uXXXX, run, step, Escape.next, hhex]

theorem run_escapeChar (c : Char) (key : Bool) (text : Text) (stack : List Frame) :
    run ⟨.str key .plain text, stack⟩ (escapeChar c) =
      ⟨.str key .plain (text ++ escapeChar c), stack⟩ := by
  have htwo : ∀ d ∈ ['"', '\\', '/', 'b', 'f', 'n', 'r', 't'],
      run ⟨.str key .plain text, stack⟩ ['\\', d] =
        ⟨.str key .plain (text ++ ['\\', d]), stack⟩ := by
    intro d hd
    have hu : d ≠ 'u' := by
      rintro rfl
      simp at hd
    have hstep : step ⟨.str key .plain text, stack⟩ '\\' =
        ⟨.str key .slash (text ++ ['\\']), stack⟩ := rfl
    rw [run_cons, hstep, run_cons]
    simp only [step, Escape.next, if_neg hu, if_pos hd]
    simp [run]
  unfold escapeChar
  simp only
  split_ifs with h1 h2 h3 h4 h5 h6 h7 h8 h9
  · exact htwo _ (by decide)
  · exact htwo _ (by decide)
  · exact htwo _ (by decide)
  · exact htwo _ (by decide)
  · exact htwo _ (by decide)
  · exact htwo _ (by decide)
  · exact htwo _ (by decide)
  · apply run_plain
    have hge : 32 ≤ c.toNat := h8.1
    simp [plain, h1, h2, hge]
  · exact run_uXXXX ..
  · rw [run_append, run_uXXXX, run_uXXXX, List.append_assoc]

theorem run_escape (s : Text) (key : Bool) (text : Text) (stack : List Frame) :
    run ⟨.str key .plain text, stack⟩ (escape s) =
      ⟨.str key .plain (text ++ escape s), stack⟩ := by
  induction s generalizing text with
  | nil => simp [escape, run]
  | cons c s ih =>
    have hcons : escape (c :: s) = escapeChar c ++ escape s := rfl
    rw [hcons, run_append, run_escapeChar, ih, List.append_assoc]

end RoundTrip

end Json
