import Mathlib.Data.List.Basic

/-!
# JSON

`json.loads` of Python with `parse_constant=lambda c: None`, a character at a time: what is read,
and the containers that are still open. Numbers and strings are kept as they are written.
-/

namespace Json

abbrev Text := List Char

inductive Value where
  | null
  | bool (b : Bool)
  | num (text : Text)
  | str (text : Text)
  | arr (values : List Value)
  | obj (members : List (Text × Value))

/-! ## The reader -/

-- A number, after its last character.
inductive Num where
  | neg
  | zero
  | int
  | dot
  | frac
  | exp
  | sign
  | expo
  deriving DecidableEq

def Num.next : Num → Char → Option Num
  | .neg, c => if c = '0' then some .zero else if c.isDigit then some .int else none
  | .zero, c => if c = '.' then some .dot else if c = 'e' ∨ c = 'E' then some .exp else none
  | .int, c =>
    if c.isDigit then some .int
    else if c = '.' then some .dot else if c = 'e' ∨ c = 'E' then some .exp else none
  | .dot, c => if c.isDigit then some .frac else none
  | .frac, c => if c.isDigit then some .frac else if c = 'e' ∨ c = 'E' then some .exp else none
  | .exp, c =>
    if c.isDigit then some .expo else if c = '+' ∨ c = '-' then some .sign else none
  | .sign, c => if c.isDigit then some .expo else none
  | .expo, c => if c.isDigit then some .expo else none

def Num.complete (n : Num) : Bool := n = .zero ∨ n = .int ∨ n = .frac ∨ n = .expo

-- A string, after a backslash and the digits behind `\u`.
inductive Escape where
  | plain
  | slash
  | hex (left : Nat)
  deriving DecidableEq

def isHex (c : Char) : Bool := c.isDigit || ('a' ≤ c && c ≤ 'f') || ('A' ≤ c && c ≤ 'F')

/-- The escape behind a character of a string; `none` where it may not stand there. -/
def Escape.next : Escape → Char → Option Escape
  | .plain, c => if c = '\\' then some .slash else if c.toNat < 0x20 then none else some .plain
  | .slash, c =>
    if c = 'u' then some (.hex 4)
    else if c ∈ ['"', '\\', '/', 'b', 'f', 'n', 'r', 't'] then some .plain else none
  | .hex left, c => if isHex c then some (if left = 1 then .plain else .hex (left - 1)) else none

inductive Word where
  | null
  | true
  | false
  | nan
  | infinity

def Word.text : Word → Text
  | .null => "null".toList
  | .true => "true".toList
  | .false => "false".toList
  | .nan => "NaN".toList
  | .infinity => "Infinity".toList

def Word.value : Word → Value
  | .true => .bool Bool.true
  | .false => .bool Bool.false
  | _ => .null

inductive Mode where
  | value
  /-- the first value of an array, or its end -/
  | element
  | member (first : Bool)
  | str (key : Bool) (escape : Escape) (text : Text)
  | colon
  | num (n : Num) (text : Text)
  | word (w : Word) (seen : Nat)
  | after
  | done (value : Value)
  | fail

/-- A container that is open, or the key of the next member. -/
inductive Frame where
  | arr (values : List Value)
  | obj (members : List (Text × Value))
  | key (text : Text)

structure State where
  mode : Mode
  stack : List Frame

def isWs (c : Char) : Bool := c == ' ' || c == '\t' || c == '\n' || c == '\r'

/-- What a value does to the container that it stands in. -/
def give (v : Value) : List Frame → State
  | [] => ⟨.done v, []⟩
  | .arr values :: stack => ⟨.after, .arr (values ++ [v]) :: stack⟩
  | .key k :: .obj members :: stack => ⟨.after, .obj (members ++ [(k, v)]) :: stack⟩
  | stack => ⟨.fail, stack⟩

-- Behind a value.
def close : State → Char → State
  | ⟨.after, .arr values :: stack⟩, c =>
    if c = ',' then ⟨.value, .arr values :: stack⟩
    else if c = ']' then give (.arr values) stack
    else ⟨if isWs c then .after else .fail, .arr values :: stack⟩
  | ⟨.after, .obj members :: stack⟩, c =>
    if c = ',' then ⟨.member false, .obj members :: stack⟩
    else if c = '}' then give (.obj members) stack
    else ⟨if isWs c then .after else .fail, .obj members :: stack⟩
  | ⟨.done v, stack⟩, c => ⟨if isWs c then .done v else .fail, stack⟩
  | ⟨_, stack⟩, _ => ⟨.fail, stack⟩

-- The first character of a value.
def start (stack : List Frame) (c : Char) : State :=
  if c = '"' then ⟨.str false .plain [], stack⟩
  else if c = '{' then ⟨.member true, .obj [] :: stack⟩
  else if c = '[' then ⟨.element, .arr [] :: stack⟩
  else if c = 'n' then ⟨.word .null 1, stack⟩
  else if c = 't' then ⟨.word .true 1, stack⟩
  else if c = 'f' then ⟨.word .false 1, stack⟩
  else if c = 'N' then ⟨.word .nan 1, stack⟩
  else if c = 'I' then ⟨.word .infinity 1, stack⟩
  else if c = '-' then ⟨.num .neg [c], stack⟩
  else if c = '0' then ⟨.num .zero [c], stack⟩
  else if c.isDigit then ⟨.num .int [c], stack⟩
  else ⟨.fail, stack⟩

def step : State → Char → State
  | ⟨.value, stack⟩, c => if isWs c then ⟨.value, stack⟩ else start stack c
  | ⟨.element, stack⟩, c =>
    if isWs c then ⟨.element, stack⟩
    else if c = ']' then give (.arr []) stack.tail else start stack c
  | ⟨.member first, stack⟩, c =>
    if isWs c then ⟨.member first, stack⟩
    else if c = '"' then ⟨.str true .plain [], stack⟩
    else if c = '}' ∧ first then give (.obj []) stack.tail else ⟨.fail, stack⟩
  | ⟨.str key escape text, stack⟩, c =>
    if c = '"' ∧ escape = .plain then
      if key then ⟨.colon, .key text :: stack⟩ else give (.str text) stack
    else
      match escape.next c with
      | some escape => ⟨.str key escape (text ++ [c]), stack⟩
      | none => ⟨.fail, stack⟩
  | ⟨.colon, stack⟩, c =>
    if isWs c then ⟨.colon, stack⟩ else ⟨if c = ':' then .value else .fail, stack⟩
  | ⟨.num n text, stack⟩, c =>
    match n.next c with
    | some n => ⟨.num n (text ++ [c]), stack⟩
    | none =>
      if n = .neg ∧ c = 'I' then ⟨.word .infinity 1, stack⟩
      else if n.complete then close (give (.num text) stack) c else ⟨.fail, stack⟩
  | ⟨.word w seen, stack⟩, c =>
    if w.text[seen]? ≠ some c then ⟨.fail, stack⟩
    else if seen + 1 = w.text.length then give w.value stack else ⟨.word w (seen + 1), stack⟩
  | s, c => close s c

def run (s : State) (t : Text) : State := t.foldl step s

def finish : State → Option Value
  | ⟨.done v, _⟩ => some v
  | ⟨.num n text, []⟩ => if n.complete then some (.num text) else none
  | _ => none

def loads (t : Text) : Option Value := finish (run ⟨.value, []⟩ t)

/-! ## Steps -/

section Steps

variable {s : State} {stack : List Frame} {c : Char}

theorem run_append (s : State) (t u : Text) : run s (t ++ u) = run (run s t) u := List.foldl_append

theorem run_cons (s : State) (c : Char) (t : Text) : run s (c :: t) = run (step s c) t := rfl

theorem step_fail (h : s.mode = .fail) (c : Char) : (step s c).mode = .fail := by
  obtain ⟨mode, stack⟩ := s
  obtain rfl : mode = .fail := h
  rfl

/-- There is no way back. -/
theorem run_fail (h : s.mode = .fail) (t : Text) : (run s t).mode = .fail := by
  induction t generalizing s with
  | nil => exact h
  | cons c t ih => exact ih (step_fail h c)

theorem finish_fail (h : s.mode = .fail) : finish s = none := by
  obtain ⟨mode, stack⟩ := s
  obtain rfl : mode = .fail := h
  rfl

theorem give_mode (v : Value) (stack : List Frame) :
    (give v stack).mode = .after ∨ (give v stack).mode = .done v ∨
      (give v stack).mode = .fail := by
  unfold give
  split <;> simp

theorem step_give (v : Value) (stack : List Frame) (c : Char) :
    step (give v stack) c = close (give v stack) c := by
  unfold give
  split <;> rfl

/-- What may stand behind a value. -/
def closes (c : Char) : Bool := isWs c || c == ',' || c == ']' || c == '}'

theorem close_fail (s : State) (h : closes c = false) : (close s c).mode = .fail := by
  simp only [closes, Bool.or_eq_false_iff, beq_eq_false_iff_ne] at h
  obtain ⟨⟨⟨hws, hcomma⟩, hbracket⟩, hbrace⟩ := h
  unfold close
  split
  · simp [hws, hcomma, hbracket]
  · simp [hws, hcomma, hbrace]
  · simp [hws]
  · rfl

end Steps

end Json
