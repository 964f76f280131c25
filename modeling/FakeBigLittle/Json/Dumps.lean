import FakeBigLittle.Dict
import FakeBigLittle.Json.Strings
import FakeBigLittle.Printf

/-!
# Values of Python

`json.dump` with an indent, what `json.load` makes of a text, and what the text of each kind of
value is read as.
-/

namespace Json

/-! ## Values -/

/-- A value that `json` writes. The keys of a dictionary are strings. -/
inductive Py (F : Type) where
  | none
  | bool (b : Bool)
  | int (i : Int)
  | float (x : F)
  | str (s : Text)
  | list (values : List (Py F))
  | dict (items : List (Text × Py F))

/-- `float.__repr__` of a number: a fraction, an exponent, or both. -/
def IsFloat (t : Text) : Prop :=
  ∃ negative n fraction exponent,
    t = sign negative ++ (Nat.toDigits 10 n ++ (fraction ++ exponent)) ∧
    fraction ++ exponent ≠ [] ∧
    (fraction = [] ∨ ∃ ds, ds ≠ [] ∧ (∀ c ∈ ds, c.isDigit = true) ∧ fraction = '.' :: ds) ∧
    (exponent = [] ∨ ∃ s ds, (s = '+' ∨ s = '-') ∧ ds ≠ [] ∧ (∀ c ∈ ds, c.isDigit = true) ∧
      exponent = 'e' :: s :: ds)

/-- The floats: what `json` writes for one, and `float()` of a text. -/
structure Floats (F : Type) where
  finite : F → Bool
  repr : F → Text
  parse : Text → F
  isFloat : ∀ x, finite x = true → IsFloat (repr x)
  parse_repr : ∀ x, finite x = true → parse (repr x) = x
  special : ∀ x, finite x = false →
    repr x ∈ ["NaN".toList, "Infinity".toList, "-Infinity".toList]

/-- One case for each kind of value, with the claim for what is in it. -/
theorem Py.ind {F : Type} {P : Py F → Prop} (none : P .none) (bool : ∀ b, P (.bool b))
    (int : ∀ i, P (.int i)) (float : ∀ x, P (.float x)) (str : ∀ s, P (.str s))
    (list : ∀ vs, (∀ v ∈ vs, P v) → P (.list vs))
    (dict : ∀ items, (∀ e ∈ items, P e.2) → P (.dict items)) (v : Py F) : P v := by
  refine @Py.rec F P (fun vs => ∀ v ∈ vs, P v) (fun items => ∀ e ∈ items, P e.2) (fun e => P e.2)
    none bool int float str list dict ?_ ?_ ?_ ?_ ?_ v
  · exact List.forall_mem_nil _
  · exact fun v vs hv hvs => List.forall_mem_cons.mpr ⟨hv, hvs⟩
  · exact List.forall_mem_nil _
  · exact fun e items he hitems => List.forall_mem_cons.mpr ⟨he, hitems⟩
  · exact fun k v hv => hv

variable {F : Type}

/-- The keys of every dictionary in it are distinct. -/
inductive Distinct : Py F → Prop where
  | none : Distinct .none
  | bool (b : Bool) : Distinct (.bool b)
  | int (i : Int) : Distinct (.int i)
  | float (x : F) : Distinct (.float x)
  | str (s : Text) : Distinct (.str s)
  | list {vs : List (Py F)} (h : ∀ v ∈ vs, Distinct v) : Distinct (.list vs)
  | dict {items : List (Text × Py F)} (hkeys : (Dict.keys items).Nodup)
      (h : ∀ e ∈ items, Distinct e.2) : Distinct (.dict items)

/-! ## Writing -/

def newline (level : Nat) : Text := '\n' :: List.replicate level ' '

def quote (s : Text) : Text := '"' :: (escape s ++ ['"'])

/-- What stands between the brackets, a line each. -/
def lines (level : Nat) : List Text → Text
  | [] => []
  | t :: ts => newline level ++ (t ++ ts.flatMap fun u => ',' :: (newline level ++ u))

def brackets (indent level : Nat) (ts : List Text) : Text :=
  if ts = [] then "[]".toList else '[' :: (lines (level + indent) ts ++ (newline level ++ [']']))

def braces (indent level : Nat) (ts : List Text) : Text :=
  if ts = [] then ['{', '}'] else '{' :: (lines (level + indent) ts ++ (newline level ++ ['}']))

def item (key text : Text) : Text := quote key ++ (':' :: ' ' :: text)

mutual

/-- `json.dumps(v, indent=indent)`, where a line begins with `level` blanks. -/
def dumps (fl : Floats F) (indent level : Nat) : Py F → Text
  | .none => "null".toList
  | .bool b => if b then "true".toList else "false".toList
  | .int i => Printf.int i
  | .float x => fl.repr x
  | .str s => quote s
  | .list vs => brackets indent level (dumpsList fl indent (level + indent) vs)
  | .dict items => braces indent level (dumpsItems fl indent (level + indent) items)

def dumpsList (fl : Floats F) (indent level : Nat) : List (Py F) → List Text
  | [] => []
  | v :: vs => dumps fl indent level v :: dumpsList fl indent level vs

def dumpsItems (fl : Floats F) (indent level : Nat) : List (Text × Py F) → List Text
  | [] => []
  | (k, v) :: items => item k (dumps fl indent level v) :: dumpsItems fl indent level items

end

/-! ## Reading -/

-- `NUMBER_RE` has a fraction or an exponent
def isFloatText (t : Text) : Bool := t.any fun c => c == '.' || c == 'e' || c == 'E'

def readInt : Text → Int
  | '-' :: ds => -(Nat.ofDigitChars 10 ds 0 : Nat)
  | ds => (Nat.ofDigitChars 10 ds 0 : Nat)

mutual

/-- What `json.loads` returns; `none` where a string is no sequence of characters. -/
def toPy (fl : Floats F) : Value → Option (Py F)
  | .null => some .none
  | .bool b => some (.bool b)
  | .num t => some (if isFloatText t then .float (fl.parse t) else .int (readInt t))
  | .str t => (unescape t).map .str
  | .arr vs => (toPyList fl vs).map .list
  | .obj ms => (toPyItems fl ms).map fun pairs => .dict (Dict.ofPairs pairs)

def toPyList (fl : Floats F) : List Value → Option (List (Py F))
  | [] => some []
  | v :: vs => (toPy fl v).bind fun v => (toPyList fl vs).map (v :: ·)

def toPyItems (fl : Floats F) : List (Text × Value) → Option (List (Text × Py F))
  | [] => some []
  | (k, v) :: ms =>
    (unescape k).bind fun k => (toPy fl v).bind fun v => (toPyItems fl ms).map ((k, v) :: ·)

end

/-- `json.load(f, parse_constant=lambda c: None)` -/
def load (fl : Floats F) (t : Text) : Option (Py F) := (loads t).bind (toPy fl)

mutual

/-- What comes back: no float that is not a number. -/
def reload (fl : Floats F) : Py F → Py F
  | .none => .none
  | .bool b => .bool b
  | .int i => .int i
  | .float x => if fl.finite x then .float x else .none
  | .str s => .str s
  | .list vs => .list (reloadList fl vs)
  | .dict items => .dict (reloadItems fl items)

def reloadList (fl : Floats F) : List (Py F) → List (Py F)
  | [] => []
  | v :: vs => reload fl v :: reloadList fl vs

def reloadItems (fl : Floats F) : List (Text × Py F) → List (Text × Py F)
  | [] => []
  | (k, v) :: items => (k, reload fl v) :: reloadItems fl items

end

/-! ## What is written is read -/

/-- The text of a value, with white space or without behind it. -/
structure Writes (t : Text) (v : Value) : Prop where
  starts : Starts t
  reads : ∀ stack c, closes c = true → step (run ⟨.value, stack⟩ t) c = step (give v stack) c
  ends : finish (run ⟨.value, []⟩ t) = some v

section Texts

variable {t : Text} {v : Value} {stack : List Frame}

theorem Writes.run (h : Writes t v) (stack : List Frame) {c : Char} (hc : closes c = true)
    (rest : Text) :
    Json.run ⟨.value, stack⟩ (t ++ c :: rest) = Json.run (give v stack) (c :: rest) := by
  rw [run_append, run_cons, run_cons, h.reads stack c hc]

theorem writes_of_give (hstarts : Starts t)
    (h : ∀ stack, Json.run ⟨.value, stack⟩ t = give v stack) : Writes t v where
  starts := hstarts
  reads stack c _ := by rw [h]
  ends := by rw [h]; rfl

/-- A number that is complete. -/
theorem writes_of_num {n : Num} (hstarts : Starts t) (hn : n.complete = true)
    (h : ∀ stack, Json.run ⟨.value, stack⟩ t = ⟨.num n t, stack⟩) : Writes t (.num t) where
  starts := hstarts
  reads stack c hc := by
    have hnone : n.next c = none := by
      simp only [closes, isWs, Bool.or_eq_true, beq_iff_eq] at hc
      rcases hc with (((((rfl | rfl) | rfl) | rfl) | rfl) | rfl) | rfl <;> cases n <;> rfl
    have hneg : n ≠ .neg := by
      rintro rfl
      simp [Num.complete] at hn
    rw [h, step_give]
    simp [step, hnone, hneg, hn]
  ends := by
    rw [h]
    simp [finish, hn]

theorem writes_int (i : Int) : Writes (Printf.int i) (.num (Printf.int i)) := by
  have hstarts := starts_nat (decide (i < 0)) i.natAbs []
  rw [List.append_nil] at hstarts
  refine writes_of_num hstarts ?_ fun stack => run_nat (decide (i < 0)) i.natAbs stack
  unfold kindOf
  split_ifs <;> rfl

theorem expo_next {c : Char} (h : c.isDigit = true) : Num.expo.next c = some .expo := by
  simp [Num.next, h]

/-- Digits and a point, and the kind of number that they leave. -/
theorem run_fraction {fraction : Text} (n : Nat)
    (h : fraction = [] ∨ ∃ ds, ds ≠ [] ∧ (∀ c ∈ ds, c.isDigit = true) ∧ fraction = '.' :: ds) :
    ∃ k, (k = .frac ∨ k = kindOf n ∧ fraction = []) ∧ ∀ text stack,
      Json.run ⟨.num (kindOf n) text, stack⟩ fraction = ⟨.num k (text ++ fraction), stack⟩ := by
  rcases h with rfl | ⟨ds, hne, hds, rfl⟩
  · exact ⟨_, Or.inr ⟨rfl, rfl⟩, fun text stack => by simp [Json.run]⟩
  · obtain ⟨d, ds, rfl⟩ := List.exists_cons_of_ne_nil hne
    obtain ⟨hd, hds⟩ := List.forall_mem_cons.mp hds
    refine ⟨.frac, Or.inl rfl, fun text stack => ?_⟩
    have hdot : step ⟨.num (kindOf n) text, stack⟩ '.' = ⟨.num .dot (text ++ ['.']), stack⟩ := by
      unfold kindOf
      split_ifs <;> rfl
    have hfrac : step ⟨.num .dot (text ++ ['.']), stack⟩ d =
        ⟨.num .frac (text ++ ['.'] ++ [d]), stack⟩ := by
      simp [step, Num.next, hd]
    rw [run_cons, run_cons, hdot, hfrac, run_digits (fun _ => frac_next) hds]
    simp

theorem run_exponent {k : Num} (hk : k = .frac ∨ ∃ n, k = kindOf n) {s : Char}
    (hs : s = '+' ∨ s = '-') {ds : Text} (hne : ds ≠ []) (hds : ∀ c ∈ ds, c.isDigit = true)
    (text : Text) (stack : List Frame) :
    Json.run ⟨.num k text, stack⟩ ('e' :: s :: ds) =
      ⟨.num .expo (text ++ 'e' :: s :: ds), stack⟩ := by
  obtain ⟨d, ds, rfl⟩ := List.exists_cons_of_ne_nil hne
  obtain ⟨hd, hds⟩ := List.forall_mem_cons.mp hds
  have he : step ⟨.num k text, stack⟩ 'e' = ⟨.num .exp (text ++ ['e']), stack⟩ := by
    rcases hk with rfl | ⟨n, rfl⟩
    · rfl
    · unfold kindOf
      split_ifs <;> rfl
  have hsign : step ⟨.num .exp (text ++ ['e']), stack⟩ s =
      ⟨.num .sign (text ++ ['e'] ++ [s]), stack⟩ := by
    rcases hs with rfl | rfl <;> rfl
  have hexpo : step ⟨.num .sign (text ++ ['e'] ++ [s]), stack⟩ d =
      ⟨.num .expo (text ++ ['e'] ++ [s] ++ [d]), stack⟩ := by
    simp [step, Num.next, hd]
  rw [run_cons, run_cons, run_cons, he, hsign, hexpo, run_digits (fun _ => expo_next) hds]
  simp

theorem writes_float (h : IsFloat t) : Writes t (.num t) := by
  obtain ⟨negative, n, fraction, exponent, rfl, hne, hfraction, hexponent⟩ := h
  have hstarts := starts_nat negative n (fraction ++ exponent)
  obtain ⟨k, hk, hrun⟩ := run_fraction n hfraction
  have hfront : ∀ stack, Json.run ⟨.value, stack⟩
      (sign negative ++ (Nat.toDigits 10 n ++ fraction)) =
        ⟨.num k (sign negative ++ (Nat.toDigits 10 n ++ fraction)), stack⟩ := by
    intro stack
    rw [← List.append_assoc, run_append, run_nat, hrun]
  have hassoc : sign negative ++ (Nat.toDigits 10 n ++ (fraction ++ exponent)) =
      sign negative ++ (Nat.toDigits 10 n ++ fraction) ++ exponent := by simp
  rcases hexponent with rfl | ⟨s, ds, hs, hds, hdigits, rfl⟩
  · rw [List.append_nil] at hne
    obtain rfl : k = .frac := hk.resolve_right fun h => hne h.2
    rw [List.append_nil] at hstarts ⊢
    exact writes_of_num hstarts rfl hfront
  · rw [hassoc] at hstarts ⊢
    refine writes_of_num hstarts (n := .expo) rfl fun stack => ?_
    rw [run_append, hfront, run_exponent (hk.imp_right fun h => ⟨n, h.1⟩) hs hds hdigits]

theorem writes_quote (s : Text) : Writes (quote s) (.str (escape s)) := by
  refine writes_of_give ⟨'"', _, rfl, rfl, by decide⟩ fun stack => ?_
  have hopen : step ⟨.value, stack⟩ '"' = ⟨.str false .plain [], stack⟩ := rfl
  rw [quote, run_cons, hopen, run_append, run_escape, List.nil_append]
  rfl

/-! ### Containers -/

/-- White space changes nothing. -/
theorem run_newline {s : State} (h : ∀ c, isWs c = true → step s c = s) (level : Nat) :
    Json.run s (newline level) = s := by
  unfold newline
  rw [run_cons, h _ rfl]
  induction level with
  | zero => rfl
  | succ level ih => rw [List.replicate_succ, run_cons, h _ rfl, ih]

theorem run_newline_after (f : Frame) (hf : ∀ k, f ≠ .key k) (level : Nat) :
    Json.run ⟨.after, f :: stack⟩ (newline level) = ⟨.after, f :: stack⟩ := by
  refine run_newline (fun c hc => ?_) level
  have hne : c ≠ ',' ∧ c ≠ ']' ∧ c ≠ '}' := by
    refine ⟨?_, ?_, ?_⟩ <;>
    · rintro rfl
      exact absurd hc (by decide)
  cases f with
  | arr vs => simp [step, close, hne, hc]
  | obj ms => simp [step, close, hne, hc]
  | key k => exact absurd rfl (hf k)

theorem run_newline_value (level : Nat) :
    Json.run ⟨.value, stack⟩ (newline level) = ⟨.value, stack⟩ :=
  run_newline (fun c hc => by simp [step, hc]) level

/-- The values behind the first one, a line each. -/
def further (level : Nat) (ts : List Text) : Text :=
  ts.flatMap fun u => ',' :: (newline level ++ u)

theorem further_closes (level level' : Nat) (ts : List Text) (u : Text) :
    ∃ c rest, further level ts ++ (newline level' ++ u) = c :: rest ∧ closes c = true := by
  cases ts with
  | nil => exact ⟨'\n', _, rfl, rfl⟩
  | cons t ts => exact ⟨',', _, rfl, rfl⟩

/-- The elements of an array, each with its value. -/
theorem run_further {l : List (Text × Value)} (h : ∀ p ∈ l, Writes p.1 p.2)
    (level level' : Nat) (values : List Value) (stack : List Frame) :
    Json.run ⟨.after, .arr values :: stack⟩
        (further level (l.map Prod.fst) ++ (newline level' ++ [']'])) =
      give (.arr (values ++ l.map Prod.snd)) stack := by
  induction l generalizing values with
  | nil =>
    rw [List.map_nil, List.map_nil, List.append_nil, show further level [] = [] from rfl,
      List.nil_append, run_append, run_newline_after _ (by simp)]
    rfl
  | cons p l ih =>
    obtain ⟨hp, hrest⟩ := List.forall_mem_cons.mp h
    obtain ⟨c, rest, hmore, hc⟩ := further_closes level level' (l.map Prod.fst) [']']
    have hcons : further level ((p :: l).map Prod.fst) ++ (newline level' ++ [']']) =
        ',' :: (newline level ++ (p.1 ++ (further level (l.map Prod.fst) ++
          (newline level' ++ [']'])))) := by
      simp [further]
    have hcomma : step ⟨.after, .arr values :: stack⟩ ',' = ⟨.value, .arr values :: stack⟩ := rfl
    have hgive : give p.2 (.arr values :: stack) =
        ⟨.after, .arr (values ++ [p.2]) :: stack⟩ := rfl
    rw [hcons, run_cons, hcomma, run_append, run_newline_value, hmore, hp.run _ hc, ← hmore,
      hgive, ih hrest, List.map_cons, List.append_assoc, List.singleton_append]

theorem writes_brackets {l : List (Text × Value)} (h : ∀ p ∈ l, Writes p.1 p.2)
    (indent level : Nat) :
    Writes (brackets indent level (l.map Prod.fst)) (.arr (l.map Prod.snd)) := by
  cases l with
  | nil => exact writes_of_give ⟨'[', [']'], rfl, rfl, by decide⟩ fun _ => rfl
  | cons p l =>
    obtain ⟨hp, hrest⟩ := List.forall_mem_cons.mp h
    have hcons : brackets indent level ((p :: l).map Prod.fst) = '[' :: (newline (level + indent) ++
        (p.1 ++ (further (level + indent) (l.map Prod.fst) ++ (newline level ++ [']'])))) := by
      simp [brackets, lines, further]
    refine writes_of_give ⟨'[', _, hcons, rfl, by decide⟩ fun stack => ?_
    obtain ⟨c, rest, hmore, hc⟩ := further_closes (level + indent) level (l.map Prod.fst) [']']
    have hopen : step ⟨.value, stack⟩ '[' = ⟨.element, .arr [] :: stack⟩ := rfl
    have hws : Json.run ⟨.element, .arr [] :: stack⟩ (newline (level + indent)) =
        ⟨.element, .arr [] :: stack⟩ := run_newline (fun c hc => by simp [step, hc]) _
    have hgive : give p.2 (.arr [] :: stack) = ⟨.after, .arr [p.2] :: stack⟩ := rfl
    rw [hcons, run_cons, hopen, run_append, hws, hp.starts.element, hmore, hp.run _ hc, ← hmore,
      hgive, run_further hrest, List.map_cons, List.singleton_append]

/-- A member, where one may stand. -/
theorem run_item {t : Text} {v : Value} (h : Writes t v) (first : Bool) (key : Text)
    (ms : List (Text × Value)) (stack : List Frame) {c : Char} (hc : closes c = true)
    (rest : Text) :
    Json.run ⟨.member first, .obj ms :: stack⟩ (item key t ++ c :: rest) =
      Json.run ⟨.after, .obj (ms ++ [(escape key, v)]) :: stack⟩ (c :: rest) := by
  have hopen : step ⟨.member first, .obj ms :: stack⟩ '"' =
      ⟨.str true .plain [], .obj ms :: stack⟩ := by
    cases first <;> rfl
  have hclose : step (step (step ⟨.str true .plain (escape key), .obj ms :: stack⟩ '"') ':') ' ' =
      ⟨.value, .key (escape key) :: .obj ms :: stack⟩ := rfl
  have hitem : item key t ++ c :: rest =
      '"' :: (escape key ++ ('"' :: ':' :: ' ' :: (t ++ c :: rest))) := by
    simp [item, quote]
  rw [hitem, run_cons, hopen, run_append, run_escape, List.nil_append, run_cons, run_cons,
    run_cons, hclose, h.run _ hc]
  rfl

/-- The items of an object, as they are written and as they are read. -/
def itemTexts (l : List (Text × Text × Value)) : List Text := l.map fun p => item p.1 p.2.1
def itemValues (l : List (Text × Text × Value)) : List (Text × Value) :=
  l.map fun p => (escape p.1, p.2.2)

theorem run_furtherItems {l : List (Text × Text × Value)} (h : ∀ p ∈ l, Writes p.2.1 p.2.2)
    (level level' : Nat) (ms : List (Text × Value)) (stack : List Frame) :
    Json.run ⟨.after, .obj ms :: stack⟩ (further level (itemTexts l) ++ (newline level' ++ ['}'])) =
      give (.obj (ms ++ itemValues l)) stack := by
  induction l generalizing ms with
  | nil =>
    rw [show itemValues [] = [] from rfl, List.append_nil,
      show further level (itemTexts []) = [] from rfl, List.nil_append, run_append,
      run_newline_after _ (by simp)]
    rfl
  | cons p l ih =>
    obtain ⟨hp, hrest⟩ := List.forall_mem_cons.mp h
    obtain ⟨c, rest, hmore, hc⟩ := further_closes level level' (itemTexts l) ['}']
    have hcons : further level (itemTexts (p :: l)) ++ (newline level' ++ ['}']) =
        ',' :: (newline level ++ (item p.1 p.2.1 ++ (further level (itemTexts l) ++
          (newline level' ++ ['}'])))) := by
      simp [further, itemTexts]
    have hcomma : step ⟨.after, .obj ms :: stack⟩ ',' = ⟨.member false, .obj ms :: stack⟩ := rfl
    have hws : Json.run ⟨.member false, .obj ms :: stack⟩ (newline level) =
        ⟨.member false, .obj ms :: stack⟩ := run_newline (fun c hc => by simp [step, hc]) _
    rw [hcons, run_cons, hcomma, run_append, hws, hmore, run_item hp _ _ _ _ hc, ← hmore, ih hrest,
      List.append_assoc]
    rfl

theorem writes_braces {l : List (Text × Text × Value)} (h : ∀ p ∈ l, Writes p.2.1 p.2.2)
    (indent level : Nat) : Writes (braces indent level (itemTexts l)) (.obj (itemValues l)) := by
  cases l with
  | nil => exact writes_of_give ⟨'{', ['}'], rfl, rfl, by decide⟩ fun _ => rfl
  | cons p l =>
    obtain ⟨hp, hrest⟩ := List.forall_mem_cons.mp h
    have hcons : braces indent level (itemTexts (p :: l)) = '{' :: (newline (level + indent) ++
        (item p.1 p.2.1 ++
          (further (level + indent) (itemTexts l) ++ (newline level ++ ['}'])))) := by
      simp [braces, lines, further, itemTexts]
    refine writes_of_give ⟨'{', _, hcons, rfl, by decide⟩ fun stack => ?_
    obtain ⟨c, rest, hmore, hc⟩ := further_closes (level + indent) level (itemTexts l) ['}']
    have hopen : step ⟨.value, stack⟩ '{' = ⟨.member true, .obj [] :: stack⟩ := rfl
    have hws : Json.run ⟨.member true, .obj [] :: stack⟩ (newline (level + indent)) =
        ⟨.member true, .obj [] :: stack⟩ := run_newline (fun c hc => by simp [step, hc]) _
    rw [hcons, run_cons, hopen, run_append, hws, hmore, run_item hp _ _ _ _ hc, ← hmore,
      List.nil_append, run_furtherItems hrest]
    rfl

end Texts

end Json
