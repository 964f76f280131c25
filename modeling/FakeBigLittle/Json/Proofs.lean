import FakeBigLittle.Json.Spec

/-!
# Texts that are read, and texts that are not

A text is judged on its own: as a value it is read wherever it stands, or it fails everywhere.
Arrays and objects are judged by what is in them.
-/

namespace Json

/-! ## Texts of values -/

def delimits (c : Char) : Bool := c == ',' || c == ']' || c == '}'

/-- A text that is not taken for the end of an array. -/
def Starts (t : Text) : Prop := ∃ c rest, t = c :: rest ∧ isWs c = false ∧ c ≠ ']'

/-- The text of a value, whatever it stands in. -/
structure Reads (t : Text) (v : Value) : Prop where
  starts : Starts t
  reads : ∀ stack c, delimits c = true →
    step (run ⟨.value, stack⟩ t) c = step (give v stack) c

/-- A text that is no value, wherever it stands. -/
structure Rejected (t : Text) : Prop where
  starts : Starts t
  fails : ∀ stack, (run ⟨.value, stack⟩ t).mode = .fail

section Values

variable {t : Text} {v : Value}

theorem Reads.run (h : Reads t v) (stack : List Frame) {c : Char} (hc : delimits c = true)
    (rest : Text) :
    Json.run ⟨.value, stack⟩ (t ++ c :: rest) = Json.run (give v stack) (c :: rest) := by
  rw [run_append, run_cons, run_cons, h.reads stack c hc]

theorem Rejected.run (h : Rejected t) (stack : List Frame) (rest : Text) :
    (Json.run ⟨.value, stack⟩ (t ++ rest)).mode = .fail := by
  rw [run_append]
  exact run_fail (h.fails stack) rest

/-- An array begins like any other place for a value. -/
theorem Starts.element (h : Starts t) (stack : List Frame) (rest : Text) :
    Json.run ⟨.element, stack⟩ (t ++ rest) = Json.run ⟨.value, stack⟩ (t ++ rest) := by
  obtain ⟨c, t, rfl, hws, hend⟩ := h
  rw [List.cons_append, run_cons, run_cons]
  simp [step, hws, hend]

theorem reads_null : Reads "null".toList .null where
  starts := ⟨'n', "ull".toList, rfl, rfl, by decide⟩
  reads _ _ _ := rfl

/-! ### Strings -/

def plain (c : Char) : Bool := c ≠ '"' && c ≠ '\\' && decide (0x20 ≤ c.toNat)

theorem run_plain (h : t.all plain = true) (key : Bool) (text : Text) (stack : List Frame) :
    Json.run ⟨.str key .plain text, stack⟩ t = ⟨.str key .plain (text ++ t), stack⟩ := by
  induction t generalizing text with
  | nil => simp [Json.run]
  | cons c t ih =>
    rw [List.all_cons, Bool.and_eq_true] at h
    obtain ⟨hc, ht⟩ := h
    simp only [plain, Bool.and_eq_true, decide_eq_true_eq, ne_eq] at hc
    have hstep : step ⟨.str key .plain text, stack⟩ c =
        ⟨.str key .plain (text ++ [c]), stack⟩ := by
      simp [step, Escape.next, hc, Nat.not_lt.mpr hc.2]
    rw [run_cons, hstep, ih ht, List.append_assoc, List.singleton_append]

/-- A text between quotation marks. -/
def quoted (t : Text) : Text := '"' :: (t ++ ['"'])

theorem reads_quoted (h : t.all plain = true) : Reads (quoted t) (.str t) where
  starts := ⟨'"', _, rfl, rfl, by decide⟩
  reads stack c _ := by
    have hopen : step ⟨.value, stack⟩ '"' = ⟨.str false .plain [], stack⟩ := rfl
    rw [quoted, run_cons, hopen, run_append, run_plain h, List.nil_append]
    rfl

/-! ### Numbers -/

theorem run_digits {n : Num} (hn : ∀ c : Char, c.isDigit = true → n.next c = some n)
    (h : ∀ c ∈ t, c.isDigit = true) (text : Text) (stack : List Frame) :
    Json.run ⟨.num n text, stack⟩ t = ⟨.num n (text ++ t), stack⟩ := by
  induction t generalizing text with
  | nil => simp [Json.run]
  | cons c t ih =>
    obtain ⟨hc, ht⟩ := List.forall_mem_cons.mp h
    have hstep : step ⟨.num n text, stack⟩ c = ⟨.num n (text ++ [c]), stack⟩ := by
      simp [step, hn c hc]
    rw [run_cons, hstep, ih ht, List.append_assoc, List.singleton_append]

theorem int_next {c : Char} (h : c.isDigit = true) : Num.int.next c = some .int := by
  simp [Num.next, h]

theorem frac_next {c : Char} (h : c.isDigit = true) : Num.frac.next c = some .frac := by
  simp [Num.next, h]

/-- No leading zero. -/
theorem toDigits_head {n : Nat} (hn : 0 < n) :
    ∃ c rest, Nat.toDigits 10 n = c :: rest ∧ c ≠ '0' := by
  induction n using Nat.strongRecOn with
  | ind n ih =>
    rcases Nat.lt_or_ge n 10 with hlt | hge
    · refine ⟨n.digitChar, [], Nat.toDigits_of_lt_base hlt, ?_⟩
      rw [ne_eq, Nat.digitChar_eq_zero]
      omega
    · obtain ⟨c, rest, hhead, hne⟩ := ih (n / 10) (by omega) (by omega)
      rw [Nat.toDigits_of_base_le (by omega) hge, hhead]
      exact ⟨c, _, rfl, hne⟩

theorem toDigits_isDigit {n : Nat} {c : Char} (h : c ∈ Nat.toDigits 10 n) : c.isDigit = true :=
  Nat.isDigit_of_mem_toDigits (by omega) (by omega) h

theorem digit_other {c : Char} (h : c.isDigit = true) :
    isWs c = false ∧ c ∉ ['"', '{', '[', ']', 'n', 't', 'f', 'N', 'I', '-', '.'] := by
  have hne : ∀ d : Char, d.isDigit = false → c ≠ d := by
    rintro d hd rfl
    rw [h] at hd
    exact Bool.noConfusion hd
  simp [isWs, hne]

def sign (negative : Bool) : Text := if negative then ['-'] else []

def kindOf (n : Nat) : Num := if n = 0 then .zero else .int

/-- The digits of a natural number, with a minus sign or without. -/
theorem run_nat (negative : Bool) (n : Nat) (stack : List Frame) :
    Json.run ⟨.value, stack⟩ (sign negative ++ Nat.toDigits 10 n) =
      ⟨.num (kindOf n) (sign negative ++ Nat.toDigits 10 n), stack⟩ := by
  unfold kindOf
  rcases Nat.eq_zero_or_pos n with rfl | hn
  · cases negative <;> rfl
  · obtain ⟨c, rest, hdigits, hne⟩ := toDigits_head hn
    have hall : ∀ d ∈ c :: rest, d.isDigit = true := by
      intro d hd
      rw [← hdigits] at hd
      exact toDigits_isDigit hd
    obtain ⟨hc, hrest⟩ := List.forall_mem_cons.mp hall
    obtain ⟨hws, hother⟩ := digit_other hc
    simp only [List.mem_cons, not_or] at hother
    rw [hdigits, if_neg (Nat.ne_of_gt hn)]
    cases negative with
    | false =>
      have hstep : step ⟨.value, stack⟩ c = ⟨.num .int [c], stack⟩ := by
        simp [step, start, hws, hother, hne, hc]
      rw [sign, if_neg Bool.false_ne_true, List.nil_append, run_cons, hstep,
        run_digits (fun _ => int_next) hrest, List.singleton_append]
    | true =>
      have hstep : step ⟨.num .neg ['-'], stack⟩ c = ⟨.num .int ['-', c], stack⟩ := by
        simp [step, Num.next, hne, hc]
      have hminus : step ⟨.value, stack⟩ '-' = ⟨.num .neg ['-'], stack⟩ := rfl
      rw [sign, if_pos rfl, List.singleton_append, run_cons, run_cons, hminus, hstep,
        run_digits (fun _ => int_next) hrest]
      rfl

theorem starts_nat (negative : Bool) (n : Nat) (rest : Text) :
    Starts (sign negative ++ (Nat.toDigits 10 n ++ rest)) := by
  cases negative with
  | false =>
    obtain ⟨c, t, hdigits⟩ := List.exists_cons_of_ne_nil (Nat.toDigits_ne_nil (n := n) (b := 10))
    have hc : c.isDigit = true := toDigits_isDigit (by rw [hdigits]; exact List.mem_cons_self)
    obtain ⟨hws, hother⟩ := digit_other hc
    refine ⟨c, t ++ rest, by rw [hdigits]; rfl, hws, ?_⟩
    rintro rfl
    simp at hother
  | true => exact ⟨'-', _, rfl, rfl, by decide⟩

theorem step_num {n : Num} (hn : n.complete = true) (text : Text) (stack : List Frame) {c : Char}
    (hc : delimits c = true) :
    step ⟨.num n text, stack⟩ c = step (give (.num text) stack) c := by
  have hnone : n.next c = none := by
    simp only [delimits, Bool.or_eq_true, beq_iff_eq] at hc
    rcases hc with (rfl | rfl) | rfl <;> cases n <;> rfl
  have hneg : n ≠ .neg := by
    rintro rfl
    simp [Num.complete] at hn
  rw [step_give]
  simp [step, hnone, hneg, hn]

theorem reads_int (negative : Bool) (n : Nat) :
    Reads (sign negative ++ Nat.toDigits 10 n) (.num (sign negative ++ Nat.toDigits 10 n)) where
  starts := by
    have h := starts_nat negative n []
    rwa [List.append_nil] at h
  reads stack c hc := by
    have hcomplete : (kindOf n).complete = true := by
      unfold kindOf
      split_ifs <;> rfl
    rw [run_nat, step_num hcomplete _ _ hc]

/-- A decimal. -/
theorem reads_decimal (negative : Bool) (n : Nat) {digits : Text} (hne : digits ≠ [])
    (h : ∀ c ∈ digits, c.isDigit = true) :
    Reads (sign negative ++ (Nat.toDigits 10 n ++ '.' :: digits))
      (.num (sign negative ++ (Nat.toDigits 10 n ++ '.' :: digits))) where
  starts := starts_nat negative n _
  reads stack c hc := by
    obtain ⟨d, digits, rfl⟩ := List.exists_cons_of_ne_nil hne
    obtain ⟨hd, hdigits⟩ := List.forall_mem_cons.mp h
    have hdot : ∀ text, step ⟨.num (kindOf n) text, stack⟩ '.' =
        ⟨.num .dot (text ++ ['.']), stack⟩ := by
      intro text
      unfold kindOf
      split_ifs <;> rfl
    have hfrac : ∀ text, step ⟨.num .dot text, stack⟩ d = ⟨.num .frac (text ++ [d]), stack⟩ := by
      intro text
      simp [step, Num.next, hd]
    rw [← List.append_assoc, run_append, run_nat, run_cons, run_cons, hdot, hfrac,
      run_digits (fun _ => frac_next) hdigits, step_num rfl _ _ hc]
    simp

end Values

/-! ## Containers -/

instance : Nonempty Value := ⟨.null⟩

/-- The text of a value, or of none. -/
def Judged (t : Text) : Prop := (∃ v, Reads t v) ∨ Rejected t

section Containers

variable {stack : List Frame}

/-- The values behind the first one, and the end of the array. -/
def more (elements : List Text) : Text := elements.flatMap (fun t => ',' :: t) ++ [']']

def array : List Text → Text
  | [] => "[]".toList
  | t :: elements => '[' :: (t ++ more elements)

theorem more_head (elements : List Text) :
    ∃ c rest, more elements = c :: rest ∧ delimits c = true := by
  cases elements with
  | nil => exact ⟨']', [], rfl, rfl⟩
  | cons t elements => exact ⟨',', t ++ more elements, by simp [more], rfl⟩

/-- No text is both. -/
theorem Rejected.not_reads {t : Text} (h : Rejected t) : ¬∃ v, Reads t v := by
  rintro ⟨v, hv⟩
  have hfail := step_fail (h.fails [.arr []]) ','
  rw [hv.reads _ _ rfl] at hfail
  exact Mode.noConfusion hfail

theorem Judged.rejected {t : Text} (h : Judged t) (hnot : ¬∃ v, Reads t v) : Rejected t :=
  h.resolve_left hnot

/-- Elements as `text` writes them are read as `value` says. -/
theorem run_more {ι : Type*} {text : ι → Text} {value : ι → Value} {l : List ι}
    (h : ∀ i ∈ l, Reads (text i) (value i)) (values : List Value) (stack : List Frame) :
    run ⟨.after, .arr values :: stack⟩ (more (l.map text)) =
      give (.arr (values ++ l.map value)) stack := by
  induction l generalizing values with
  | nil =>
    rw [List.map_nil, List.map_nil, List.append_nil]
    rfl
  | cons i l ih =>
    obtain ⟨hi, hrest⟩ := List.forall_mem_cons.mp h
    obtain ⟨c, rest, hmore, hc⟩ := more_head (l.map text)
    have hcons : more ((i :: l).map text) = ',' :: (text i ++ more (l.map text)) := by
      simp [more]
    rw [hcons, run_cons, show step ⟨.after, .arr values :: stack⟩ ',' =
      ⟨.value, .arr values :: stack⟩ from rfl, hmore, hi.run _ hc, ← hmore]
    have hgive : give (value i) (.arr values :: stack) =
        ⟨.after, .arr (values ++ [value i]) :: stack⟩ := rfl
    rw [hgive, ih hrest, List.map_cons, List.append_assoc, List.singleton_append]

theorem reads_array_map {ι : Type*} {text : ι → Text} {value : ι → Value} {l : List ι}
    (h : ∀ i ∈ l, Reads (text i) (value i)) :
    Reads (array (l.map text)) (.arr (l.map value)) := by
  cases l with
  | nil => exact ⟨⟨'[', "]".toList, rfl, rfl, by decide⟩, fun _ _ _ => rfl⟩
  | cons i l =>
    obtain ⟨hi, hrest⟩ := List.forall_mem_cons.mp h
    refine ⟨⟨'[', _, rfl, rfl, by decide⟩, fun stack c hc => ?_⟩
    obtain ⟨d, rest, hmore, hd⟩ := more_head (l.map text)
    rw [List.map_cons, array, run_cons, show step ⟨.value, stack⟩ '[' =
      ⟨.element, .arr [] :: stack⟩ from rfl, hi.starts.element, hmore, hi.run _ hd, ← hmore]
    exact congrArg (step · c) (run_more hrest [value i] stack)

/-- The value of each text that has one. -/
theorem exists_valueOf : ∃ valueOf : Text → Value, ∀ t, (∃ v, Reads t v) → Reads t (valueOf t) :=
  ⟨fun t => Classical.epsilon (Reads t), fun _ => Classical.epsilon_spec⟩

theorem reads_array {elements : List Text} (h : ∀ t ∈ elements, ∃ v, Reads t v) :
    ∃ v, Reads (array elements) v := by
  obtain ⟨valueOf, hvalue⟩ := exists_valueOf
  have hall : ∀ t ∈ elements, Reads (id t) (valueOf t) := fun t ht => hvalue t (h t ht)
  have hread := reads_array_map hall
  rw [List.map_id] at hread
  exact ⟨_, hread⟩

theorem run_more_rejected {elements : List Text} (h : ∀ t ∈ elements, Judged t) {t : Text}
    (ht : t ∈ elements) (hbad : Rejected t) (values : List Value) (stack : List Frame) :
    (run ⟨.after, .arr values :: stack⟩ (more elements)).mode = .fail := by
  induction elements generalizing values with
  | nil => exact absurd ht List.not_mem_nil
  | cons u elements ih =>
    obtain ⟨hu, hrest⟩ := List.forall_mem_cons.mp h
    have hcons : more (u :: elements) = ',' :: (u ++ more elements) := by simp [more]
    rw [hcons, run_cons, show step ⟨.after, .arr values :: stack⟩ ',' =
      ⟨.value, .arr values :: stack⟩ from rfl]
    rcases hu with ⟨v, hv⟩ | hu
    · rcases List.mem_cons.mp ht with rfl | ht
      · exact hbad.run _ _
      · obtain ⟨c, rest, hmore, hc⟩ := more_head elements
        rw [hmore, hv.run _ hc, ← hmore]
        exact ih hrest ht _
    · exact hu.run _ _

theorem rejected_array {elements : List Text} (h : ∀ t ∈ elements, Judged t) {t : Text}
    (ht : t ∈ elements) (hbad : Rejected t) : Rejected (array elements) := by
  cases elements with
  | nil => exact absurd ht List.not_mem_nil
  | cons u elements =>
    refine ⟨⟨'[', _, rfl, rfl, by decide⟩, fun stack => ?_⟩
    obtain ⟨hu, hrest⟩ := List.forall_mem_cons.mp h
    rw [array, run_cons, show step ⟨.value, stack⟩ '[' = ⟨.element, .arr [] :: stack⟩ from rfl]
    rcases hu with ⟨v, hv⟩ | hu
    · rw [hv.starts.element]
      rcases List.mem_cons.mp ht with rfl | ht
      · exact hbad.run _ _
      · obtain ⟨c, rest, hmore, hc⟩ := more_head elements
        rw [hmore, hv.run _ hc, ← hmore]
        exact run_more_rejected hrest ht hbad _ _
    · rw [hu.starts.element]
      exact hu.run _ _

/-! ### Members -/

/-- A key that needs no escape. -/
def Named (key : Text) : Prop :=
  key.all plain = true ∧ ∃ c rest, key = c :: rest ∧ c.isAlpha = true

def field (f : Text × Text) : Text := '"' :: (f.1 ++ '"' :: ':' :: f.2)

/-- The members behind the first one, and the end of the object. -/
def members (fields : List (Text × Text)) : Text :=
  fields.flatMap (fun f => ',' :: field f) ++ ['}']

theorem members_cons (f : Text × Text) (fields : List (Text × Text)) :
    members (f :: fields) = ',' :: '"' :: (f.1 ++ '"' :: ':' :: (f.2 ++ members fields)) := by
  simp [members, field]

theorem members_head (fields : List (Text × Text)) :
    ∃ c rest, members fields = c :: rest ∧ delimits c = true := by
  cases fields with
  | nil => exact ⟨'}', [], rfl, rfl⟩
  | cons f fields => exact ⟨',', _, members_cons f fields, rfl⟩

/-- Behind the colon. -/
theorem run_key {f : Text × Text} (hf : Named f.1) (fields : List (Text × Text))
    (ms : List (Text × Value)) (stack : List Frame) :
    run ⟨.after, .obj ms :: stack⟩ (members (f :: fields)) =
      run ⟨.value, .key f.1 :: .obj ms :: stack⟩ (f.2 ++ members fields) := by
  have hopen : step (step ⟨.after, .obj ms :: stack⟩ ',') '"' =
      ⟨.str true .plain [], .obj ms :: stack⟩ := rfl
  have hclose : step (step ⟨.str true .plain f.1, .obj ms :: stack⟩ '"') ':' =
      ⟨.value, .key f.1 :: .obj ms :: stack⟩ := rfl
  rw [members_cons, run_cons, run_cons, hopen, run_append, run_plain hf.1, List.nil_append,
    run_cons, run_cons, hclose]

/-- Members with what they are read as: how they are written, and what they are. -/
def written (l : List (Text × Text × Value)) : List (Text × Text) := l.map fun p => (p.1, p.2.1)
def meant (l : List (Text × Text × Value)) : List (Text × Value) := l.map fun p => (p.1, p.2.2)

theorem run_members {l : List (Text × Text × Value)} (hnamed : ∀ p ∈ l, Named p.1)
    (h : ∀ p ∈ l, Reads p.2.1 p.2.2) (ms : List (Text × Value)) (stack : List Frame) :
    run ⟨.after, .obj ms :: stack⟩ (members (written l)) = give (.obj (ms ++ meant l)) stack := by
  induction l generalizing ms with
  | nil =>
    unfold written meant
    rw [List.map_nil, List.map_nil, List.append_nil]
    rfl
  | cons p l ih =>
    obtain ⟨key, text, value⟩ := p
    obtain ⟨hf, hnamed⟩ := List.forall_mem_cons.mp hnamed
    obtain ⟨hp, hrest⟩ := List.forall_mem_cons.mp h
    obtain ⟨c, rest, hmore, hc⟩ := members_head (written l)
    have hcons : written ((key, text, value) :: l) = (key, text) :: written l := rfl
    rw [hcons, run_key hf, hmore, hp.run _ hc, ← hmore]
    have hgive : give value (.key key :: .obj ms :: stack) =
        ⟨.after, .obj (ms ++ [(key, value)]) :: stack⟩ := rfl
    rw [hgive, ih hnamed hrest, List.append_assoc, List.singleton_append]
    rfl

/-- An object with its members. -/
def object : List (Text × Text) → Text
  | [] => ['{', '}']
  | f :: fields => '{' :: (field f ++ members fields)

theorem run_object {l : List (Text × Text × Value)} (hnamed : ∀ p ∈ l, Named p.1)
    (h : ∀ p ∈ l, Reads p.2.1 p.2.2) (stack : List Frame) :
    run ⟨.value, stack⟩ (object (written l)) = give (.obj (meant l)) stack := by
  cases l with
  | nil => rfl
  | cons p l =>
    obtain ⟨key, text, value⟩ := p
    obtain ⟨hf, hnamed⟩ := List.forall_mem_cons.mp hnamed
    obtain ⟨hp, hrest⟩ := List.forall_mem_cons.mp h
    obtain ⟨d, rest, hmore, hd⟩ := members_head (written l)
    have hopen : step (step ⟨.value, stack⟩ '{') '"' =
        ⟨.str true .plain [], .obj [] :: stack⟩ := rfl
    have hclose : step (step ⟨.str true .plain key, .obj [] :: stack⟩ '"') ':' =
        ⟨.value, .key key :: .obj [] :: stack⟩ := rfl
    have hcons : object (written ((key, text, value) :: l)) =
        '{' :: '"' :: (key ++ '"' :: ':' :: (text ++ members (written l))) := by
      simp [written, object, field]
    rw [hcons, run_cons, run_cons, hopen, run_append, run_plain hf.1, List.nil_append, run_cons,
      run_cons, hclose, hmore, hp.run _ hd, ← hmore]
    exact run_members hnamed hrest [(key, value)] stack

theorem reads_object {l : List (Text × Text × Value)} (hnamed : ∀ p ∈ l, Named p.1)
    (h : ∀ p ∈ l, Reads p.2.1 p.2.2) : Reads (object (written l)) (.obj (meant l)) where
  starts := by
    cases l with
    | nil => exact ⟨'{', ['}'], rfl, rfl, by decide⟩
    | cons p l => exact ⟨'{', _, rfl, rfl, by decide⟩
  reads stack c _ := congrArg (step · c) (run_object hnamed h stack)

theorem loads_object {l : List (Text × Text × Value)} (hnamed : ∀ p ∈ l, Named p.1)
    (h : ∀ p ∈ l, Reads p.2.1 p.2.2) : loads (object (written l)) = some (.obj (meant l)) := by
  unfold loads
  rw [run_object hnamed h []]
  rfl

/-- What the members are read as, whatever they are. -/
theorem run_members_some {fields : List (Text × Text)} (hnamed : ∀ f ∈ fields, Named f.1)
    (h : ∀ f ∈ fields, ∃ v, Reads f.2 v) (ms : List (Text × Value)) :
    ∃ ms', ms'.map Prod.fst = ms.map Prod.fst ++ fields.map Prod.fst ∧
      ∀ stack, run ⟨.after, .obj ms :: stack⟩ (members fields) = give (.obj ms') stack := by
  obtain ⟨valueOf, hvalue⟩ := exists_valueOf
  let l := fields.map fun f => (f.1, f.2, valueOf f.2)
  have hwritten : written l = fields := by simp [written, l, Function.comp_def]
  have hl : ∀ p ∈ l, Named p.1 ∧ Reads p.2.1 p.2.2 := by
    intro p hp
    obtain ⟨f, hf, rfl⟩ := List.mem_map.mp hp
    exact ⟨hnamed f hf, hvalue f.2 (h f hf)⟩
  refine ⟨ms ++ meant l, by simp [meant, l, Function.comp_def], fun stack => ?_⟩
  have hrun := run_members (fun p hp => (hl p hp).1) (fun p hp => (hl p hp).2) ms stack
  rwa [hwritten] at hrun

theorem run_members_rejected {fields : List (Text × Text)} (hnamed : ∀ f ∈ fields, Named f.1)
    (h : ∀ f ∈ fields, Judged f.2) {f : Text × Text} (hmem : f ∈ fields) (hbad : Rejected f.2)
    (ms : List (Text × Value)) (stack : List Frame) :
    (run ⟨.after, .obj ms :: stack⟩ (members fields)).mode = .fail := by
  induction fields generalizing ms with
  | nil => exact absurd hmem List.not_mem_nil
  | cons g fields ih =>
    obtain ⟨hg, hnamed⟩ := List.forall_mem_cons.mp hnamed
    obtain ⟨hjudged, hrest⟩ := List.forall_mem_cons.mp h
    rw [run_key hg]
    rcases hjudged with ⟨v, hv⟩ | hrejected
    · rcases List.mem_cons.mp hmem with rfl | hmem
      · exact hbad.run _ _
      · obtain ⟨c, rest, hmore, hc⟩ := members_head fields
        rw [hmore, hv.run _ hc, ← hmore]
        exact ih hnamed hrest hmem _
    · exact hrejected.run _ _

end Containers

/-- An array is read when everything in it is. -/
theorem array_reads_iff {elements : List Text} (h : ∀ t ∈ elements, Judged t) :
    (∃ v, Reads (array elements) v) ↔ ∀ t ∈ elements, ∃ v, Reads t v := by
  refine ⟨fun harray t ht => ?_, reads_array⟩
  by_contra hnot
  exact (rejected_array h ht ((h t ht).rejected hnot)).not_reads harray

theorem judged_array {elements : List Text} (h : ∀ t ∈ elements, Judged t) :
    Judged (array elements) := by
  by_cases hall : ∀ t ∈ elements, ∃ v, Reads t v
  · exact Or.inl (reads_array hall)
  · obtain ⟨t, ht⟩ := not_forall.mp hall
    obtain ⟨hmem, hnot⟩ := Classical.not_imp.mp ht
    exact Or.inr (rejected_array h hmem ((h t hmem).rejected hnot))

/-! ## The rest of an object -/

section Rest

variable {s : State} {fields : List (Text × Text)}

/-- The result is an object. -/
def IsObject (v : Option Value) : Prop := ∃ ms, v = some (.obj ms)

theorem not_isObject_fail (h : s.mode = .fail) (t : Text) : ¬IsObject (finish (run s t)) := by
  rintro ⟨ms, hms⟩
  rw [finish_fail (run_fail h t)] at hms
  simp at hms

theorem not_isObject_brace (h : (step s '}').mode = .fail) : ¬IsObject (finish (run s ['}'])) := by
  rw [run_cons]
  exact not_isObject_fail h []

theorem give_isObject {v : Value} {stack : List Frame} (h : IsObject (finish (give v stack))) :
    stack = [] := by
  obtain ⟨ms, hms⟩ := h
  unfold give at hms
  split at hms
  · rfl
  · simp [finish] at hms
  · simp [finish] at hms
  · simp [finish] at hms

/-- What a quotation mark leaves behind. -/
inductive BehindQuote : Mode → Prop where
  | fail : BehindQuote .fail
  | colon : BehindQuote .colon
  | str (key : Bool) (text : Text) : BehindQuote (.str key .plain text)
  | after : BehindQuote .after
  | done (v : Value) : BehindQuote (.done v)

theorem give_behindQuote (v : Value) (stack : List Frame) : BehindQuote (give v stack).mode := by
  rcases give_mode v stack with h | h | h <;> rw [h]
  · exact .after
  · exact .done v
  · exact .fail

theorem step_quote (s : State) : BehindQuote (step s '"').mode := by
  have hfail : ∀ {t : State}, t.mode = .fail → BehindQuote t.mode := by
    intro t h
    rw [h]
    exact .fail
  obtain ⟨mode, stack⟩ := s
  cases mode with
  | value => exact .str false []
  | element => exact .str false []
  | member first => exact .str true []
  | str key escape text =>
    cases escape with
    | plain =>
      cases key with
      | true => exact .colon
      | false => exact give_behindQuote (.str text) stack
    | slash => exact .str key _
    | hex left => exact .fail
  | colon => exact .fail
  | num n text =>
    have hnone : n.next '"' = none := by cases n <;> rfl
    apply hfail
    simp only [step, hnone]
    split_ifs
    · exact absurd ‹_ ∧ _›.2 (by decide)
    · exact close_fail _ rfl
    · rfl
  | word w seen =>
    have hquote : w.text[seen]? ≠ some '"' := by
      have hletters : '"' ∉ w.text := by cases w <;> decide
      exact fun h => hletters (List.mem_of_getElem? h)
    apply hfail
    simp only [step, if_pos hquote]
  | after => exact hfail (close_fail _ rfl)
  | done v => exact hfail (close_fail _ rfl)
  | fail => exact .fail

theorem alpha_other {c : Char} (h : c.isAlpha = true) :
    isWs c = false ∧ closes c = false ∧ c ≠ ':' := by
  have hne : ∀ d : Char, d.isAlpha = false → c ≠ d := by
    rintro d hd rfl
    rw [h] at hd
    exact Bool.noConfusion hd
  simp [closes, isWs, hne]

/-- Where a key stands on the wrong side of its quotation marks. -/
theorem members_misread {key : Bool} {text : Text} {stack : List Frame}
    (hne : fields ≠ []) (hnamed : ∀ f ∈ fields, Named f.1) :
    (run ⟨.str key .plain text, stack⟩ (members fields)).mode = .fail := by
  obtain ⟨f, fields, rfl⟩ := List.exists_cons_of_ne_nil hne
  obtain ⟨-, c, rest, hkey, hc⟩ := hnamed f List.mem_cons_self
  obtain ⟨hws, hcloses, hcolon⟩ := alpha_other hc
  rw [members_cons, hkey, run_cons, run_cons, List.cons_append, run_cons]
  apply run_fail
  have hcomma : step ⟨.str key .plain text, stack⟩ ',' =
      ⟨.str key .plain (text ++ [',']), stack⟩ := rfl
  rw [hcomma]
  cases key with
  | true =>
    have hend : step ⟨.str true .plain (text ++ [',']), stack⟩ '"' =
        ⟨.colon, .key (text ++ [',']) :: stack⟩ := rfl
    rw [hend]
    simp [step, hws, hcolon]
  | false =>
    have hend : step ⟨.str false .plain (text ++ [',']), stack⟩ '"' =
        give (.str (text ++ [','])) stack := rfl
    rw [hend, step_give]
    exact close_fail _ hcloses

/-- Where an array is open. -/
theorem members_in_array {values : List Value} {stack : List Frame}
    (hne : fields ≠ []) (hnamed : ∀ f ∈ fields, Named f.1) :
    (run ⟨.after, .arr values :: stack⟩ (members fields)).mode = .fail := by
  obtain ⟨f, fields, rfl⟩ := List.exists_cons_of_ne_nil hne
  have hopen : step (step ⟨.after, .arr values :: stack⟩ ',') '"' =
      ⟨.str false .plain [], .arr values :: stack⟩ := rfl
  have hclose : step ⟨.str false .plain f.1, .arr values :: stack⟩ '"' =
      ⟨.after, .arr (values ++ [.str f.1]) :: stack⟩ := rfl
  rw [members_cons, run_cons, run_cons, hopen, run_append,
    run_plain (hnamed f List.mem_cons_self).1, List.nil_append, run_cons, hclose, run_cons]
  have hcolon : (close ⟨.after, .arr (values ++ [.str f.1]) :: stack⟩ ':').mode = .fail :=
    close_fail _ rfl
  exact run_fail hcolon _

/-- Where no comma may stand. -/
theorem members_fail (hne : fields ≠ []) (h : (step s ',').mode = .fail) :
    (run s (members fields)).mode = .fail := by
  obtain ⟨f, fields, rfl⟩ := List.exists_cons_of_ne_nil hne
  rw [members_cons, run_cons]
  exact run_fail h _

/-- Behind a member, in one object or in several. -/
theorem members_in_object {ms : List (Text × Value)} {stack : List Frame}
    (hnamed : ∀ f ∈ fields, Named f.1) (h : ∀ f ∈ fields, Judged f.2) :
    IsObject (finish (run ⟨.after, .obj ms :: stack⟩ (members fields))) ↔
      stack = [] ∧ ∀ f ∈ fields, ∃ v, Reads f.2 v := by
  by_cases hall : ∀ f ∈ fields, ∃ v, Reads f.2 v
  · obtain ⟨ms', -, hms⟩ := run_members_some hnamed hall ms
    rw [hms stack]
    constructor
    · intro hobject
      exact ⟨give_isObject hobject, hall⟩
    · rintro ⟨rfl, -⟩
      exact ⟨ms', rfl⟩
  · obtain ⟨f, hf⟩ := not_forall.mp hall
    obtain ⟨hmem, hnot⟩ := Classical.not_imp.mp hf
    have hfail := run_members_rejected hnamed h hmem ((h f hmem).rejected hnot) ms stack
    refine iff_of_false (not_isObject_fail hfail []) fun hboth => hall hboth.2

/-- **The members behind a quotation mark are read if each of them is and nothing else is
open.** -/
theorem rest_isObject_iff (hne : fields ≠ []) (hnamed : ∀ f ∈ fields, Named f.1)
    (h : ∀ f ∈ fields, Judged f.2) (s : State) :
    IsObject (finish (run (step s '"') (members fields))) ↔
      IsObject (finish (run (step s '"') ['}'])) ∧ ∀ f ∈ fields, ∃ v, Reads f.2 v := by
  have hquote := step_quote s
  generalize step s '"' = q at hquote
  obtain ⟨mode, stack⟩ := q
  -- nowhere but behind a member does the line go on
  have hneither : (run ⟨mode, stack⟩ (members fields)).mode = .fail →
      ¬IsObject (finish (run ⟨mode, stack⟩ ['}'])) →
      (IsObject (finish (run ⟨mode, stack⟩ (members fields))) ↔
        IsObject (finish (run ⟨mode, stack⟩ ['}'])) ∧ ∀ f ∈ fields, ∃ v, Reads f.2 v) := by
    intro hfail hend
    exact iff_of_false (not_isObject_fail hfail []) fun hboth => hend hboth.1
  cases hquote with
  | fail => exact hneither (members_fail hne rfl) (not_isObject_brace rfl)
  | colon => exact hneither (members_fail hne rfl) (not_isObject_brace rfl)
  | done v => exact hneither (members_fail hne rfl) (not_isObject_brace rfl)
  | str key text =>
    apply hneither (members_misread hne hnamed)
    rintro ⟨ms, hms⟩
    simp [run, step, Escape.next, finish] at hms
  | after =>
    cases stack with
    | nil => exact hneither (members_fail hne rfl) (not_isObject_brace rfl)
    | cons frame stack =>
      cases frame with
      | arr values =>
        exact hneither (members_in_array hne hnamed) (not_isObject_brace rfl)
      | obj ms =>
        have hend : IsObject (finish (run ⟨.after, .obj ms :: stack⟩ ['}'])) ↔ stack = [] := by
          have hnone := @members_in_object [] ms stack (List.forall_mem_nil _)
            (List.forall_mem_nil _)
          simpa [members] using hnone
        rw [members_in_object hnamed h, hend]
      | key k => exact hneither (members_fail hne rfl) (not_isObject_brace rfl)

end Rest

end Json
