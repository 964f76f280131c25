import FakeBigLittle.Bpf.Spec
import FakeBigLittle.Loader.Proofs

/-!
# What a comm rule means

The loader cuts the two lists into tokens and the tokens to the size of a rule, the kernel
cuts the name of a process to `p->comm`, and `classify_by_comm` compares what is left of
both. For a token that fits into `p->comm` this is the prefix relation.
-/

namespace FakeBigLittle

open CString

/-- The name of a process, which no length bounds. -/
structure ProcName where
  bytes : List UInt8
  noNul : 0 ∉ bytes

/-- `p->comm`: the first 15 bytes. -/
def ProcName.comm (name : ProcName) : Comm where
  bytes := name.bytes.take (blsCommLen - 1)
  short := by
    rw [List.length_take]
    unfold blsCommLen
    omega
  noNul h := name.noNul (List.mem_of_mem_take h)

def tokens (list : Option Arg) : List Text :=
  match list with
  | none => []
  | some list => strtok ',' list.text

/-- The tokens of both lists in the order of their rules. -/
def ruleTokens (big little : Option Arg) : List (Text × Dom) :=
  (tokens big).map (·, .big) ++ (tokens little).map (·, .little)

/-- What the rules mean: the first token that begins the name. -/
def firstPrefix (toks : List (Text × Dom)) (name : ProcName) : Option (Text × Dom) :=
  toks.find? fun tok => decide (toBytes tok.1 <+: name.bytes)

-- A token that `p->comm` has room for.
def fitsComm (tok : Text × Dom) : Bool := decide (tok.1.length < blsCommLen)

/-- If the token that decides is longer than `p->comm`, then so does a shorter one behind
it, and for the same domain. -/
def ShortDecides (toks : List (Text × Dom)) (name : ProcName) : Prop :=
  ∀ tok, firstPrefix toks name = some tok → fitsComm tok = false →
    ∃ tok', firstPrefix (toks.filter fitsComm) name = some tok' ∧ tok'.2 = tok.2

/-! ## One rule -/

-- The rule that `add_comm_rules` writes for a token into a slot that holds `old`.
def tokenRule (old : Nat → UInt8) (tok : Text × Dom) : CommRule where
  comm j := if j < min tok.1.length blsCommLen then UInt8.ofNat (tok.1.getD j '\x00').toNat
    else old j
  len := min tok.1.length blsCommLen
  domain := tok.2

theorem tokenRule_byte (old : Nat → UInt8) (tok : Text × Dom) {j : Nat}
    (hj : j < min tok.1.length blsCommLen) :
    (tokenRule old tok).comm j = (toBytes tok.1).getD j 0 := by
  have hlt : j < tok.1.length := by omega
  simp only [tokenRule, if_pos hj, toBytes]
  rw [List.getD_eq_getElem _ _ hlt, List.getD_eq_getElem _ _ (by simpa using hlt),
    List.getElem_map]

theorem ProcName.comm_byte (name : ProcName) {j : Nat} (hj : j + 1 < blsCommLen) :
    name.comm.byte j = name.bytes.getD j 0 := by
  simp only [Comm.byte, ProcName.comm, List.getD_eq_getElem?_getD]
  rw [List.getElem?_take_of_lt (by omega)]

theorem ProcName.comm_last (name : ProcName) : name.comm.byte (blsCommLen - 1) = 0 := by
  have hshort := name.comm.short
  exact List.getD_eq_default _ _ (by omega)

/-- A rule matches the names that begin with its token, unless the token fills the whole
rule and leaves no room for the terminator of `p->comm`. -/
theorem ruleMatches_iff {tok : Text × Dom} (hnul : 0 ∉ toBytes tok.1) (old : Nat → UInt8)
    (name : ProcName) : ruleMatches (tokenRule old tok) name.comm = true ↔
      fitsComm tok = true ∧ toBytes tok.1 <+: name.bytes := by
  have hlength : (toBytes tok.1).length = tok.1.length := by simp [toBytes]
  have hmatch : ruleMatches (tokenRule old tok) name.comm = true ↔
      ∀ j < min tok.1.length blsCommLen, name.comm.byte j = (toBytes tok.1).getD j 0 := by
    simp only [ruleMatches, List.all_eq_true, List.mem_range, Bool.or_eq_true, decide_eq_true_eq,
      beq_iff_eq]
    constructor
    · intro h j hj
      rw [← tokenRule_byte old tok hj]
      exact (h j (by omega)).resolve_left (by simp only [tokenRule]; omega)
    · intro h j hj
      rcases Nat.lt_or_ge j (min tok.1.length blsCommLen) with hlt | hge
      · right
        rw [tokenRule_byte old tok hlt, h j hlt]
      · exact Or.inl hge
  rw [hmatch, fitsComm, decide_eq_true_eq, prefix_iff_getD hnul, hlength]
  constructor
  · intro h
    have hfits : tok.1.length < blsCommLen := by
      by_contra hlong
      have hlast := h (blsCommLen - 1) (by unfold blsCommLen at hlong ⊢; omega)
      rw [name.comm_last, List.getD_eq_getElem _ _ (by unfold blsCommLen at hlong ⊢; omega)]
        at hlast
      exact hnul (hlast ▸ List.getElem_mem _)
    refine ⟨hfits, fun j hj => ?_⟩
    rw [← name.comm_byte (by omega)]
    exact h j (by omega)
  · rintro ⟨hfits, h⟩ j hj
    rw [name.comm_byte (by omega)]
    exact h j (by omega)

/-! ## The table -/

/-- Slot `i` holds the rule of token `i`, and the slots behind the tokens are off. -/
def Table (toks : List (Text × Dom)) (rules : Nat → CommRule) : Prop :=
  (∀ i (h : i < toks.length), ∃ old, rules i = tokenRule old toks[i]) ∧
    ∀ i, toks.length ≤ i → (rules i).len = 0

theorem table_snoc {toks : List (Text × Dom)} {rules : Nat → CommRule} (h : Table toks rules)
    (old : Nat → UInt8) (tok : Text × Dom) :
    Table (toks ++ [tok]) (Function.update rules toks.length (tokenRule old tok)) := by
  refine ⟨fun i hi => ?_, fun i hi => ?_⟩
  · rw [List.length_append, List.length_singleton] at hi
    rcases Nat.lt_or_ge i toks.length with hlt | hge
    · rw [Function.update_of_ne (by omega), List.getElem_append_left hlt]
      exact h.1 i hlt
    · obtain rfl : i = toks.length := by omega
      exact ⟨old, by rw [Function.update_self, List.getElem_concat_length rfl]⟩
  · rw [List.length_append, List.length_singleton] at hi
    rw [Function.update_of_ne (by omega)]
    exact h.2 i (by omega)

theorem table_addRules (d : Dom) (list : List Text) {toks : List (Text × Dom)}
    {rules : Nat → CommRule} (h : Table toks rules)
    (hfew : toks.length + list.length ≤ blsMaxCommRules) :
    ∃ rules', addRules d list rules toks.length = .ok (rules', toks.length + list.length) ∧
      Table (toks ++ list.map (·, d)) rules' := by
  induction list generalizing toks rules with
  | nil => exact ⟨rules, rfl, by simpa using h⟩
  | cons token list ih =>
    rw [List.length_cons] at hfew
    have hnext := table_snoc h (rules toks.length).comm (token, d)
    obtain ⟨rules', hok, htable⟩ := ih hnext (by simp; omega)
    refine ⟨rules', ?_, by simpa using htable⟩
    rw [addRules, if_neg (by omega)]
    simp only [List.length_append, List.length_singleton] at hok
    rw [List.length_cons, show toks.length + (list.length + 1) = toks.length + 1 + list.length by
      omega]
    exact hok

theorem table_givenRules (d : Dom) (list : Option Arg) {toks : List (Text × Dom)}
    {rules : Nat → CommRule} (h : Table toks rules)
    (hfew : toks.length + (tokens list).length ≤ blsMaxCommRules) :
    ∃ rules', givenRules (list.map Arg.text) d rules toks.length =
        .ok (rules', toks.length + (tokens list).length) ∧
      Table (toks ++ (tokens list).map (·, d)) rules' := by
  cases list with
  | none => exact ⟨rules, rfl, by simpa [tokens] using h⟩
  | some list => exact table_addRules d _ h hfew

/-! ## The lookup -/

/-- A search by index, where `p` and `f` ask of the index what `q` and `g` ask of the
element. -/
theorem find_index {α β : Type} (q : α → Bool) (g : α → β) (l : List α) (n : Nat)
    (p : Nat → Bool) (f : Nat → β) (hp : ∀ i (h : i < l.length), p i = q l[i])
    (hf : ∀ i (h : i < l.length), f i = g l[i]) (hrest : ∀ i, l.length ≤ i → p i = false)
    (hn : l.length ≤ n) : ((List.range n).find? p).map f = (l.find? q).map g := by
  induction l generalizing n p f with
  | nil =>
    rw [List.find?_nil, List.find?_eq_none.mpr fun i _ => by simp [hrest i (Nat.zero_le i)]]
    rfl
  | cons a l ih =>
    obtain ⟨n, rfl⟩ : ∃ m, n = m + 1 := ⟨n - 1, by rw [List.length_cons] at hn; omega⟩
    rw [List.range_succ_eq_map, List.find?_cons, List.find?_cons,
      hp 0 (by rw [List.length_cons]; omega), List.getElem_cons_zero]
    cases q a with
    | true => exact congrArg some (hf 0 (by rw [List.length_cons]; omega))
    | false =>
      simp only [List.find?_map, Option.map_map]
      rw [List.length_cons] at hn
      apply ih n (p ∘ Nat.succ) (f ∘ Nat.succ) ?_ ?_ ?_ (by omega)
      · intro i hi
        exact hp (i + 1) (by rw [List.length_cons]; omega)
      · intro i hi
        exact hf (i + 1) (by rw [List.length_cons]; omega)
      · intro i hi
        exact hrest (i + 1) (by rw [List.length_cons]; omega)

/-- With a table of the tokens, `classify_by_comm` looks for the first short token that
begins the name. -/
theorem classifyByComm_table {toks : List (Text × Dom)} {rules : Nat → CommRule}
    (h : Table toks rules) (hfew : toks.length ≤ blsMaxCommRules)
    (htoks : ∀ tok ∈ toks, tok.1 ≠ [] ∧ 0 ∉ toBytes tok.1) (name : ProcName) :
    classifyByComm rules (some name.comm) =
      (firstPrefix (toks.filter fitsComm) name).map (·.2) := by
  rw [firstPrefix, List.find?_filter]
  refine find_index _ _ toks blsMaxCommRules _ _ (fun i hi => ?_) (fun i hi => ?_)
    (fun i hi => ?_) hfew
  · obtain ⟨old, hrule⟩ := h.1 i hi
    obtain ⟨hne, hnul⟩ := htoks _ (List.getElem_mem hi)
    have hlen : (tokenRule old toks[i]).len ≠ 0 := by
      have hpos := List.length_pos_iff.mpr hne
      unfold tokenRule blsCommLen
      simp only
      omega
    have hle : (tokenRule old toks[i]).len ≤ blsCommLen := Nat.min_le_right ..
    rw [Bool.eq_iff_iff, hrule]
    simp [hlen, hle, ruleMatches_iff hnul]
  · obtain ⟨old, hrule⟩ := h.1 i hi
    simp [hrule, tokenRule]
  · simp [h.2 i hi]

/-! ## Both lists -/

theorem ruleTokens_wf (big little : Option Arg) :
    ∀ tok ∈ ruleTokens big little, tok.1 ≠ [] ∧ 0 ∉ toBytes tok.1 := by
  have hlist : ∀ (list : Option Arg), ∀ token ∈ tokens list,
      token ≠ [] ∧ 0 ∉ toBytes token := by
    intro list token htoken
    cases list with
    | none => simp [tokens] at htoken
    | some list => exact ⟨ne_nil_of_mem_strtok htoken, noNul_of_mem_strtok htoken⟩
  intro tok htok
  rcases List.mem_append.mp htok with h | h
  · obtain ⟨token, htoken, rfl⟩ := List.mem_map.mp h
    exact hlist big token htoken
  · obtain ⟨token, htoken, rfl⟩ := List.mem_map.mp h
    exact hlist little token htoken

/-- Both calls of `add_comm_rules` in `main`, with what `classify_by_comm` makes of them. -/
theorem rules_load (big little : Option Arg) {rules : Nat → CommRule}
    (hzero : ∀ i, (rules i).len = 0)
    (hfew : (tokens big).length + (tokens little).length ≤ blsMaxCommRules) :
    ∃ rules₁ slot₁ rules₂ slot₂,
      givenRules (big.map Arg.text) .big rules 0 = .ok (rules₁, slot₁) ∧
      givenRules (little.map Arg.text) .little rules₁ slot₁ = .ok (rules₂, slot₂) ∧
      ∀ name : ProcName, classifyByComm rules₂ (some name.comm) =
        (firstPrefix ((ruleTokens big little).filter fitsComm) name).map (·.2) := by
  have hempty : Table [] rules := ⟨fun i hi => absurd hi (by simp), fun i _ => hzero i⟩
  obtain ⟨rules₁, hok₁, htable₁⟩ := table_givenRules .big big hempty (by simp; omega)
  simp only [List.nil_append] at htable₁
  obtain ⟨rules₂, hok₂, htable₂⟩ := table_givenRules .little little htable₁ (by simpa using hfew)
  simp only [List.length_nil, Nat.zero_add] at hok₁
  simp only [List.length_map] at hok₂
  exact ⟨rules₁, _, rules₂, _, hok₁, hok₂, classifyByComm_table htable₂
    (by simpa [ruleTokens] using hfew) (ruleTokens_wf big little)⟩

theorem firstPrefix_short {toks : List (Text × Dom)} {name : ProcName} {tok : Text × Dom}
    (h : firstPrefix toks name = some tok) (hfits : fitsComm tok = true) :
    firstPrefix (toks.filter fitsComm) name = some tok := by
  obtain ⟨hpre, before, behind, rfl, hbefore⟩ := List.find?_eq_some_iff_append.mp h
  rw [firstPrefix, List.find?_filter]
  refine List.find?_eq_some_iff_append.mpr ⟨by simp [hfits, hpre], before, behind, rfl,
    fun a ha => ?_⟩
  simp [hbefore a ha]

theorem firstPrefix_none {toks : List (Text × Dom)} {name : ProcName}
    (h : firstPrefix toks name = none) : firstPrefix (toks.filter fitsComm) name = none := by
  simp only [firstPrefix, List.find?_eq_none] at h ⊢
  exact fun tok htok => h tok (List.mem_of_mem_filter htok)

/-- **When comm rules mean prefixes.** The two lists are loaded, and the domain of a
process is that of the first token that begins its name exactly when this token fits into
`p->comm`, or a later one that fits stands in for it. -/
theorem comm_rules_prefix_iff (big little : Option Arg) (rules : Nat → CommRule)
    (hzero : ∀ i, (rules i).len = 0)
    (hfew : (tokens big).length + (tokens little).length ≤ blsMaxCommRules) :
    ∃ rules₁ slot₁ rules₂ slot₂,
      givenRules (big.map Arg.text) .big rules 0 = .ok (rules₁, slot₁) ∧
      givenRules (little.map Arg.text) .little rules₁ slot₁ = .ok (rules₂, slot₂) ∧
      ∀ name : ProcName, classifyByComm rules₂ (some name.comm) =
          (firstPrefix (ruleTokens big little) name).map (·.2) ↔
        ShortDecides (ruleTokens big little) name := by
  obtain ⟨rules₁, slot₁, rules₂, slot₂, hok₁, hok₂, hclass⟩ := rules_load big little hzero hfew
  refine ⟨rules₁, slot₁, rules₂, slot₂, hok₁, hok₂, fun name => ?_⟩
  rw [hclass]
  cases hall : firstPrefix (ruleTokens big little) name with
  | none => simp [ShortDecides, hall, firstPrefix_none hall]
  | some tok =>
    cases hfits : fitsComm tok with
    | true => simp [ShortDecides, hall, hfits, firstPrefix_short hall hfits]
    | false => simp [ShortDecides, hall, hfits]

-- `.bss` before `main` writes to it
def zeroRules (_ : Nat) : CommRule := ⟨fun _ => 0, 0, .big⟩

def journald : Arg := ⟨"systemd-journald".toList, by simp⟩

theorem comm_rules_prefix_iff_journald : ∃ rules₁ slot₁ rules₂ slot₂,
    givenRules none .big zeroRules 0 = .ok (rules₁, slot₁) ∧
    givenRules (some journald.text) .little rules₁ slot₁ = .ok (rules₂, slot₂) ∧
    ∀ name : ProcName, classifyByComm rules₂ (some name.comm) =
        (firstPrefix (ruleTokens none (some journald)) name).map (·.2) ↔
      ShortDecides (ruleTokens none (some journald)) name :=
  comm_rules_prefix_iff none (some journald) zeroRules (fun _ => rfl) (by decide)

/-- A token of 16 characters does not match the process of that name: the rule goes on to
the terminator of `p->comm`. -/
theorem comm_rules_prefix_fails : ∃ name : ProcName, name.bytes = toBytes journald.text ∧
    firstPrefix (ruleTokens none (some journald)) name = some (journald.text, .little) ∧
    ∃ rules slot, givenRules none .big zeroRules 0 = .ok (zeroRules, 0) ∧
      givenRules (some journald.text) .little zeroRules 0 = .ok (rules, slot) ∧
      classifyByComm rules (some name.comm) = none :=
  ⟨⟨toBytes journald.text, by decide⟩, rfl, by decide, _, _, rfl, rfl, by decide⟩

end FakeBigLittle
