import FakeBigLittle.Bench.Spec
import FakeBigLittle.Loader.Options

/-!
# The command line, from the harness to the loader

What `cpulist` prints, `parse_cpulist` of the loader reads back, and the option loop
understands what `e3_one` says.
-/

namespace FakeBigLittle

open CString

namespace Bench

/-! ## The runs that `cpulist` prints -/

/-- The first and the last CPU of each part of `cpulist`. -/
def runsOf (start prev : Nat) : List Nat → List (Nat × Nat)
  | [] => [(start, prev)]
  | c :: cpus =>
    if c = prev + 1 then runsOf start c cpus else (start, prev) :: runsOf c c cpus

def cpusOf (r : Nat × Nat) : List Nat := List.range' r.1 (r.2 + 1 - r.1)

theorem cpulistLoop_eq (start prev : Nat) (cpus : List Nat) :
    cpulistLoop start prev cpus = (runsOf start prev cpus).map fun r => part r.1 r.2 := by
  induction cpus generalizing start prev with
  | nil => rfl
  | cons c cpus ih =>
    unfold cpulistLoop runsOf
    split_ifs
    · exact ih start c
    · rw [List.map_cons, ih c c]

theorem runsOf_le {start prev : Nat} (h : start ≤ prev) (cpus : List Nat) :
    ∀ r ∈ runsOf start prev cpus, r.1 ≤ r.2 := by
  induction cpus generalizing start prev with
  | nil => simpa [runsOf] using h
  | cons c cpus ih =>
    unfold runsOf
    split_ifs with hc
    · exact ih (by omega)
    · intro r hr
      rcases List.mem_cons.mp hr with rfl | hr
      · exact h
      · exact ih (Nat.le_refl c) r hr

/-- The runs hold the CPUs of the list, in its order. -/
theorem flatMap_runsOf {start prev : Nat} (h : start ≤ prev) (cpus : List Nat) :
    (runsOf start prev cpus).flatMap cpusOf = cpusOf (start, prev) ++ cpus := by
  induction cpus generalizing start prev with
  | nil => simp [runsOf]
  | cons c cpus ih =>
    unfold runsOf
    split_ifs with hc
    · have hgrow : cpusOf (start, c) = cpusOf (start, prev) ++ [c] := by
        unfold cpusOf
        have hlen : c + 1 - start = prev + 1 - start + 1 := by omega
        have hlast : start + 1 * (prev + 1 - start) = c := by omega
        rw [hlen, List.range'_concat, hlast]
      rw [ih (by omega), hgrow, List.append_assoc, List.singleton_append]
    · rw [List.flatMap_cons, ih (Nat.le_refl c)]
      simp [cpusOf]

/-! ## Reading a part -/

/-- What stands behind a part: nothing, or a comma. -/
def Behind (rest : Text) : Prop := rest = [] ∨ ∃ s, rest = ',' :: s

theorem Behind.noDigit {rest : Text} (h : Behind rest) : NoDigit rest := by
  rcases h with rfl | ⟨s, rfl⟩ <;> intro c hc
  · simp at hc
  · obtain rfl : ',' = c := by simpa using hc
    decide

theorem cpuRange_part {a b : Nat} {rest : Text} (h : Behind rest) :
    cpuRange (part a b ++ rest) = .ok ((min longMax a, min longMax b), rest) := by
  unfold cpuRange part str
  split_ifs with hab
  · subst hab
    rw [strtol_toDigits a rest h.noDigit]
    rcases h with rfl | ⟨s, rfl⟩ <;> rfl
  · have hdash : NoDigit ('-' :: (Nat.toDigits 10 b ++ rest)) := by
      intro c hc
      obtain rfl : '-' = c := by simpa using hc
      decide
    rw [List.append_assoc, List.cons_append, strtol_toDigits a _ hdash]
    simp only [strtol_toDigits b rest h.noDigit]

theorem part_ne_nil (a b : Nat) : part a b ≠ [] := by
  unfold part str
  split_ifs
  · exact Nat.toDigits_ne_nil
  · simp

/-! ## The round trip -/

/-- `domain` for all of `l`, as the loop over a range writes it. -/
def setDomains (domain : Dom) (l : List Nat) (cpus : Nat → CpuState) : Nat → CpuState :=
  l.foldl (fun cpus c => setDomain cpus c domain) cpus

theorem setDomains_append (d : Dom) (l₁ l₂ : List Nat) (cpus : Nat → CpuState) :
    setDomains d (l₁ ++ l₂) cpus = setDomains d l₂ (setDomains d l₁ cpus) := List.foldl_append

theorem parse_part {a b : Nat} (hab : a ≤ b) {rest : Text} (h : Behind rest) (d : Dom)
    (fuel : Nat) (cpus : Nat → CpuState) :
    parseCpulistLoop d (fuel + 1) (part a b ++ rest) cpus =
      if b < blsMaxCpus then parseCpulistLoop d fuel rest.tail (setDomains d (cpusOf (a, b)) cpus)
      else .error (.outOfRange (min longMax a) (min longMax b)) := by
  obtain ⟨c, cs, hcs⟩ := List.exists_cons_of_ne_nil (part_ne_nil a b)
  rw [hcs, List.cons_append, parseCpulistLoop, ← List.cons_append, ← hcs, cpuRange_part h]
  simp only
  unfold longMax blsMaxCpus
  split_ifs with hbad hb hb
  · omega
  · rfl
  · have ha : (min (2 ^ 63 - 1) (a : Int)).toNat = a := by omega
    have hlen : (min (2 ^ 63 - 1) (b : Int) - min (2 ^ 63 - 1) (a : Int) + 1).toNat =
        b + 1 - a := by omega
    rw [ha, hlen]
    rcases h with rfl | ⟨s, rfl⟩
    · unfold parseCpulistLoop setDomains cpusOf
      rfl
    · rfl
  · omega
  · simp

theorem intercalate_cons (x : Text) (xs : List Text) :
    ∃ rest, Behind rest ∧ [','].intercalate (x :: xs) = x ++ rest ∧
      rest.tail = [','].intercalate xs := by
  cases xs with
  | nil => exact ⟨[], Or.inl rfl, by simp [List.intercalate], by simp [List.intercalate]⟩
  | cons y ys =>
    refine ⟨',' :: [','].intercalate (y :: ys), Or.inr ⟨_, rfl⟩, ?_, rfl⟩
    simp [List.intercalate]

theorem parse_runs {rs : List (Nat × Nat)} (hrs : ∀ r ∈ rs, r.1 ≤ r.2) (d : Dom) (fuel : Nat)
    (hfuel : ([','].intercalate (rs.map fun r => part r.1 r.2)).length ≤ fuel)
    (cpus : Nat → CpuState) :
    ((∀ r ∈ rs, r.2 < blsMaxCpus) →
      parseCpulistLoop d fuel ([','].intercalate (rs.map fun r => part r.1 r.2)) cpus =
        .ok (setDomains d (rs.flatMap cpusOf) cpus)) ∧
    ((∃ r ∈ rs, blsMaxCpus ≤ r.2) →
      ∃ e, parseCpulistLoop d fuel ([','].intercalate (rs.map fun r => part r.1 r.2)) cpus =
        .error e) := by
  induction rs generalizing fuel cpus with
  | nil => cases fuel <;> simp [List.intercalate, parseCpulistLoop, setDomains]
  | cons r rs ih =>
    obtain ⟨rest, hbehind, htext, htail⟩ :=
      intercalate_cons (part r.1 r.2) (rs.map fun r => part r.1 r.2)
    have hne := List.length_pos_iff.mpr (part_ne_nil r.1 r.2)
    rw [List.map_cons, htext] at hfuel ⊢
    rw [List.length_append] at hfuel
    obtain ⟨fuel, rfl⟩ : ∃ k, fuel = k + 1 := ⟨fuel - 1, by omega⟩
    have hshort : rest.tail.length ≤ fuel := by
      rw [List.length_tail]
      omega
    have hle := hrs r List.mem_cons_self
    rw [parse_part hle hbehind, htail]
    have hrest := ih (fun x hx => hrs x (List.mem_cons_of_mem _ hx)) fuel (htail ▸ hshort)
      (setDomains d (cpusOf r) cpus)
    constructor
    · intro hsmall
      rw [if_pos (hsmall r List.mem_cons_self)]
      rw [hrest.1 fun x hx => hsmall x (List.mem_cons_of_mem _ hx)]
      rw [List.flatMap_cons, setDomains_append]
    · rintro ⟨x, hx, hbig⟩
      split_ifs with hb
      · refine hrest.2 ⟨x, ?_, hbig⟩
        rcases List.mem_cons.mp hx with rfl | hx
        · omega
        · exact hx
      · exact ⟨_, rfl⟩

theorem runsOf_flatMap (c : Nat) (cpus : List Nat) :
    (runsOf c c cpus).flatMap cpusOf = c :: cpus := by
  rw [flatMap_runsOf (Nat.le_refl c)]
  simp [cpusOf]

theorem runsOf_lt_iff (c : Nat) (cpus : List Nat) :
    (∀ r ∈ runsOf c c cpus, r.2 < blsMaxCpus) ↔ ∀ x ∈ c :: cpus, x < blsMaxCpus := by
  rw [← runsOf_flatMap c cpus]
  constructor
  · intro h x hx
    obtain ⟨r, hr, hxr⟩ := List.mem_flatMap.mp hx
    have := h r hr
    unfold cpusOf at hxr
    rw [List.mem_range'_1] at hxr
    omega
  · intro h r hr
    have hle := runsOf_le (Nat.le_refl c) cpus r hr
    apply h r.2 (List.mem_flatMap.mpr ⟨r, hr, _⟩)
    unfold cpusOf
    rw [List.mem_range'_1]
    omega

/-- **The loader reads what the harness prints.** A list of CPUs that the loader has room for
arrives as it is, in any order and with repetitions. -/
theorem parse_cpulist (xs : List Nat) (h : ∀ x ∈ xs, x < blsMaxCpus) (d : Dom)
    (cpus : Nat → CpuState) :
    FakeBigLittle.parseCpulist (cpulist xs) d cpus = .ok (setDomains d xs cpus) := by
  cases xs with
  | nil => rfl
  | cons c cs =>
    have hread := (parse_runs (runsOf_le (Nat.le_refl c) cs) d _ (Nat.le_refl _) cpus).1
      ((runsOf_lt_iff c cs).mpr h)
    rw [runsOf_flatMap, ← cpulistLoop_eq] at hread
    exact hread

/-- A list with a CPU that the loader has no room for is refused. -/
theorem parse_cpulist_refuses (xs : List Nat) (h : ∃ x ∈ xs, blsMaxCpus ≤ x) (d : Dom)
    (cpus : Nat → CpuState) :
    ∃ e, FakeBigLittle.parseCpulist (cpulist xs) d cpus = .error e := by
  cases xs with
  | nil => simp at h
  | cons c cs =>
    have hread := (parse_runs (runsOf_le (Nat.le_refl c) cs) d _ (Nat.le_refl _) cpus).2
    rw [← cpulistLoop_eq] at hread
    apply hread
    by_contra hno
    have hsmall : ∀ r ∈ runsOf c c cs, r.2 < blsMaxCpus := by
      intro r hr
      by_contra hr'
      exact hno ⟨r, hr, by omega⟩
    obtain ⟨x, hx, hbig⟩ := h
    have := (runsOf_lt_iff c cs).mp hsmall x hx
    omega

/-- The CPU table behind a list. -/
theorem setDomains_apply (d : Dom) (xs : List Nat) (cpus : Nat → CpuState) (cpu : Nat) :
    setDomains d xs cpus cpu =
      if cpu ∈ xs then { cpus cpu with domain := d } else cpus cpu := by
  induction xs generalizing cpus with
  | nil => simp [setDomains]
  | cons x xs ih =>
    have hcons : setDomains d (x :: xs) cpus = setDomains d xs (setDomain cpus x d) := rfl
    rw [hcons, ih]
    rcases eq_or_ne cpu x with rfl | hne
    · simp [setDomain]
    · simp [setDomain, hne]

theorem setDomains_domain (d : Dom) (xs : List Nat) (cpus : Nat → CpuState) (cpu : Nat) :
    (setDomains d xs cpus cpu).domain = if cpu ∈ xs then d else (cpus cpu).domain := by
  rw [setDomains_apply]
  split_ifs <;> rfl

/-! ## The options of the scheduler that `e3_one` starts -/

def blsOptions (b : Bench) (factors : Factors) : Options where
  bigList := some (cpulist b.big)
  littleList := some (cpulist b.little)
  noEpp := true
  strict := factors.strict
  persist := true
  mode := .hybrid

theorem blsArgs_options (b : Bench) (factors : Factors) (positive : Text → Bool) :
    optionLoop positive (b.blsArgs factors) {} = .ok (b.blsOptions factors) := by
  have hpersist : findOpt "persist".toList = some (false, .persist) := by decide
  have hnoEpp : findOpt "no-epp".toList = some (false, .noEpp) := by decide
  have hbig : findOpt "big".toList = some (true, .bigList) := by decide
  have hlittle : findOpt "little".toList = some (true, .littleList) := by decide
  have hmode : findOpt "mode".toList = some (true, .mode) := by decide
  have hstrict : findOpt "strict".toList = some (false, .strict) := by decide
  have hhybrid : modeFromName "hybrid".toList = .ok .hybrid := by decide
  unfold blsArgs
  rw [show "--persist".toList = '-' :: '-' :: "persist".toList by decide,
    show "--no-epp".toList = '-' :: '-' :: "no-epp".toList by decide,
    show "--big".toList = '-' :: '-' :: "big".toList by decide,
    show "--little".toList = '-' :: '-' :: "little".toList by decide,
    show "--mode".toList = '-' :: '-' :: "mode".toList by decide,
    show "--strict".toList = '-' :: '-' :: "strict".toList by decide]
  simp only [List.cons_append, List.nil_append]
  rw [optionLoop_flag (by decide) (by decide) hpersist rfl,
    optionLoop_flag (by decide) (by decide) hnoEpp rfl,
    optionLoop_arg (by decide) (by decide) hbig rfl,
    optionLoop_arg (by decide) (by decide) hlittle rfl,
    optionLoop_arg (by decide) (by decide) hmode (by simp only [setOption, hhybrid]; rfl)]
  cases hf : factors.strict with
  | false => simp [optionLoop, blsOptions, hf]
  | true =>
    rw [if_pos rfl, optionLoop_flag (by decide) (by decide) hstrict rfl]
    simp [optionLoop, blsOptions, hf]

end Bench

end FakeBigLittle
