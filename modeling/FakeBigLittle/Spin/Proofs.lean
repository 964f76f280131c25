import FakeBigLittle.Spin.Spec

/-!
# What a load runs on

`parse_cpus` checks that there is a number where one has to be, and nothing else: not what
stands behind an item, not the order of its two ends, and not whether there is room for it.
-/

namespace FakeBigLittle

open CString

namespace Spin

/-! ## Lists of CPUs -/

/-- An item `n` or `n-m`. -/
structure CpuItem where
  lo : Text
  hi : Option Text

def IsNumber (t : Text) : Prop := t ≠ [] ∧ ∀ c ∈ t, c.isDigit = true

def number (t : Text) : Nat := Nat.ofDigitChars 10 t 0

def CpuItem.first (i : CpuItem) : Nat := number i.lo
def CpuItem.last (i : CpuItem) : Nat := number (i.hi.getD i.lo)

structure CpuItem.Wf (i : CpuItem) : Prop where
  lo : IsNumber i.lo
  hi : ∀ t, i.hi = some t → IsNumber t
  le : i.first ≤ i.last

def CpuItem.text (i : CpuItem) : Text :=
  match i.hi with
  | none => i.lo
  | some t => i.lo ++ '-' :: t

def CpuItem.cpus (i : CpuItem) : List Int :=
  (List.range (i.last + 1 - i.first)).map fun k : Nat => ((i.first + k : Nat) : Int)

-- The items with commas between them.
def listText : List CpuItem → Text
  | [] => []
  | [i] => i.text
  | i :: items => i.text ++ ',' :: listText items

/-- `spin` refuses the list, or runs exactly the CPUs that it lists. -/
def RunsWhatIsAsked (s : Text) : Prop :=
  ∀ out, parseCpus s = some out → out = [] ∨
    ∃ items : List CpuItem, items ≠ [] ∧ (∀ i ∈ items, i.Wf) ∧ s = listText items ∧
      out = items.flatMap CpuItem.cpus

/-! ## How a text is read -/

-- `if (*p == ',') p++`
def skipComma : Text → Text
  | ',' :: p => p
  | p => p

/-- The ranges that a text is read as, and whether there was a number for each of them. A
comma behind an item is skipped, and need not be there. -/
inductive ReadsAs : Text → List (Int × Int) → Bool → Prop
  | done : ReadsAs [] [] true
  | stuck {p : Text} (hne : p ≠ []) (h : cpuRange p = none) : ReadsAs p [] false
  | item {p rest : Text} {r : Int × Int} {rs : List (Int × Int)} {ok : Bool}
      (h : cpuRange p = some (r, rest)) (hrest : ReadsAs (skipComma rest) rs ok) :
      ReadsAs p (r :: rs) ok

/-- The ids that a range stands for, as `int`s. -/
def idsOf (r : Int × Int) : List Int :=
  (List.range (r.2 - r.1 + 1).toNat).map fun i : Nat => Int.bmod (r.1 + i) 4294967296

/-- Every range is empty, or a number is missing before 64 CPUs are found. -/
def Refused (s : Text) : Prop :=
  ∃ rs ok, ReadsAs s rs ok ∧
    ((rs.flatMap idsOf).length = 0 ∨ (ok = false ∧ (rs.flatMap idsOf).length < maxThreads))

/-- A proper list of at most 64 CPUs whose ids are `int`s. -/
def Listed (s : Text) : Prop :=
  ∃ items : List CpuItem, items ≠ [] ∧ (∀ i ∈ items, i.Wf) ∧ s = listText items ∧
    (items.flatMap CpuItem.cpus).length ≤ maxThreads ∧ ∀ i ∈ items, i.last < 2147483648

theorem skipComma_length_le (p : Text) : (skipComma p).length ≤ p.length := by
  unfold skipComma
  split <;> simp

theorem cpuRange_length_lt {p rest : Text} {r : Int × Int} (h : cpuRange p = some (r, rest)) :
    rest.length < p.length := by
  unfold cpuRange at h
  split at h
  · simp at h
  · rename_i a q hlo
    obtain ⟨⟨b, t⟩, hhi, heq⟩ := Option.map_eq_some_iff.mp h
    obtain rfl := (Prod.mk.inj heq).2
    have hshort := strtol_length_lt hlo
    have hshorter := strtol_length_lt hhi
    rw [List.length_cons] at hshort
    omega
  · rename_i a t _ hlo
    obtain ⟨-, rfl⟩ := Prod.mk.inj (Option.some.inj h)
    exact strtol_length_lt hlo

/-- Every text is read as something, in no more rounds than it has characters. -/
theorem readsAs_total (p : Text) : ∃ rs ok, ReadsAs p rs ok := by
  induction hn : p.length using Nat.strong_induction_on generalizing p with
  | _ n ih =>
    rcases eq_or_ne p [] with rfl | hne
    · exact ⟨[], true, .done⟩
    · cases h : cpuRange p with
      | none => exact ⟨[], false, .stuck hne h⟩
      | some r =>
        obtain ⟨r, rest⟩ := r
        have hshort := cpuRange_length_lt h
        have hskip := skipComma_length_le rest
        obtain ⟨rs, ok, hrest⟩ := ih _ (by omega) (skipComma rest) rfl
        exact ⟨r :: rs, ok, .item h hrest⟩

/-! ## The loop -/

theorem appendRange_eq (out : List Int) (a b : Int) (hout : out.length ≤ maxThreads) :
    appendRange out a b = (out ++ idsOf (a, b)).take maxThreads := by
  unfold appendRange idsOf
  rw [List.take_append, List.take_of_length_le hout, ← List.map_take, List.take_range]

theorem take_take_append {α : Type} (n : Nat) (l l' : List α) :
    (l.take n ++ l').take n = (l ++ l').take n := by
  rcases Nat.le_total l.length n with hle | hge
  · rw [List.take_of_length_le hle]
  · rw [List.take_append_of_le_length (by rw [List.length_take]; omega),
      List.take_append_of_le_length hge, List.take_take, Nat.min_self]

theorem parseCpusLoop_item {fuel : Nat} {p rest : Text} {out : List Int} {a b : Int}
    (hne : p ≠ []) (hroom : out.length < maxThreads)
    (h : cpuRange p = some ((a, b), rest)) :
    parseCpusLoop (fuel + 1) p out =
      parseCpusLoop fuel (skipComma rest) (appendRange out a b) := by
  obtain ⟨c, cs, rfl⟩ := List.exists_cons_of_ne_nil hne
  rw [parseCpusLoop, if_neg (by omega), h]
  · split
    · rename_i heq
      simp at heq
    · rename_i a' b' rest' heq
      simp only [Option.some.injEq, Prod.mk.injEq] at heq
      obtain ⟨⟨rfl, rfl⟩, rfl⟩ := heq
      rfl
    · rename_i a' b' rest' hno heq
      simp only [Option.some.injEq, Prod.mk.injEq] at heq
      obtain ⟨⟨rfl, rfl⟩, rfl⟩ := heq
      have hskip : skipComma rest = rest := by
        unfold skipComma
        split
        · exact absurd rfl (hno _)
        · rfl
      rw [hskip]
  · simp

/-- With 64 CPUs the loop stops. -/
theorem parseCpusLoop_full {fuel : Nat} {p : Text} {out : List Int}
    (hfull : out.length = maxThreads) : parseCpusLoop fuel p out = some out := by
  cases p with
  | nil => cases fuel <;> rfl
  | cons c p =>
    cases fuel with
    | zero => rfl
    | succ fuel =>
      rw [parseCpusLoop, if_pos (by omega)]
      simp

/-- `parse_cpus` returns the first 64 CPUs of what it reads, and -1 where a number is missing
before that. -/
theorem parseCpusLoop_eq {p : Text} {rs : List (Int × Int)} {ok : Bool} (h : ReadsAs p rs ok)
    {fuel : Nat} (hfuel : p.length ≤ fuel) {out : List Int} (hout : out.length ≤ maxThreads) :
    parseCpusLoop fuel p out =
      if ok = false ∧ out.length + (rs.flatMap idsOf).length < maxThreads then none
      else some ((out ++ rs.flatMap idsOf).take maxThreads) := by
  induction h generalizing fuel out with
  | done => cases fuel <;> simp [parseCpusLoop, List.take_of_length_le hout]
  | stuck hne hstuck =>
    rcases Nat.lt_or_eq_of_le hout with hroom | hfull
    · rename_i p
      obtain ⟨c, cs, rfl⟩ := List.exists_cons_of_ne_nil hne
      obtain ⟨fuel, rfl⟩ : ∃ k, fuel = k + 1 := ⟨fuel - 1, by rw [List.length_cons] at hfuel; omega⟩
      rw [parseCpusLoop, if_neg (by omega), hstuck, if_pos ⟨rfl, by simpa using hroom⟩]
      simp
    · rw [parseCpusLoop_full hfull, if_neg (by simp [hfull]), List.flatMap_nil, List.append_nil,
        List.take_of_length_le hout]
  | item hrange hrest ih =>
    rename_i p rest r rs ok
    rcases Nat.lt_or_eq_of_le hout with hroom | hfull
    · have hshort := cpuRange_length_lt hrange
      have hskip := skipComma_length_le rest
      obtain ⟨fuel, rfl⟩ : ∃ k, fuel = k + 1 := ⟨fuel - 1, by omega⟩
      have hne : p ≠ [] := by
        rintro rfl
        simp at hshort
      rw [parseCpusLoop_item hne hroom hrange, appendRange_eq out r.1 r.2 hout,
        ih (by omega) (by rw [List.length_take]; exact Nat.min_le_left ..), take_take_append,
        List.flatMap_cons, List.append_assoc, List.length_take, List.length_append,
        List.length_append]
      have hiff : min maxThreads (out.length + (idsOf (r.1, r.2)).length) +
            (rs.flatMap idsOf).length < maxThreads ↔
          out.length + ((idsOf r).length + (rs.flatMap idsOf).length) < maxThreads := by
        change min maxThreads (out.length + (idsOf r).length) + _ < _ ↔ _
        omega
      simp only [hiff]
    · rw [parseCpusLoop_full hfull, if_neg (by rw [hfull]; omega),
        List.take_append_of_le_length (by omega), List.take_of_length_le hout]

theorem parseCpus_eq {s : Text} {rs : List (Int × Int)} {ok : Bool} (h : ReadsAs s rs ok) :
    parseCpus s = if ok = false ∧ (rs.flatMap idsOf).length < maxThreads then none
      else some ((rs.flatMap idsOf).take maxThreads) := by
  have hempty : ([] : List Int).length ≤ maxThreads := Nat.zero_le _
  simpa [parseCpus] using parseCpusLoop_eq h (Nat.le_refl _) hempty

/-! ## Proper lists -/

theorem listText_cons (i : CpuItem) (items : List CpuItem) :
    ∃ rest, listText (i :: items) = i.text ++ rest ∧ skipComma rest = listText items ∧
      ∀ c, rest.head? = some c → c = ',' := by
  cases items with
  | nil => exact ⟨[], by simp [listText], rfl, by simp⟩
  | cons j items => exact ⟨',' :: listText (j :: items), rfl, rfl, by simp⟩

theorem cpuRange_item {i : CpuItem} (h : i.Wf) (hsmall : i.last < 2147483648) {rest : Text}
    (hrest : ∀ c, rest.head? = some c → c = ',') :
    cpuRange (i.text ++ rest) = some (((i.first : Int), (i.last : Int)), rest) := by
  have hle := h.le
  have hno : NoDigit rest := by
    intro c hc
    rw [hrest c hc]
    decide
  obtain ⟨lo, hi⟩ := i
  simp only [CpuItem.first, CpuItem.last, number] at hle hsmall ⊢
  cases hi with
  | none =>
    simp only [Option.getD_none] at hle hsmall
    have hmin : min longMax (Nat.ofDigitChars 10 lo 0 : Nat) =
        (Nat.ofDigitChars 10 lo 0 : Nat) := by
      unfold longMax
      omega
    unfold cpuRange CpuItem.text
    simp only [strtol_digits h.lo.1 h.lo.2 hno, hmin, Option.getD_none]
    split
    · rename_i heq
      simp at heq
    · rename_i a q heq
      simp only [Option.some.injEq, Prod.mk.injEq] at heq
      rw [heq.2] at hrest
      exact absurd (hrest '-' rfl) (by decide)
    · rename_i a t _ heq
      simp only [Option.some.injEq, Prod.mk.injEq] at heq
      rw [heq.1, heq.2]
  | some hi =>
    simp only [Option.getD_some] at hle hsmall
    have hhi := h.hi hi rfl
    have hdash : NoDigit ('-' :: (hi ++ rest)) := by
      intro c hc
      obtain rfl : '-' = c := by simpa using hc
      decide
    have hminlo : min longMax (Nat.ofDigitChars 10 lo 0 : Nat) =
        (Nat.ofDigitChars 10 lo 0 : Nat) := by
      unfold longMax
      omega
    have hminhi : min longMax (Nat.ofDigitChars 10 hi 0 : Nat) =
        (Nat.ofDigitChars 10 hi 0 : Nat) := by
      unfold longMax
      omega
    unfold cpuRange CpuItem.text
    simp only [List.append_assoc, List.cons_append, strtol_digits h.lo.1 h.lo.2 hdash,
      strtol_digits hhi.1 hhi.2 hno, hminlo, hminhi, Option.map_some, Option.getD_some]

theorem idsOf_item {i : CpuItem} (h : i.Wf) (hsmall : i.last < 2147483648) :
    idsOf ((i.first : Int), (i.last : Int)) = i.cpus := by
  have hle := h.le
  have hlen : ((i.last : Int) - i.first + 1).toNat = i.last + 1 - i.first := by omega
  unfold idsOf CpuItem.cpus
  simp only [hlen]
  apply List.map_congr_left
  intro k hk
  rw [List.mem_range] at hk
  rw [Int.natCast_add]
  exact Int.bmod_eq_of_le (by omega) (by omega)

theorem readsAs_listText {items : List CpuItem} (hwf : ∀ i ∈ items, i.Wf)
    (hsmall : ∀ i ∈ items, i.last < 2147483648) :
    ReadsAs (listText items) (items.map fun i => ((i.first : Int), (i.last : Int))) true := by
  induction items with
  | nil => exact .done
  | cons i items ih =>
    rw [List.forall_mem_cons] at hwf hsmall
    obtain ⟨rest, htext, hskip, hhead⟩ := listText_cons i items
    rw [htext, List.map_cons]
    refine .item (cpuRange_item hwf.1 hsmall.1 hhead) ?_
    rw [hskip]
    exact ih hwf.2 hsmall.2

theorem flatMap_idsOf {items : List CpuItem} (hwf : ∀ i ∈ items, i.Wf)
    (hsmall : ∀ i ∈ items, i.last < 2147483648) :
    (items.map fun i => ((i.first : Int), (i.last : Int))).flatMap idsOf =
      items.flatMap CpuItem.cpus := by
  rw [List.flatMap_map]
  exact List.flatMap_congr fun i hi => idsOf_item (hwf i hi) (hsmall i hi)

/-! ## What is refused, and what is run -/

theorem refused_iff (s : Text) : Refused s ↔ ∀ out, parseCpus s = some out → out = [] := by
  constructor
  · rintro ⟨rs, ok, hreads, hwhy⟩ out hout
    rw [parseCpus_eq hreads] at hout
    rcases hwhy with hzero | hstuck
    · split_ifs at hout
      · obtain rfl := Option.some.inj hout
        rw [List.length_eq_zero_iff.mp hzero, List.take_nil]
    · rw [if_pos hstuck] at hout
      simp at hout
  · intro h
    obtain ⟨rs, ok, hreads⟩ := readsAs_total s
    have heq := parseCpus_eq hreads
    refine ⟨rs, ok, hreads, ?_⟩
    by_cases hstuck : ok = false ∧ (rs.flatMap idsOf).length < maxThreads
    · exact Or.inr hstuck
    · rw [if_neg hstuck] at heq
      left
      have hnil := congrArg List.length (h _ heq)
      rw [List.length_take, List.length_nil] at hnil
      unfold maxThreads at hnil
      omega

theorem parseCpus_short {s : Text} {out : List Int} (h : parseCpus s = some out) :
    out.length ≤ maxThreads ∧ ∀ x ∈ out, x < 2147483648 := by
  obtain ⟨rs, ok, hreads⟩ := readsAs_total s
  rw [parseCpus_eq hreads] at h
  split_ifs at h
  obtain rfl := Option.some.inj h
  refine ⟨by rw [List.length_take]; exact Nat.min_le_left .., fun x hx => ?_⟩
  obtain ⟨r, -, hr⟩ := List.mem_flatMap.mp (List.mem_of_mem_take hx)
  obtain ⟨i, -, rfl⟩ := List.mem_map.mp hr
  have := Int.bmod_lt (x := r.1 + (i : Int)) (m := 4294967296) (by omega)
  omega

theorem last_mem_cpus {i : CpuItem} (h : i.Wf) : (i.last : Int) ∈ i.cpus := by
  have hle := h.le
  refine List.mem_map.mpr ⟨i.last - i.first, List.mem_range.mpr (by omega), ?_⟩
  omega

/-- **When spin runs what it is asked for.** Exactly for the lists that it refuses, and for
proper lists of at most 64 CPUs whose ids are `int`s. -/
theorem runs_what_is_asked_iff (s : Text) : RunsWhatIsAsked s ↔ Refused s ∨ Listed s := by
  rw [refused_iff]
  constructor
  · intro h
    by_cases hempty : ∀ out, parseCpus s = some out → out = []
    · exact Or.inl hempty
    · right
      push Not at hempty
      obtain ⟨out, hout, hne⟩ := hempty
      obtain ⟨items, hitems, hwf, htext, rfl⟩ := (h out hout).resolve_left hne
      obtain ⟨hshort, hsmall⟩ := parseCpus_short hout
      refine ⟨items, hitems, hwf, htext, hshort, fun i hi => ?_⟩
      have := hsmall _ (List.mem_flatMap.mpr ⟨i, hi, last_mem_cpus (hwf i hi)⟩)
      omega
  · rintro (hempty | ⟨items, hitems, hwf, rfl, hroom, hsmall⟩) out hout
    · exact Or.inl (hempty out hout)
    · right
      rw [parseCpus_eq (readsAs_listText hwf hsmall), if_neg (by simp), flatMap_idsOf hwf hsmall,
        List.take_of_length_le hroom, Option.some.injEq] at hout
      exact ⟨items, hitems, hwf, rfl, hout.symm⟩

/-- A negative id, an empty range in front of another item, and a tail of 36 CPUs. -/
theorem runs_what_is_asked_fails : parseCpus "-1".toList = some [-1] ∧
    ¬ RunsWhatIsAsked "-1".toList ∧ parseCpus "3-1,0".toList = some [0] ∧
    (parseCpus "0-99".toList).map List.length = some 64 := by
  refine ⟨by decide, fun h => ?_, by decide, by decide⟩
  obtain hnil | ⟨items, -, -, -, hout⟩ := h [-1] (by decide)
  · simp at hnil
  · have hmem : (-1 : Int) ∈ items.flatMap CpuItem.cpus := hout ▸ List.mem_singleton_self _
    obtain ⟨i, -, hi⟩ := List.mem_flatMap.mp hmem
    obtain ⟨k, -, hk⟩ := List.mem_map.mp hi
    omega

end Spin

end FakeBigLittle
