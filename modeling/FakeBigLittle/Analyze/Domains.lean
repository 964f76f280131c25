import FakeBigLittle.Analyze.Percentile
import FakeBigLittle.Analyze.Wording
import Mathlib

/-!
# The domains of a run

What `flatten_run` makes of the arrays of a run, and what `frequency_divergence` says about them.
A run is partitioned when its EPPs differ, but a CPU is in a domain by the side of 128.
-/

namespace FakeBigLittle

open CString

namespace Analyze

/-! ## The split -/

def eppBigMax : Int := 128
def smtStride : Nat := 4

-- `vals` of `split_domains`
def known (epp : List (Option ℚ)) : List (Nat × Int) :=
  epp.zipIdx.filterMap fun p => p.1.map fun e => (p.2, truncate e)

structure Domains where
  big : List Nat
  little : List Nat
  partitioned : Bool
  deriving DecidableEq

def splitDomains (epp : List (Option ℚ)) : Domains :=
  let vals := known epp
  if vals = [] then ⟨List.range nCpus, [], false⟩
  else if (vals.map Prod.snd).toFinset.card ≤ 1 then ⟨vals.map Prod.fst, [], false⟩
  else
    ⟨(vals.filter fun v => v.2 < eppBigMax).map Prod.fst,
      (vals.filter fun v => eppBigMax ≤ v.2).map Prod.fst, true⟩

-- `sib_split` of `flatten_run`
def smtPairsSplit (epp : List (Option ℚ)) : Nat :=
  (List.range smtStride).countP fun i =>
    match epp.getD i none, epp.getD (i + smtStride) none with
    | some e, some f => decide (e < eppBigMax) != decide (f < eppBigMax)
    | _, _ => false

/-! ## The columns -/

/-- The per-CPU arrays of `energy`, by `num`. One that is missing is empty. -/
structure Arrays where
  avgMhz : List (Option ℚ)
  bzyMhz : List (Option ℚ)
  busy : List (Option ℚ)
  epp : List (Option ℚ)

-- `_arr`
def arr (v : List (Option ℚ)) : List (Option ℚ) :=
  v.take nCpus ++ List.replicate (nCpus - (v.take nCpus).length) none

/-- `clean(bzy_mhz[i] for i in cpus)` -/
def readings (bzyMhz : List (Option ℚ)) (cpus : List Nat) : List ℚ :=
  cpus.filterMap fun i => bzyMhz.getD i none

def ratioOf (little big : Option ℚ) : Option ℚ :=
  match big, little with
  | some b, some l => if b = 0 then none else some (l / b)
  | _, _ => none

def frequencyColumns (a : Arrays) : List (Text × Option ℚ) :=
  let d := splitDomains (arr a.epp)
  let big := mean (readings (arr a.bzyMhz) d.big)
  let little := mean (readings (arr a.bzyMhz) d.little)
  [("n_big_cpus".toList, some (d.big.length : ℚ)),
    ("n_little_cpus".toList, some (d.little.length : ℚ)),
    ("bzy_mhz_big_mean".toList, big), ("bzy_mhz_little_mean".toList, little),
    ("bzy_ratio_little_over_big".toList, ratioOf little big)] ++
    (List.range nCpus).flatMap fun i =>
      [(cpuColumn i "_avg_mhz", (arr a.avgMhz).getD i none),
        (cpuColumn i "_bzy_mhz", (arr a.bzyMhz).getD i none),
        (cpuColumn i "_busy", (arr a.busy).getD i none),
        (cpuColumn i "_epp", (arr a.epp).getD i none)]

/-- A row of `flatten_run`, from the arrays and the other columns. -/
def flattenArrays (a : Arrays) (r : Row) : Row :=
  { r with
    partitionedEpp := (splitDomains (arr a.epp)).partitioned
    smtPairsSplit := smtPairsSplit (arr a.epp)
    col := fun column => ((frequencyColumns a).lookup column).getD (r.col column) }

/-! ## The sides -/

section Sides

variable {epp : List (Option ℚ)}

def Known (epp : List (Option ℚ)) (i : Nat) (e : ℚ) : Prop := epp[i]? = some (some e)

/-- One EPP everywhere. -/
def Uniform (epp : List (Option ℚ)) : Prop :=
  ∀ i j e f, Known epp i e → Known epp j f → truncate e = truncate f

/-- EPPs on both sides of 128. -/
def BothSides (epp : List (Option ℚ)) : Prop :=
  (∃ i e, Known epp i e ∧ e < eppBigMax) ∧ ∃ i e, Known epp i e ∧ eppBigMax ≤ e

theorem truncate_lt (e : ℚ) : truncate e < eppBigMax ↔ e < eppBigMax := by
  unfold truncate eppBigMax
  split_ifs with hsign
  · exact Int.floor_lt
  · have hceil : ⌈e⌉ ≤ 0 := Int.ceil_le.mpr (by simpa using (not_le.mp hsign).le)
    have hneg := not_le.mp hsign
    constructor
    · intro h
      norm_num
      linarith
    · intro h
      omega

theorem le_truncate (e : ℚ) : eppBigMax ≤ truncate e ↔ (eppBigMax : ℚ) ≤ e := by
  rw [← not_lt, ← not_lt, truncate_lt]

theorem mem_known {i : Nat} {v : Int} :
    (i, v) ∈ known epp ↔ ∃ e, Known epp i e ∧ truncate e = v := by
  unfold known Known
  rw [List.mem_filterMap]
  constructor
  · rintro ⟨⟨e, j⟩, hmem, heq⟩
    obtain ⟨e', rfl, hpair⟩ := Option.map_eq_some_iff.mp heq
    obtain ⟨rfl, rfl⟩ := Prod.mk.inj hpair
    exact ⟨e', List.mem_zipIdx_iff_getElem?.mp hmem, rfl⟩
  · rintro ⟨e, hget, rfl⟩
    exact ⟨(some e, i), List.mem_zipIdx_iff_getElem?.mpr hget, rfl⟩

theorem card_le_one_iff : ((known epp).map Prod.snd).toFinset.card ≤ 1 ↔ Uniform epp := by
  rw [Finset.card_le_one]
  simp only [List.mem_toFinset, List.mem_map, Prod.exists, exists_eq_right, mem_known]
  constructor
  · intro h i j e f he hf
    exact h _ ⟨i, e, he, rfl⟩ _ ⟨j, f, hf, rfl⟩
  · rintro h v ⟨i, e, he, rfl⟩ w ⟨j, f, hf, rfl⟩
    exact h i j e f he hf

theorem not_uniform_of_bothSides (h : BothSides epp) : ¬Uniform epp := by
  obtain ⟨⟨i, e, he, hlow⟩, j, f, hf, hhigh⟩ := h
  intro huniform
  have hless := (truncate_lt e).mpr hlow
  rw [huniform i j e f he hf] at hless
  exact absurd hless (not_lt.mpr ((le_truncate f).mpr hhigh))

/-! ## What is split -/

theorem splitDomains_uniform (h : Uniform epp) :
    splitDomains epp =
      ⟨if known epp = [] then List.range nCpus else (known epp).map Prod.fst, [], false⟩ := by
  unfold splitDomains
  simp only [if_pos (card_le_one_iff.mpr h)]
  split_ifs <;> rfl

theorem splitDomains_distinct (h : ¬Uniform epp) :
    splitDomains epp =
      ⟨((known epp).filter fun v => v.2 < eppBigMax).map Prod.fst,
        ((known epp).filter fun v => eppBigMax ≤ v.2).map Prod.fst, true⟩ := by
  have hne : known epp ≠ [] := by
    intro hempty
    apply h
    intro i j e f he hf
    have hmem := mem_known.mpr ⟨e, he, rfl⟩
    rw [hempty] at hmem
    simp at hmem
  unfold splitDomains
  simp only [if_neg (mt card_le_one_iff.mp h), if_neg hne]

theorem mem_big_iff (h : ¬Uniform epp) (i : Nat) :
    i ∈ (splitDomains epp).big ↔ ∃ e, Known epp i e ∧ e < eppBigMax := by
  rw [splitDomains_distinct h]
  simp only [List.mem_map, List.mem_filter, Prod.exists, exists_and_right, exists_eq_right,
    mem_known, decide_eq_true_eq]
  constructor
  · rintro ⟨v, ⟨e, he, rfl⟩, hlow⟩
    exact ⟨e, he, (truncate_lt e).mp hlow⟩
  · rintro ⟨e, he, hlow⟩
    exact ⟨_, ⟨e, he, rfl⟩, (truncate_lt e).mpr hlow⟩

theorem mem_little_iff (h : ¬Uniform epp) (i : Nat) :
    i ∈ (splitDomains epp).little ↔ ∃ e, Known epp i e ∧ eppBigMax ≤ e := by
  rw [splitDomains_distinct h]
  simp only [List.mem_map, List.mem_filter, Prod.exists, exists_and_right, exists_eq_right,
    mem_known, decide_eq_true_eq]
  constructor
  · rintro ⟨v, ⟨e, he, rfl⟩, hhigh⟩
    exact ⟨e, he, (le_truncate e).mp hhigh⟩
  · rintro ⟨e, he, hhigh⟩
    exact ⟨_, ⟨e, he, rfl⟩, (le_truncate e).mpr hhigh⟩

theorem partitioned_iff : (splitDomains epp).partitioned = true ↔ ¬Uniform epp := by
  by_cases h : Uniform epp
  · simp [splitDomains_uniform h, h]
  · simp [splitDomains_distinct h, h]

theorem Known.unique {i : Nat} {e f : ℚ} (he : Known epp i e) (hf : Known epp i f) : e = f := by
  unfold Known at he hf
  rw [he] at hf
  exact Option.some.inj (Option.some.inj hf)

theorem split_disjoint {i : Nat} (h : i ∈ (splitDomains epp).big) :
    i ∉ (splitDomains epp).little := by
  by_cases huniform : Uniform epp
  · rw [splitDomains_uniform huniform]
    simp
  · rw [mem_big_iff huniform] at h
    rw [mem_little_iff huniform]
    rintro ⟨f, hf, hhigh⟩
    obtain ⟨e, he, hlow⟩ := h
    rw [he.unique hf] at hlow
    exact absurd hlow (not_lt.mpr hhigh)

/-- The CPUs that a run knows, or all of them. -/
def InRun (epp : List (Option ℚ)) (i : Nat) : Prop :=
  (∃ e, Known epp i e) ∨ (∀ j e, ¬Known epp j e) ∧ i < nCpus

theorem split_union (i : Nat) :
    i ∈ (splitDomains epp).big ∨ i ∈ (splitDomains epp).little ↔ InRun epp i := by
  unfold InRun
  by_cases huniform : Uniform epp
  · rw [splitDomains_uniform huniform]
    by_cases hempty : known epp = []
    · have hnone : ∀ j e, ¬Known epp j e := by
        intro j e he
        have hmem := mem_known.mpr ⟨e, he, rfl⟩
        rw [hempty] at hmem
        simp at hmem
      simp [hempty, hnone]
    · obtain ⟨⟨j, v⟩, hmem⟩ := List.exists_mem_of_ne_nil _ hempty
      obtain ⟨f, hf, -⟩ := mem_known.mp hmem
      have hsome : ¬∀ j e, ¬Known epp j e := fun h => h j f hf
      simp [hempty, hsome, mem_known]
  · rw [mem_big_iff huniform, mem_little_iff huniform]
    constructor
    · rintro (⟨e, he, -⟩ | ⟨e, he, -⟩)
      · exact Or.inl ⟨e, he⟩
      · exact Or.inl ⟨e, he⟩
    · rintro (⟨e, he⟩ | ⟨hnone, -⟩)
      · rcases lt_or_ge e eppBigMax with hlow | hhigh
        · exact Or.inl ⟨e, he, hlow⟩
        · exact Or.inr ⟨e, he, hhigh⟩
      · exact absurd (fun i j e f he _ => absurd he (hnone i e)) huniform

/-- A run with one EPP is big throughout. -/
theorem mem_big (i : Nat) :
    i ∈ (splitDomains epp).big ↔
      (∃ e, Known epp i e ∧ e < eppBigMax) ∨ Uniform epp ∧ InRun epp i := by
  by_cases huniform : Uniform epp
  · rw [← split_union, splitDomains_uniform huniform]
    simp only [huniform, true_and, List.not_mem_nil, or_false, iff_or_self]
    rintro ⟨e, he, -⟩
    have hmem := mem_known.mpr ⟨e, he, rfl⟩
    rw [if_neg (List.ne_nil_of_mem hmem)]
    exact List.mem_map_of_mem hmem
  · rw [mem_big_iff huniform]
    simp [huniform]

theorem mem_little (i : Nat) :
    i ∈ (splitDomains epp).little ↔
      (∃ e, Known epp i e ∧ eppBigMax ≤ e) ∧ ¬Uniform epp := by
  by_cases huniform : Uniform epp
  · rw [splitDomains_uniform huniform]
    simp [huniform]
  · rw [mem_little_iff huniform]
    simp [huniform]

/-- A pair of siblings with a CPU in each domain. -/
def Split (epp : List (Option ℚ)) (i : Nat) : Prop :=
  (i ∈ (splitDomains epp).big ∧ i + smtStride ∈ (splitDomains epp).little) ∨
    (i ∈ (splitDomains epp).little ∧ i + smtStride ∈ (splitDomains epp).big)

instance (i : Nat) : Decidable (Split epp i) := by
  unfold Split
  infer_instance

theorem getD_eq_some_iff {i : Nat} {e : ℚ} : epp.getD i none = some e ↔ Known epp i e := by
  unfold Known
  rw [List.getD_eq_getElem?_getD]
  cases epp[i]? with
  | none => simp
  | some v => simp

theorem Split.known {i : Nat} (h : Split epp i) :
    (∃ e, Known epp i e) ∧ ∃ f, Known epp (i + smtStride) f := by
  unfold Split at h
  by_cases huniform : Uniform epp
  · rw [splitDomains_uniform huniform] at h
    simp at h
  · simp only [mem_big_iff huniform, mem_little_iff huniform] at h
    rcases h with ⟨⟨e, he, -⟩, f, hf, -⟩ | ⟨⟨e, he, -⟩, f, hf, -⟩
    · exact ⟨⟨e, he⟩, f, hf⟩
    · exact ⟨⟨e, he⟩, f, hf⟩

theorem split_iff {i : Nat} {e f : ℚ} (he : Known epp i e) (hf : Known epp (i + smtStride) f) :
    (decide (e < eppBigMax) != decide (f < eppBigMax)) = true ↔ Split epp i := by
  unfold Split
  by_cases huniform : Uniform epp
  · have hsame := huniform i (i + smtStride) e f he hf
    simp only [← truncate_lt, hsame, bne_self_eq_false, splitDomains_uniform huniform]
    simp
  · have hbig : ∀ j g, Known epp j g → (j ∈ (splitDomains epp).big ↔ g < eppBigMax) := by
      intro j g hg
      rw [mem_big_iff huniform]
      constructor
      · rintro ⟨g', hg', hlow⟩
        rwa [hg.unique hg']
      · intro hlow
        exact ⟨g, hg, hlow⟩
    have hlittle : ∀ j g, Known epp j g → (j ∈ (splitDomains epp).little ↔ ¬g < eppBigMax) := by
      intro j g hg
      rw [mem_little_iff huniform, not_lt]
      constructor
      · rintro ⟨g', hg', hhigh⟩
        rwa [hg.unique hg']
      · intro hhigh
        exact ⟨g, hg, hhigh⟩
    rw [hbig i e he, hlittle i e he, hbig _ f hf, hlittle _ f hf, bne_iff_ne, ne_eq,
      decide_eq_decide]
    tauto

/-- The third time that the membership is computed, it is the same. -/
theorem smtPairsSplit_eq (epp : List (Option ℚ)) :
    smtPairsSplit epp = (List.range smtStride).countP fun i => Split epp i := by
  unfold smtPairsSplit
  apply List.countP_congr
  intro i hi
  rw [decide_eq_true_eq]
  cases he : epp.getD i none with
  | none =>
    have hnot : ¬Split epp i := by
      intro h
      obtain ⟨e, hknown⟩ := h.known.1
      rw [getD_eq_some_iff.mpr hknown] at he
      simp at he
    simp [hnot]
  | some e =>
    cases hf : epp.getD (i + smtStride) none with
    | none =>
      have hnot : ¬Split epp i := by
        intro h
        obtain ⟨f, hknown⟩ := h.known.2
        rw [getD_eq_some_iff.mpr hknown] at hf
        simp at hf
      simp [hnot]
    | some f => exact split_iff (getD_eq_some_iff.mp he) (getD_eq_some_iff.mp hf)

/-! ## A genuine partition -/

/-- The two domains share no CPU and are the run, both are there when it is partitioned, and the
pairs are those that they split. -/
structure Recovered (epp : List (Option ℚ)) : Prop where
  disjoint : ∀ i ∈ (splitDomains epp).big, i ∉ (splitDomains epp).little
  union : ∀ i, i ∈ (splitDomains epp).big ∨ i ∈ (splitDomains epp).little ↔ InRun epp i
  genuine : (splitDomains epp).partitioned = true →
    (splitDomains epp).big ≠ [] ∧ (splitDomains epp).little ≠ []
  pairs : smtPairsSplit epp = (List.range smtStride).countP fun i => Split epp i

theorem ne_nil_iff_exists {xs : List Nat} : xs ≠ [] ↔ ∃ i, i ∈ xs := by
  constructor
  · exact List.exists_mem_of_ne_nil xs
  · rintro ⟨i, hi⟩
    exact List.ne_nil_of_mem hi

theorem genuine_iff (h : ¬Uniform epp) :
    (splitDomains epp).big ≠ [] ∧ (splitDomains epp).little ≠ [] ↔ BothSides epp := by
  simp only [ne_nil_iff_exists, mem_big_iff h, mem_little_iff h]
  rfl

theorem recovered_iff : Recovered epp ↔ Uniform epp ∨ BothSides epp := by
  constructor
  · intro h
    by_cases huniform : Uniform epp
    · exact Or.inl huniform
    · exact Or.inr ((genuine_iff huniform).mp (h.genuine (partitioned_iff.mpr huniform)))
  · intro h
    constructor
    · exact fun i hi => split_disjoint hi
    · exact split_union
    · intro hpartitioned
      have hdistinct := partitioned_iff.mp hpartitioned
      exact (genuine_iff hdistinct).mpr (h.resolve_left hdistinct)
    · exact smtPairsSplit_eq epp

end Sides

/-! ## The readings -/

section Readings

/-- The readings of the CPUs on one side of 128. -/
def sideReadings (below : Bool) (a : Arrays) : List ℚ :=
  (arr a.epp).zipIdx.filterMap fun p => p.1.bind fun e =>
    if decide (e < eppBigMax) = below then (arr a.bzyMhz).getD p.2 none else none

def BothRead (a : Arrays) : Prop := sideReadings true a ≠ [] ∧ sideReadings false a ≠ []

def bigReadings (a : Arrays) : List ℚ := readings (arr a.bzyMhz) (splitDomains (arr a.epp)).big

def littleReadings (a : Arrays) : List ℚ :=
  readings (arr a.bzyMhz) (splitDomains (arr a.epp)).little

/-- A reading of a CPU below 128, or of any CPU of a run that is not split. -/
def BigRead (a : Arrays) : Prop :=
  ∃ i f, Known (arr a.bzyMhz) i f ∧
    ((∃ e, Known (arr a.epp) i e ∧ e < eppBigMax) ∨ Uniform (arr a.epp) ∧ InRun (arr a.epp) i)

/-- A reading of a CPU from 128 on, in a run that is split. -/
def LittleRead (a : Arrays) : Prop :=
  ∃ i f, Known (arr a.bzyMhz) i f ∧
    (∃ e, Known (arr a.epp) i e ∧ eppBigMax ≤ e) ∧ ¬Uniform (arr a.epp)

variable {a : Arrays}

theorem readings_ne_nil (bzyMhz : List (Option ℚ)) (cpus : List Nat) :
    readings bzyMhz cpus ≠ [] ↔ ∃ i f, Known bzyMhz i f ∧ i ∈ cpus := by
  constructor
  · intro h
    obtain ⟨f, hf⟩ := List.exists_mem_of_ne_nil _ h
    obtain ⟨i, hi, hread⟩ := List.mem_filterMap.mp hf
    exact ⟨i, f, getD_eq_some_iff.mp hread, hi⟩
  · rintro ⟨i, f, hf, hi⟩
    exact List.ne_nil_of_mem (List.mem_filterMap.mpr ⟨i, hi, getD_eq_some_iff.mpr hf⟩)

theorem bigReadings_ne_nil (a : Arrays) : bigReadings a ≠ [] ↔ BigRead a := by
  unfold bigReadings BigRead
  simp only [readings_ne_nil, mem_big]

theorem littleReadings_ne_nil (a : Arrays) : littleReadings a ≠ [] ↔ LittleRead a := by
  unfold littleReadings LittleRead
  simp only [readings_ne_nil, mem_little]

theorem filterMap_side (side : Int → Bool) (g : Nat → Option ℚ) (l : List (Option ℚ × Nat)) :
    (((l.filterMap fun p => p.1.map fun e => (p.2, truncate e)).filter fun v =>
        side v.2).map Prod.fst).filterMap g =
      l.filterMap fun p => p.1.bind fun e => if side (truncate e) then g p.2 else none := by
  induction l with
  | nil => rfl
  | cons p l ih =>
    rcases p with ⟨_ | e, i⟩
    · simpa using ih
    · cases hside : side (truncate e) with
      | false => simpa [hside] using ih
      | true =>
        cases hread : g i with
        | none => simpa [hside, hread] using ih
        | some f => simpa [hside, hread] using ih

theorem readings_distinct (h : ¬Uniform (arr a.epp)) :
    bigReadings a = sideReadings true a ∧ littleReadings a = sideReadings false a := by
  unfold bigReadings littleReadings readings sideReadings
  rw [splitDomains_distinct h]
  unfold known
  constructor
  · rw [filterMap_side fun v => v < eppBigMax]
    simp only [truncate_lt, decide_eq_true_eq]
  · rw [filterMap_side fun v => eppBigMax ≤ v]
    simp only [le_truncate, decide_eq_true_eq, decide_eq_false_iff_not, not_lt]

theorem exists_known_of_sideReadings {below : Bool} (h : sideReadings below a ≠ []) :
    ∃ i e, Known (arr a.epp) i e ∧ decide (e < eppBigMax) = below := by
  obtain ⟨f, hf⟩ := List.exists_mem_of_ne_nil _ h
  obtain ⟨⟨e, i⟩, hmem, hread⟩ := List.mem_filterMap.mp hf
  obtain ⟨e', rfl, hside⟩ := Option.bind_eq_some_iff.mp hread
  refine ⟨i, e', List.mem_zipIdx_iff_getElem?.mp hmem, ?_⟩
  by_contra hother
  rw [if_neg hother] at hside
  exact Option.some_ne_none _ hside.symm

theorem not_bothRead_of_uniform (h : Uniform (arr a.epp)) : ¬BothRead a := by
  rintro ⟨hbig, hlittle⟩
  obtain ⟨i, e, he, hlow⟩ := exists_known_of_sideReadings hbig
  obtain ⟨j, f, hf, hhigh⟩ := exists_known_of_sideReadings hlittle
  rw [decide_eq_true_eq] at hlow
  rw [decide_eq_false_iff_not, not_lt] at hhigh
  exact not_uniform_of_bothSides ⟨⟨i, e, he, hlow⟩, j, f, hf, hhigh⟩ h

/-- Readings in both domains are readings on both sides. -/
theorem readings_iff (a : Arrays) :
    bigReadings a ≠ [] ∧ littleReadings a ≠ [] ↔ BothRead a := by
  by_cases h : Uniform (arr a.epp)
  · refine iff_of_false ?_ (not_bothRead_of_uniform h)
    rintro ⟨-, hlittle⟩
    apply hlittle
    unfold littleReadings
    rw [splitDomains_uniform h]
    rfl
  · obtain ⟨hbig, hlittle⟩ := readings_distinct h
    rw [hbig, hlittle]
    rfl

theorem bigReadings_eq (h : BothRead a) : bigReadings a = sideReadings true a :=
  (readings_distinct fun huniform => not_bothRead_of_uniform huniform h).1

theorem ratioOf_eq_none_iff (bs ls : List ℚ) :
    ratioOf (mean ls) (mean bs) = none ↔ ¬(bs ≠ [] ∧ ls ≠ [] ∧ bs.sum ≠ 0) := by
  unfold ratioOf mean
  by_cases hb : bs = []
  · simp [hb]
  · by_cases hl : ls = []
    · simp [hb, hl]
    · have hlength : (bs.length : ℚ) ≠ 0 := by
        exact_mod_cast (List.length_pos_of_ne_nil hb).ne'
      have hzero : bs.sum / bs.length = 0 ↔ bs.sum = 0 := by simp [hlength]
      simp only [if_neg hb, if_neg hl, hzero]
      by_cases hsum : bs.sum = 0
      · simp [hsum]
      · simp [hb, hl, hsum]

end Readings

/-! ## The verdict of an arm -/

section Verdict

variable (m : Math ℚ) (rng : Random ℚ) (seed : Int) (arm : Text)

def noData : Text := "no per-CPU frequency data".toList

/-- A run is its arrays, and the row with the other columns. -/
def armRecord (runs : List (Arrays × Row)) : FrequencyRecord :=
  frequencyRecord m rng seed arm (runs.map fun run => flattenArrays run.1 run.2)

/-- That there is no data is only said where one of the domains has no reading in any run. -/
def SaysTruly (runs : List (Arrays × Row)) : Prop :=
  (armRecord m rng seed arm runs).partitionedEpp = true →
    noData <+: (armRecord m rng seed arm runs).verdict →
    (∀ run ∈ runs, bigReadings run.1 = []) ∨ ∀ run ∈ runs, littleReadings run.1 = []

theorem flattenArrays_ratio (a : Arrays) (r : Row) :
    (flattenArrays a r).col "bzy_ratio_little_over_big".toList =
      ratioOf (mean (littleReadings a)) (mean (bigReadings a)) := by
  unfold flattenArrays frequencyColumns bigReadings littleReadings
  simp [List.lookup]

theorem ratio_eq_none_iff (runs : List (Arrays × Row)) :
    (armRecord m rng seed arm runs).ratioLittleOverBig = none ↔
      ∀ run ∈ runs, ¬(bigReadings run.1 ≠ [] ∧ littleReadings run.1 ≠ [] ∧
        (bigReadings run.1).sum ≠ 0) := by
  unfold armRecord frequencyRecord mean valuesOf
  simp only [ite_eq_left_iff, reduceCtorEq, imp_false, not_not, List.filterMap_map,
    List.filterMap_eq_nil_iff, Function.comp_apply, flattenArrays_ratio, ratioOf_eq_none_iff]

theorem not_noData_starts {start : Text} (rest : Text) {c : Char} (hc : start.head? = some c)
    (hne : c ≠ 'n') : ¬noData <+: start ++ rest := by
  rintro ⟨t, ht⟩
  have hheads := congrArg List.head? ht
  have hn : noData.head? = some 'n' := rfl
  rw [List.head?_append, List.head?_append, hn, hc] at hheads
  exact hne (Option.some.inj hheads).symm

/-- The other verdicts start with another letter. -/
theorem noData_starts_iff (partitioned : Bool) (ratio : Option ℚ) (warning : Text) :
    noData <+: frequencyVerdict partitioned ratio ++ warning ↔
      partitioned = true ∧ ratio = none := by
  unfold frequencyVerdict
  cases partitioned with
  | false =>
    rw [Bool.not_false, if_pos rfl, List.flatten_cons, List.append_assoc]
    exact iff_of_false (not_noData_starts (c := 'f') _ rfl (by decide)) (by simp)
  | true =>
    cases ratio with
    | none => exact iff_of_true (List.prefix_append _ _) ⟨rfl, rfl⟩
    | some rr =>
      rw [Bool.not_true, if_neg Bool.false_ne_true]
      refine iff_of_false ?_ (by simp)
      show ¬noData <+: (if freqRatioReal ≤ rr then _ else _) ++ warning
      split_ifs
      · rw [List.flatten_cons, List.append_assoc]
        exact not_noData_starts (c := 'N') _ rfl (by decide)
      · rw [List.flatten_cons, List.append_assoc]
        exact not_noData_starts (c := 'f') _ rfl (by decide)

theorem saysTruly_iff (runs : List (Arrays × Row)) :
    SaysTruly m rng seed arm runs ↔
      ((∃ run ∈ runs, BigRead run.1) → (∃ run ∈ runs, LittleRead run.1) →
        ∃ run ∈ runs, BothRead run.1 ∧ (sideReadings true run.1).sum ≠ 0) := by
  have hsaid : noData <+: (armRecord m rng seed arm runs).verdict ↔
      (armRecord m rng seed arm runs).partitionedEpp = true ∧
        (armRecord m rng seed arm runs).ratioLittleOverBig = none := noData_starts_iff _ _ _
  have hread : ∀ run : Arrays × Row,
      (bigReadings run.1 ≠ [] ∧ littleReadings run.1 ≠ [] ∧ (bigReadings run.1).sum ≠ 0) ↔
        BothRead run.1 ∧ (sideReadings true run.1).sum ≠ 0 := by
    intro run
    rw [← and_assoc, readings_iff]
    constructor
    · rintro ⟨hboth, hsum⟩
      exact ⟨hboth, bigReadings_eq hboth ▸ hsum⟩
    · rintro ⟨hboth, hsum⟩
      exact ⟨hboth, (bigReadings_eq hboth).symm ▸ hsum⟩
  unfold SaysTruly
  rw [hsaid, ratio_eq_none_iff]
  simp only [hread, ← bigReadings_ne_nil, ← littleReadings_ne_nil]
  constructor
  · rintro h ⟨big, hbig, hbigRead⟩ ⟨little, hlittle, hlittleRead⟩
    by_contra hnone
    -- only a run that is split has LITTLE readings
    have hpartitioned : (splitDomains (arr little.1.epp)).partitioned = true := by
      obtain ⟨i, f, -, -, hdistinct⟩ := (littleReadings_ne_nil little.1).mp hlittleRead
      exact partitioned_iff.mpr hdistinct
    have harm : (armRecord m rng seed arm runs).partitionedEpp = true := by
      unfold armRecord frequencyRecord
      rw [List.any_map, List.any_eq_true]
      exact ⟨little, hlittle, hpartitioned⟩
    rcases h harm ⟨harm, fun run hrun hratio => hnone ⟨run, hrun, hratio⟩⟩ with hempty | hempty
    · exact hbigRead (hempty big hbig)
    · exact hlittleRead (hempty little hlittle)
  · rintro h - ⟨-, hnone⟩
    by_contra hsome
    simp only [not_or, not_forall, exists_prop] at hsome
    obtain ⟨run, hrun, hratio⟩ := h hsome.1 hsome.2
    exact hnone run hrun hratio

/-- **The split is a partition, and an arm without data has a domain without readings, when the
EPPs of each run are one or on both sides of 128, and, if both domains are read, they are in one
run whose big CPUs do not all read 0 MHz.** -/
theorem domains_recovered_iff (runs : List (Arrays × Row)) :
    (∀ run ∈ runs, Recovered (arr run.1.epp)) ∧ SaysTruly m rng seed arm runs ↔
      (∀ run ∈ runs, Uniform (arr run.1.epp) ∨ BothSides (arr run.1.epp)) ∧
        ((∃ run ∈ runs, BigRead run.1) → (∃ run ∈ runs, LittleRead run.1) →
          ∃ run ∈ runs, BothRead run.1 ∧ (sideReadings true run.1).sum ≠ 0) := by
  rw [saysTruly_iff]
  simp only [recovered_iff]

end Verdict

-- A run of `others-balance-power`, one whose big CPUs have no cycles, and one in which only one
-- side could be read.
def balancePower : Arrays where
  avgMhz := []
  bzyMhz := List.replicate 8 (some 400)
  busy := []
  epp := [192, 192, 255, 192, 192, 192, 192, 192].map some

def stoppedBig : Arrays where
  avgMhz := []
  bzyMhz := [0, 0, 800, 800, 0, 0, 800, 800].map some
  busy := []
  epp := [0, 0, 255, 255, 0, 0, 255, 255].map some

def oneSide (below : Bool) : Arrays where
  avgMhz := []
  bzyMhz := [0, 0, 255, 255, 0, 0, 255, 255].map fun e =>
    if decide (e < eppBigMax) = below then some 1800 else none
  busy := []
  epp := [0, 0, 255, 255, 0, 0, 255, 255].map some

/-- The first is a partition without big CPUs; the second has no data, and eight readings; the
third has no data, and reads the big CPUs in one run and the others in the next. -/
theorem domains_recovered_fails :
    ¬Recovered (arr balancePower.epp) ∧
      ¬SaysTruly flatMath quarters 0 "both-power".toList [(stoppedBig, tenJoules [])] ∧
      ¬SaysTruly flatMath quarters 0 "both-power".toList
        [(oneSide true, tenJoules []), (oneSide false, tenJoules [])] := by
  refine ⟨fun h => ?_, fun h => ?_, fun h => ?_⟩
  · have hpartitioned : (splitDomains (arr balancePower.epp)).partitioned = true := by
      decide
    exact (h.genuine hpartitioned).1 (by decide)
  · rw [saysTruly_iff] at h
    have hbig : bigReadings stoppedBig ≠ [] := by decide
    have hlittle : littleReadings stoppedBig ≠ [] := by decide
    obtain ⟨run, hrun, -, hsum⟩ := h
      ⟨_, List.mem_singleton_self _, (bigReadings_ne_nil _).mp hbig⟩
      ⟨_, List.mem_singleton_self _, (littleReadings_ne_nil _).mp hlittle⟩
    obtain rfl := List.mem_singleton.mp hrun
    exact hsum (by decide +kernel)
  · rw [saysTruly_iff] at h
    have hbig : bigReadings (oneSide true) ≠ [] := by decide
    have hlittle : littleReadings (oneSide false) ≠ [] := by decide
    have hnone : sideReadings false (oneSide true) = [] ∧
        sideReadings true (oneSide false) = [] := by decide
    obtain ⟨run, hrun, hboth, -⟩ := h
      ⟨_, List.mem_cons_self, (bigReadings_ne_nil _).mp hbig⟩
      ⟨_, List.mem_cons_of_mem _ (List.mem_singleton_self _), (littleReadings_ne_nil _).mp hlittle⟩
    rcases List.mem_cons.mp hrun with rfl | hrun
    · exact hboth.2 hnone.1
    · obtain rfl := List.mem_singleton.mp hrun
      exact hboth.1 hnone.2

end Analyze

end FakeBigLittle
