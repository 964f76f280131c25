import FakeBigLittle.Energy.Summary
import FakeBigLittle.Means

/-!
# The averages of the summary

Every mean is divided by `nsamples`, and a read that fails counts as a read of zero.
-/

namespace FakeBigLittle

open CString Runs

namespace Energy

/-! ## What is seen in an interval -/

-- The rounds next to each other, from `t_start` on.
def spans (first : Tick) (ticks : List Tick) : List (Tick × Tick) := (first :: ticks).zip ticks

/-- How far a counter got, if it could be read at both ends. -/
def gained (reg : Tick → Nat → Option UInt64) (cpu : Nat) (p : Tick × Tick) : Option UInt64 :=
  (reg p.2 cpu).bind fun v => (reg p.1 cpu).map fun u => v - u

def passed (cpu : Nat) (p : Tick × Tick) : UInt64 := p.2.tsc cpu - p.1.tsc cpu

/-- `scale * a / b`, where both are there and `b` is not zero. -/
def fraction (scale : Double) (a b : Option UInt64) : Double :=
  a.bind fun a => b.bind fun b => ratio scale a b

/-- An array of the summary: how `main` computes and adds it, and what it is when it is well
defined: `counter` is what it counts. -/
structure Quantity where
  key : Text
  digits : Nat
  counter : Tick → Nat → Option UInt64
  ofDeltas : Machine → Deltas → Double
  sum : Main → Nat → ℚ
  seen : Machine → Nat → Tick × Tick → Double

def cpuAvgMhz : Quantity where
  key := "cpu_avg_mhz".toList
  digits := 1
  counter := Tick.aperf
  ofDeltas := fun m d => avg m.tscMhz d
  sum := Main.mhzSum
  seen := fun m cpu p => fraction m.tscMhz (gained Tick.aperf cpu p) (some (passed cpu p))

def cpuBzyMhz : Quantity where
  key := "cpu_bzy_mhz".toList
  digits := 1
  counter := Tick.aperf
  ofDeltas := fun m d => bzy m.tscMhz d
  sum := Main.bzySum
  seen := fun m cpu p => fraction m.tscMhz (gained Tick.aperf cpu p) (gained Tick.mperf cpu p)

def cpuBusy : Quantity where
  key := "cpu_busy".toList
  digits := 4
  counter := Tick.mperf
  ofDeltas := fun _ d => busy d
  sum := Main.busySum
  seen := fun _ cpu p => fraction (some 1) (gained Tick.mperf cpu p) (some (passed cpu p))

def quantities : List Quantity := [cpuAvgMhz, cpuBzyMhz, cpuBusy]

/-- What an interval adds to the sum of a CPU, with the zeros of the reads that failed. -/
def Quantity.counted (q : Quantity) (m : Machine) (cpu : Nat) (p : Tick × Tick) : ℚ :=
  (q.ofDeltas m (deltas (sampleCpus p.1 cpu) (sampleCpus p.2 cpu))).getD 0

def tempOf (m : Machine) (tick : Tick) : Double := pkgTempC m.tjmax tick.therm

/-- The machine, as `count_cpus`, `init_tsc_mhz` and `init_tjmax` find it. -/
def setUp (nrCpus : Nat) (base bios target : Option UInt64) : Machine :=
  ⟨nrCpus, initTscMhz base bios, initTjmax target⟩

/-- Every value is well defined in every interval. -/
structure AllSeen (m : Machine) (first : Tick) (ticks : List Tick) : Prop where
  perCpu : ∀ q ∈ quantities, ∀ cpu < m.nrCpus, ∀ p ∈ spans first ticks, q.seen m cpu p ≠ none
  temp : ∀ tick ∈ ticks, tick.therm ≠ none

/-- Every value is well defined at some time; where it is not always, its counter stands still
whenever it is, and the temperatures that were read add up to zero. -/
structure SeenOrStill (m : Machine) (first : Tick) (ticks : List Tick) : Prop where
  perCpu : ∀ q ∈ quantities, ∀ cpu < m.nrCpus,
    (∃ p ∈ spans first ticks, q.seen m cpu p ≠ none) ∧
    ((∀ p ∈ spans first ticks, q.seen m cpu p ≠ none) ∨
      ∀ p ∈ spans first ticks, q.seen m cpu p ≠ none → gained q.counter cpu p = some 0)
  temp : (∃ tick ∈ ticks, tick.therm ≠ none) ∧
    ((∀ tick ∈ ticks, tick.therm ≠ none) ∨ (ticks.filterMap (tempOf m)).sum = 0)

/-- The averages of a run are over what was seen in it. -/
structure Averaged (m : Machine) (first : Tick) (ticks : List Tick) (s : Main) : Prop where
  perCpu : ∀ q ∈ quantities, ∀ cpu < m.nrCpus,
    meanOf s (q.sum s cpu) = Means.mean ((spans first ticks).filterMap (q.seen m cpu))
  tempMean : meanOf s s.tempSum = Means.mean (ticks.filterMap (tempOf m))
  tempMax : some s.tempMax = (ticks.filterMap (tempOf m)).max?

/-! ## The loop -/

section Loop

variable {o : Options} {m : Machine} {s s' : Main} {first : Tick} {ticks : List Tick}

theorem gained_eq {reg : Tick → Nat → Option UInt64} {cpu : Nat} {p : Tick × Tick} {v : UInt64}
    (h : gained reg cpu p = some v) : ((reg p.2 cpu).getD 0) - ((reg p.1 cpu).getD 0) = v := by
  obtain ⟨y, hy, hmap⟩ := Option.bind_eq_some_iff.mp h
  obtain ⟨x, hx, rfl⟩ := Option.map_eq_some_iff.mp hmap
  rw [hy, hx, Option.getD_some, Option.getD_some]

theorem fraction_eq {scale : Double} {a b : Option UInt64} {v : ℚ}
    (h : fraction scale a b = some v) :
    ∃ x y, a = some x ∧ b = some y ∧ ratio scale x y = some v := by
  obtain ⟨x, hx, h⟩ := Option.bind_eq_some_iff.mp h
  obtain ⟨y, hy, h⟩ := Option.bind_eq_some_iff.mp h
  exact ⟨x, y, hx, hy, h⟩

/-- What is well defined is counted as it is. -/
theorem counted_of_seen : ∀ q ∈ quantities, ∀ cpu p v,
    q.seen m cpu p = some v → q.counted m cpu p = v := by
  unfold quantities
  simp only [List.forall_mem_cons]
  refine ⟨fun cpu p v h => ?_, fun cpu p v h => ?_, fun cpu p v h => ?_, List.forall_mem_nil _⟩
  · obtain ⟨a, b, ha, hb, hv⟩ := fraction_eq h
    obtain rfl := Option.some.inj hb
    rw [← gained_eq ha] at hv
    exact congrArg (Option.getD · 0) hv
  · obtain ⟨a, b, ha, hb, hv⟩ := fraction_eq h
    rw [← gained_eq ha, ← gained_eq hb] at hv
    exact congrArg (Option.getD · 0) hv
  · obtain ⟨a, b, ha, hb, hv⟩ := fraction_eq h
    obtain rfl := Option.some.inj hb
    rw [← gained_eq ha] at hv
    exact congrArg (Option.getD · 0) hv

/-- No register of the CPU could be read at one end of the interval only. -/
def EndsAgree (cpu : Nat) (p : Tick × Tick) : Prop :=
  (p.1.aperf cpu = none ↔ p.2.aperf cpu = none) ∧ (p.1.mperf cpu = none ↔ p.2.mperf cpu = none)

/-- Then what `main` subtracts is what the register gained, or a zero. -/
theorem gained_cases {reg : Tick → Nat → Option UInt64} {cpu : Nat} {p : Tick × Tick}
    (h : reg p.1 cpu = none ↔ reg p.2 cpu = none) :
    gained reg cpu p = some (((reg p.2 cpu).getD 0) - ((reg p.1 cpu).getD 0)) ∨
      gained reg cpu p = none ∧ ((reg p.2 cpu).getD 0) - ((reg p.1 cpu).getD 0) = 0 := by
  cases hfrom : reg p.1 cpu with
  | none =>
    have hto := h.mp hfrom
    exact Or.inr ⟨by simp [gained, hto], by simp [hto]⟩
  | some u =>
    have hto : reg p.2 cpu ≠ none := fun hto => by simp [h.mpr hto] at hfrom
    obtain ⟨v, hv⟩ := Option.ne_none_iff_exists'.mp hto
    exact Or.inl (by simp [gained, hfrom, hv])

theorem ratio_by_zero (scale : Double) (a : UInt64) : ratio scale a 0 = none := by
  unfold ratio per
  cases scale <;> simp

theorem ratio_unseen {scale : Double} {a b : Option UInt64} {x y : UInt64}
    (ha : a = some x ∨ a = none ∧ x = 0) (hb : b = some y ∨ b = none ∧ y = 0)
    (h : fraction scale a b = none) : (ratio scale x y).getD 0 = 0 := by
  rcases ha with rfl | ⟨-, rfl⟩
  · rcases hb with rfl | ⟨-, rfl⟩
    · have hnone : ratio scale x y = none := h
      rw [hnone, Option.getD_none]
    · rw [ratio_by_zero, Option.getD_none]
  · rcases ratio_zero scale y with hzero | hzero <;> rw [hzero] <;> rfl

/-- What is not well defined there counts as a zero. -/
theorem counted_of_unseen {cpu : Nat} {p : Tick × Tick} (h : EndsAgree cpu p) :
    ∀ q ∈ quantities, q.seen m cpu p = none → q.counted m cpu p = 0 := by
  have haperf := gained_cases h.1
  have hmperf := gained_cases h.2
  unfold quantities
  simp only [List.forall_mem_cons]
  exact ⟨ratio_unseen haperf (Or.inl rfl), ratio_unseen haperf hmperf,
    ratio_unseen hmperf (Or.inl rfl), List.forall_mem_nil _⟩

theorem fraction_zero {scale : Double} {a b : Option UInt64} {v : ℚ}
    (hscale : ∀ x, scale = some x → 0 < x) (h : fraction scale a b = some v) :
    0 ≤ v ∧ (v = 0 ↔ a = some 0) := by
  obtain ⟨x, y, rfl, rfl, hratio⟩ := fraction_eq h
  obtain ⟨k, hk, hper⟩ := Option.bind_eq_some_iff.mp hratio
  have hpos := hscale k hk
  unfold per at hper
  split_ifs at hper with hy
  obtain rfl := Option.some.inj hper
  refine ⟨by positivity, ?_⟩
  rw [div_eq_zero_iff, or_iff_left hy, mul_eq_zero, or_iff_right hpos.ne', Nat.cast_eq_zero,
    Option.some.injEq, ← UInt64.toNat_inj]
  rfl

/-- A value is zero where its counter stood still. -/
theorem seen_zero (htsc : ∀ x, m.tscMhz = some x → 0 < x) : ∀ q ∈ quantities, ∀ cpu p v,
    q.seen m cpu p = some v → 0 ≤ v ∧ (v = 0 ↔ gained q.counter cpu p = some 0) := by
  have hone : ∀ x : ℚ, some 1 = some x → 0 < x := fun x hx => Option.some.inj hx ▸ one_pos
  unfold quantities
  simp only [List.forall_mem_cons]
  exact ⟨fun _ _ _ => fraction_zero htsc, fun _ _ _ => fraction_zero htsc,
    fun _ _ _ => fraction_zero hone, List.forall_mem_nil _⟩

/-- There a missing divisor spoils every mean that is not zero. -/
theorem unspoiled_of_agree {cpu : Nat} (htsc : ∀ x, m.tscMhz = some x → 0 < x)
    (hagree : ∀ p ∈ spans first ticks, EndsAgree cpu p) {q : Quantity} (hq : q ∈ quantities) :
    Means.Unspoiled (q.seen m cpu) (q.counted m cpu) (spans first ticks) ↔
      (∃ p ∈ spans first ticks, q.seen m cpu p ≠ none) ∧
      ((∀ p ∈ spans first ticks, q.seen m cpu p ≠ none) ∨
        ∀ p ∈ spans first ticks, q.seen m cpu p ≠ none → gained q.counter cpu p = some 0) := by
  have hzero := seen_zero htsc q hq cpu
  rw [Means.unspoiled_iff_of_zero fun p hp => counted_of_unseen (hagree p hp) q hq,
    Means.sum_eq_zero_iff fun p _ v hv => (hzero p v hv).1]
  have hstill : (∀ p ∈ spans first ticks, ∀ v, q.seen m cpu p = some v → v = 0) ↔
      ∀ p ∈ spans first ticks, q.seen m cpu p ≠ none → gained q.counter cpu p = some 0 := by
    refine forall₂_congr fun p _ => ⟨fun h hseen => ?_, fun h v hv => ?_⟩
    · obtain ⟨v, hv⟩ := Option.ne_none_iff_exists'.mp hseen
      exact (hzero p v hv).2.mp (h v hv)
    · exact (hzero p v hv).2.mpr (h (by simp [hv]))
  rw [hstill]

theorem sampled_sum {rapl : List RaplDom} {j : Joules} {tick : Tick}
    (hprev : s.prev = sampleCpus first) : ∀ q ∈ quantities, ∀ cpu,
      q.sum (sampled o m s tick rapl j) cpu = q.sum s cpu + q.counted m cpu (first, tick) := by
  unfold quantities
  simp only [List.forall_mem_cons]
  unfold Quantity.counted
  simp only [← hprev]
  exact ⟨fun _ => rfl, fun _ => rfl, fun _ => rfl, List.forall_mem_nil _⟩

/-- What the loop has added up in a run that does not crash. -/
structure Totals (m : Machine) (first : Tick) (ticks : List Tick) (s s' : Main) : Prop where
  perCpu : ∀ q ∈ quantities, ∀ cpu,
    q.sum s' cpu = q.sum s cpu + ((spans first ticks).map (q.counted m cpu)).sum
  tempSum : s'.tempSum = s.tempSum + (ticks.map fun tick => (tempOf m tick).getD 0).sum
  tempMax : s'.tempMax = (ticks.filterMap (tempOf m)).foldl max s.tempMax
  nsamples : s'.nsamples = s.nsamples + ticks.length

theorem totals_nil : Totals m first [] s s := by
  refine ⟨fun q _ cpu => ?_, ?_, rfl, rfl⟩
  · simp [spans]
  · simp

theorem totals_cons {rapl : List RaplDom} {j : Joules} {tick : Tick}
    (hprev : s.prev = sampleCpus first)
    (h : Totals m tick ticks (sampled o m s tick rapl j) s') :
    Totals m first (tick :: ticks) s s' := by
  refine ⟨fun q hq cpu => ?_, ?_, ?_, ?_⟩
  · have hspans : spans first (tick :: ticks) = (first, tick) :: spans tick ticks := rfl
    rw [h.perCpu q hq, sampled_sum hprev q hq, hspans, List.map_cons, List.sum_cons, add_assoc]
  · rw [h.tempSum, List.map_cons, List.sum_cons, ← add_assoc]
    rfl
  · have hmax : (sampled o m s tick rapl j).tempMax =
        max s.tempMax ((tempOf m tick).getD s.tempMax) := rfl
    rw [h.tempMax, hmax, List.filterMap_cons]
    cases tempOf m tick with
    | none => simp
    | some v => simp
  · have hn : (sampled o m s tick rapl j).nsamples = s.nsamples + 1 := rfl
    rw [h.nsamples, hn, List.length_cons]
    omega

theorem totals_run (hprev : s.prev = sampleCpus first) (hgo : s'.pc ≠ .crashed)
    (hrun : run (sampleStep o m) s ticks = some s') : Totals m first ticks s s' := by
  induction ticks generalizing s first with
  | nil =>
    obtain rfl := Option.some.inj hrun
    exact totals_nil
  | cons tick ticks ih =>
    obtain ⟨u, hu, hrest⟩ := run_cons_eq_some.mp hrun
    obtain ⟨-, ⟨-, rfl⟩ | ⟨rapl, j, -, rfl⟩⟩ := sampleStep_cases hu
    · exact absurd rfl (run_not_crashed hrest hgo)
    · exact totals_cons hprev (ih rfl hrest)

end Loop

/-! ## Temperatures -/

theorem initTjmax_nonneg (target : Option UInt64) : 0 ≤ initTjmax target := by
  cases target with
  | none => decide
  | some v => exact Int.natCast_nonneg _

/-- A temperature is never as low as `temp_max` starts. -/
theorem le_tempOf {m : Machine} (h : 0 ≤ m.tjmax) {tick : Tick} {v : ℚ}
    (hv : tempOf m tick = some v) : -1000000000 ≤ v := by
  unfold tempOf pkgTempC at hv
  cases htherm : tick.therm with
  | none => simp [htherm] at hv
  | some w =>
    rw [htherm] at hv
    obtain rfl := Option.some.inj hv
    have hand : ((w >>> 16) &&& 0x7f).toNat ≤ 127 := by
      rw [UInt64.toNat_and]
      exact Nat.and_le_right
    have hcast : (((w >>> 16) &&& 0x7f).toNat : ℚ) ≤ 127 := by exact_mod_cast hand
    have htj : (0 : ℚ) ≤ m.tjmax := by exact_mod_cast h
    linarith

theorem setUp_tscMhz (nrCpus : Nat) (base bios target : Option UInt64) (x : ℚ)
    (h : (setUp nrCpus base bios target).tscMhz = some x) : 0 < x := by
  have hkhz : ∀ khz : UInt64, 0 < khz → (0 : ℚ) < khz.toNat / 1000 := by
    intro khz hpos
    have hcast : (0 : ℚ) < khz.toNat := by exact_mod_cast UInt64.lt_iff_toNat_lt.mp hpos
    positivity
  unfold setUp initTscMhz at h
  simp only at h
  cases hbase : base.filter (· > 0) with
  | some khz =>
    rw [hbase] at h
    obtain rfl := Option.some.inj h
    exact hkhz khz (by simpa using (Option.filter_eq_some_iff.mp hbase).2)
  | none =>
    rw [hbase] at h
    cases hbios : bios.filter (· > 0) with
    | some khz =>
      rw [hbios] at h
      obtain rfl := Option.some.inj h
      exact hkhz khz (by simpa using (Option.filter_eq_some_iff.mp hbios).2)
    | none =>
      rw [hbios] at h
      exact absurd h (Option.some_ne_none x).symm

theorem tempOf_isSome (m : Machine) (tick : Tick) : tempOf m tick ≠ none ↔ tick.therm ≠ none := by
  unfold tempOf pkgTempC
  cases tick.therm <;> simp

/-! ## The run -/

/-- `main` prints the quantities of a CPU under their keys. -/
theorem summary_prints (nan : Text → Nat → Text) (m : Machine) (s : Main) (e : Ending) :
    ∀ q ∈ quantities, (q.key, Json.array ((List.range m.nrCpus).map fun i =>
      Printf.fixed (nan q.key i) q.digits (meanOf s (q.sum s i)))) ∈ summaryFields nan m s e := by
  unfold quantities summaryFields
  simp only [List.forall_mem_cons]
  refine ⟨List.mem_of_getElem? (i := 14) rfl, List.mem_of_getElem? (i := 15) rfl,
    List.mem_of_getElem? (i := 16) rfl, List.forall_mem_nil _⟩

section Run

variable {m : Machine} {s : Main} {rapl : List RaplDom} {first : Tick} {ticks : List Tick}

theorem meanOf_eq (hne : ticks ≠ []) (hn : s.nsamples = ticks.length) (sum : ℚ) :
    meanOf s sum = some (sum / (ticks.length : ℚ)) := by
  have hlen : (ticks.length : ℚ) ≠ 0 := by simpa using hne
  unfold meanOf per
  rw [hn, if_neg hlen, Option.map_some]

theorem length_spans (first : Tick) (ticks : List Tick) :
    (spans first ticks).length = ticks.length := by
  simp [spans]

theorem perCpu_iff (hne : ticks ≠ []) (h : Totals m first ticks (start rapl first) s)
    {q : Quantity} (hq : q ∈ quantities) (cpu : Nat) :
    meanOf s (q.sum s cpu) = Means.mean ((spans first ticks).filterMap (q.seen m cpu)) ↔
      Means.Unspoiled (q.seen m cpu) (q.counted m cpu) (spans first ticks) := by
  have hzero : ∀ q ∈ quantities, q.sum (start rapl first) cpu = 0 := by
    unfold quantities
    simp only [List.forall_mem_cons]
    exact ⟨rfl, rfl, rfl, List.forall_mem_nil _⟩
  have hspans : spans first ticks ≠ [] := by
    rw [← List.length_pos_iff, length_spans]
    exact List.length_pos_iff.mpr hne
  have hn : s.nsamples = ticks.length := h.nsamples.trans (Nat.zero_add _)
  rw [meanOf_eq hne hn, h.perCpu q hq, hzero q hq, zero_add, ← length_spans first ticks]
  exact Means.mean_eq_iff hspans fun p _ v hv => counted_of_seen q hq cpu p v hv

theorem tempMean_iff (hne : ticks ≠ []) (h : Totals m first ticks (start rapl first) s) :
    meanOf s s.tempSum = Means.mean (ticks.filterMap (tempOf m)) ↔
      (∃ tick ∈ ticks, tick.therm ≠ none) ∧
      ((∀ tick ∈ ticks, tick.therm ≠ none) ∨ (ticks.filterMap (tempOf m)).sum = 0) := by
  have hn : s.nsamples = ticks.length := h.nsamples.trans (Nat.zero_add _)
  have hsum : s.tempSum = (ticks.map fun tick => (tempOf m tick).getD 0).sum :=
    h.tempSum.trans (zero_add _)
  simp only [← tempOf_isSome m]
  rw [meanOf_eq hne hn, hsum, Means.mean_eq_iff hne, Means.unspoiled_iff_of_zero]
  · intro tick _ hnone
    rw [hnone, Option.getD_none]
  · intro tick _ v hv
    rw [hv, Option.getD_some]

theorem tempMax_iff (htj : 0 ≤ m.tjmax) (h : Totals m first ticks (start rapl first) s) :
    some s.tempMax = (ticks.filterMap (tempOf m)).max? ↔ ∃ tick ∈ ticks, tick.therm ≠ none := by
  have hlow : ∀ v ∈ ticks.filterMap (tempOf m), (start rapl first).tempMax ≤ v := by
    intro v hv
    obtain ⟨tick, -, htick⟩ := List.mem_filterMap.mp hv
    exact le_tempOf htj htick
  simp only [← tempOf_isSome m]
  rw [h.tempMax, Means.max_of_le hlow, ne_eq, Means.filterMap_eq_nil, not_not]

end Run

/-- **When the averages are averages.** They are, if every value is well defined in every interval.
And where no register could be read at one end of an interval only, they are exactly if every
value is well defined at some time, and always but for the values that are zero. -/
theorem averages_seen_iff (o : Options) (nrCpus : Nat) (base bios target : Option UInt64)
    (rapl : List RaplDom) (first : Tick) (ticks : List Tick) (s : Main)
    (hrun : run (sampleStep o (setUp nrCpus base bios target)) (start rapl first) ticks = some s)
    (hdone : s.pc = .done) :
    (AllSeen (setUp nrCpus base bios target) first ticks →
      Averaged (setUp nrCpus base bios target) first ticks s) ∧
    ((∀ cpu < nrCpus, ∀ p ∈ spans first ticks, EndsAgree cpu p) →
      (Averaged (setUp nrCpus base bios target) first ticks s ↔
        SeenOrStill (setUp nrCpus base bios target) first ticks)) := by
  have hgo : s.pc ≠ .crashed := by simp [hdone]
  have htotals := totals_run rfl hgo hrun
  have hne : ticks ≠ [] := by
    rintro rfl
    have hsamples := ((went_run hrun).done hdone).1
    rw [htotals.nsamples] at hsamples
    exact absurd hsamples (by simp [start])
  have hspans : spans first ticks ≠ [] := by
    rw [← List.length_pos_iff, length_spans]
    exact List.length_pos_iff.mpr hne
  have htj : 0 ≤ (setUp nrCpus base bios target).tjmax := initTjmax_nonneg target
  have hcpu := fun {q} (hq : q ∈ quantities) cpu => perCpu_iff hne htotals hq cpu
  constructor
  · intro h
    obtain ⟨tick, htick⟩ := List.exists_mem_of_ne_nil ticks hne
    have hread : ∃ tick ∈ ticks, tick.therm ≠ none := ⟨tick, htick, h.temp tick htick⟩
    exact ⟨fun q hq cpu hlt =>
        (hcpu hq cpu).mpr (Means.unspoiled_of_all hspans (h.perCpu q hq cpu hlt)),
      (tempMean_iff hne htotals).mpr ⟨hread, Or.inl h.temp⟩, (tempMax_iff htj htotals).mpr hread⟩
  · intro hagree
    have hiff := fun {q} (hq : q ∈ quantities) cpu (hlt : cpu < nrCpus) =>
      (hcpu hq cpu).trans (unspoiled_of_agree (setUp_tscMhz nrCpus base bios target)
        (hagree cpu hlt) hq)
    constructor
    · intro h
      exact ⟨fun q hq cpu hlt => (hiff hq cpu hlt).mp (h.perCpu q hq cpu hlt),
        (tempMean_iff hne htotals).mp h.tempMean⟩
    · intro h
      exact ⟨fun q hq cpu hlt => (hiff hq cpu hlt).mpr (h.perCpu q hq cpu hlt),
        (tempMean_iff hne htotals).mpr h.temp, (tempMax_iff htj htotals).mpr h.temp.1⟩

-- What `main` reads on one CPU around a command, with the child ended or not.
def msrTick (t : ℚ) (aperf mperf tsc : UInt64) (therm : Option UInt64) (ended : Bool) : Tick where
  t := t
  energyUj := fun _ => some 10
  therm := therm
  aperf := fun _ => some aperf
  mperf := fun _ => some mperf
  tsc := fun _ => tsc
  childDone := ended

/-- One CPU of 2.4 GHz and a limit of 100 degrees. -/
def oneCpu : Machine := setUp 1 (some 2400000) none (some 0x640000)

def busyTicks : List Tick :=
  [msrTick (1 / 5) 148 148 580 (some 0x3c0000) false,
    msrTick (2 / 5) 244 292 1060 (some 0x3b0000) true]

theorem averages_seen_iff_busy :
    ∃ s, run (sampleStep { cmd := true } oneCpu)
        (start fiveDomains (msrTick 0 100 100 100 none false)) busyTicks = some s ∧
      s.pc = .done ∧ Averaged oneCpu (msrTick 0 100 100 100 none false) busyTicks s ∧
      SeenOrStill oneCpu (msrTick 0 100 100 100 none false) busyTicks := by
  have hends : ∃ s, run (sampleStep { cmd := true } oneCpu)
      (start fiveDomains (msrTick 0 100 100 100 none false)) busyTicks = some s ∧ s.pc = .done :=
    ⟨_, rfl, rfl⟩
  obtain ⟨s, hrun, hdone⟩ := hends
  have htherm : ∀ tick ∈ busyTicks, tick.therm ≠ none := by simp [busyTicks, msrTick]
  have hseen : ∀ q ∈ quantities, ∀ p ∈ spans (msrTick 0 100 100 100 none false) busyTicks,
      q.seen oneCpu 0 p ≠ none := by decide +kernel
  have hagree : ∀ cpu < 1, ∀ p ∈ spans (msrTick 0 100 100 100 none false) busyTicks,
      EndsAgree cpu p := by
    simp [spans, busyTicks, msrTick, EndsAgree]
  obtain ⟨haveraged, hiff⟩ := averages_seen_iff { cmd := true } 1 (some 2400000) none
    (some 0x640000) fiveDomains _ busyTicks s hrun hdone
  have hall := haveraged ⟨fun q hq cpu hcpu => Nat.lt_one_iff.mp hcpu ▸ hseen q hq, htherm⟩
  exact ⟨s, hrun, hdone, hall, (hiff hagree).mp hall⟩

/-- The CPU sleeps through the second of two intervals, and the sensor of the package is never
read: half of the frequency is reported, and a maximum that nothing had. -/
theorem averages_seen_fails :
    let first := msrTick 0 100 100 100 none false
    let ticks := [msrTick (1 / 5) 148 148 580 none false, msrTick (2 / 5) 148 148 1060 none true]
    ∃ s, run (sampleStep { cmd := true } oneCpu) (start fiveDomains first) ticks = some s ∧
      s.pc = .done ∧ ¬Averaged oneCpu first ticks s ∧
      meanOf s (s.bzySum 0) = some 1200 ∧
      Means.mean ((spans first ticks).filterMap (cpuBzyMhz.seen oneCpu 0)) = some 2400 ∧
      s.tempMax = -1000000000 := by
  refine ⟨_, rfl, rfl, fun h => ?_, by decide +kernel, by decide +kernel, by decide +kernel⟩
  exact absurd h.tempMax (by decide +kernel)

end Energy

end FakeBigLittle
