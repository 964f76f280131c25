import FakeBigLittle.Energy.Rapl
import FakeBigLittle.Runs
import Mathlib.Tactic.NormNum

/-!
# The power time series

A row divides the energy of its interval by the interval that was asked for, not by the one
that passed.
-/

namespace FakeBigLittle

open CString Runs Wrapping

namespace Energy

/-! ## One domain of the five -/

section Domains

variable {rapl rapl' : List RaplDom} {read : Nat → Option UInt64} {name : Text} {j : Double}

@[simp] theorem raplDeltaJ_name (d : RaplDom) (v : Option UInt64) :
    (raplDeltaJ d v).1.name = d.name := by
  unfold raplDeltaJ
  split <;> rfl

theorem deltaOf_cases (h : deltaOf rapl read name = some (rapl', j)) :
    ∃ i d, findDom rapl name = some i ∧ rapl[i]? = some d ∧
      rapl' = rapl.set i (raplDeltaJ d (read i)).1 ∧ j = (raplDeltaJ d (read i)).2 := by
  unfold deltaOf at h
  split at h
  · simp at h
  · rename_i i hi
    obtain ⟨d, hd, heq⟩ := Option.map_eq_some_iff.mp h
    obtain ⟨rfl, rfl⟩ := Prod.mk.inj heq
    exact ⟨i, d, hi, hd, rfl, rfl⟩

theorem findDom_map (rapl : List RaplDom) (name : Text) :
    findDom rapl name = (rapl.map (·.name)).findIdx? (· == name) := by
  unfold findDom
  rw [List.findIdx?_map]
  rfl

theorem findDom_name {i : Nat} (h : findDom rapl name = some i) :
    ∃ d, rapl[i]? = some d ∧ d.name = name := by
  obtain ⟨hi, hname, -⟩ := List.findIdx?_eq_some_iff_getElem.mp h
  exact ⟨rapl[i], List.getElem?_eq_getElem hi, by simpa using hname⟩

/-- The names stay where they are. -/
theorem deltaOf_findDom (h : deltaOf rapl read name = some (rapl', j)) (other : Text) :
    findDom rapl' other = findDom rapl other := by
  obtain ⟨i, d, -, hd, rfl, -⟩ := deltaOf_cases h
  obtain ⟨hi, rfl⟩ := List.getElem?_eq_some_iff.mp hd
  have hnames : (rapl.set i (raplDeltaJ rapl[i] (read i)).1).map (·.name) = rapl.map (·.name) := by
    apply List.ext_getElem?
    intro k
    rw [List.getElem?_map, List.getElem?_map, List.getElem?_set]
    split_ifs with hk
    · subst hk
      simp [hi]
    · rfl
  rw [findDom_map, findDom_map, hnames]

theorem deltaOf_self {i : Nat} {d : RaplDom} (hi : findDom rapl name = some i)
    (hd : rapl[i]? = some d) (h : deltaOf rapl read name = some (rapl', j)) :
    rapl'[i]? = some (raplDeltaJ d (read i)).1 ∧ j = (raplDeltaJ d (read i)).2 := by
  obtain ⟨i', d', hi', hd', rfl, rfl⟩ := deltaOf_cases h
  obtain rfl := Option.some.inj (hi.symm.trans hi')
  obtain rfl := Option.some.inj (hd.symm.trans hd')
  exact ⟨List.getElem?_set_self (List.getElem?_eq_some_iff.mp hd).1, rfl⟩

theorem deltaOf_other {other : Text} (hne : other ≠ name) {i : Nat}
    (hi : findDom rapl other = some i) (h : deltaOf rapl read name = some (rapl', j)) :
    rapl'[i]? = rapl[i]? := by
  obtain ⟨i', d', hi', -, rfl, -⟩ := deltaOf_cases h
  apply List.getElem?_set_ne
  rintro rfl
  obtain ⟨d, hd, rfl⟩ := findDom_name hi
  obtain ⟨e, he, rfl⟩ := findDom_name hi'
  exact hne (congrArg RaplDom.name (Option.some.inj (hd.symm.trans he)))

/-- The five calls, one behind the other. -/
theorem readRapl_cases {joules : Joules} (h : readRapl rapl read = some (rapl', joules)) :
    ∃ r₁ r₂ r₃ r₄, deltaOf rapl read "package-0".toList = some (r₁, joules.pkg) ∧
      deltaOf r₁ read "core".toList = some (r₂, joules.core) ∧
      deltaOf r₂ read "uncore".toList = some (r₃, joules.uncore) ∧
      deltaOf r₃ read "dram".toList = some (r₄, joules.dram) ∧
      deltaOf r₄ read "psys".toList = some (rapl', joules.psys) := by
  unfold readRapl at h
  obtain ⟨⟨r₁, pkg⟩, h₁, h⟩ := Option.bind_eq_some_iff.mp h
  obtain ⟨⟨r₂, core⟩, h₂, h⟩ := Option.bind_eq_some_iff.mp h
  obtain ⟨⟨r₃, uncore⟩, h₃, h⟩ := Option.bind_eq_some_iff.mp h
  obtain ⟨⟨r₄, dram⟩, h₄, h⟩ := Option.bind_eq_some_iff.mp h
  obtain ⟨⟨r₅, psys⟩, h₅, h⟩ := Option.bind_eq_some_iff.mp h
  obtain ⟨rfl, rfl⟩ := Prod.mk.inj (Option.some.inj h)
  exact ⟨r₁, r₂, r₃, r₄, h₁, h₂, h₃, h₄, h₅⟩

/-- The domain called `other` is at `i`, and is `d` there. -/
def At (rapl : List RaplDom) (other : Text) (i : Nat) (d : RaplDom) : Prop :=
  findDom rapl other = some i ∧ rapl[i]? = some d

section At

variable {other : Text} {i : Nat} {d : RaplDom}

theorem At.pass (h : At rapl other i d) (hne : other ≠ name)
    (hdelta : deltaOf rapl read name = some (rapl', j)) : At rapl' other i d :=
  ⟨(deltaOf_findDom hdelta other).trans h.1, (deltaOf_other hne h.1 hdelta).trans h.2⟩

theorem At.self (h : At rapl name i d) (hdelta : deltaOf rapl read name = some (rapl', j)) :
    At rapl' name i (raplDeltaJ d (read i)).1 ∧ j = (raplDeltaJ d (read i)).2 := by
  obtain ⟨hself, hj⟩ := deltaOf_self h.1 h.2 hdelta
  exact ⟨⟨(deltaOf_findDom hdelta name).trans h.1, hself⟩, hj⟩

theorem At.domJ (h : At rapl name i d) : domJ rapl name = some d.totalJ := by
  obtain ⟨hi, hname, hbefore⟩ := List.findIdx?_eq_some_iff_getElem.mp h.1
  obtain ⟨_, hd⟩ := List.getElem?_eq_some_iff.mp h.2
  have hfind : (rapl.find? fun d => d.name == name) = some d := by
    rw [List.find?_eq_some_iff_getElem]
    subst hd
    exact ⟨hname, i, hi, rfl, fun j hj => by simpa using hbefore j hj⟩
  unfold Energy.domJ
  rw [hfind, Option.map_some]

/-- What the five calls do to the package. -/
theorem readRapl_pkg {joules : Joules} (hat : At rapl "package-0".toList i d)
    (h : readRapl rapl read = some (rapl', joules)) :
    At rapl' "package-0".toList i (raplDeltaJ d (read i)).1 ∧
      joules.pkg = (raplDeltaJ d (read i)).2 := by
  obtain ⟨r₁, r₂, r₃, r₄, h₁, h₂, h₃, h₄, h₅⟩ := readRapl_cases h
  obtain ⟨hself, hpkg⟩ := hat.self h₁
  exact ⟨(((hself.pass (by decide) h₂).pass (by decide) h₃).pass (by decide) h₄).pass
    (by decide) h₅, hpkg⟩

end At

end Domains

/-! ## The rows of a run -/

/-- The package is at `i`, and the last look at it saw a total of `e`. -/
structure PkgSaw (m : UInt64) (i e : Nat) (s : Main) (d : RaplDom) : Prop where
  found : findDom s.rapl "package-0".toList = some i
  there : s.rapl[i]? = some d
  saw : Saw m e d

/-- Since the previous sample, the time that passed and the joules that the package used. -/
def intervals : ℚ → Nat → List (Tick × Nat) → List (ℚ × ℚ)
  | _, _, [] => []
  | t, e, (tick, e') :: ticks => (tick.t - t, joules (e' - e)) :: intervals tick.t e' ticks

-- The totals that the samples saw.
def looks (ticks : List (Tick × Nat)) : List (Option Nat) := ticks.map fun p => some p.2

theorem sampleStep_pkg {o : Options} {mach : Machine} {m : UInt64} (hm : 0 < m) {i e e' : Nat}
    {s s' : Main} {d : RaplDom} {tick : Tick} (hsaw : PkgSaw m i e s d)
    (hread : tick.energyUj i = some (counterAt m e')) (hle : e ≤ e') (hlt : e' < e + m.toNat)
    (hout : o.output = true) (hgo : s'.pc ≠ .crashed)
    (h : sampleStep o mach s tick = some s') :
    ∃ r, s'.rows = s.rows ++ [r] ∧ r.t = tick.t ∧
      r.pkg = per (some (joules (e' - e))) (dtOf o) ∧
      ∃ d', PkgSaw m i e' s' d' ∧ d'.totalJ = d.totalJ + joules (e' - e) := by
  obtain ⟨-, ⟨-, rfl⟩ | ⟨rapl, j, hrapl, rfl⟩⟩ := sampleStep_cases h
  · exact absurd rfl hgo
  · obtain ⟨⟨hfound, hthere⟩, hpkg⟩ := readRapl_pkg ⟨hsaw.found, hsaw.there⟩ hrapl
    rw [hread, raplDeltaJ_some hm hsaw.saw hle hlt] at hthere hpkg
    refine ⟨rowOf o mach s tick j, ?_, rfl, ?_, _, ⟨hfound, hthere, ?_⟩, rfl⟩
    · simp only [sampled, hout, if_true]
    · simp only [rowOf, hpkg]
    · exact ⟨hsaw.saw.present, hsaw.saw.range, rfl⟩

theorem run_not_crashed {o : Options} {mach : Machine} {s s' : Main} {ticks : List Tick}
    (hrun : run (sampleStep o mach) s ticks = some s') (hgo : s'.pc ≠ .crashed) :
    s.pc ≠ .crashed := by
  cases ticks with
  | nil =>
    obtain rfl := Option.some.inj hrun
    exact hgo
  | cons tick ticks =>
    obtain ⟨u, hu, -⟩ := run_cons_eq_some.mp hrun
    rw [(sampleStep_cases hu).1]
    simp

/-- The rows that a run adds. -/
theorem run_rows {o : Options} {mach : Machine} {m : UInt64} (hm : 0 < m) {i : Nat}
    (hout : o.output = true) (ticks : List (Tick × Nat))
    (hreads : ∀ p ∈ ticks, p.1.energyUj i = some (counterAt m p.2)) {t : ℚ} {e : Nat}
    {s s' : Main} {d : RaplDom} (hsaw : PkgSaw m i e s d)
    (hgrows : Grows m.toNat e (looks ticks)) (hgo : s'.pc ≠ .crashed)
    (hrun : run (sampleStep o mach) s (ticks.map Prod.fst) = some s') :
    ∃ rows, s'.rows = s.rows ++ rows ∧ rows.map (·.t) = ticks.map (·.1.t) ∧
      rows.map (·.pkg) = (intervals t e ticks).map (fun p => per (some p.2) (dtOf o)) ∧
      ∃ d', PkgSaw m i (lastOf e (looks ticks)) s' d' ∧
        d'.totalJ = d.totalJ + joules (lastOf e (looks ticks) - e) := by
  induction ticks generalizing t e s d with
  | nil =>
    obtain rfl := Option.some.inj hrun
    exact ⟨[], by simp, rfl, rfl, d, hsaw, by simp [looks, lastOf, joules]⟩
  | cons p ticks ih =>
    obtain ⟨tick, e'⟩ := p
    obtain ⟨hle, hlt, hrest⟩ : e ≤ e' ∧ e' < e + m.toNat ∧
      Grows m.toNat e' (looks ticks) := hgrows
    obtain ⟨u, hu, hrun⟩ := run_cons_eq_some.mp hrun
    have hread : tick.energyUj i = some (counterAt m e') := hreads _ List.mem_cons_self
    obtain ⟨r, hrow, ht, hpkg, d₁, hsaw₁, htotal₁⟩ :=
      sampleStep_pkg hm hsaw hread hle hlt hout (run_not_crashed hrun hgo) hu
    obtain ⟨rows, hrows, hts, hpkgs, d₂, hsaw₂, htotal₂⟩ :=
      ih (fun q hq => hreads q (List.mem_cons_of_mem _ hq)) (t := tick.t) hsaw₁ hrest hrun
    refine ⟨r :: rows, ?_, ?_, ?_, d₂, hsaw₂, ?_⟩
    · rw [hrows, hrow, List.append_assoc, List.singleton_append]
    · rw [List.map_cons, List.map_cons, ht, hts]
    · rw [intervals, List.map_cons, List.map_cons, hpkg, hpkgs]
    · have hgrown : e' ≤ lastOf e' (looks ticks) := le_lastOf hrest
      have hlast : lastOf e (looks ((tick, e') :: ticks)) =
          lastOf e' (looks ticks) := rfl
      rw [htotal₂, htotal₁, add_assoc, joules_add, hlast]
      congr 2
      omega

/-! ## What the rows add up to -/

/-- The sum of `pkg_w` times the step of `t_s`, over the rows behind a sample at `t`. -/
def integral : ℚ → List Row → Double
  | _, [] => some 0
  | t, r :: rows =>
    match r.pkg, integral r.t rows with
    | some w, some rest => some (w * (r.t - t) + rest)
    | _, _ => none

/-- An interval without energy, or as long as it was meant to be. -/
def Fair (dt : ℚ) (p : ℚ × ℚ) : Prop := dt ≠ 0 ∧ p.1 ≠ 0 ∧ (p.2 = 0 ∨ p.1 = dt)

/-- What a counter that did not move gives. -/
theorem ratio_zero (scale : Double) (b : UInt64) :
    ratio scale 0 b = none ∨ ratio scale 0 b = some 0 := by
  unfold ratio per
  cases scale with
  | none => exact Or.inl rfl
  | some x =>
    rw [Option.bind_some]
    split_ifs
    · exact Or.inl rfl
    · exact Or.inr (by simp)

theorem per_eq_iff {j a b : ℚ} (ha : a ≠ 0) (hb : b ≠ 0) :
    per (some j) a = per (some j) b ↔ j = 0 ∨ b = a := by
  unfold per
  rw [if_neg ha, if_neg hb, Option.map_some, Option.map_some, Option.some.injEq,
    div_eq_div_iff ha hb]
  constructor
  · intro h
    obtain hba | hj := mul_eq_mul_left_iff.mp h
    · exact Or.inr hba
    · exact Or.inl hj
  · rintro (rfl | rfl) <;> simp

theorem integral_of_fair {dt : ℚ} {m : Nat} (ticks : List (Tick × Nat)) {t : ℚ} {e : Nat}
    (hgrows : Grows m e (looks ticks)) {rows : List Row}
    (hts : rows.map (·.t) = ticks.map (·.1.t))
    (hpkgs : rows.map (·.pkg) = (intervals t e ticks).map (fun p => per (some p.2) dt))
    (hfair : ∀ p ∈ intervals t e ticks, Fair dt p) :
    integral t rows = some (joules (lastOf e (looks ticks) - e)) := by
  induction ticks generalizing t e rows with
  | nil =>
    obtain rfl := List.map_eq_nil_iff.mp hts
    simp [integral, looks, lastOf, joules]
  | cons p ticks ih =>
    obtain ⟨tick, e'⟩ := p
    obtain ⟨hle, -, hrest⟩ : e ≤ e' ∧ e' < e + m ∧
      Grows m e' (looks ticks) := hgrows
    obtain ⟨r, rows, rfl, ht, hts⟩ := List.map_eq_cons_iff.mp hts
    obtain ⟨hpkg, hpkgs⟩ := List.cons.inj hpkgs
    obtain ⟨⟨hdt, -, hpaid⟩, hfair⟩ := List.forall_mem_cons.mp hfair
    simp only at hpkg ht hpaid
    have hgrown : e' ≤ lastOf e' (looks ticks) := le_lastOf hrest
    have hlast : lastOf e (looks ((tick, e') :: ticks)) =
        lastOf e' (looks ticks) := rfl
    have hint := ih hrest hts hpkgs hfair
    have harea : joules (e' - e) / dt * (tick.t - t) = joules (e' - e) := by
      obtain hzero | hlong := hpaid
      · rw [hzero, zero_div, zero_mul]
      · rw [hlong, div_mul_cancel₀ _ hdt]
    have hwatts : r.pkg = some (joules (e' - e) / dt) := by
      rw [hpkg, per, if_neg hdt, Option.map_some]
    simp only [integral, hwatts, ht, hint]
    rw [harea, joules_add, hlast]
    congr 2
    omega

theorem fair_of_integral {dt : ℚ} (ticks : List (Tick × Nat)) {t : ℚ} {e : Nat}
    {rows : List Row} (hts : rows.map (·.t) = ticks.map (·.1.t))
    (hpkgs : rows.map (·.pkg) = (intervals t e ticks).map (fun p => per (some p.2) dt))
    (hright : rows.map (·.pkg) = (intervals t e ticks).map (fun p => per (some p.2) p.1))
    {j : ℚ} (hint : integral t rows = some j) :
    ∀ p ∈ intervals t e ticks, Fair dt p := by
  induction ticks generalizing t e rows j with
  | nil => exact List.forall_mem_nil _
  | cons p ticks ih =>
    obtain ⟨tick, e'⟩ := p
    obtain ⟨r, rows, rfl, ht, hts⟩ := List.map_eq_cons_iff.mp hts
    obtain ⟨hpkg, hpkgs⟩ := List.cons.inj hpkgs
    obtain ⟨hpkg', hright⟩ := List.cons.inj hright
    unfold integral at hint
    split at hint
    · rename_i w rest hw hrest
      simp only at ht
      rw [ht] at hrest
      refine List.forall_mem_cons.mpr ⟨?_, ih hts hpkgs hright hrest⟩
      have hdt : dt ≠ 0 := by
        rintro rfl
        simp [hpkg, per] at hw
      have helapsed : tick.t - t ≠ 0 := by
        intro hzero
        simp [hpkg', per, hzero] at hw
      exact ⟨hdt, helapsed, (per_eq_iff hdt helapsed).mp (hpkg.symm.trans hpkg')⟩
    · simp at hint

/-! ## What the columns promise -/

/-- Each `pkg_w` is the power of its interval, and they add up to `pkg_j`. -/
structure Integrates (e₀ : Nat) (ticks : List (Tick × Nat)) (s : Main) : Prop where
  rows : s.rows.map (·.pkg) = (intervals 0 e₀ ticks).map fun p => per (some p.2) p.1
  sum : integral 0 s.rows = domJ s.rapl "package-0".toList

theorem start_pkg {m : UInt64} (hm : 0 < m) {i e e₀ : Nat} {rapl : List RaplDom} {first : Tick}
    {d : RaplDom} (hfound : findDom rapl "package-0".toList = some i) (hthere : rapl[i]? = some d)
    (hsaw : Saw m e d) (hle : e ≤ e₀) (hlt : e₀ < e + m.toNat)
    (hread : first.energyUj i = some (counterAt m e₀)) :
    ∃ d', PkgSaw m i e₀ (start rapl first) d' ∧ d'.totalJ = 0 := by
  have hnames : (prime rapl first.energyUj).map (·.name) = rapl.map (·.name) := by
    unfold prime
    apply List.ext_getElem?
    intro k
    simp only [List.getElem?_map, List.getElem?_mapIdx, Option.map_map]
    congr 1
    funext d
    simp
  refine ⟨{ (raplDeltaJ d (first.energyUj i)).1 with totalJ := 0 }, ⟨?_, ?_, ?_⟩, rfl⟩
  · show findDom (prime rapl first.energyUj) "package-0".toList = some i
    rw [findDom_map, hnames, ← findDom_map, hfound]
  · show (prime rapl first.energyUj)[i]? = _
    unfold prime
    rw [List.getElem?_mapIdx, hthere, Option.map_some]
  · rw [hread, raplDeltaJ_some hm hsaw hle hlt]
    exact ⟨hsaw.present, hsaw.range, rfl⟩

/-- **The series integrates to the energy exactly when the samples are on time.** The run is
any that has not crashed, over samples that all read the package; `ticks` pairs each with
what the package had used by then. -/
theorem series_integrates_iff (o : Options) (hout : o.output = true) (mach : Machine)
    (m : UInt64) (hm : 0 < m) (rapl : List RaplDom) (i : Nat)
    (hfound : findDom rapl "package-0".toList = some i) (d : RaplDom) (hthere : rapl[i]? = some d)
    (e : Nat) (hsaw : Saw m e d) (first : Tick) (e₀ : Nat)
    (hfirst : first.energyUj i = some (counterAt m e₀)) (ticks : List (Tick × Nat))
    (hreads : ∀ p ∈ ticks, p.1.energyUj i = some (counterAt m p.2))
    (hgrows : Grows m.toNat e (some e₀ :: looks ticks)) (s : Main)
    (hrun : run (sampleStep o mach) (start rapl first) (ticks.map Prod.fst) = some s)
    (hgo : s.pc ≠ .crashed) :
    Integrates e₀ ticks s ↔ ∀ p ∈ intervals 0 e₀ ticks, Fair (dtOf o) p := by
  obtain ⟨hle, hlt, hgrows⟩ := hgrows
  obtain ⟨d₀, hstart, hzero⟩ := start_pkg hm hfound hthere hsaw hle hlt hfirst
  obtain ⟨rows, hrows, hts, hpkgs, d', hend, htotal⟩ :=
    run_rows hm hout ticks hreads (t := 0) hstart hgrows hgo hrun
  have hrows' : s.rows = rows := hrows
  have hj : domJ s.rapl "package-0".toList = some (joules (lastOf e₀ (looks ticks) - e₀)) := by
    rw [At.domJ ⟨hend.found, hend.there⟩, htotal, hzero, zero_add]
  subst hrows'
  constructor
  · rintro ⟨hright, hsum⟩
    exact fair_of_integral ticks hts hpkgs hright (hsum.trans hj)
  · intro hfair
    refine ⟨?_, (integral_of_fair ticks hgrows hts hpkgs hfair).trans hj.symm⟩
    rw [hpkgs]
    apply List.map_congr_left
    intro p hp
    obtain ⟨hdt, helapsed, hpaid⟩ := hfair p hp
    exact (per_eq_iff hdt helapsed).mpr hpaid

/-- The five domains, each with a counter modulo 10^9. -/
def fiveDomains : List RaplDom :=
  ["package-0", "core", "uncore", "dram", "psys"].map fun name =>
    ⟨name.toList, 1000000000, 0, 0, true⟩

-- A sample at `t` that sees `uj` in the package and nothing elsewhere.
def sampleAt (t : ℚ) (uj : UInt64) : Tick where
  t := t
  energyUj := fun i => some (if i = 0 then uj else 0)
  therm := none
  aperf := fun _ => none
  mperf := fun _ => none
  tsc := fun _ => 0
  childDone := false

/-- A sample after 200 ms and 3 J, as it was asked for. -/
theorem series_integrates_iff_on_time :
    ∃ s, run (sampleStep { output := true } ⟨1, none, 100⟩)
        (start fiveDomains (sampleAt 0 0)) [sampleAt (1 / 5) 3000000] = some s ∧
      Integrates 0 [(sampleAt (1 / 5) 3000000, 3000000)] s := by
  refine ⟨_, rfl, ?_⟩
  refine (series_integrates_iff { output := true } rfl ⟨1, none, 100⟩ 1000000000 (by decide)
    fiveDomains 0 rfl ⟨"package-0".toList, 1000000000, 0, 0, true⟩ rfl 0 ⟨rfl, rfl, rfl⟩
    (sampleAt 0 0) 0 rfl [(sampleAt (1 / 5) 3000000, 3000000)] ?_ ?_ _ rfl ?_).mpr ?_
  · simp [sampleAt, counterAt]
  · simp [Grows, looks]
  · decide
  · have hdt : (1 / 5 : ℚ) = 200 / 1000 := by norm_num
    simp [intervals, Fair, dtOf, sampleAt, hdt]

/-- The same 3 J over 250 ms: 15 W in the row, where 12 W were drawn. -/
theorem series_integrates_fails :
    ∃ s, run (sampleStep { output := true } ⟨1, none, 100⟩)
        (start fiveDomains (sampleAt 0 0)) [sampleAt (1 / 4) 3000000] = some s ∧
      s.rows.map (·.pkg) = [some 15] ∧ intervals 0 0 [(sampleAt (1 / 4) 3000000, 3000000)] =
        [(1 / 4, 3)] ∧
      integral 0 s.rows = some (15 / 4) ∧ domJ s.rapl "package-0".toList = some 3 ∧
      ¬ Integrates 0 [(sampleAt (1 / 4) 3000000, 3000000)] s := by
  refine ⟨_, rfl, by decide +kernel, by decide +kernel, by decide +kernel, by decide +kernel, ?_⟩
  rintro ⟨-, hsum⟩
  revert hsum
  decide +kernel

end Energy

end FakeBigLittle
