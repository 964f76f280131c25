import FakeBigLittle.Energy.Summary

/-!
# Domains that are not there

`dom_j` asks whether `find_dom` has found something, and the sampling loop does not. Where
all five domains are there, each is sampled as if it were alone.
-/

namespace FakeBigLittle

open CString Runs

namespace Energy

/-- A domain of the loop: its name, the joules of a round and the cell of a row. -/
structure Column where
  name : Text
  joules : Joules → Double
  watts : Row → Double

def columns : List Column :=
  [⟨"package-0".toList, Joules.pkg, Row.pkg⟩, ⟨"core".toList, Joules.core, Row.core⟩,
    ⟨"uncore".toList, Joules.uncore, Row.uncore⟩, ⟨"dram".toList, Joules.dram, Row.dram⟩,
    ⟨"psys".toList, Joules.psys, Row.psys⟩]

/-- The domain at `i` of `rapl`, read alone: when `main` primes it and then in every round. -/
def alone (d : RaplDom) (i : Nat) (first : Tick) (ticks : List Tick) : RaplDom × List Double :=
  calls { (raplDeltaJ d (first.energyUj i)).1 with totalJ := 0 } (ticks.map (·.energyUj i))

/-- No missing domain is dereferenced. Those that are absent show NaN in their column and in
the summary, and those that are present show what they would show alone. -/
structure SamplesEach (o : Options) (rapl : List RaplDom) (first : Tick) (ticks : List Tick)
    (s : Main) : Prop where
  safe : s.pc ≠ .crashed
  absent : ∀ c ∈ columns, findDom rapl c.name = none →
    (∀ r ∈ s.rows, c.watts r = none) ∧ domJ s.rapl c.name = none
  present : ∀ c ∈ columns, ∀ i d, findDom rapl c.name = some i → rapl[i]? = some d →
    domJ s.rapl c.name = some (alone d i first ticks).1.totalJ ∧
      (o.output = true →
        s.rows.map c.watts = (alone d i first ticks).2.map fun j => per j (dtOf o))

/-! ## One round -/

section Round

variable {rapl rapl' : List RaplDom} {read : Nat → Option UInt64}

/-- What the five calls do to each of their domains. -/
theorem readRapl_each {j : Joules} (h : readRapl rapl read = some (rapl', j)) :
    ∀ c ∈ columns, ∀ i d, At rapl c.name i d →
      At rapl' c.name i (raplDeltaJ d (read i)).1 ∧ c.joules j = (raplDeltaJ d (read i)).2 := by
  obtain ⟨r₁, r₂, r₃, r₄, h₁, h₂, h₃, h₄, h₅⟩ := readRapl_cases h
  unfold columns
  simp only [List.forall_mem_cons]
  refine ⟨fun i d hat => ?_, fun i d hat => ?_, fun i d hat => ?_, fun i d hat => ?_,
    fun i d hat => ?_, List.forall_mem_nil _⟩
  · exact readRapl_pkg hat h
  · obtain ⟨hself, hj⟩ := (hat.pass (by decide) h₁).self h₂
    exact ⟨((hself.pass (by decide) h₃).pass (by decide) h₄).pass (by decide) h₅, hj⟩
  · obtain ⟨hself, hj⟩ := ((hat.pass (by decide) h₁).pass (by decide) h₂).self h₃
    exact ⟨(hself.pass (by decide) h₄).pass (by decide) h₅, hj⟩
  · obtain ⟨hself, hj⟩ :=
      (((hat.pass (by decide) h₁).pass (by decide) h₂).pass (by decide) h₃).self h₄
    exact ⟨hself.pass (by decide) h₅, hj⟩
  · exact ((((hat.pass (by decide) h₁).pass (by decide) h₂).pass (by decide) h₃).pass
      (by decide) h₄).self h₅

end Round

theorem watts_rowOf (o : Options) (m : Machine) (s : Main) (tick : Tick) (j : Joules) :
    ∀ c ∈ columns, c.watts (rowOf o m s tick j) = per (c.joules j) (dtOf o) := by
  unfold columns
  simp only [List.forall_mem_cons]
  exact ⟨rfl, rfl, rfl, rfl, rfl, List.forall_mem_nil _⟩

/-! ## Runs -/

/-- A run that does not crash reads a domain as it is read alone. -/
theorem run_alone {o : Options} {m : Machine} {c : Column} (hc : c ∈ columns)
    (ticks : List Tick) {i : Nat} {d : RaplDom} {s s' : Main} (hat : At s.rapl c.name i d)
    (hgo : s'.pc ≠ .crashed) (hrun : run (sampleStep o m) s ticks = some s') :
    At s'.rapl c.name i (calls d (ticks.map (·.energyUj i))).1 ∧
      (o.output = true → s'.rows.map c.watts = s.rows.map c.watts ++
        (calls d (ticks.map (·.energyUj i))).2.map fun j => per j (dtOf o)) := by
  induction ticks generalizing s d with
  | nil =>
    obtain rfl := Option.some.inj hrun
    exact ⟨hat, fun _ => (List.append_nil _).symm⟩
  | cons tick ticks ih =>
    obtain ⟨u, hu, hrest⟩ := run_cons_eq_some.mp hrun
    obtain ⟨-, ⟨-, rfl⟩ | ⟨rapl, j, hread, rfl⟩⟩ := sampleStep_cases hu
    · exact absurd rfl (run_not_crashed hrest hgo)
    · obtain ⟨hat', hj⟩ := readRapl_each hread c hc i d hat
      obtain ⟨hlast, hrows⟩ := ih hat' hrest
      refine ⟨hlast, fun hout => ?_⟩
      have hrow : (sampled o m s tick rapl j).rows.map c.watts =
          s.rows.map c.watts ++ [per (raplDeltaJ d (tick.energyUj i)).2 (dtOf o)] := by
        simp only [sampled, hout, if_true, List.map_append, List.map_cons, List.map_nil,
          watts_rowOf o m s tick j c hc, hj]
      rw [hrows hout, hrow, List.append_assoc]
      rfl

theorem prime_at {rapl : List RaplDom} {name : Text} {i : Nat} {d : RaplDom}
    (h : findDom rapl name = some i) (hd : rapl[i]? = some d) (read : Nat → Option UInt64) :
    At (prime rapl read) name i { (raplDeltaJ d (read i)).1 with totalJ := 0 } := by
  refine ⟨(findDom_prime rapl read name).trans h, ?_⟩
  unfold prime
  rw [List.getElem?_mapIdx, hd, Option.map_some]

theorem columns_domains : columns.map Column.name = domains := rfl

/-- The loop comes to its first round, and a missing domain ends it there. -/
theorem crashes_of_missing {o : Options} {m : Machine} {rapl : List RaplDom} {first : Tick}
    {ticks : List Tick} {s : Main} (hne : ticks ≠ [])
    (hrun : run (sampleStep o m) (start rapl first) ticks = some s)
    (hmissing : ¬ ∀ name ∈ domains, findDom rapl name ≠ none) : s.pc = .crashed := by
  obtain ⟨tick, ticks, rfl⟩ := List.exists_cons_of_ne_nil hne
  obtain ⟨u, hu, hrest⟩ := run_cons_eq_some.mp hrun
  obtain ⟨-, ⟨-, rfl⟩ | ⟨rapl', j, hread, rfl⟩⟩ := sampleStep_cases hu
  · cases ticks with
    | nil =>
      obtain rfl := Option.some.inj hrest
      rfl
    | cons tick' ticks =>
      obtain ⟨v, hv, -⟩ := run_cons_eq_some.mp hrest
      exact absurd (sampleStep_cases hv).1 (by simp)
  · have hfound := (readRapl_found hread).2
    simp only [start, findDom_prime] at hfound
    exact absurd hfound hmissing

/-- **When sampling is safe.** Whatever `discover_rapl` has found, and whatever can be read
later, a run with at least one round samples each domain exactly when all five are there. -/
theorem samples_each_iff (o : Options) (m : Machine) (rapl : List RaplDom) (first : Tick)
    (ticks : List Tick) (hne : ticks ≠ []) (s : Main)
    (hrun : run (sampleStep o m) (start rapl first) ticks = some s) :
    SamplesEach o rapl first ticks s ↔ ∀ name ∈ domains, findDom rapl name ≠ none := by
  constructor
  · intro h
    by_contra hmissing
    exact h.safe (crashes_of_missing hne hrun hmissing)
  · intro hfound
    have hsafe : s.pc ≠ .crashed := fun hcrashed => (went_run hrun).crashed hcrashed hfound
    refine ⟨hsafe, fun c hc hnone => ?_, fun c hc i d hi hd => ?_⟩
    · have hname : c.name ∈ domains := columns_domains ▸ List.mem_map_of_mem hc
      exact absurd hnone (hfound _ hname)
    · obtain ⟨hat, hrows⟩ := run_alone hc ticks (prime_at hi hd first.energyUj) hsafe hrun
      exact ⟨hat.domJ, fun hout => hrows hout⟩

-- A package and its cores, as on a server.
def twoDirs : List RaplDir :=
  [⟨some "package-0".toList, some 262143328850, some 1000, false⟩,
    ⟨some "core".toList, some 262143328850, some 400, false⟩]

/-- One round on a machine that has all five. -/
theorem samples_each_iff_five : ∃ rapl s,
    discoverRapl (domains.map fun name => ⟨some name, some 1000, some 10, false⟩) = some rapl ∧
    run (sampleStep { output := true } ⟨1, some 2400, 100⟩) (start rapl (sampleAt 0 10))
      [sampleAt (1 / 5) 40] = some s ∧
    SamplesEach { output := true } rapl (sampleAt 0 10) [sampleAt (1 / 5) 40] s := by
  refine ⟨_, _, rfl, rfl, ?_⟩
  apply (samples_each_iff { output := true } ⟨1, some 2400, 100⟩ _ (sampleAt 0 10)
    [sampleAt (1 / 5) 40] (by simp) _ rfl).mpr
  decide

/-- A machine with two of the five: `find_dom("uncore")` is NULL and the first round
dereferences it. -/
theorem samples_each_fails : ∃ rapl s, discoverRapl twoDirs = some rapl ∧
    findDom rapl "uncore".toList = none ∧
    run (sampleStep { output := true } ⟨1, some 2400, 100⟩) (start rapl (sampleAt 0 10))
      [sampleAt (1 / 5) 40] = some s ∧
    s.pc = .crashed :=
  ⟨_, _, rfl, by decide, rfl, by decide⟩

end Energy

end FakeBigLittle
