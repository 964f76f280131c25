import FakeBigLittle.Bench.Partition
import FakeBigLittle.Kernel.FlatControl
import FakeBigLittle.Loader.Attach

/-!
# The flat control arm

The arm `scx-flat` is launched without `--flat`, so its scheduler has the partition of the
harness.
-/

namespace FakeBigLittle

open Runs CString

/-! ## Launched with `--flat` -/

theorem attachedConfig_flat {o : Options} (hflat : o.flat = true) {n : Nat}
    {coreIdOf : Nat → Int} {skel c : Config} (hskel : skel.cpuDom = fun _ => .big)
    (hc : attachedConfig o n coreIdOf skel = .ok c) : IsFlat c := by
  obtain ⟨mode, cpus, rules, slot, rules', slot', hres, -, -, rfl⟩ := attachedConfig_ok_iff.mp hc
  unfold resolvePartition at hres
  by_cases hn : n = 0 ∨ n > blsMaxCpus
  · simp [if_pos hn] at hres
  · simp only [if_neg hn, if_pos hflat, Except.ok.injEq, Prod.mk.injEq] at hres
    obtain ⟨rfl, rfl⟩ := hres
    refine ⟨rfl, fun cpu => ?_⟩
    by_cases hcpu : cpu < n
    · simp [fillDomains, allDomains, hcpu]
    · simp [fillDomains, rodata, hskel, hcpu]

/-- Whatever else is on the command line, `--flat` launches a flat control. -/
theorem flat_option_controls {T : Type} [DecidableEq T] {positive : Text → Bool}
    {args : List Text} {o : Options} (hargs : optionLoop positive args {} = .ok o)
    (hflat : o.flat = true) {n : Nat} {c : Config} (h : Launches positive args n c) :
    FlatControl T c := by
  obtain ⟨s, coreIdOf, hstart, hc⟩ := launches_config hargs h
  exact flatControl_of_isFlat (attachedConfig_flat hflat hstart.cpuDom hc)

/-! ## The rules of the default options -/

/-- Rules for tokens that start with another byte than `b` do not add a rule for `b`. -/
theorem noRuleFor_addRules {b : UInt8} {d : Dom} {tokens : List Text}
    (htokens : ∀ token ∈ tokens, token ≠ [] ∧ UInt8.ofNat (token.headD '\x00').toNat ≠ b)
    {rules rules' : Nat → CommRule} {slot slot' : Nat} (h : NoRuleFor b rules)
    (hok : addRules d tokens rules slot = .ok (rules', slot')) : NoRuleFor b rules' := by
  induction tokens generalizing rules slot with
  | nil =>
    rw [addRules, Except.ok.injEq, Prod.mk.injEq] at hok
    exact hok.1 ▸ h
  | cons token tokens ih =>
    unfold addRules at hok
    split_ifs at hok with hslot
    refine ih (fun t ht => htokens t (List.mem_cons_of_mem _ ht)) ?_ hok
    intro i
    rcases eq_or_ne i slot with rfl | hne
    · obtain ⟨hne, hhead⟩ := htokens token List.mem_cons_self
      obtain ⟨c, cs, rfl⟩ := List.exists_cons_of_ne_nil hne
      right
      simpa [blsCommLen] using hhead
    · rw [Function.update_of_ne hne]
      exact h i

theorem defaultComms : ∃ l, ({} : Options).bigComm = some l ∧ (strtok ',' l).length = 10 ∧
    ∀ token ∈ strtok ',' l,
      token ≠ [] ∧ UInt8.ofNat (token.headD '\x00').toNat ≠ shComm.byte 0 :=
  ⟨_, rfl, by decide, by decide⟩

/-- The default rules fit, and none of them is for a shell. -/
theorem defaultRules {rules : Nat → CommRule} (h : ∀ i, (rules i).len = 0) :
    ∃ rules' slot, givenRules ({} : Options).bigComm .big rules 0 = .ok (rules', slot) ∧
      NoRuleFor (shComm.byte 0) rules' := by
  obtain ⟨l, hl, hlen, htokens⟩ := defaultComms
  rw [hl]
  cases hgiven : givenRules (some l) .big rules 0 with
  | error e =>
    obtain ⟨l', hl', -, hmany⟩ := (givenRules_error_iff _ _ _ _).mp ⟨e, hgiven⟩
    obtain rfl := Option.some.inj hl'
    unfold blsMaxCommRules at hmany
    omega
  | ok r => exact ⟨r.1, r.2, rfl, noRuleFor_addRules htokens (fun i => Or.inl (h i)) hgiven⟩

namespace Bench

/-! ## What it attaches -/

theorem blsOptions_eq (b : Bench) (factors : Factors) :
    b.blsOptions factors = withLists (b.blsOptions factors) b := rfl

theorem resolve_bls (b : Bench) (factors : Factors) {n : Nat} (hn : ¬ (n = 0 ∨ n > blsMaxCpus))
    (coreIdOf : Nat → Int) (h : ∀ cpu ∈ b.big ++ b.little, cpu < blsMaxCpus) :
    (resolvePartition (b.blsOptions factors) n coreIdOf fun _ => {}) =
      .ok (.hybrid, b.partitioned n coreIdOf) := by
  rw [blsOptions_eq]
  exact resolve_lists _ b hn coreIdOf h

theorem resolve_bls_refuses (b : Bench) (factors : Factors) (n : Nat) (coreIdOf : Nat → Int)
    (h : ∃ cpu ∈ b.big ++ b.little, blsMaxCpus ≤ cpu) :
    ∃ e, (resolvePartition (b.blsOptions factors) n coreIdOf fun _ => {}) = .error e := by
  by_cases hn : n = 0 ∨ n > blsMaxCpus
  · exact ⟨.badCpuCount n, by rw [resolvePartition, if_pos hn]⟩
  obtain ⟨cpu, hcpu, hmax⟩ := h
  rw [blsOptions_eq, resolvePartition_lists _ b hn]
  split
  · exact ⟨_, rfl⟩
  rename_i cpus hbig
  split
  · exact ⟨_, rfl⟩
  rename_i cpus' hlittle
  rcases List.mem_append.mp hcpu with hin | hin
  · obtain ⟨e, he⟩ := parse_cpulist_refuses b.big ⟨cpu, hin, hmax⟩ .big _
    rw [he] at hbig
    simp at hbig
  · obtain ⟨e, he⟩ := parse_cpulist_refuses b.little ⟨cpu, hin, hmax⟩ .little cpus
    rw [he] at hlittle
    simp at hlittle

theorem attachedConfig_bls (b : Bench) (factors : Factors) {n : Nat}
    (hn : ¬ (n = 0 ∨ n > blsMaxCpus)) (coreIdOf : Nat → Int) {s : Loader} (hstart : s.Start)
    (h : ∀ cpu ∈ b.big ++ b.little, cpu < blsMaxCpus) :
    ∃ c, attachedConfig (b.blsOptions factors) n coreIdOf s.skel = .ok c := by
  obtain ⟨rules, slot, hok, -⟩ := defaultRules hstart.rules
  exact ⟨_, attachedConfig_ok_iff.mpr ⟨.hybrid, _, rules, slot, rules, slot,
    resolve_bls b factors hn coreIdOf h, hok, rfl, rfl⟩⟩

/-- The partition of the harness is what every launched scheduler runs with. -/
theorem launched_bls (b : Bench) (factors : Factors) {positive : Text → Bool} {n : Nat}
    {c : Config} (hc : Launches positive (b.blsArgs factors) n c) :
    c.classifyMode = .hybrid ∧ c.nrCpus = n ∧ ¬ (n = 0 ∨ n > blsMaxCpus) ∧
      NoRuleFor (shComm.byte 0) c.commRules ∧
      (∀ cpu ∈ b.big ++ b.little, cpu < blsMaxCpus) ∧
      ∀ cpu ∈ b.little, cpu < n → c.cpuDom cpu = .little := by
  obtain ⟨s, coreIdOf, hstart, hok⟩ := launches_config (blsArgs_options b factors positive) hc
  obtain ⟨mode, cpus, rules, slot, rules', slot', hres, hbig, hlittle, rfl⟩ :=
    attachedConfig_ok_iff.mp hok
  have hn : ¬ (n = 0 ∨ n > blsMaxCpus) := by
    intro hn
    rw [resolvePartition, if_pos hn] at hres
    simp at hres
  have hids : ∀ cpu ∈ b.big ++ b.little, cpu < blsMaxCpus := by
    intro cpu hcpu
    by_contra hmax
    obtain ⟨e, he⟩ := resolve_bls_refuses b factors n coreIdOf ⟨cpu, hcpu, by omega⟩
    rw [he] at hres
    simp at hres
  rw [resolve_bls b factors hn coreIdOf hids, Except.ok.injEq, Prod.mk.injEq] at hres
  obtain ⟨rfl, rfl⟩ := hres
  obtain ⟨rules₀, slot₀, hok₀, hfree⟩ := defaultRules hstart.rules
  obtain ⟨rfl, rfl⟩ := Prod.mk.injEq .. ▸ Except.ok.inj (hok₀.symm.trans hbig)
  obtain ⟨rfl, rfl⟩ := Prod.mk.injEq .. ▸ Except.ok.inj hlittle
  refine ⟨rfl, rfl, hn, hfree, hids, fun cpu hcpu hlt => ?_⟩
  simp only [fillDomains, if_pos hlt]
  exact partitioned_little b n coreIdOf hcpu

/-! ## The arm -/

theorem init_little_lt {t : Topology} {argsBig : Option Text} {b : Bench}
    (h : init t argsBig = some b) : ∀ cpu ∈ b.little, cpu < t.nrCpus := by
  intro cpu hcpu
  unfold init at h
  split at h
  · obtain rfl := Option.some.inj h
    exact (mem_little.mp hcpu).1
  · obtain rfl := Option.some.inj h
    exact (mem_little.mp hcpu).1
  · obtain ⟨big, -, rfl⟩ := Option.map_eq_some_iff.mp h
    exact List.mem_range.mp (List.mem_of_mem_filter hcpu)

variable {T : Type} [DecidableEq T] [Inhabited T]

/-- With a LITTLE CPU on the machine, each part of the control is broken. -/
theorem launched_breaks {b : Bench} {factors : Factors} {positive : Text → Bool} {n : Nat}
    {c : Config} (hc : Launches positive (b.blsArgs factors) n c) {cpu : Nat}
    (hin : cpu ∈ b.little) (hlt : cpu < n) :
    ¬ NoLittleTask T c ∧ ¬ NoLittleQueue T c ∧ ¬ NoLittleCpu c := by
  obtain ⟨hmode, hcount, hsome, hrules, hids, hdom⟩ := launched_bls b factors hc
  have hpos : 0 < c.nrCpus := by omega
  have hle : c.nrCpus ≤ blsMaxCpus := by omega
  refine ⟨not_noLittleTask hmode hrules hpos hle, not_noLittleQueue hmode hrules hpos hle, ?_⟩
  intro hcpu
  have hbig := hcpu cpu (by omega)
  rw [domOfCpu_nat c cpu (hids cpu (List.mem_append_right _ hin)), hdom cpu hin hlt] at hbig
  simp at hbig

/-- A partition that the loader has room for is launched. -/
theorem launches_bls (b : Bench) (factors : Factors) (positive : Text → Bool) {n : Nat}
    (hn : ¬ (n = 0 ∨ n > blsMaxCpus)) (h : ∀ cpu ∈ b.big ++ b.little, cpu < blsMaxCpus) :
    ∃ c, Launches positive (b.blsArgs factors) n c := by
  obtain ⟨c, hc⟩ := attachedConfig_bls b factors hn (fun _ => 0) loaderStart_start h
  exact ⟨c, launches_of_config (blsArgs_options b factors positive) rfl rfl loaderStart_start hc⟩

/-- **The arm is no flat control.** What `e3_one` launches for `scx-flat` is one only when
bls refuses the CPU lists, and any scheduler that is launched breaks each part of it: some
task gets LITTLE, some task waits in the LITTLE queue, and a CPU is LITTLE. The loader
counts the CPUs that the harness counts, up to its limit. -/
theorem scx_flat_arm_controls_iff (t : Topology) (argsBig : Option Text) (b : Bench)
    (hb : init t argsBig = some b) (hlittle : b.little ≠ []) (strict : Bool)
    (positive : Text → Bool) (n : Nat) (hn : min t.nrCpus blsMaxCpus ≤ n)
    (hmax : n ≤ blsMaxCpus) :
    ((∀ c, Launches positive (b.blsArgs ⟨.scx, .flat, strict⟩) n c → FlatControl T c) ↔
      ∃ cpu ∈ b.big ++ b.little, blsMaxCpus ≤ cpu) ∧
    ∀ c, Launches positive (b.blsArgs ⟨.scx, .flat, strict⟩) n c →
      ¬ NoLittleTask T c ∧ ¬ NoLittleQueue T c ∧ ¬ NoLittleCpu c := by
  obtain ⟨little, hin⟩ := List.exists_mem_of_ne_nil _ hlittle
  have hlt := init_little_lt hb little hin
  have hbad : ∀ c, Launches positive (b.blsArgs ⟨.scx, .flat, strict⟩) n c →
      ¬ NoLittleTask T c ∧ ¬ NoLittleQueue T c ∧ ¬ NoLittleCpu c := by
    intro c hc
    have hsmall := (launched_bls b _ hc).2.2.2.2.1 little (List.mem_append_right _ hin)
    exact launched_breaks hc hin (by omega)
  refine ⟨⟨fun hall => ?_, fun hrefuse c hc => ?_⟩, hbad⟩
  · by_contra hids
    have hids' : ∀ cpu ∈ b.big ++ b.little, cpu < blsMaxCpus := by
      intro cpu hcpu
      by_contra hbig
      exact hids ⟨cpu, hcpu, by omega⟩
    have hpos := hids' little (List.mem_append_right _ hin)
    obtain ⟨c, hc⟩ := launches_bls b ⟨.scx, .flat, strict⟩ positive (n := n) (by omega) hids'
    exact (hbad c hc).1 (hall c hc).task
  · obtain ⟨cpu, hcpu, hbig⟩ := hrefuse
    have hids := (launched_bls b _ hc).2.2.2.2.1 cpu hcpu
    omega

/-- On four cores with two threads each. -/
theorem scx_flat_arm_controls_iff_four :
    (∀ c, Launches (fun _ => false) (blsArgs ⟨[0, 1, 4, 5], [2, 3, 6, 7]⟩ ⟨.scx, .flat, false⟩)
      8 c → FlatControl Nat c) ↔ ∃ cpu ∈ [0, 1, 4, 5, 2, 3, 6, 7], blsMaxCpus ≤ cpu :=
  (scx_flat_arm_controls_iff ⟨8, fun c => (c % 4 : Nat)⟩ none ⟨[0, 1, 4, 5], [2, 3, 6, 7]⟩
    (by decide) (by decide) false (fun _ => false) 8 (by decide) (by decide)).1

/-- There the arm `scx-flat` launches a scheduler that makes a task LITTLE. -/
theorem scx_flat_arm_partitions :
    ("scx-flat".toList, ⟨.scx, .flat, false⟩) ∈ e3Arms ∧
      ∃ b, init ⟨8, fun c => (c % 4 : Nat)⟩ none = some b ∧ b.little ≠ [] ∧
        ∃ c, Launches (fun _ => false) (b.blsArgs ⟨.scx, .flat, false⟩) 8 c ∧
          ¬ FlatControl Nat c := by
  refine ⟨by decide, ⟨[0, 1, 4, 5], [2, 3, 6, 7]⟩, by decide, by decide, ?_⟩
  obtain ⟨c, hc⟩ := launches_bls ⟨[0, 1, 4, 5], [2, 3, 6, 7]⟩ ⟨.scx, .flat, false⟩
    (fun _ => false) (n := 8) (by decide) (by decide)
  exact ⟨c, hc, fun hflat => (launched_breaks hc (List.mem_cons_self) (by decide)).1 hflat.task⟩

end Bench

end FakeBigLittle
