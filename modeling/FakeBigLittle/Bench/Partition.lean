import FakeBigLittle.Bench.CommandLine
import FakeBigLittle.Loader.Smt
import FakeBigLittle.Spin.Proofs

/-!
# The partition, from the harness to the machine

The default partition keeps cores whole, and every reader of a CPU list gets the list that
`cpulist` prints.
-/

namespace FakeBigLittle

open CString

namespace Bench

/-! ## The default partition -/

section Default

variable {t : Topology} {c : Nat}

def cores (t : Topology) : List Int := sorted ((List.range t.nrCpus).map t.coreId).dedup

def bigCores (t : Topology) : List Int := (cores t).take (max 1 ((cores t).length / 2))

theorem mem_sorted {α : Type} [LinearOrder α] {l : List α} {x : α} : x ∈ sorted l ↔ x ∈ l :=
  List.mem_insertionSort _

theorem sorted_eq {l : List Nat} (h : l.Pairwise (· < ·)) : sorted l = l :=
  (h.imp Nat.le_of_lt).insertionSort_eq

theorem pairwise_filter_range (p : Nat → Bool) (n : Nat) :
    ((List.range n).filter p).Pairwise (· < ·) :=
  List.pairwise_lt_range.filter p

/-- The CPUs are listed in order to begin with. -/
theorem defaultPartition_eq (t : Topology) : defaultPartition t =
    ((List.range t.nrCpus).filter fun c => t.coreId c ∈ bigCores t,
      (List.range t.nrCpus).filter fun c => t.coreId c ∉ bigCores t) := by
  unfold defaultPartition
  simp only [sorted_eq (pairwise_filter_range _ _)]
  rfl

theorem mem_big : c ∈ (defaultPartition t).1 ↔ c < t.nrCpus ∧ t.coreId c ∈ bigCores t := by
  simp [defaultPartition_eq]

theorem mem_little : c ∈ (defaultPartition t).2 ↔ c < t.nrCpus ∧ t.coreId c ∉ bigCores t := by
  simp [defaultPartition_eq]

theorem mem_cores {core : Int} : core ∈ cores t ↔ ∃ cpu < t.nrCpus, t.coreId cpu = core := by
  unfold cores
  rw [mem_sorted, List.mem_dedup, List.mem_map]
  simp only [List.mem_range]

theorem big_ne_nil (h : 0 < t.nrCpus) : (defaultPartition t).1 ≠ [] := by
  obtain ⟨core, cores, hcores⟩ := List.exists_cons_of_ne_nil
    (List.ne_nil_of_mem (mem_cores.mpr ⟨0, h, rfl⟩))
  have hbig : core ∈ bigCores t := by
    unfold bigCores
    rw [hcores, List.mem_take_iff_getElem]
    exact ⟨0, by simp, rfl⟩
  obtain ⟨cpu, hcpu, hcore⟩ := mem_cores.mp (hcores ▸ List.mem_cons_self)
  exact List.ne_nil_of_mem (mem_big.mpr ⟨hcpu, hcore.symm ▸ hbig⟩)

/-- Two cores are enough for one of them to be little. -/
theorem little_ne_nil {i j : Nat} (hi : i < t.nrCpus) (hj : j < t.nrCpus)
    (hij : t.coreId i ≠ t.coreId j) : (defaultPartition t).2 ≠ [] := by
  have hnodup : (cores t).Nodup := (List.perm_insertionSort _ _).nodup_iff.mpr (List.nodup_dedup _)
  have hsub : [t.coreId i, t.coreId j] ⊆ cores t := by
    intro core hcore
    apply mem_cores.mpr
    rcases List.mem_pair.mp hcore with rfl | rfl
    · exact ⟨i, hi, rfl⟩
    · exact ⟨j, hj, rfl⟩
  have htwo : 2 ≤ (cores t).length := (List.subperm_of_subset (by simpa using hij) hsub).length_le
  obtain ⟨core, hcore⟩ : ∃ core, core ∈ (cores t).drop (max 1 ((cores t).length / 2)) := by
    apply List.exists_mem_of_length_pos
    rw [List.length_drop]
    omega
  obtain ⟨cpu, hcpu, rfl⟩ := mem_cores.mp (List.mem_of_mem_drop hcore)
  have hsmall : t.coreId cpu ∉ bigCores t := fun hbig =>
    List.disjoint_take_drop hnodup (Nat.le_refl _) hbig hcore
  exact List.ne_nil_of_mem (mem_little.mpr ⟨hcpu, hsmall⟩)

end Default

/-! ## What spin reads -/

theorem spin_cpuRange (p : Text) : Spin.cpuRange p = (FakeBigLittle.cpuRange p).toOption := by
  unfold Spin.cpuRange FakeBigLittle.cpuRange
  generalize strtol p = r
  split
  · rfl
  · rename_i a q
    simp only
    cases strtol q <;> rfl
  · simp_all [Except.toOption]

theorem readsAs_runs (rs : List (Nat × Nat)) :
    Spin.ReadsAs ([','].intercalate (rs.map fun r => part r.1 r.2))
      (rs.map fun r => (min longMax (r.1 : Int), min longMax (r.2 : Int))) true := by
  induction rs with
  | nil => exact .done
  | cons r rs ih =>
    obtain ⟨rest, hbehind, htext, htail⟩ :=
      intercalate_cons (part r.1 r.2) (rs.map fun r => part r.1 r.2)
    have hrange : Spin.cpuRange (part r.1 r.2 ++ rest) =
        some ((min longMax (r.1 : Int), min longMax (r.2 : Int)), rest) := by
      rw [spin_cpuRange, cpuRange_part hbehind]
      rfl
    have hskip : Spin.skipComma rest = rest.tail := by
      rcases hbehind with rfl | ⟨s, rfl⟩ <;> rfl
    rw [List.map_cons, htext, List.map_cons]
    refine .item hrange ?_
    rw [hskip, htail]
    exact ih

theorem idsOf_cpusOf {r : Nat × Nat} (hmax : r.2 < Spin.maxThreads) (hle : r.1 ≤ r.2) :
    Spin.idsOf (min longMax (r.1 : Int), min longMax (r.2 : Int)) = (cpusOf r).map Nat.cast := by
  unfold Spin.maxThreads at hmax
  have ha : min longMax (r.1 : Int) = r.1 := by unfold longMax; omega
  have hb : min longMax (r.2 : Int) = r.2 := by unfold longMax; omega
  have hlen : ((r.2 : Int) - r.1 + 1).toNat = r.2 + 1 - r.1 := by omega
  unfold Spin.idsOf cpusOf
  simp only [ha, hb, hlen]
  rw [List.range'_eq_map_range, List.map_map]
  refine List.map_congr_left fun i hi => ?_
  rw [List.mem_range] at hi
  rw [Function.comp_apply, Nat.cast_add]
  exact Int.bmod_eq_of_le (by omega) (by omega)

theorem length_le_max {xs : List Nat} (hxs : xs.Pairwise (· < ·)) {m : Nat}
    (hmax : ∀ x ∈ xs, x < m) : xs.length ≤ m := by
  have hsub : xs ⊆ List.range m := fun x hx => List.mem_range.mpr (hmax x hx)
  simpa using (List.subperm_of_subset (hxs.imp Nat.ne_of_lt) hsub).length_le

/-- spin places its load on the CPUs of the list, in its order. -/
theorem spin_cpulist {xs : List Nat} (hxs : xs.Pairwise (· < ·))
    (hmax : ∀ x ∈ xs, x < Spin.maxThreads) :
    Spin.parseCpus (cpulist xs) = some (xs.map Nat.cast) := by
  cases xs with
  | nil => rfl
  | cons c cs =>
    have hids : ((runsOf c c cs).map fun r =>
        (min longMax (r.1 : Int), min longMax (r.2 : Int))).flatMap Spin.idsOf =
          (c :: cs).map Nat.cast := by
      rw [← runsOf_flatMap c cs, List.map_flatMap, List.flatMap_map]
      exact List.flatMap_congr fun r hr =>
        idsOf_cpusOf ((runsOf_lt_iff c cs).mpr hmax r hr) (runsOf_le (Nat.le_refl c) cs r hr)
    have hread := Spin.parseCpus_eq (readsAs_runs (runsOf c c cs))
    rw [hids, if_neg (by simp), List.take_of_length_le, ← cpulistLoop_eq] at hread
    · exact hread
    · simpa using length_le_max hxs hmax

/-! ## What the harness reads -/

theorem isDigit_str {n : Nat} {c : Char} (h : c ∈ str n) : c.isDigit = true :=
  Nat.isDigit_of_mem_toDigits (by omega) (by omega) h

theorem notMem_str {n : Nat} {c : Char} (h : c.isDigit = false) : c ∉ str n := by
  intro hc
  rw [isDigit_str hc] at h
  exact absurd h (by simp)

theorem int_str (n : Nat) : int (str n) = some n := by
  have hfront : (str n).dropWhile isSpace = str n := by
    obtain ⟨c, cs, hcs⟩ := List.exists_cons_of_ne_nil (Nat.toDigits_ne_nil (n := n) (b := 10))
    have hc : c.isDigit = true := isDigit_str (n := n) (by simp [str, hcs])
    rw [str, hcs, List.dropWhile_cons_of_neg (by simp [isDigit_not_space hc])]
  have hback : (str n).rdropWhile isSpace = str n := by
    rw [List.rdropWhile_eq_self_iff]
    intro hne hspace
    rw [isDigit_not_space (isDigit_str (List.getLast_mem hne))] at hspace
    exact absurd hspace (by simp)
  have hplus : (str n).head? ≠ some '+' := by
    intro hhead
    exact notMem_str (by decide) (List.mem_of_head? hhead)
  have hsplit : (str n).splitOn '_' = [str n] :=
    List.splitOn_eq_singleton (notMem_str (by decide))
  have hall : (str n).all Char.isDigit = true := List.all_eq_true.mpr fun c hc => isDigit_str hc
  unfold int
  simp only [hfront, hback, if_neg hplus, hsplit]
  unfold str at hall ⊢
  simp [hall, Nat.toDigits_ne_nil, Nat.ofDigitChars_ten_toDigits]

theorem parsePart_part {a b : Nat} : parsePart (part a b) = some (cpusOf (a, b)) := by
  unfold parsePart part
  split_ifs with hab hdash hdash
  · exact absurd hdash (notMem_str (by decide))
  · rw [int_str]
    simp [cpusOf, hab]
  · rw [List.splitOn_append_cons_self_of_not_mem (notMem_str (by decide)),
      List.splitOn_eq_singleton (notMem_str (by decide))]
    simp only [int_str]
    rfl
  · simp at hdash

theorem parsePart_runs (rs : List (Nat × Nat)) :
    (rs.map fun r => part r.1 r.2).mapM parsePart = some (rs.map cpusOf) := by
  induction rs with
  | nil => rfl
  | cons r rs ih => simp [List.mapM_cons, parsePart_part, ih]

theorem comma_notMem_part (a b : Nat) : ',' ∉ part a b := by
  have hstr : ∀ n, ',' ∉ str n := fun n => notMem_str (by decide)
  unfold part
  split_ifs
  · exact hstr a
  · simp [hstr]

/-- The harness reads back a list that it printed. -/
theorem bench_cpulist {xs : List Nat} (hxs : xs.Pairwise (· < ·)) (hne : xs ≠ []) :
    parseCpulist (cpulist xs) = some xs := by
  obtain ⟨c, cs, rfl⟩ := List.exists_cons_of_ne_nil hne
  have hruns : runsOf c c cs ≠ [] := by
    intro hnil
    have hflat := runsOf_flatMap c cs
    rw [hnil] at hflat
    simp at hflat
  have hsplit : (cpulist (c :: cs)).splitOn ',' =
      (runsOf c c cs).map fun r => part r.1 r.2 := by
    rw [cpulist, cpulistLoop_eq]
    apply List.splitOn_intercalate
    · intro l hl
      obtain ⟨r, -, rfl⟩ := List.mem_map.mp hl
      exact comma_notMem_part r.1 r.2
    · simpa using hruns
  unfold parseCpulist
  rw [hsplit, parsePart_runs, Option.map_some, ← List.flatMap_def, runsOf_flatMap, sorted_eq hxs]

/-! ## What the loader holds -/

/-- The CPU table behind `--big` and `--little`. -/
def partitioned (b : Bench) (n : Nat) (coreIdOf : Nat → Int) : Nat → CpuState :=
  setDomains .little b.little
    (setDomains .big b.big (allDomains n (defaultDomains n coreIdOf fun _ => {}) .big))

/-- The options of a loader that is given the two lists. -/
def withLists (o : Options) (b : Bench) : Options :=
  { o with bigList := some (cpulist b.big), littleList := some (cpulist b.little), flat := false }

theorem resolvePartition_lists (o : Options) (b : Bench) {n : Nat}
    (hn : ¬ (n = 0 ∨ n > blsMaxCpus)) (coreIdOf : Nat → Int) (cpus : Nat → CpuState) :
    resolvePartition (withLists o b) n coreIdOf cpus =
      match FakeBigLittle.parseCpulist (cpulist b.big) .big
          (allDomains n (defaultDomains n coreIdOf cpus) .big) with
      | .error e => .error e
      | .ok cpus =>
        match FakeBigLittle.parseCpulist (cpulist b.little) .little cpus with
        | .error e => .error e
        | .ok cpus => .ok (o.mode, cpus) := by
  unfold resolvePartition
  rw [if_neg hn]
  rfl

theorem resolve_lists (o : Options) (b : Bench) {n : Nat} (hn : ¬ (n = 0 ∨ n > blsMaxCpus))
    (coreIdOf : Nat → Int) (h : ∀ cpu ∈ b.big ++ b.little, cpu < blsMaxCpus) :
    (resolvePartition (withLists o b) n coreIdOf fun _ => {}) =
      .ok (o.mode, b.partitioned n coreIdOf) := by
  have hbig := parse_cpulist b.big (fun x hx => h x (List.mem_append_left _ hx)) .big
  have hlittle := parse_cpulist b.little (fun x hx => h x (List.mem_append_right _ hx)) .little
  rw [resolvePartition_lists o b hn]
  simp only [hbig, hlittle, partitioned]

/-- A CPU of the LITTLE list is LITTLE, whatever the BIG list says. -/
theorem partitioned_little (b : Bench) (n : Nat) (coreIdOf : Nat → Int) {cpu : Nat}
    (h : cpu ∈ b.little) : (b.partitioned n coreIdOf cpu).domain = .little := by
  unfold partitioned
  rw [setDomains_domain, if_pos h]

theorem partitioned_big (b : Bench) {n : Nat} (coreIdOf : Nat → Int) {cpu : Nat} (hcpu : cpu < n)
    (h : cpu ∉ b.little) : (b.partitioned n coreIdOf cpu).domain = .big := by
  unfold partitioned
  rw [setDomains_domain, if_neg h, setDomains_domain]
  simp [allDomains, hcpu]

theorem partitioned_coreId (b : Bench) {n : Nat} (coreIdOf : Nat → Int) {cpu : Nat}
    (hcpu : cpu < n) : (b.partitioned n coreIdOf cpu).coreId = coreIdOf cpu := by
  have hset : ∀ d xs cpus, (setDomains d xs cpus cpu).coreId = (cpus cpu).coreId := by
    intro d xs cpus
    rw [setDomains_apply]
    split_ifs <;> rfl
  unfold partitioned
  rw [hset, hset]
  simp [allDomains, defaultDomains, hcpu]

/-! ## The whole way -/

/-- Two sorted lists that share the CPUs out and keep every core whole. -/
structure Partitions (t : Topology) (big little : List Nat) : Prop where
  sortedBig : big.Pairwise (· < ·)
  sortedLittle : little.Pairwise (· < ·)
  disjoint : big.Disjoint little
  covers : ∀ cpu, cpu ∈ big ++ little ↔ cpu < t.nrCpus
  whole : ∀ i < t.nrCpus, ∀ j < t.nrCpus, t.coreId i = t.coreId j → (i ∈ big ↔ j ∈ big)
  hasBig : big ≠ [] ↔ 0 < t.nrCpus
  hasLittle : ∀ i < t.nrCpus, ∀ j < t.nrCpus, t.coreId i ≠ t.coreId j → little ≠ []

theorem defaultPartition_partitions (t : Topology) :
    Partitions t (defaultPartition t).1 (defaultPartition t).2 where
  sortedBig := by
    rw [defaultPartition_eq]
    exact pairwise_filter_range _ _
  sortedLittle := by
    rw [defaultPartition_eq]
    exact pairwise_filter_range _ _
  disjoint _ hbig hlittle := (mem_little.mp hlittle).2 (mem_big.mp hbig).2
  covers cpu := by
    rw [List.mem_append, mem_big, mem_little]
    tauto
  whole i hi j hj hcore := by
    rw [mem_big, mem_big, hcore]
    tauto
  hasBig := by
    refine ⟨fun hne => ?_, big_ne_nil⟩
    obtain ⟨cpu, hcpu⟩ := List.exists_mem_of_ne_nil _ hne
    exact Nat.zero_lt_of_lt (mem_big.mp hcpu).1
  hasLittle _ hi _ hj := little_ne_nil hi hj

/-- What the readers of `cpulist xs` make of it: the loader the domain of exactly these CPUs,
spin and the harness the list itself. -/
structure Arrives (xs : List Nat) : Prop where
  bls : ∀ d cpus, ∃ cpus', FakeBigLittle.parseCpulist (cpulist xs) d cpus = .ok cpus' ∧
    ∀ cpu, cpus' cpu = if cpu ∈ xs then { cpus cpu with domain := d } else cpus cpu
  spin : xs ≠ [] → Spin.parseCpus (cpulist xs) = some (xs.map Nat.cast)
  bench : xs ≠ [] → parseCpulist (cpulist xs) = some xs

theorem arrives {xs : List Nat} (hxs : xs.Pairwise (· < ·)) (hmax : ∀ x ∈ xs, x < 64) :
    Arrives xs where
  bls d cpus := ⟨_, parse_cpulist xs hmax d cpus, setDomains_apply d xs cpus⟩
  spin _ := spin_cpulist hxs hmax
  bench hne := bench_cpulist hxs hne

/-- The loader holds the lists, and its SMT check is silent. -/
structure Holds (t : Topology) (big little : List Nat) (cpus : Nat → CpuState) : Prop where
  big : ∀ cpu < t.nrCpus, (cpus cpu).domain = .big ↔ cpu ∈ big
  little : ∀ cpu < t.nrCpus, (cpus cpu).domain = .little ↔ cpu ∈ little
  whole : checkSmtSplit t.nrCpus cpus = 0

theorem partitioned_holds {t : Topology} {b : Bench} (h : Partitions t b.big b.little) :
    Holds t b.big b.little (b.partitioned t.nrCpus t.coreId) := by
  have hdomain : ∀ cpu < t.nrCpus, (cpu ∈ b.big ∧ cpu ∉ b.little ∧
      (b.partitioned t.nrCpus t.coreId cpu).domain = .big) ∨
      (cpu ∉ b.big ∧ cpu ∈ b.little ∧
        (b.partitioned t.nrCpus t.coreId cpu).domain = .little) := by
    intro cpu hcpu
    rcases List.mem_append.mp ((h.covers cpu).mpr hcpu) with hbig | hlittle
    · have hno : cpu ∉ b.little := fun hlittle => h.disjoint hbig hlittle
      exact Or.inl ⟨hbig, hno, partitioned_big b t.coreId hcpu hno⟩
    · have hno : cpu ∉ b.big := fun hbig => h.disjoint hbig hlittle
      exact Or.inr ⟨hno, hlittle, partitioned_little b t.nrCpus t.coreId hlittle⟩
  refine ⟨fun cpu hcpu => ?_, fun cpu hcpu => ?_, ?_⟩
  · rcases hdomain cpu hcpu with ⟨hbig, -, hdom⟩ | ⟨hbig, -, hdom⟩ <;> simp [hdom, hbig]
  · rcases hdomain cpu hcpu with ⟨-, hlittle, hdom⟩ | ⟨-, hlittle, hdom⟩ <;> simp [hdom, hlittle]
  · by_contra hbad
    obtain ⟨i, hi, j, hj, hcore, -, hdom⟩ := (splits_iff _ _).mpr hbad
    rw [partitioned_coreId b _ hi, partitioned_coreId b _ hj] at hcore
    have hsame := h.whole i hi j hj hcore
    rcases hdomain i hi with ⟨hib, -, hid⟩ | ⟨hib, -, hid⟩ <;>
      rcases hdomain j hj with ⟨hjb, -, hjd⟩ | ⟨hjb, -, hjd⟩
    · exact hdom (hid.trans hjd.symm)
    · exact hjb (hsame.mp hib)
    · exact hib (hsame.mpr hjb)
    · exact hdom (hid.trans hjd.symm)

/-- **A partition survives the trip from the harness to the hardware.** -/
theorem partition_arrives (t : Topology) (hn : t.nrCpus ≤ 64) :
    Partitions t (defaultPartition t).1 (defaultPartition t).2 ∧
    (∀ xs : List Nat, xs.Pairwise (· < ·) → (∀ x ∈ xs, x < 64) → Arrives xs) ∧
    ∀ o : Options, 0 < t.nrCpus →
      ∃ cpus, (resolvePartition
          (withLists o ⟨(defaultPartition t).1, (defaultPartition t).2⟩)
          t.nrCpus t.coreId fun _ => {}) = .ok (o.mode, cpus) ∧
        Holds t (defaultPartition t).1 (defaultPartition t).2 cpus := by
  have hpart := defaultPartition_partitions t
  refine ⟨hpart, fun xs hxs hmax => arrives hxs hmax, fun o hpos => ?_⟩
  refine ⟨_, resolve_lists o _ (by unfold blsMaxCpus; omega) t.coreId ?_,
    partitioned_holds (b := ⟨_, _⟩) hpart⟩
  intro cpu hcpu
  have := (hpart.covers cpu).mp hcpu
  unfold blsMaxCpus
  omega

/-- Four CPUs whose siblings are `i` and `i + 2`. -/
theorem partition_arrives_four :
    Holds ⟨4, fun cpu => (cpu % 2 : Nat)⟩ [0, 2] [1, 3]
      (partitioned ⟨[0, 2], [1, 3]⟩ 4 fun cpu => (cpu % 2 : Nat)) := by
  obtain ⟨cpus, hres, hholds⟩ :=
    (partition_arrives ⟨4, fun cpu => (cpu % 2 : Nat)⟩ (by decide)).2.2 {} (by decide)
  have hcpus : cpus = partitioned ⟨[0, 2], [1, 3]⟩ 4 fun cpu => (cpu % 2 : Nat) := by
    obtain ⟨-, rfl⟩ := Prod.mk.inj (Except.ok.inj hres)
    rfl
  exact hcpus ▸ hholds

end Bench

end FakeBigLittle
