import FakeBigLittle.Kernel.Proofs
import Mathlib.Algebra.BigOperators.Finprod
import Mathlib.Algebra.Order.Group.Unbundled.Int

/-!
# The run-time counters

`stopping` credits each slice twice: in nanoseconds to its task, and in whole milliseconds to
the counter of the domain. The two differ by what the milliseconds leave over of each slice.
-/

namespace FakeBigLittle

open Runs

variable {T : Type}

/-! ## The slices of a run -/

/-- A slice that a `stopping` ended. -/
structure Slice (T : Type) where
  task : T
  dom : Dom
  delta : UInt64

/-- The slice that a `stopping` at `now` ends, if `running` has started one. -/
def sliceOf (s : Sched T) (p : T) (now : UInt64) : Option UInt64 :=
  match s.taskCtx p with
  | none => none
  | some tc => if tc.startedAt = 0 then none else some (now - tc.startedAt)

def slicesOf (m : Machine T) (s : Sched T) : Call T → List (Slice T)
  | .stopping p now cpu =>
    match sliceOf s p now with
    | none => []
    | some delta => [⟨p, domOfCpu m.toConfig cpu, delta⟩]
  | _ => []

/-- The slices that the calls `es` run, in order. -/
def slices [DecidableEq T] (m : Machine T) (s : Sched T) (es : List (Call T)) : List (Slice T) :=
  trace (call m) (slicesOf m) s es

/-- The nanoseconds or milliseconds `w` of the slices that `f` picks. -/
def total (l : List (Slice T)) (f : Slice T → Bool) (w : Slice T → Nat) : Nat :=
  ((l.filter f).map w).sum

-- What `p` ran on the CPUs of `d`.
def ranTotal [DecidableEq T] (l : List (Slice T)) (d : Dom) (p : T) : Nat :=
  total l (fun c => c.dom = d && c.task = p) (·.delta.toNat)

-- The whole milliseconds of the slices on the CPUs of `d`.
def wholeMs (l : List (Slice T)) (d : Dom) : Nat :=
  total l (fun c => c.dom = d) (·.delta.toNat / 1000000)

/-- What the slices on the CPUs of `d` have beyond their whole milliseconds. -/
def leftOver (l : List (Slice T)) (d : Dom) : Nat :=
  total l (fun c => c.dom = d) (·.delta.toNat % 1000000)

/-- How often the 64-bit counters of the tasks went round, taken together. -/
def ranWraps [DecidableEq T] (l : List (Slice T)) (d : Dom) : Nat :=
  ∑ p ∈ (l.map (·.task)).toFinset, ranTotal l d p / 2 ^ 64

/-- What the counter of `d` misses of the slices: the left-overs, and what goes by when a
64-bit counter goes round. -/
def missed [DecidableEq T] (l : List (Slice T)) (d : Dom) : ℤ :=
  leftOver l d + 2 ^ 64 * (10 ^ 6 * (wholeMs l d / 2 ^ 64 : ℕ) - ranWraps l d)

/-! ## The counters -/

-- `ran_big_ns` or `ran_little_ns` of `p`
def ranNs (s : Sched T) (d : Dom) (p : T) : UInt64 :=
  match s.taskCtx p with
  | none => 0
  | some tc => tc.ran d

-- `read_stats`: the counter of each CPU is a u64, and so is their sum.
def readStats (s : Sched T) (i : Stat) : UInt64 := UInt64.ofNat (s.stats i)

/-- What the counter of `d` says too much, in nanoseconds. -/
noncomputable def drift (s : Sched T) (d : Dom) : ℤ :=
  (readStats s (runMs d)).toNat * 10 ^ 6 - ∑ᶠ p, ((ranNs s d p).toNat : ℤ)

/-- Both counters are right to a millisecond per CPU. -/
def Accounts (m : Machine T) (s : Sched T) : Prop :=
  ∀ d, |drift s d| < 10 ^ 6 * m.nrCpus

/-! ## Sums over slices -/

theorem total_append (l l' : List (Slice T)) (f : Slice T → Bool) (w : Slice T → Nat) :
    total (l ++ l') f w = total l f w + total l' f w := by
  unfold total
  rw [List.filter_append, List.map_append, List.sum_append]

theorem total_singleton (c : Slice T) (f : Slice T → Bool) (w : Slice T → Nat) :
    total [c] f w = if f c then w c else 0 := by
  unfold total
  cases h : f c <;> simp [h]

/-- The milliseconds and what they leave over. -/
theorem wholeMs_add_leftOver (l : List (Slice T)) (d : Dom) :
    10 ^ 6 * wholeMs l d + leftOver l d = total l (fun c => c.dom = d) (·.delta.toNat) := by
  unfold wholeMs leftOver total
  generalize (l.filter fun c => decide (c.dom = d)) = l
  induction l with
  | nil => rfl
  | cons c l ih =>
    simp only [List.map_cons, List.sum_cons]
    have hdiv := Nat.div_add_mod c.delta.toNat 1000000
    omega

variable [DecidableEq T]

/-- The time of a domain is the time of its tasks. -/
theorem sum_ranTotal {l : List (Slice T)} (d : Dom) {tasks : Finset T}
    (htasks : ∀ c ∈ l, c.task ∈ tasks) :
    ∑ p ∈ tasks, ranTotal l d p = total l (fun c => c.dom = d) (·.delta.toNat) := by
  unfold ranTotal
  induction l with
  | nil => exact Finset.sum_eq_zero fun _ _ => rfl
  | cons c l ih =>
    rw [List.forall_mem_cons] at htasks
    have hcons : c :: l = [c] ++ l := rfl
    simp only [hcons, total_append, total_singleton]
    rw [Finset.sum_add_distrib, ih htasks.2]
    cases hd : decide (c.dom = d)
    · simp
    · simp [htasks.1]

/-! ## What the calls do to the counters -/

/-- The counters hold what the slices `l` add up to. -/
structure Credited (s : Sched T) (l : List (Slice T)) : Prop where
  ran : ∀ d p, (ranNs s d p).toNat = ranTotal l d p % 2 ^ 64
  ms : ∀ d, s.stats (runMs d) = wholeMs l d

theorem credited_start (idle : Nat → Bool) : Credited (Sched.start (T := T) idle) [] :=
  ⟨fun _ _ => rfl, fun _ => rfl⟩

omit [DecidableEq T] in
theorem ranNs_of_ctx {s : Sched T} {p : T} {tc : TaskCtx} (h : s.taskCtx p = some tc) (d : Dom) :
    ranNs s d p = tc.ran d := by
  unfold ranNs
  rw [h]

theorem Credited.of_eq {s t : Sched T} {l : List (Slice T)} (h : Credited s l)
    (hran : ∀ d p, ranNs t d p = ranNs s d p)
    (hms : ∀ d, t.stats (runMs d) = s.stats (runMs d)) : Credited t l :=
  ⟨fun d p => by rw [hran, h.ran], fun d => by rw [hms, h.ms]⟩

omit [DecidableEq T] in
theorem sliceOf_eq_none {s : Sched T} {p : T} {now : UInt64} :
    sliceOf s p now = none ↔ ∀ tc, s.taskCtx p = some tc → tc.startedAt = 0 := by
  unfold sliceOf
  cases s.taskCtx p <;> simp

omit [DecidableEq T] in
theorem sliceOf_eq_some {s : Sched T} {p : T} {now delta : UInt64} :
    sliceOf s p now = some delta ↔
      ∃ tc, s.taskCtx p = some tc ∧ tc.startedAt ≠ 0 ∧ now - tc.startedAt = delta := by
  unfold sliceOf
  cases s.taskCtx p <;> simp

/-- The milliseconds of a slice are those of its nanoseconds. -/
theorem toNat_div_nsecPerMsec (delta : UInt64) :
    (delta / nsecPerMsec).toNat = delta.toNat / 1000000 := UInt64.toNat_div ..

theorem runMs_injective : Function.Injective runMs := by
  intro d e h
  cases d <;> cases e <;> first | rfl | exact absurd h (by decide)

theorem credited_stopping {m : Machine T} {s : Sched T} {l : List (Slice T)} (h : Credited s l)
    (p : T) (now : UInt64) (cpu : Nat) :
    Credited (blsStopping m p now cpu s) (l ++ slicesOf m s (.stopping p now cpu)) := by
  cases hslice : sliceOf s p now with
  | none =>
    rw [blsStopping_idle m p now cpu s (sliceOf_eq_none.mp hslice)]
    simpa only [slicesOf, hslice, List.append_nil] using h
  | some delta =>
    simp only [slicesOf, hslice]
    obtain ⟨tc, htc, hstart, rfl⟩ := sliceOf_eq_some.mp hslice
    obtain ⟨domain, hctx, -⟩ := blsStopping_slice m p now cpu s tc htc hstart
    constructor
    · intro d q
      rw [ranTotal, total_append, total_singleton, ← ranTotal]
      by_cases hq : q = p
      · subst hq
        have hran := h.ran d q
        rw [ranNs_of_ctx htc] at hran
        rw [ranNs_of_ctx hctx, TaskCtx.credit_ran]
        by_cases hd : domOfCpu m.toConfig cpu = d
        · simp only [hd, if_true, decide_true, Bool.and_self, UInt64.toNat_add, hran]
          omega
        · simpa [hd] using hran
      · have hsame := (blsStopping_ctxOnly m p now cpu s).others q hq
        have hne : ¬ p = q := fun hpq => hq hpq.symm
        have hran : ranNs (blsStopping m p now cpu s) d q = ranNs s d q := by
          unfold ranNs
          rw [hsame]
        simp [hran, h.ran, hne]
    · intro d
      have hre : runMs d ≠ .reclassify := by cases d <;> decide
      rw [blsStopping_counts m p now cpu s tc htc hstart _ hre, wholeMs, total_append,
        total_singleton, ← wholeMs, ← h.ms d, toNat_div_nsecPerMsec]
      by_cases hd : domOfCpu m.toConfig cpu = d
      · simp [hd]
      · have hne : runMs d ≠ runMs (domOfCpu m.toConfig cpu) :=
          fun heq => hd (runMs_injective heq).symm
        simp [hd, hne]

theorem Credited.placeOnly {s t : Sched T} {l : List (Slice T)} (h : Credited s l)
    (hplace : PlaceOnly s t) : Credited t l := by
  apply h.of_eq
  · intro d p
    unfold ranNs
    rw [hplace.taskCtx]
  · intro d
    apply hplace.stats
    cases d <;> decide

/-- Storage that `init_task` reuses keeps its times. -/
theorem credited_initTask {m : Machine T} {s : Sched T} {l : List (Slice T)} (h : Credited s l)
    (p : T) (comm : Option Comm) (alloc : Bool) :
    Credited (blsInitTask m p comm alloc s).2 l := by
  apply h.of_eq
  · intro d q
    by_cases hq : q = p
    · subst hq
      unfold blsInitTask ranNs
      cases alloc <;> cases htc : s.taskCtx q <;> cases d <;>
        simp [statAdd, setCtx, TaskCtx.ran, htc]
    · unfold ranNs
      rw [(blsInitTask_ctxOnly m p comm alloc s).others q hq]
  · intro d
    cases d <;> exact blsInitTask_stats m p comm alloc s _ (by decide) (by decide)

theorem credited_running {s : Sched T} {l : List (Slice T)} (h : Credited s l) (p : T)
    (now : UInt64) : Credited (blsRunning p now s) l := by
  apply h.of_eq
  · intro d q
    by_cases hq : q = p
    · subst hq
      cases htc : s.taskCtx q with
      | none => simp [blsRunning, htc]
      | some tc =>
        rw [ranNs_of_ctx (blsRunning_ctx q now s tc htc), ranNs_of_ctx htc]
        cases d <;> rfl
    · unfold ranNs
      rw [(blsRunning_ctxOnly p now s).others q hq]
  · intro d
    rw [blsRunning_stats]

theorem credited_call {m : Machine T} {s t : Sched T} {l : List (Slice T)} {c : Call T}
    (h : Credited s l) (hcall : call m s c = some t) : Credited t (l ++ slicesOf m s c) := by
  have hquiet : slicesOf m s c = [] → Credited t l → Credited t (l ++ slicesOf m s c) := by
    intro hnil ht
    rwa [hnil, List.append_nil]
  cases c with
  | initTask p comm alloc =>
    obtain rfl := Option.some.inj hcall
    exact hquiet rfl (credited_initTask h p comm alloc)
  | selectCpu p prevCpu =>
    obtain rfl := Option.some.inj hcall
    have hplace := blsSelectCpu_placeOnly m p prevCpu s
    exact hquiet rfl (h.placeOnly ⟨hplace.taskCtx, hplace.stats⟩)
  | enqueue p f =>
    obtain rfl := Option.some.inj hcall
    exact hquiet rfl (h.placeOnly (blsEnqueue_placeOnly m p f s))
  | dispatch cpu =>
    obtain rfl := Option.some.inj hcall
    exact hquiet rfl (h.placeOnly (blsDispatch_placeOnly m cpu s))
  | running p now =>
    obtain rfl := Option.some.inj hcall
    exact hquiet rfl (credited_running h p now)
  | stopping p now cpu =>
    obtain rfl := Option.some.inj hcall
    exact credited_stopping h p now cpu

/-! ## The drift -/

/-- The counters of a run hold what its slices add up to. -/
theorem credited_run {m : Machine T} {idle : Nat → Bool} {es : List (Call T)} {s : Sched T}
    (hrun : run (call m) (Sched.start idle) es = some s) :
    Credited s (slices m (Sched.start idle) es) :=
  inv_trace (J := Credited) (fun _ _ _ _ h _ hcall => credited_call h hcall) es
    (credited_start idle) (stepsMeet_true ..) hrun

/-- Tasks that no slice is of have run for no time. -/
theorem finsum_ranNs {s : Sched T} {l : List (Slice T)} (h : Credited s l) (d : Dom) :
    ∑ᶠ p, ((ranNs s d p).toNat : ℤ) =
      ∑ p ∈ (l.map (·.task)).toFinset, ((ranNs s d p).toNat : ℤ) := by
  apply finsum_eq_sum_of_support_subset
  intro p hp
  by_contra hmem
  have hnone : (l.filter fun c => c.dom = d && c.task = p) = [] := by
    rw [List.filter_eq_nil_iff]
    rintro c hc hcp
    simp only [Bool.and_eq_true, decide_eq_true_eq] at hcp
    apply hmem
    simp only [Finset.mem_coe, List.mem_toFinset, List.mem_map]
    exact ⟨c, hc, hcp.2⟩
  apply hp
  simp [h.ran, ranTotal, total, hnone]

theorem drift_eq {s : Sched T} {l : List (Slice T)} (h : Credited s l) (d : Dom) :
    drift s d = -missed l d := by
  have hms : (readStats s (runMs d)).toNat = wholeMs l d % 2 ^ 64 := by
    unfold readStats
    rw [h.ms]
    exact UInt64.toNat_ofNat'
  have hwhole := wholeMs_add_leftOver l d
  have hsum : ∑ p ∈ (l.map (·.task)).toFinset, ranTotal l d p =
      total l (fun c => c.dom = d) (·.delta.toNat) :=
    sum_ranTotal d fun c hc => by simpa using ⟨c, hc, rfl⟩
  have hran : ∑ p ∈ (l.map (·.task)).toFinset, (ranNs s d p).toNat + 2 ^ 64 * ranWraps l d =
      total l (fun c => c.dom = d) (·.delta.toNat) := by
    rw [← hsum, ranWraps, Finset.mul_sum, ← Finset.sum_add_distrib]
    apply Finset.sum_congr rfl
    intro p _
    rw [h.ran, Nat.mod_add_div]
  unfold drift missed
  rw [finsum_ranNs h, hms, ← Nat.cast_sum]
  omega

/-- **The run-time counters lose what is not a whole millisecond.** After any calls, both
counters account for the time that the tasks ran exactly as long as what they miss of the
slices stays under a millisecond per CPU. -/
theorem run_ms_accounts_iff (m : Machine T) (idle : Nat → Bool) (es : List (Call T))
    (s : Sched T) (hrun : run (call m) (Sched.start idle) es = some s) :
    Accounts m s ↔
      ∀ d, |missed (slices m (Sched.start idle) es) d| < 10 ^ 6 * (m.nrCpus : ℤ) := by
  have hcredited := credited_run hrun
  unfold Accounts
  simp only [drift_eq hcredited, abs_neg]

/-- Task 1 starts at 1 ns on the BIG core and runs for `delta` ns. -/
def pairSlice (delta : UInt64) : List (Call Nat) := [.running 1 1, .stopping 1 (1 + delta) 0]

/-- A slice of 3 ms on two cores is counted to the nanosecond. -/
theorem run_ms_accounts_iff_pair :
    ∃ s, run (call (pairMachine .adaptive false)) (Sched.start fun _ => false)
        (.initTask 1 none true :: pairSlice 3000000) = some s ∧
      Accounts (pairMachine .adaptive false) s := by
  refine ⟨_, rfl, (run_ms_accounts_iff (pairMachine .adaptive false) (fun _ => false)
    (.initTask 1 none true :: pairSlice 3000000) _ rfl).mpr fun d => ?_⟩
  cases d <;> decide

-- Three slices on two cores that each end just before their millisecond.
def shortSlices : List (Call Nat) :=
  .initTask 1 none true :: (pairSlice 999999 ++ pairSlice 999999 ++ pairSlice 999999)

/-- They are not counted at all. -/
theorem run_ms_accounts_fails :
    ¬ ∀ (es : List (Call Nat)) (s : Sched Nat),
      run (call (pairMachine .adaptive false)) (Sched.start fun _ => false) es = some s →
        Accounts (pairMachine .adaptive false) s := by
  intro h
  obtain ⟨s, hrun⟩ : ∃ s, run (call (pairMachine .adaptive false)) (Sched.start fun _ => false)
      shortSlices = some s := ⟨_, rfl⟩
  have hbig := h shortSlices s hrun .big
  rw [drift_eq (credited_run hrun), abs_neg] at hbig
  have hmissed : ¬ |missed (slices (pairMachine .adaptive false) (Sched.start fun _ => false)
      shortSlices) .big| < 10 ^ 6 * ((2 : ℕ) : ℤ) := by decide
  exact hmissed hbig

end FakeBigLittle
