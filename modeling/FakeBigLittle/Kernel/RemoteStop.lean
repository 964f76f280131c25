import FakeBigLittle.Kernel.RunTime

/-!
# Stops on another CPU

`running` reads the clock of the CPU that runs the task. `stopping` reads the clock of the
CPU that it executes on, and credits the slice to the domain of this CPU, which is another
one when the kernel stops a running task from elsewhere.
-/

namespace FakeBigLittle

open Runs

variable {T : Type}

/-- The scheduler, and where and when each task that runs was started. -/
structure Clocked (T : Type) where
  sched : Sched T
  started : T → Option (Nat × UInt64)
  /-- the last time that the clock of a CPU showed -/
  clock : Nat → UInt64

inductive ClockedEvent (T : Type) where
  /-- `running(p)` on the CPU that runs `p`, whose clock shows `now` -/
  | running (p : T) (cpu : Nat) (now : UInt64)
  /-- `stopping(p)` on any CPU, whose clock shows `now` -/
  | stopping (p : T) (cpu : Nat) (now : UInt64)
  | other (c : Call T)

variable [DecidableEq T]

/-- A callback. Each task that runs has its storage, `running` and `stopping` alternate for
it, and no clock goes back. -/
def clockedStep (m : Machine T) (s : Clocked T) : ClockedEvent T → Option (Clocked T)
  | .running p cpu now =>
    if s.started p = none ∧ (s.sched.taskCtx p).isSome = true ∧ s.clock cpu ≤ now then
      some {
        sched := blsRunning p now s.sched
        started := Function.update s.started p (some (cpu, now))
        clock := Function.update s.clock cpu now }
    else none
  | .stopping p cpu now =>
    if (s.started p).isSome = true ∧ s.clock cpu ≤ now then
      some {
        sched := blsStopping m p now cpu s.sched
        started := Function.update s.started p none
        clock := Function.update s.clock cpu now }
    else none
  | .other (.running ..) => none
  | .other (.stopping ..) => none
  | .other (.initTask p comm alloc) =>
    if s.started p = none then some { s with sched := (blsInitTask m p comm alloc s.sched).2 }
    else none
  | .other c => (call m s.sched c).map fun t => { s with sched := t }

/-- No task runs yet, and every clock shows a time. -/
structure Clocked.Start (s : Clocked T) : Prop where
  idle : ∀ p, s.started p = none
  up : ∀ cpu, 0 < s.clock cpu

/-- The slice that ends was not negative, and is credited where `p` ran. -/
def Measured (m : Machine T) (s : Clocked T) : ClockedEvent T → Prop
  | .stopping p cpu now => ∀ c t₀, s.started p = some (c, t₀) → t₀ ≤ now ∧
      ∀ d, ranNs (blsStopping m p now cpu s.sched) d p =
        if domOfCpu m.toConfig c = d then ranNs s.sched d p + (now - t₀) else ranNs s.sched d p
  | _ => True

/-- The stop is on the CPU that ran `p`, or on one of its domain whose clock is not behind. -/
def Together (m : Machine T) (s : Clocked T) : ClockedEvent T → Prop
  | .stopping p cpu now => ∀ c t₀, s.started p = some (c, t₀) → cpu ≠ c → t₀ ≤ now ∧
      (domOfCpu m.toConfig cpu = domOfCpu m.toConfig c ∨ now = t₀)
  | _ => True

/-- The storage of a task that runs says since when, and its CPU's clock is past that. -/
def Timed (s : Clocked T) : Prop :=
  (∀ cpu, 0 < s.clock cpu) ∧ ∀ p c t₀, s.started p = some (c, t₀) → 0 < t₀ ∧ t₀ ≤ s.clock c ∧
    ∃ tc, s.sched.taskCtx p = some tc ∧ tc.startedAt = t₀

variable {m : Machine T} {s t : Clocked T} {e : ClockedEvent T}

/-! ## The invariant -/

omit [DecidableEq T] in
theorem Clocked.Start.timed (h : s.Start) : Timed s :=
  ⟨h.up, fun p c t₀ hp => absurd ((h.idle p).symm.trans hp) (by simp)⟩

omit [DecidableEq T] in
/-- A callback that leaves the storage of the running tasks alone. -/
theorem timed_of_ctx (h : Timed s) {u : Sched T}
    (hctx : ∀ p, s.started p ≠ none → u.taskCtx p = s.sched.taskCtx p) :
    Timed { s with sched := u } := by
  refine ⟨h.1, fun p c t₀ hp => ?_⟩
  obtain ⟨hpos, hle, htc⟩ := h.2 p c t₀ hp
  exact ⟨hpos, hle, by rwa [hctx p fun hnone => Option.some_ne_none _ (hp.symm.trans hnone)]⟩

omit [DecidableEq T] in
theorem clock_le_update (clock : Nat → UInt64) {cpu : Nat} {now : UInt64}
    (hle : clock cpu ≤ now) (c : Nat) : clock c ≤ Function.update clock cpu now c := by
  rcases eq_or_ne c cpu with rfl | hne
  · rwa [Function.update_self]
  · rw [Function.update_of_ne hne]
    exact UInt64.le_refl _

theorem timed_running (h : Timed s) {p : T} {cpu : Nat} {now : UInt64}
    (hctx : (s.sched.taskCtx p).isSome = true) (hle : s.clock cpu ≤ now) :
    Timed {
      sched := blsRunning p now s.sched
      started := Function.update s.started p (some (cpu, now))
      clock := Function.update s.clock cpu now } := by
  have hclock := clock_le_update s.clock hle
  refine ⟨fun c => UInt64.lt_of_lt_of_le (h.1 c) (hclock c), fun q c t₀ hq => ?_⟩
  simp only at hq
  rcases eq_or_ne q p with rfl | hne
  · rw [Function.update_self, Option.some.injEq, Prod.mk.injEq] at hq
    obtain ⟨rfl, rfl⟩ := hq
    obtain ⟨tc, htc⟩ := Option.isSome_iff_exists.mp hctx
    refine ⟨UInt64.lt_of_lt_of_le (h.1 cpu) hle, ?_, _, blsRunning_ctx q now s.sched tc htc, rfl⟩
    simp only [Function.update_self, UInt64.le_refl]
  · rw [Function.update_of_ne hne] at hq
    obtain ⟨hpos, hle₀, htc⟩ := h.2 q c t₀ hq
    refine ⟨hpos, UInt64.le_trans hle₀ (hclock c), ?_⟩
    rwa [(blsRunning_ctxOnly p now s.sched).others q hne]

theorem timed_stopping (h : Timed s) {p : T} {cpu : Nat} {now : UInt64}
    (hle : s.clock cpu ≤ now) :
    Timed {
      sched := blsStopping m p now cpu s.sched
      started := Function.update s.started p none
      clock := Function.update s.clock cpu now } := by
  have hclock := clock_le_update s.clock hle
  refine ⟨fun c => UInt64.lt_of_lt_of_le (h.1 c) (hclock c), fun q c t₀ hq => ?_⟩
  simp only at hq
  rcases eq_or_ne q p with rfl | hne
  · simp at hq
  · rw [Function.update_of_ne hne] at hq
    obtain ⟨hpos, hle₀, htc⟩ := h.2 q c t₀ hq
    refine ⟨hpos, UInt64.le_trans hle₀ (hclock c), ?_⟩
    rwa [(blsStopping_ctxOnly m p now cpu s.sched).others q hne]

theorem timed_step (h : Timed s) (hstep : clockedStep m s e = some t) : Timed t := by
  cases e with
  | running p cpu now =>
    obtain ⟨⟨-, hctx, hle⟩, ht⟩ := Option.ite_none_right_eq_some.mp hstep
    obtain rfl := Option.some.inj ht
    exact timed_running h hctx hle
  | stopping p cpu now =>
    obtain ⟨⟨-, hle⟩, ht⟩ := Option.ite_none_right_eq_some.mp hstep
    obtain rfl := Option.some.inj ht
    exact timed_stopping h hle
  | other c =>
    cases c with
    | running p now => simp [clockedStep] at hstep
    | stopping p now cpu => simp [clockedStep] at hstep
    | initTask p comm alloc =>
      obtain ⟨hidle, ht⟩ := Option.ite_none_right_eq_some.mp hstep
      obtain rfl := Option.some.inj ht
      refine timed_of_ctx h fun q hq => ?_
      apply (blsInitTask_ctxOnly m p comm alloc s.sched).others q
      rintro rfl
      exact hq hidle
    | selectCpu p prevCpu =>
      obtain rfl := Option.some.inj hstep
      exact timed_of_ctx h fun q _ => congrFun (blsSelectCpu_placeOnly m p prevCpu _).taskCtx q
    | enqueue p f =>
      obtain rfl := Option.some.inj hstep
      exact timed_of_ctx h fun q _ => congrFun (blsEnqueue_placeOnly m p f _).taskCtx q
    | dispatch cpu =>
      obtain rfl := Option.some.inj hstep
      exact timed_of_ctx h fun q _ => congrFun (blsDispatch_placeOnly m cpu _).taskCtx q

/-! ## One stop -/

/-- What `stopping` adds to the two counters of a task. -/
theorem ranNs_stopping {u : Sched T} {p : T} {tc : TaskCtx} (htc : u.taskCtx p = some tc)
    (hstart : tc.startedAt ≠ 0) (now : UInt64) (cpu : Nat) (d : Dom) :
    ranNs (blsStopping m p now cpu u) d p =
      if domOfCpu m.toConfig cpu = d then ranNs u d p + (now - tc.startedAt) else ranNs u d p := by
  obtain ⟨domain, hctx, -⟩ := blsStopping_slice m p now cpu u tc htc hstart
  rw [ranNs_of_ctx hctx, ranNs_of_ctx htc, TaskCtx.credit_ran]

theorem measured_iff (h : Timed s) (hstep : clockedStep m s e = some t) :
    Measured m s e ↔ Together m s e := by
  cases e with
  | running p cpu now => exact Iff.rfl
  | other c => exact Iff.rfl
  | stopping p cpu now =>
    obtain ⟨⟨-, hle⟩, -⟩ := Option.ite_none_right_eq_some.mp hstep
    apply forall₃_congr
    intro c t₀ hp
    obtain ⟨hpos, hclock, tc, htc, rfl⟩ := h.2 p c t₀ hp
    have hran := ranNs_stopping (m := m) htc (UInt64.pos_iff_ne_zero.mp hpos) now cpu
    simp only [hran]
    constructor
    · rintro ⟨hle₀, hall⟩ -
      refine ⟨hle₀, or_iff_not_imp_left.mpr fun hdom => ?_⟩
      have hcredit := hall (domOfCpu m.toConfig c)
      rw [if_neg hdom, if_pos rfl, left_eq_add] at hcredit
      exact sub_eq_zero.mp hcredit
    · intro htogether
      rcases eq_or_ne cpu c with rfl | hne
      · exact ⟨UInt64.le_trans hclock hle, fun d => rfl⟩
      · obtain ⟨hle₀, hdom | rfl⟩ := htogether hne
        · exact ⟨hle₀, fun d => by rw [hdom]⟩
        · exact ⟨hle₀, fun d => by simp⟩

/-! ## Runs -/

/-- **When slices are measured and credited where they ran.** Exactly when each stop from
another CPU comes from one of the same domain whose clock is not behind the start of the
slice. Stops on the CPU itself need nothing. -/
theorem slices_measured_iff (m : Machine T) (s : Clocked T) (hstart : s.Start)
    (es : List (ClockedEvent T)) :
    StepsMeet (clockedStep m) (Measured m) s es ↔
      StepsMeet (clockedStep m) (Together m) s es :=
  stepsMeet_iff (fun _ _ _ h hstep => timed_step h hstep)
    (fun _ _ _ h hstep => measured_iff h hstep) es hstart.timed

-- Two cores whose clocks show 1000 ns and 990 ns.
def skewed : Clocked Nat where
  sched := Sched.start fun _ => false
  started := fun _ => none
  clock := fun cpu => if cpu = 0 then 1000 else 990

theorem skewed_start : skewed.Start where
  idle := fun _ => rfl
  up := fun cpu => by
    unfold skewed
    simp only
    split_ifs <;> decide

/-- A task that is stopped on its own core. -/
theorem slices_measured_iff_pair :
    StepsMeet (clockedStep (pairMachine .adaptive false)) (Measured (pairMachine .adaptive false))
      skewed [.other (.initTask 1 none true), .running 1 0 1000, .stopping 1 0 1500] := by
  refine (slices_measured_iff (pairMachine .adaptive false) skewed skewed_start _).mpr ?_
  rintro t₁ -
  refine ⟨trivial, ?_⟩
  rintro t₂ hrunning
  refine ⟨trivial, fun t₃ _ => ⟨?_, trivial⟩⟩
  obtain ⟨-, ht⟩ := Option.ite_none_right_eq_some.mp hrunning
  obtain rfl := Option.some.inj ht
  rintro c t₀ hp hne
  simp only [Function.update_self, Option.some.injEq, Prod.mk.injEq] at hp
  exact absurd hp.1 hne

/-- A task that ran on the big core is stopped from the little one, whose clock is 10 ns
behind: the slice is credited to LITTLE, and its length goes below zero. -/
theorem slices_measured_fails : ∃ t,
    run (clockedStep (pairMachine .adaptive false)) skewed
      [.other (.initTask 1 none true), .running 1 0 1000, .stopping 1 1 990] = some t ∧
    ranNs t.sched .little 1 = 18446744073709551606 ∧ ranNs t.sched .big 1 = 0 ∧
    (t.sched.taskCtx 1).map TaskCtx.execEwmaNs = some 4611686018427387901 ∧
    ¬ StepsMeet (clockedStep (pairMachine .adaptive false))
      (Measured (pairMachine .adaptive false)) skewed
      [.other (.initTask 1 none true), .running 1 0 1000, .stopping 1 1 990] := by
  refine ⟨_, rfl, by decide, by decide, by decide, fun h => ?_⟩
  obtain ⟨-, h⟩ := h _ rfl
  obtain ⟨-, h⟩ := h _ rfl
  have hle := ((h _ rfl).1 0 1000 rfl).1
  exact absurd hle (by decide)

end FakeBigLittle
