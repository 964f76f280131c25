import FakeBigLittle.Analyze.Flatten
import FakeBigLittle.Kernel.Counters
import Mathlib.Algebra.Order.Field.Basic
import Mathlib.Algebra.Order.Ring.Rat
import Mathlib.Tactic.Positivity

/-!
# The cross-domain share

`cross_domain / enqueue`: what is divided is raised by `select_cpu` too, which `enqueue` never
hears of.
-/

namespace FakeBigLittle

open CString Runs

/-! ## The record of the scheduler -/

-- `bls_stat_names`
def Stat.name : Stat → Text
  | .enq => "enqueue".toList
  | .direct => "direct_dispatch".toList
  | .dsqBig => "dsq_big".toList
  | .dsqLittle => "dsq_little".toList
  | .localHit => "local_hit".toList
  | .steal => "cross_domain".toList
  | .noIdleInDom => "no_idle_in_domain".toList
  | .reclassify => "reclassify".toList
  | .runBigMs => "run_big_ms".toList
  | .runLittleMs => "run_little_ms".toList
  | .tasksBig => "tasks_big".toList
  | .tasksLittle => "tasks_little".toList

def blsStats : List Stat :=
  [.enq, .direct, .dsqBig, .dsqLittle, .localHit, .steal, .noIdleInDom, .reclassify, .runBigMs,
    .runLittleMs, .tasksBig, .tasksLittle]

/-- The counters in the record that `print_stats_json` prints. -/
def statsRecord {T : Type} (s : Sched T) : List (Text × ℚ) :=
  blsStats.map fun i => (i.name, (s.stats i : ℚ))

namespace Analyze

variable {T : Type}

/-- The share, if there is one, is a fraction. -/
def IsFraction (share : Option ℚ) : Prop := ∀ x, share = some x → 0 ≤ x ∧ x ≤ 1

theorem crossFrac_of_stats (s : Sched T) :
    (flattenBls (some (statsRecord s))).crossFrac =
      if s.stats .enq = 0 then none else some ((s.stats .steal : ℚ) / s.stats .enq) := by
  have hcross : (statsRecord s).lookup "cross_domain".toList = some (s.stats .steal : ℚ) := rfl
  have henq : (statsRecord s).lookup "enqueue".toList = some (s.stats .enq : ℚ) := rfl
  unfold flattenBls crossFrac
  simp only [Option.getD_some, hcross, henq, Nat.cast_eq_zero]

theorem isFraction_iff (s : Sched T) :
    IsFraction (flattenBls (some (statsRecord s))).crossFrac ↔
      (0 < s.stats .enq → s.stats .steal ≤ s.stats .enq) := by
  unfold IsFraction
  rw [crossFrac_of_stats]
  rcases Nat.eq_zero_or_pos (s.stats .enq) with hzero | hpos
  · simp [hzero]
  · have hpos' : (0 : ℚ) < s.stats .enq := by exact_mod_cast hpos
    rw [if_neg hpos.ne']
    constructor
    · intro h _
      have hle := (h _ rfl).2
      rw [div_le_one hpos'] at hle
      exact_mod_cast hle
    · rintro h x hx
      obtain rfl := Option.some.inj hx
      refine ⟨by positivity, ?_⟩
      rw [div_le_one hpos']
      exact_mod_cast h hpos

/-! ## Wakeups that leave their domain -/

/-- `prev_cpu` is an idle CPU of the domain, or the task may run on one that is. -/
def IdleFor (m : Machine T) (p : T) (dom : Dom) (prevCpu : Int) (idle : Nat → Bool) : Prop :=
  (0 ≤ prevCpu ∧ prevCpu < blsMaxCpus ∧ domOfCpu m.toConfig prevCpu = dom ∧
      idle prevCpu.toNat = true) ∨
    ∃ cpu : Nat, domOfCpu m.toConfig cpu = dom ∧ m.cpusPtr p cpu = true ∧ idle cpu = true

/-- A wakeup that nothing keeps in its domain, with idle CPUs in the other domain only. -/
def SpillsOver (m : Machine T) (s : Sys T) : Event T → Prop
  | .wakeup p prevCpu _ =>
    pinned m p = false ∧ m.strictDomains = false ∧
      ¬ IdleFor m p (taskDom s.sched p) prevCpu s.sched.idle ∧
      IdleFor m p (taskDom s.sched p).other (-1) s.sched.idle
  | _ => False

theorem firstIdle_isSome_iff (m : Machine T) (p : T) (dom : Dom) (idle : Nat → Bool) :
    (firstIdle m p dom idle).isSome = true ↔
      ∃ cpu : Nat, domOfCpu m.toConfig cpu = dom ∧ m.cpusPtr p cpu = true ∧ idle cpu = true := by
  constructor
  · intro h
    obtain ⟨cpu, hcpu⟩ := Option.isSome_iff_exists.mp h
    exact ⟨cpu, (firstIdle_some hcpu).2⟩
  · rintro ⟨cpu, hdom, hmask, hidle⟩
    cases hfirst : firstIdle m p dom idle with
    | none =>
      rw [firstIdle_none hfirst hdom hmask] at hidle
      exact Bool.noConfusion hidle
    | some i => rfl

theorem pickedCpu_isSome_iff (m : Machine T) (p : T) (dom : Dom) (prevCpu : Int)
    (idle : Nat → Bool) :
    (pickedCpu m p dom prevCpu idle).isSome = true ↔ IdleFor m p dom prevCpu idle := by
  unfold pickedCpu IdleFor
  rw [← firstIdle_isSome_iff]
  split_ifs with hprev
  · exact iff_of_true rfl (Or.inl hprev)
  · exact ⟨Or.inr, fun h => h.resolve_left hprev⟩

/-- These are the wakeups that `select_cpu` counts as spilled. -/
theorem spills_iff (m : Machine T) (s : Sys T) (e : Event T) :
    spills m s e = true ↔ SpillsOver m s e := by
  cases e with
  | wakeup p prevCpu f =>
    unfold spills SpillsOver
    simp only [pickIdleInDom_eq, Bool.and_eq_true, Bool.not_eq_true', Option.isNone_iff_eq_none,
      ← Option.not_isSome_iff_eq_none, pickedCpu_isSome_iff, and_assoc]
  | _ => exact iff_of_false Bool.false_ne_true id

variable [DecidableEq T]

/-- With `--strict` none does. -/
theorem strict_stays {m : Machine T} (hs : m.strictDomains = true) (s : Sys T)
    (es : List (Event T)) : StepsMeet (step m) (fun s e => ¬ SpillsOver m s e) s es := by
  refine stepsMeet_of_forall (fun e _ s hover => ?_) s
  rw [← spills_iff] at hover
  cases e <;> simp [spills, hs] at hover

/-- What is settled was enqueued, as long as no wakeup spills. -/
theorem settled_step {m : Machine T} {s t : Sys T} {e : Event T}
    (h : (∃ w, Placed s w) ∧ settled s.sched ≤ s.sched.stats .enq) (hstep : step m s e = some t)
    (hstays : ¬ SpillsOver m s e) :
    (∃ w, Placed t w) ∧ settled t.sched ≤ t.sched.stats .enq := by
  obtain ⟨⟨w, hw⟩, hle⟩ := h
  refine ⟨placed_of_step ⟨w, hw⟩ hstep, ?_⟩
  obtain ⟨enqueued, hadds⟩ := step_adds hw.direct hstep
  have hspills : spills m s e = false := by
    rw [← Bool.not_eq_true, spills_iff]
    exact hstays
  have henq := hadds.enq
  have hsettled := hadds.settled
  rw [hspills, Bool.toNat_false] at hsettled
  omega

/-- **The share is a fraction as long as no wakeup spills.** Then whatever crosses was enqueued
before, in every state of every run from the start. -/
theorem cross_frac_within (m : Machine T) (s₀ : Sys T) (hinit : Init m s₀) (es : List (Event T))
    (hstays : StepsMeet (step m) (fun s e => ¬ SpillsOver m s e) s₀ es) :
    StatesMeet (step m) (fun s => IsFraction (flattenBls (some (statsRecord s.sched))).crossFrac)
      s₀ es := by
  have hstart : settled s₀.sched ≤ s₀.sched.stats .enq := by
    rw [hinit.sched]
    exact le_rfl
  have hsettled := statesMeet_of_stepsMeet (fun s e t => settled_step) es
    ⟨⟨_, placed_init hinit⟩, hstart⟩ hstays
  refine hsettled.imp (fun s hs => (isFraction_iff s.sched).mpr fun _ => ?_) es
  have hle := hs.2
  unfold settled at hle
  omega

/-- The LITTLE core is taken, so the BIG core pulls what waits for it: the share is 1. -/
theorem cross_frac_within_pulled :
    ∃ s, run (step (pairMachine .adaptive false)) pairStart
        [.attach 1, .attach 2, .wakeup 1 1 0, .enqueue 2 0, .dispatch 0] = some s ∧
      s.sched.stats .steal = 1 ∧ s.sched.stats .enq = 1 ∧
      StatesMeet (step (pairMachine .adaptive false))
        (fun s => IsFraction (flattenBls (some (statsRecord s.sched))).crossFrac) pairStart
        [.attach 1, .attach 2, .wakeup 1 1 0, .enqueue 2 0, .dispatch 0] := by
  refine ⟨_, rfl, rfl, rfl, cross_frac_within _ _ (pairStart_init .adaptive false) _ ?_⟩
  intro s₁ h₁
  refine ⟨id, fun s₂ h₂ => ⟨id, fun s₃ h₃ => ⟨?_, fun s₄ _ => ⟨id, fun s₅ _ => ⟨id, trivial⟩⟩⟩⟩⟩
  obtain rfl := Option.some.inj h₁
  obtain rfl := Option.some.inj h₂
  rw [← spills_iff]
  decide

/-- A task that sleeps and wakes spills twice before another is enqueued: the share is 2. -/
theorem cross_frac_fails :
    ∃ s, run (step (pairMachine .adaptive false)) pairStart
        [.attach 1, .attach 2, .attach 3, .wakeup 1 0 0, .wakeup 2 0 0, .run 0 1, .block 0 2,
          .dispatch 0, .wakeup 2 0 0, .wakeup 3 0 0] = some s ∧
      s.sched.stats .enq = 1 ∧ s.sched.stats .steal = 2 ∧
      ¬IsFraction (flattenBls (some (statsRecord s.sched))).crossFrac := by
  refine ⟨_, rfl, rfl, rfl, ?_⟩
  rw [isFraction_iff]
  intro h
  exact absurd (h (by decide)) (by decide)

end Analyze

end FakeBigLittle
