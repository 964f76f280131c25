import FakeBigLittle.Kernel.Spec
import FakeBigLittle.Bpf.Proofs

/-!
# Picking an idle CPU

`pick_idle_in_dom` claims a CPU by clearing its idle bit. The scan looks at the affinity of
the task; the fast path on `prev_cpu` does not, and a task can have been moved off `prev_cpu`
while it slept.
-/

namespace FakeBigLittle

variable {T : Type}

/-- What `pick_idle_in_dom` is for: an idle CPU of the domain that the task may run on, claimed,
or no claim when there is none. -/
structure PicksRight (m : Machine T) (p : T) (dom : Dom) (prevCpu : Int) (s : Sched T) :
    Prop where
  picked : ∀ cpu, (pickIdleInDom m p dom prevCpu s).1 = some cpu →
    domOfCpu m.toConfig cpu = dom ∧ m.cpusPtr p cpu = true ∧ s.idle cpu = true ∧
      (pickIdleInDom m p dom prevCpu s).2 = { s with idle := Function.update s.idle cpu false }
  nothing : (pickIdleInDom m p dom prevCpu s).1 = none →
    (pickIdleInDom m p dom prevCpu s).2 = s ∧
      ∀ cpu < m.nrCpus, domOfCpu m.toConfig cpu = dom → m.cpusPtr p cpu = true →
        s.idle cpu = false

/-- `prev_cpu` is an idle CPU of the domain that the task may not run on. -/
def StalePrev (m : Machine T) (p : T) (dom : Dom) (prevCpu : Int) (idle : Nat → Bool) : Prop :=
  0 ≤ prevCpu ∧ prevCpu < blsMaxCpus ∧ domOfCpu m.toConfig prevCpu = dom ∧
    idle prevCpu.toNat = true ∧ m.cpusPtr p prevCpu.toNat = false

theorem pickedCpu_stale {m : Machine T} {p : T} {dom : Dom} {prevCpu : Int} {idle : Nat → Bool}
    (h : StalePrev m p dom prevCpu idle) :
    pickedCpu m p dom prevCpu idle = some prevCpu.toNat := by
  obtain ⟨h0, h64, hdom, hidle, -⟩ := h
  unfold pickedCpu
  rw [if_pos ⟨h0, h64, hdom, hidle⟩]

/-- But for such a `prev_cpu`, what is picked is allowed. -/
theorem pickedCpu_allowed {m : Machine T} {p : T} {dom : Dom} {prevCpu : Int}
    {idle : Nat → Bool} (h : ¬ StalePrev m p dom prevCpu idle) {cpu : Nat}
    (hpick : pickedCpu m p dom prevCpu idle = some cpu) : m.cpusPtr p cpu = true := by
  unfold pickedCpu at hpick
  split_ifs at hpick with hprev
  · obtain rfl := Option.some.inj hpick
    by_contra hmask
    exact h ⟨hprev.1, hprev.2.1, hprev.2.2.1, hprev.2.2.2, Bool.not_eq_true _ ▸ hmask⟩
  · exact (firstIdle_some hpick).2.2.1

/-- **A stale `prev_cpu` is claimed against the affinity.** `pick_idle_in_dom` does what it is
for, for every mask, domain and idle set, exactly when `prev_cpu` is not an idle CPU of the
domain that the task may not run on. -/
theorem picks_right_iff (m : Machine T) (p : T) (dom : Dom) (prevCpu : Int) (s : Sched T) :
    PicksRight m p dom prevCpu s ↔ ¬ StalePrev m p dom prevCpu s.idle := by
  constructor
  · intro h hstale
    have hpick : (pickIdleInDom m p dom prevCpu s).1 = some prevCpu.toNat := by
      rw [pickIdleInDom_eq]
      exact pickedCpu_stale hstale
    have hmask := (h.picked _ hpick).2.1
    rw [hstale.2.2.2.2] at hmask
    exact absurd hmask (by decide)
  · intro h
    refine ⟨fun cpu hpick => ?_, fun hpick => ?_⟩
    · rw [pickIdleInDom_eq] at hpick ⊢
      obtain ⟨hdom, hidle⟩ := pickedCpu_dom hpick
      refine ⟨hdom, pickedCpu_allowed h hpick, hidle, ?_⟩
      simp only at hpick ⊢
      rw [hpick]
      rfl
    · rw [pickIdleInDom_eq] at hpick ⊢
      simp only at hpick ⊢
      refine ⟨by rw [hpick]; rfl, fun cpu _ hdom hmask => ?_⟩
      exact firstIdle_none (pickedCpu_none hpick) hdom hmask

/-- Task 0 may only run on the BIG core, and last ran on the LITTLE one. -/
theorem picks_right_fails :
    ¬ ∀ (p : Nat) (dom : Dom) (prevCpu : Int) (s : Sched Nat),
      PicksRight (pairMachine .adaptive false) p dom prevCpu s := by
  intro h
  have hpicked := (h 0 .little 1 (Sched.start fun cpu => decide (cpu < 2))).picked 1 (by decide)
  exact absurd hpicked.2.1 (by decide)

/-- What `select_cpu` does with it: the task goes to the local DSQ of a CPU that it may not run
on, and the idle bit of that CPU is gone. -/
theorem blsSelectCpu_stale (m : Machine T) (p : T) (prevCpu : Int) (s : Sched T)
    (h : StalePrev m p (taskDom s p) prevCpu s.idle) :
    (blsSelectCpu m p prevCpu s).1 = prevCpu ∧
      (blsSelectCpu m p prevCpu s).2.idle prevCpu.toNat = false ∧
      m.cpusPtr p prevCpu.toNat = false := by
  have hpick := pickedCpu_stale h
  rcases blsSelectCpu_cases m p prevCpu s with
    ⟨cpu, hcpu, heq⟩ | ⟨cpu, hnone, -⟩ | ⟨hnone, -⟩
  · obtain rfl := Option.some.inj (hpick.symm.trans hcpu)
    rw [heq]
    refine ⟨Int.toNat_of_nonneg h.1, ?_, h.2.2.2.2⟩
    simp
  · rw [hnone] at hpick
    exact absurd hpick (by simp)
  · rw [hnone] at hpick
    exact absurd hpick (by simp)

end FakeBigLittle
