import FakeBigLittle.Energy.Summary
import FakeBigLittle.Pinger.Spec

/-!
# The wire format

The tools print a NaN as `printf` does, and Python takes that for no JSON: a record with one is
dropped whole.
-/

namespace FakeBigLittle

open CString Runs
open Json (IsObject)

namespace Bench

/-! ## Labels -/

/-- A label that needs no escape. -/
def isLabel (label : Text) : Bool := label.all fun c => Json.plain c && Printf.printable c

theorem isLabel_all {label : Text} (h : isLabel label = true) :
    label.all Json.plain = true ∧ label.all Printf.printable = true := by
  unfold isLabel at h
  simp only [List.all_eq_true, Bool.and_eq_true] at h ⊢
  exact ⟨fun c hc => (h c hc).1, fun c hc => (h c hc).2⟩

theorem readLine_label {label : Text} (h : label.all Json.plain = true) :
    IsObject (readLine (labelOnly label)) := by
  have hdrop : (opening ++ label).dropWhile isSpaceChar =
      opening ++ label := rfl
  have hend : ['"', '}'] = '"' :: ([] ++ ['}']) := rfl
  have hhead : (opening ++ label).head? = some '{' := rfl
  unfold labelOnly
  rw [hend, readLine_append, hdrop, run_opening h, if_pos hhead]
  exact ⟨_, rfl⟩

theorem labelOnly_kept {label : Text} (h : isLabel label = true) : Kept (labelOnly label) := by
  obtain ⟨hplain, hprint⟩ := isLabel_all h
  have hbreak : ∀ c ∈ labelOnly label, isBreak c = false := by
    intro c hc
    apply isBreak_printable
    have hall : (labelOnly label).all Printf.printable = true := by
      unfold labelOnly
      rw [List.all_append, List.all_append, hprint]
      rfl
    exact List.all_eq_true.mp hall c hc
  have hlines : splitlines (labelOnly label) = [labelOnly label] :=
    splitlines_append [] hbreak (List.cons_ne_nil _ _)
  rw [kept_iff, hlines, List.forall_mem_singleton]
  exact readLine_label hplain

/-! ## The records of the tools -/

/-- **A record arrives when nothing in it is NaN.** The sampler needs the frequency of the TSC,
its five domains and a clock that moved; the pinger needs a sample, and a rate and a work that are
numbers. -/
theorem records_arrive_iff (r : Energy.Finished) (p : Pinger.Finished) :
    (r.Recorded ↔ Kept (labelOnly r.o.label) ∧ r.m.tscMhz ≠ none ∧
      (∀ name ∈ Energy.domains, Energy.findDom r.rapl name ≠ none) ∧ 0 < r.ending.tEnd) ∧
    (p.Recorded ↔ Kept (labelOnly p.o.label) ∧ (p.o.hz.IsFinite ∧ p.o.workUs.IsFinite) ∧
      0 < p.final.wake.length) :=
  ⟨Energy.recorded_iff r, Pinger.recorded_iff p⟩

-- A tenth of a second of a machine without MSRs.
def idleOptions : Energy.Options := { duration := 1 / 10, label := "idle".toList }

def idleRun (tscMhz : Energy.Double) : Option Energy.Main :=
  run (Energy.sampleStep idleOptions ⟨4, tscMhz, 100⟩)
    (Energy.start Energy.fiveDomains (Energy.sampleAt 0 0)) [Energy.sampleAt (1 / 5) 3000000]

theorem idleRun_finished {tscMhz : Energy.Double}
    (h : (idleRun tscMhz).map (·.pc) = some .done) :
    ∃ r : Energy.Finished, r.o = idleOptions ∧ r.m.tscMhz = tscMhz ∧
      r.rapl = Energy.fiveDomains ∧ r.ending.tEnd = 1 / 5 ∧ r.final.pc = .done := by
  obtain ⟨final, hrun, hpc⟩ := Option.map_eq_some_iff.mp h
  exact ⟨{
    o := idleOptions
    m := ⟨4, tscMhz, 100⟩
    rapl := Energy.fiveDomains
    first := Energy.sampleAt 0 0
    ticks := [Energy.sampleAt (1 / 5) 3000000]
    final := final
    ending := ⟨1 / 5, none, fun _ => none, fun _ => none, none, none⟩
    nan := fun _ _ => "nan".toList
    ran := hrun
    ended := by simp [hpc]
    isNan := fun _ _ => Or.inl rfl }, rfl, rfl, rfl, rfl, hpc⟩

-- A work that no `calibrate` reaches.
def nanWork : Pinger.Options := { workUs := .nan, label := "control".toList }

/-- Where the TSC has a frequency the record arrives. -/
example : ∃ r : Energy.Finished, r.m.tscMhz = some 1992 ∧ r.Recorded := by
  have hdone : (idleRun (some 1992)).map (·.pc) = some .done := by decide +kernel
  obtain ⟨r, ho, htsc, hrapl, hend, -⟩ := idleRun_finished hdone
  refine ⟨r, htsc, (Energy.recorded_iff r).mpr ?_⟩
  rw [ho, htsc, hrapl, hend]
  exact ⟨labelOnly_kept (by decide), by simp, by decide, by norm_num⟩

/-- A machine that does not tell its TSC frequency, a pinger that is stopped while it warms up, and
one that is asked for `--work-us nan`. -/
theorem records_dropped :
    (∃ r : Energy.Finished, r.final.pc = .done ∧ r.m.tscMhz = none ∧ ¬r.Recorded) ∧
      (∃ r : Pinger.Finished, r.final.wake = [] ∧ ¬r.Recorded) ∧
        ∃ r : Pinger.Finished, 0 < r.final.wake.length ∧ ¬r.Recorded := by
  refine ⟨?_, ?_, ?_⟩
  · have hdone : (idleRun none).map (·.pc) = some .done := by decide +kernel
    obtain ⟨r, -, htsc, -, -, hpc⟩ := idleRun_finished hdone
    refine ⟨r, hpc, htsc, fun hrecorded => ?_⟩
    exact ((Energy.recorded_iff r).mp hrecorded).2.1 htsc
  · let r : Pinger.Finished :=
      { long := Pinger.cvttsd2si
        o := { label := "control".toList }
        iters := 1000
        wakeups := []
        final := Pinger.start
        nan := fun _ => "-nan".toList
        accepted := ⟨rfl, rfl⟩
        buffers := by decide +kernel
        ran := rfl
        isNan := fun _ => Or.inr rfl }
    refine ⟨r, rfl, fun hrecorded => ?_⟩
    exact absurd ((Pinger.recorded_iff r).mp hrecorded).2.2 (by decide)
  · have hwakes : (run (Pinger.wakeStep Pinger.cvttsd2si nanWork) Pinger.start
        [⟨50, 700, 3⟩]).map (·.wake.length) = some 1 := by decide +kernel
    obtain ⟨final, hrun, hlength⟩ := Option.map_eq_some_iff.mp hwakes
    have hkept : 0 < final.wake.length := by omega
    let r : Pinger.Finished :=
      { long := Pinger.cvttsd2si
        o := nanWork
        iters := 1
        wakeups := [⟨50, 700, 3⟩]
        final := final
        nan := fun _ => "nan".toList
        accepted := ⟨rfl, rfl⟩
        buffers := by decide +kernel
        ran := hrun
        isNan := fun _ => Or.inl rfl }
    refine ⟨r, hkept, fun hrecorded => ?_⟩
    obtain ⟨x, hx⟩ := ((Pinger.recorded_iff r).mp hrecorded).2.1.2
    exact Printf.Double.noConfusion hx

end Bench

end FakeBigLittle
