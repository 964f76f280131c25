import FakeBigLittle.Bench.Collect
import FakeBigLittle.Runs
import Mathlib.Data.List.Sort

/-!
# The pinger

`src/pinger.c`: the wakeups that are retained, and the JSON record that is printed about them.
-/

namespace FakeBigLittle

open CString Runs
open Json (Reads)
open Printf (Double)

namespace Pinger

structure Options where
  hz : Double := .finite 100
  dur : Double := .finite 30
  workUs : Double := .finite 500
  warmup : Double := .finite 2
  label : Text := []

/-- `main` does not stop with its usage; a NaN passes. -/
def Options.Accepted (o : Options) : Prop := o.hz.le 0 = false ∧ o.dur.le 0 = false

/-- `(long)` of a double, which C defines where there is an integer part. -/
structure ToLong where
  conv : Double → Int
  finite : ∀ x, conv (.finite x) = if 0 ≤ x then ⌊x⌋ else ⌈x⌉

-- What x86-64 gives for the others.
def cvttsd2si : ToLong where
  conv
    | .finite x => if 0 ≤ x then ⌊x⌋ else ⌈x⌉
    | _ => -0x8000000000000000
  finite _ := rfl

/-! ## The loop -/

/-- What a round measures: how late it woke up, how long it worked, and the clock since `t0`. -/
structure Wakeup where
  lateUs : ℚ
  busyUs : ℚ
  elapsed : ℚ

structure Main where
  wake : List ℚ
  work : List ℚ
  running : Bool

def start : Main := ⟨[], [], true⟩

def cap (long : ToLong) (o : Options) : Int := long.conv (o.dur.mul o.hz) + 64

/-- A round of the loop. -/
def wakeStep (long : ToLong) (o : Options) (s : Main) (w : Wakeup) : Option Main :=
  if s.running then
    let kept := if o.warmup.le w.elapsed ∧ s.wake.length < cap long o then
      { s with wake := s.wake ++ [max w.lateUs 0], work := s.work ++ [w.busyUs] } else s
    some { kept with running := !o.dur.le w.elapsed }
  else none

/-! ## The record -/

def sorted (v : List ℚ) : List ℚ := v.insertionSort (· ≤ ·)

/-- `pct`; `none` is NaN. -/
def pct (sorted : List ℚ) (p : ℚ) : Option ℚ :=
  let n := sorted.length
  let idx := p / 100 * (n - 1)
  let i := ⌊idx⌋.toNat
  if n = 0 then none
  else if n - 1 ≤ i then some (sorted.getD (n - 1) 0)
  else some (sorted.getD i 0 + (idx - i) * (sorted.getD (i + 1) 0 - sorted.getD i 0))

def mean (v : List ℚ) : Option ℚ := if v.length = 0 then none else some (v.sum / v.length)

/-- `emit`; `nan key` is the text of the NaN of `key`. -/
def emit (nan : Text → Text) (name : String) (v : List ℚ) : List (Text × Text) :=
  let v := sorted v
  [("_mean", mean v), ("_p50", pct v 50), ("_p90", pct v 90), ("_p99", pct v 99),
    ("_p999", pct v 99.9), ("_max", pct v 100)].map fun m =>
      ((name ++ m.1).toList, Printf.fixed (nan (name ++ m.1).toList) 2 m.2)

def summaryFields (nan : Text → Text) (o : Options) (iters : Int) (s : Main) : List (Text × Text) :=
  [("n".toList, Printf.nat s.wake.length),
    ("hz".toList, Printf.double (nan "hz".toList) 1 o.hz),
    ("work_iters".toList, Printf.int iters),
    ("target_work_us".toList, Printf.double (nan "target_work_us".toList) 1 o.workUs)] ++
    emit nan "wake_us" s.wake ++ emit nan "work_us" s.work

def summary (nan : Text → Text) (o : Options) (iters : Int) (s : Main) : Text :=
  Bench.record o.label (summaryFields nan o iters s)

/-! ## Its members -/

section Fields

variable {nan : Text → Text} {o : Options} {iters : Int} {s : Main}

theorem pct_ne_none (v : List ℚ) (p : ℚ) : pct v p ≠ none ↔ v ≠ [] := by
  unfold pct
  simp only [List.length_eq_zero_iff]
  split_ifs <;> simp_all

theorem mean_ne_none (v : List ℚ) : mean v ≠ none ↔ v ≠ [] := by
  unfold mean
  simp

theorem sorted_ne_nil (v : List ℚ) : sorted v ≠ [] ↔ v ≠ [] := by
  unfold sorted
  rw [ne_eq, ne_eq, ← List.length_eq_zero_iff, List.length_insertionSort, List.length_eq_zero_iff]

theorem emit_reads_iff (hnan : ∀ key, Printf.IsNan (nan key)) (name : String) (v : List ℚ) :
    (∀ f ∈ emit nan name v, ∃ w, Reads f.2 w) ↔ v ≠ [] := by
  unfold emit
  simp only [List.map_cons, List.map_nil, List.forall_mem_cons, Printf.fixed_reads_iff (hnan _),
    pct_ne_none, mean_ne_none, sorted_ne_nil]
  simp

theorem emit_slots (hnan : ∀ key, Printf.IsNan (nan key)) (name : String) (v : List ℚ) :
    ∀ f ∈ emit nan name v, Printf.Slot f.2 := by
  intro f hf
  obtain ⟨m, -, rfl⟩ := List.mem_map.mp hf
  exact Printf.slot_fixed (hnan _) 2 m.2

theorem summaryFields_keys : ∀ f ∈ summaryFields nan o iters s, Printf.isKey f.1 = true := by
  have hkeys : ((summaryFields nan o iters s).map Prod.fst).all Printf.isKey = true := by
    unfold summaryFields emit
    simp only [List.map_append, List.map_cons, List.map_nil]
    decide
  intro f hf
  exact List.all_eq_true.mp hkeys _ (List.mem_map_of_mem hf)

theorem summary_kept_iff (hnan : ∀ key, Printf.IsNan (nan key)) :
    Bench.Kept (summary nan o iters s) ↔
      Bench.Kept (Bench.labelOnly o.label) ∧ (o.hz.IsFinite ∧ o.workUs.IsFinite) ∧
        s.wake ≠ [] ∧ s.work ≠ [] := by
  have hne : summaryFields nan o iters s ≠ [] := List.cons_ne_nil _ _
  have hslots : ∀ f ∈ summaryFields nan o iters s, Printf.Slot f.2 := by
    unfold summaryFields
    rw [List.forall_mem_append, List.forall_mem_append]
    refine ⟨⟨?_, emit_slots hnan _ _⟩, emit_slots hnan _ _⟩
    simp only [List.forall_mem_cons, Printf.slot_nat, Printf.slot_double (hnan _), Printf.slot_int,
      true_and]
    exact List.forall_mem_nil _
  have hreads : (∀ f ∈ summaryFields nan o iters s, ∃ v, Reads f.2 v) ↔
      (o.hz.IsFinite ∧ o.workUs.IsFinite) ∧ s.wake ≠ [] ∧ s.work ≠ [] := by
    unfold summaryFields
    rw [List.forall_mem_append, List.forall_mem_append, emit_reads_iff hnan, emit_reads_iff hnan]
    simp only [List.forall_mem_cons, Printf.reads_nat, Printf.double_reads_iff (hnan _),
      Printf.reads_int, true_and]
    simp [and_assoc]
  unfold summary
  rw [Bench.record_kept_iff o.label hne summaryFields_keys hslots, hreads]

end Fields

/-! ## The run before it -/

theorem run_length {long : ToLong} {o : Options} {s : Main} {wakeups : List Wakeup}
    (h : run (wakeStep long o) start wakeups = some s) : s.wake.length = s.work.length := by
  refine inv_run (I := fun s => s.wake.length = s.work.length) ?_ wakeups rfl h
  intro s w t hs hstep
  unfold wakeStep at hstep
  simp only at hstep
  split_ifs at hstep <;>
  · obtain rfl := Option.some.inj hstep
    simp [hs]

/-- A run of the pinger, which a signal may end at any time, and what it prints NaN as. -/
structure Finished where
  long : ToLong
  o : Options
  iters : Int
  wakeups : List Wakeup
  final : Main
  nan : Text → Text
  accepted : o.Accepted
  -- `calloc` fails for a size below zero
  buffers : 0 ≤ cap long o
  ran : run (wakeStep long o) start wakeups = some final
  isNan : ∀ key, Printf.IsNan (nan key)

/-- The record is not dropped. -/
def Finished.Recorded (r : Finished) : Prop := Bench.Kept (summary r.nan r.o r.iters r.final)

theorem recorded_iff (r : Finished) :
    r.Recorded ↔ Bench.Kept (Bench.labelOnly r.o.label) ∧
      (r.o.hz.IsFinite ∧ r.o.workUs.IsFinite) ∧ 0 < r.final.wake.length := by
  have hlength := run_length r.ran
  unfold Finished.Recorded
  rw [summary_kept_iff r.isNan, ← List.length_pos_iff, ← List.length_pos_iff, ← hlength,
    and_self_iff]

end Pinger

end FakeBigLittle
