import FakeBigLittle.Bench.Records
import FakeBigLittle.Spin.Spec

/-!
# The workers of the load generator

`run` and `main` of `src/spin.c`, behind the option loop: how it exits, and what it prints.
-/

namespace FakeBigLittle

open CString
open Json (Value Reads)

namespace Spin

structure Options where
  cpulist : Option Text
  duty : ℚ := 1
  label : Text

/-- What happens to a run of `main`, by the index of the thread. -/
structure Env where
  /-- `pthread_create` returns zero -/
  creates : Nat → Bool
  /-- `pthread_setaffinity_np` returns zero -/
  affinity : Nat → Int → Bool
  /-- the chunks that are burned until `t_end` -/
  chunks : Nat → Nat
  busyS : Nat → ℚ
  wall : ℚ

structure Worker where
  cpu : Int
  iters : Nat
  busyS : ℚ
  affinityOk : Bool

def chunk : Nat := 20000

/-- `run` -/
def runWorker (e : Env) (i : Nat) (cpu : Int) : Worker where
  cpu := cpu
  iters := chunk * e.chunks i % 2 ^ 64
  busyS := e.busyS i
  affinityOk := e.affinity i cpu

def mitersPerBusyS (w : Worker) : ℚ := if 0 < w.busyS then w.iters / w.busyS / 1000000 else 0

def boolText (b : Bool) : Text := if b then "true".toList else "false".toList

def workerFields (w : Worker) : List (Text × Text) :=
  [("cpu".toList, Printf.int w.cpu),
    ("affinity_ok".toList, boolText w.affinityOk),
    ("iters".toList, Printf.nat w.iters),
    ("busy_s".toList, Decimal.fixed 4 w.busyS),
    ("miters_per_busy_s".toList, Decimal.fixed 3 (mitersPerBusyS w))]

def dutyOf (o : Options) : ℚ := if o.duty ≤ 0 ∨ 1 < o.duty then 1 else o.duty

/-- The members behind the label. -/
def summaryFields (o : Options) (e : Env) (ws : List Worker) : List (Text × Text) :=
  [("wall_s".toList, Decimal.fixed 4 e.wall),
    ("duty".toList, Decimal.fixed 3 (dutyOf o)),
    ("threads".toList, Json.array (ws.map fun w => Json.object (workerFields w)))]

def workers (e : Env) (cpus : List Int) : List Worker := cpus.mapIdx fun i cpu => runWorker e i cpu

/-- The status that `main` exits with, and what it has printed. -/
def main (o : Options) (e : Env) : Nat × Text :=
  match o.cpulist.bind parseCpus with
  | none | some [] => (2, [])
  | some cpus =>
    if (List.range cpus.length).all e.creates then
      (0, Bench.record o.label (summaryFields o e (workers e cpus)))
    else (1, [])

theorem main_cases (o : Options) (e : Env) :
    (∃ cpus, o.cpulist.bind parseCpus = some cpus ∧ cpus ≠ [] ∧ (∀ i < cpus.length, e.creates i) ∧
      main o e = (0, Bench.record o.label (summaryFields o e (workers e cpus)))) ∨
    ((main o e).1 ≠ 0 ∧ (main o e).2 = []) := by
  unfold main
  cases hparse : o.cpulist.bind parseCpus with
  | none => exact Or.inr ⟨by simp, rfl⟩
  | some cpus =>
    cases cpus with
    | nil => exact Or.inr ⟨by simp, rfl⟩
    | cons c cpus =>
      by_cases hcreate : (List.range (c :: cpus).length).all e.creates = true
      · refine Or.inl ⟨c :: cpus, rfl, List.cons_ne_nil _ _, ?_, if_pos hcreate⟩
        intro i hi
        exact List.all_eq_true.mp hcreate i (List.mem_range.mpr hi)
      · refine Or.inr ?_
        simp only [if_neg hcreate]
        exact ⟨one_ne_zero, trivial⟩

theorem main_status {o : Options} {e : Env} {cpus : List Int}
    (hreads : o.cpulist.bind parseCpus = some cpus) (hne : cpus ≠ [])
    (hcreates : ∀ i < cpus.length, e.creates i) : (main o e).1 = 0 := by
  obtain ⟨c, cpus, rfl⟩ := List.exists_cons_of_ne_nil hne
  have hall : (List.range (c :: cpus).length).all e.creates = true := by
    simpa using hcreates
  unfold main
  simp only [hreads, if_pos hall]

/-! ## What is read of it -/

/-- The members of a thread, with what they are read as. -/
def workerMembers (w : Worker) : List (Text × Text × Value) :=
  [("cpu".toList, Printf.int w.cpu, .num (Printf.int w.cpu)),
    ("affinity_ok".toList, boolText w.affinityOk, .bool w.affinityOk),
    ("iters".toList, Printf.nat w.iters, .num (Printf.nat w.iters)),
    ("busy_s".toList, Decimal.fixed 4 w.busyS, .num (Decimal.fixed 4 w.busyS)),
    ("miters_per_busy_s".toList, Decimal.fixed 3 (mitersPerBusyS w),
      .num (Decimal.fixed 3 (mitersPerBusyS w)))]

def workerValue (w : Worker) : Value := .obj (Json.meant (workerMembers w))

def summaryMembers (o : Options) (e : Env) (ws : List Worker) : List (Text × Text × Value) :=
  [("wall_s".toList, Decimal.fixed 4 e.wall, .num (Decimal.fixed 4 e.wall)),
    ("duty".toList, Decimal.fixed 3 (dutyOf o), .num (Decimal.fixed 3 (dutyOf o))),
    ("threads".toList, Json.array (ws.map fun w => Json.object (workerFields w)),
      .arr (ws.map workerValue))]

/-- The record, as it is read. -/
def summaryValue (o : Options) (e : Env) (ws : List Worker) : Value :=
  .obj (("label".toList, .str o.label) :: Json.meant (summaryMembers o e ws))

theorem workerFields_eq (w : Worker) : workerFields w = Json.written (workerMembers w) := rfl

theorem workerMembers_keys (w : Worker) : ∀ p ∈ workerMembers w, Printf.isKey p.1 = true := by
  unfold workerMembers
  simp only [List.forall_mem_cons]
  exact ⟨by decide, by decide, by decide, by decide, by decide, List.forall_mem_nil _⟩

theorem reads_bool (b : Bool) : Reads (boolText b) (.bool b) := by
  cases b with
  | false => exact ⟨⟨'f', "alse".toList, rfl, rfl, by decide⟩, fun _ _ _ => rfl⟩
  | true => exact ⟨⟨'t', "rue".toList, rfl, rfl, by decide⟩, fun _ _ _ => rfl⟩

theorem slot_bool (b : Bool) : Printf.Slot (boolText b) := by
  refine ⟨Or.inl ⟨_, reads_bool b⟩, ?_⟩
  cases b <;> rfl

theorem reads_worker (w : Worker) : Reads (Json.object (workerFields w)) (workerValue w) := by
  rw [workerFields_eq]
  apply Json.reads_object fun p hp => Printf.isKey_named (workerMembers_keys w p hp)
  unfold workerMembers
  simp only [List.forall_mem_cons]
  exact ⟨Printf.num_int _, reads_bool _, Printf.num_nat _, Printf.num_decimal _ _,
    Printf.num_decimal _ _, List.forall_mem_nil _⟩

theorem slot_worker (w : Worker) : Printf.Slot (Json.object (workerFields w)) := by
  refine ⟨Or.inl ⟨_, reads_worker w⟩, ?_⟩
  have hslots : ∀ f ∈ workerFields w, Printf.Slot f.2 := by
    unfold workerFields
    simp only [List.forall_mem_cons]
    exact ⟨Printf.slot_int _, slot_bool _, Printf.slot_nat _, Printf.slot_decimal _ _,
      Printf.slot_decimal _ _, List.forall_mem_nil _⟩
  have hkeys : ∀ f ∈ workerFields w, Printf.isKey f.1 = true := by
    intro f hf
    rw [workerFields_eq] at hf
    obtain ⟨p, hp, rfl⟩ := List.mem_map.mp hf
    exact workerMembers_keys w p hp
  exact Bench.object_printable hkeys hslots

section Summary

variable {o : Options} {e : Env} {ws : List Worker}

theorem summaryFields_keys : ∀ f ∈ summaryFields o e ws, Printf.isKey f.1 = true := by
  unfold summaryFields
  simp only [List.forall_mem_cons]
  exact ⟨by decide, by decide, by decide, List.forall_mem_nil _⟩

theorem summaryFields_slots : ∀ f ∈ summaryFields o e ws, Printf.Slot f.2 := by
  unfold summaryFields
  simp only [List.forall_mem_cons]
  refine ⟨Printf.slot_decimal _ _, Printf.slot_decimal _ _, ?_, List.forall_mem_nil _⟩
  apply Printf.slot_array
  intro t ht
  obtain ⟨w, -, rfl⟩ := List.mem_map.mp ht
  exact slot_worker w

/-- **The record of the load generator is always read**, and as what it says. -/
theorem readLine_summary (h : o.label.all Json.plain = true) :
    Bench.readLine (Bench.recordLine o.label (summaryFields o e ws)) =
      some (summaryValue o e ws) := by
  have hthreads : Reads (Json.array (ws.map fun w => Json.object (workerFields w)))
      (.arr (ws.map workerValue)) := Json.reads_array_map fun w _ => reads_worker w
  have hnamed : ∀ p ∈ summaryMembers o e ws, Json.Named p.1 := by
    unfold summaryMembers
    simp only [List.forall_mem_cons]
    exact ⟨Printf.isKey_named (by decide), Printf.isKey_named (by decide),
      Printf.isKey_named (by decide), List.forall_mem_nil _⟩
  have hreads : ∀ p ∈ summaryMembers o e ws, Reads p.2.1 p.2.2 := by
    unfold summaryMembers
    simp only [List.forall_mem_cons]
    exact ⟨Printf.num_decimal _ _, Printf.num_decimal _ _, hthreads, List.forall_mem_nil _⟩
  have hrun := Json.run_members hnamed hreads [("label".toList, .str o.label)] []
  exact Bench.readLine_record ((Bench.run_label h _ []).trans hrun)

end Summary

end Spin

end FakeBigLittle
