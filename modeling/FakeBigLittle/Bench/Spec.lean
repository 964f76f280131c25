import FakeBigLittle.CString
import Mathlib.Data.List.DropRight
import Mathlib.Data.List.Sort
import Mathlib.Data.List.Dedup

/-!
# The harness

`scripts/bench.py`: the CPU partition and the command line that `e3_one` builds from it.
-/

namespace FakeBigLittle

open CString

namespace Bench

/-! ## The partition -/

/-- What `/sys` shows: the number of CPUs and the core of each. -/
structure Topology where
  nrCpus : Nat
  coreId : Nat → Int

-- `sorted(l)`
def sorted {α : Type} [LinearOrder α] (l : List α) : List α := l.insertionSort (· ≤ ·)

def defaultPartition (t : Topology) : List Nat × List Nat :=
  let cpus := List.range t.nrCpus
  let cores := sorted (cpus.map t.coreId).dedup
  let bigCores := cores.take (max 1 (cores.length / 2))
  (sorted (cpus.filter fun c => t.coreId c ∈ bigCores),
    sorted (cpus.filter fun c => t.coreId c ∉ bigCores))

/-- `int(s)` of an ASCII text without a minus sign: single underscores may stand between
the digits. `none` is `ValueError`. -/
def int (s : Text) : Option Nat :=
  let s := (s.dropWhile isSpace).rdropWhile isSpace
  let groups := (if s.head? = some '+' then s.tail else s).splitOn '_'
  if groups.all fun g => !g.isEmpty && g.all Char.isDigit then
    some (Nat.ofDigitChars 10 groups.flatten 0)
  else none

-- One round of the loop of `parse_cpulist`.
def parsePart (part : Text) : Option (List Nat) :=
  if '-' ∈ part then
    match part.splitOn '-' with
    | [a, b] => do
      let a ← int a
      let b ← int b
      some (List.range' a (b + 1 - a))
    | _ => none
  else (int part).map fun c => [c]

def parseCpulist (s : Text) : Option (List Nat) :=
  ((s.splitOn ',').mapM parsePart).map fun parts => sorted parts.flatten

def str (n : Nat) : Text := Nat.toDigits 10 n

def part (start prev : Nat) : Text :=
  if start = prev then str start else str start ++ '-' :: str prev

/-- The loop of `cpulist` from `start` and `prev` on: the parts that it appends. -/
def cpulistLoop (start prev : Nat) : List Nat → List Text
  | [] => [part start prev]
  | c :: cpus =>
    if c = prev + 1 then cpulistLoop start c cpus
    else part start prev :: cpulistLoop c c cpus

def cpulist : List Nat → Text
  | [] => []
  | c :: cpus => [','].intercalate (cpulistLoop c c cpus)

end Bench

/-- What an instance keeps of the machine. -/
structure Bench where
  big : List Nat
  little : List Nat
  deriving DecidableEq

namespace Bench

/-- `Bench.__init__` with `args.big`; `none` where it raises. -/
def init (t : Topology) : Option Text → Option Bench
  | none | some [] => some ⟨(defaultPartition t).1, (defaultPartition t).2⟩
  | some argsBig => (parseCpulist argsBig).map fun big =>
    ⟨big, (List.range t.nrCpus).filter fun c => c ∉ big⟩

/-! ## The arms of `e3` -/

inductive SchedFactor where
  | eevdf
  | scx
  deriving DecidableEq

inductive EppFactor where
  | flat
  | partitioned
  deriving DecidableEq

structure Factors where
  sched : SchedFactor
  epp : EppFactor
  strict : Bool
  deriving DecidableEq

-- `E3_ARMS`
def e3Arms : List (Text × Factors) :=
  [("eevdf-flat".toList, ⟨.eevdf, .flat, false⟩),
    ("eevdf-partitioned".toList, ⟨.eevdf, .partitioned, false⟩),
    ("scx-flat".toList, ⟨.scx, .flat, false⟩),
    ("scx-partitioned".toList, ⟨.scx, .partitioned, false⟩),
    ("scx-partitioned-strict".toList, ⟨.scx, .partitioned, true⟩)]

/-- The `cmd` of `e3_one` behind the path of bls. -/
def blsArgs (b : Bench) (factors : Factors) : List Text :=
  ["--persist".toList, "--no-epp".toList,
    "--big".toList, cpulist b.big, "--little".toList, cpulist b.little,
    "--mode".toList, "hybrid".toList] ++
  if factors.strict then ["--strict".toList] else []

end Bench

end FakeBigLittle
