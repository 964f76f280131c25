import FakeBigLittle.CString

/-!
# The load generator

`src/spin.c`: the list of CPUs that a load is placed on.
-/

namespace FakeBigLittle

open CString

namespace Spin

-- `MAX_THREADS`
def maxThreads : Nat := 64

/-- `a` or `a-b` at the head of a list, and what follows it; `none` where `strtol` finds no
number. -/
def cpuRange (p : Text) : Option ((Int × Int) × Text) :=
  match strtol p with
  | none => none
  | some (a, '-' :: q) => (strtol q).map fun (b, rest) => ((a, b), rest)
  | some (a, rest) => some ((a, a), rest)

-- `for (c = a; c <= b && n < MAX_THREADS; c++) out[n++] = (int)c`; a `c` beyond LONG_MAX is
-- undefined there, and the end of the range here
def appendRange (out : List Int) (a b : Int) : List Int :=
  out ++ (List.range (min (maxThreads - out.length) (b - a + 1).toNat)).map fun i : Nat =>
    Int.bmod (a + i) 4294967296

/-- The loop of `parse_cpus`; `none` is -1. Every round consumes a character, so a fuel of
the length of the text is enough. -/
def parseCpusLoop : Nat → Text → List Int → Option (List Int)
  | _, [], out => some out
  | 0, _ :: _, out => some out
  | fuel + 1, p, out =>
    if out.length ≥ maxThreads then some out
    else
      match cpuRange p with
      | none => none
      | some ((a, b), ',' :: rest) => parseCpusLoop fuel rest (appendRange out a b)
      | some ((a, b), rest) => parseCpusLoop fuel rest (appendRange out a b)

def parseCpus (s : Text) : Option (List Int) := parseCpusLoop s.length s []

end Spin

end FakeBigLittle
