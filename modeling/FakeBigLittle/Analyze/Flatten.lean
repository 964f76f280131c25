import FakeBigLittle.CString
import Mathlib.Data.Rat.Defs

/-!
# The columns of a run

What `flatten_run` of `scripts/analyze.py` takes from the scheduler's record. A number that is
missing, or none, is `none`.
-/

namespace FakeBigLittle

open CString

namespace Analyze

/-- The columns that start with `bls_`. -/
structure BlsColumns where
  present : Bool
  enqueue : Option ℚ
  dsqBig : Option ℚ
  dsqLittle : Option ℚ
  crossDomain : Option ℚ
  runBigMs : Option ℚ
  runLittleMs : Option ℚ
  crossFrac : Option ℚ
  runBigFrac : Option ℚ
  runLittleFrac : Option ℚ
  dsqBigFrac : Option ℚ

-- `bls_cross_frac`
def crossFrac (cross enq : Option ℚ) : Option ℚ :=
  match enq, cross with
  | some enq, some cross => if enq = 0 then none else some (cross / enq)
  | _, _ => none

/-- The share of `x` in `x` and `y`, where a missing number counts as 0 in the total. -/
def fracOf (x total : Option ℚ) : Option ℚ :=
  match x, total with
  | some x, some total => if 0 < total then some (x / total) else none
  | _, _ => none

def totalOf (x y : Option ℚ) : Option ℚ := some (x.getD 0 + y.getD 0)

/-- `bls` is the record of the scheduler, if there is one. -/
def flattenBls (bls : Option (List (Text × ℚ))) : BlsColumns :=
  let num := fun k : String => (bls.getD []).lookup k.toList
  let rb := num "run_big_ms"
  let rl := num "run_little_ms"
  let db := num "dsq_big"
  let dl := num "dsq_little"
  { present := bls.isSome
    enqueue := num "enqueue"
    dsqBig := db
    dsqLittle := dl
    crossDomain := num "cross_domain"
    runBigMs := rb
    runLittleMs := rl
    crossFrac := crossFrac (num "cross_domain") (num "enqueue")
    runBigFrac := fracOf rb (totalOf rb rl)
    runLittleFrac := fracOf rl (totalOf rb rl)
    dsqBigFrac := fracOf db (totalOf db dl) }

end Analyze

end FakeBigLittle
