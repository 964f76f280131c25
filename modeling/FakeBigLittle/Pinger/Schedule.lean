import FakeBigLittle.Pinger.Spec
import Mathlib.Tactic.Linarith

/-!
# The absolute schedule of the pinger

The loop of `main` in `src/pinger.c` with its clock: each wakeup is slept to an absolute time, so
a late one does not move the ones behind it.
-/

namespace FakeBigLittle

open Runs
open Printf (Double)

namespace Pinger

structure Timespec where
  tvSec : Nat
  tvNsec : Nat

def Timespec.ns (t : Timespec) : Nat := t.tvSec * 1000000000 + t.tvNsec

def Timespec.seconds (t : Timespec) : ℚ := t.tvSec + t.tvNsec / 1000000000

def micros (since t : Timespec) : ℚ :=
  ((t.tvSec : ℚ) - since.tvSec) * 1000000 + ((t.tvNsec : ℚ) - since.tvNsec) / 1000

/-- The inner loop, which carries nanoseconds into seconds. -/
def carry (sec nsec : Nat) : Timespec :=
  if 1000000000 ≤ nsec then carry (sec + 1) (nsec - 1000000000) else ⟨sec, nsec⟩
termination_by nsec

/-- `period_ns` -/
def period (long : ToLong) (o : Options) : Nat := (long.conv (.under 1000000000 o.hz)).toNat

/-- What happens in a round: whether `on_stop` is called, what `clock_nanosleep` returns and the
`errno` it leaves alone, and the clock before and after the work. -/
structure Round where
  signal : Bool
  ret : Nat
  errno : Nat
  wake : Timespec
  done : Timespec

structure Loop where
  next : Timespec
  main : Main
  stopNow : Bool

def begin (t0 : Timespec) : Loop := ⟨t0, start, false⟩

def eintr : Nat := 4

/-- The sleep breaks the loop. -/
def Round.Breaks (r : Round) : Prop := r.ret ≠ 0 ∧ r.errno ≠ eintr

instance (r : Round) : Decidable r.Breaks := inferInstanceAs (Decidable (_ ∧ _))

def Round.measure (t0 next : Timespec) (r : Round) : Wakeup :=
  ⟨micros next r.wake, micros r.wake r.done, r.wake.seconds - t0.seconds⟩

def advance (long : ToLong) (o : Options) (next : Timespec) : Timespec :=
  carry next.tvSec (next.tvNsec + period long o)

/-- A round of the loop, from the test of `stop_now` on. -/
def turn (long : ToLong) (o : Options) (t0 : Timespec) (s : Loop) (r : Round) : Option Loop :=
  if s.main.running ∧ s.stopNow = false then
    let next := advance long o s.next
    if r.Breaks then some ⟨next, { s.main with running := false }, r.signal⟩
    else (wakeStep long o s.main (r.measure t0 next)).map fun main => ⟨next, main, r.signal⟩
  else none

/-- `clock_nanosleep` returns early for a signal or for a time that is none. -/
structure Slept (long : ToLong) (o : Options) (s : Loop) (r : Round) : Prop where
  late : r.ret = 0 → (advance long o s.next).ns ≤ r.wake.ns
  early : r.ret ≠ 0 → r.signal = true ∨ 1000000000 ≤ (advance long o s.next).tvNsec

/-! ## The clock -/

theorem carry_eq (sec nsec : Nat) :
    carry sec nsec = ⟨sec + nsec / 1000000000, nsec % 1000000000⟩ := by
  fun_induction carry sec nsec with
  | case1 sec nsec hcarry ih =>
    rw [ih, Timespec.mk.injEq]
    omega
  | case2 sec nsec hcarry =>
    rw [Timespec.mk.injEq]
    omega

theorem advance_ns (long : ToLong) (o : Options) (t : Timespec) :
    (advance long o t).ns = t.ns + period long o := by
  unfold advance Timespec.ns
  rw [carry_eq]
  simp only
  omega

theorem advance_tvNsec (long : ToLong) (o : Options) (t : Timespec) :
    (advance long o t).tvNsec < 1000000000 := by
  unfold advance
  rw [carry_eq]
  exact Nat.mod_lt _ (by decide)

theorem micros_eq (since t : Timespec) : micros since t = ((t.ns : ℚ) - since.ns) / 1000 := by
  unfold micros Timespec.ns
  push_cast
  ring

theorem seconds_sub (since t : Timespec) :
    t.seconds - since.seconds = ((t.ns : ℚ) - since.ns) / 1000000000 := by
  unfold Timespec.seconds Timespec.ns
  push_cast
  ring

/-! ## What is kept of a run -/

/-- What is measured in round `k`, against a clock that ticks every period since `t0`. -/
def sample (long : ToLong) (o : Options) (t0 : Timespec) (r : Round) (k : Nat) : Option (ℚ × ℚ) :=
  if ¬ r.Breaks ∧ o.warmup.le (((r.wake.ns : ℚ) - t0.ns) / 1000000000) then
    some (max ((r.wake.ns - (t0.ns + (k + 1) * period long o)) / 1000) 0,
      ((r.done.ns : ℚ) - r.wake.ns) / 1000)
  else none

def samples (long : ToLong) (o : Options) (t0 : Timespec) (rs : List Round) : List (ℚ × ℚ) :=
  rs.zipIdx.filterMap fun r => sample long o t0 r.1 r.2

theorem samples_snoc (long : ToLong) (o : Options) (t0 : Timespec) (rs : List Round) (r : Round) :
    samples long o t0 (rs ++ [r]) =
      samples long o t0 rs ++ (sample long o t0 r rs.length).toList := by
  unfold samples
  rw [List.zipIdx_append, List.filterMap_append]
  simp only [List.zipIdx_singleton, Nat.zero_add]
  cases h : sample long o t0 r rs.length <;> simp [h]

theorem samples_length_le (long : ToLong) (o : Options) (t0 : Timespec) (rs : List Round) :
    (samples long o t0 rs).length ≤ rs.length := by
  unfold samples
  exact (List.length_filterMap_le _ _).trans (List.length_zipIdx ..).le

/-- The loop after the rounds `rs`. -/
structure OnSchedule (long : ToLong) (o : Options) (dur : ℚ) (t0 : Timespec) (s : Loop)
    (rs : List Round) : Prop where
  next : s.next.ns = t0.ns + rs.length * period long o
  wake : s.main.wake = (samples long o t0 rs).map Prod.fst
  work : s.main.work = (samples long o t0 rs).map Prod.snd
  goes : s.main.running = true → s.stopNow = false → rs.length * period long o < dur * 1000000000
  rounds : rs.length * period long o < dur * 1000000000 + period long o

section Turns

variable {long : ToLong} {o : Options} {hz dur : ℚ}

theorem turn_cases {t0 : Timespec} {s t : Loop} {r : Round}
    (h : turn long o t0 s r = some t) :
    s.main.running = true ∧ s.stopNow = false ∧ t.next = advance long o s.next ∧
      t.stopNow = r.signal ∧
      (r.Breaks ∧ t.main = { s.main with running := false } ∨
        ¬ r.Breaks ∧
          wakeStep long o s.main (r.measure t0 (advance long o s.next)) = some t.main) := by
  unfold turn at h
  simp only at h
  split_ifs at h with hgo hbreaks
  · obtain rfl := Option.some.inj h
    exact ⟨hgo.1, hgo.2, rfl, rfl, Or.inl ⟨hbreaks, rfl⟩⟩
  · obtain ⟨main, hmain, rfl⟩ := Option.map_eq_some_iff.mp h
    exact ⟨hgo.1, hgo.2, rfl, rfl, Or.inr ⟨hbreaks, hmain⟩⟩

theorem wakeStep_room {m m' : Main} {w : Wakeup} (hd : o.dur = .finite dur)
    (h : wakeStep long o m w = some m') (hroom : m.wake.length < cap long o) :
    m'.running = decide (w.elapsed < dur) ∧
      m'.wake = m.wake ++ (if o.warmup.le w.elapsed then [max w.lateUs 0] else []) ∧
      m'.work = m.work ++ (if o.warmup.le w.elapsed then [w.busyUs] else []) := by
  have hends : (!o.dur.le w.elapsed) = decide (w.elapsed < dur) := by
    simp only [hd, Double.le, ← decide_not, not_le]
  unfold wakeStep at h
  simp only [hroom, and_true, hends] at h
  split_ifs at h with hrunning hwarm
  · obtain rfl := Option.some.inj h
    simp [hwarm]
  · obtain rfl := Option.some.inj h
    simp [hwarm]

/-- The buffers are long enough for the rounds that fit in the duration. -/
theorem lt_cap {n : Nat} (ho : o.hz = .finite hz) (hd : o.dur = .finite dur)
    (hperiod : 0 < period long o)
    (hroom : dur * 1000000000 ≤ (dur * hz + 63) * period long o)
    (hn : n * period long o < dur * 1000000000) : n < cap long o := by
  have hpos : (0 : ℚ) < period long o := by exact_mod_cast hperiod
  have hlt : (n : ℚ) < dur * hz + 63 := lt_of_mul_lt_mul_right (hn.trans_le hroom) hpos.le
  have hfloor : (n : Int) - 63 ≤ ⌊dur * hz⌋ := by
    rw [Int.le_floor]
    push_cast
    linarith only [hlt]
  have hceil := Int.floor_le_ceil (dur * hz)
  unfold cap
  rw [hd, ho, Double.mul, long.finite]
  split_ifs <;> omega

theorem sample_of_breaks {t0 : Timespec} {r : Round} {k : Nat} (h : r.Breaks) :
    sample long o t0 r k = none := if_neg fun hkept => hkept.1 h

/-- A round that measures something keeps the loop on its schedule. -/
theorem onSchedule_measure {t0 : Timespec} {s : Loop} {rs : List Round} {r : Round} {m : Main}
    (hd : o.dur = .finite dur) (hs : OnSchedule long o dur t0 s rs)
    (hroom : s.main.wake.length < cap long o) (hbreaks : ¬ r.Breaks)
    (hm : wakeStep long o s.main (r.measure t0 (advance long o s.next)) = some m) :
    m.running = decide (((r.wake.ns : ℚ) - t0.ns) / 1000000000 < dur) ∧
      m.wake = (samples long o t0 (rs ++ [r])).map Prod.fst ∧
      m.work = (samples long o t0 (rs ++ [r])).map Prod.snd := by
  have hnext : ((advance long o s.next).ns : ℚ) = t0.ns + (rs.length + 1) * period long o := by
    rw [advance_ns, hs.next]
    push_cast
    ring
  obtain ⟨hrunning, hwake, hwork⟩ := wakeStep_room hd hm hroom
  simp only [Round.measure, seconds_sub, micros_eq, hnext] at hrunning hwake hwork
  refine ⟨hrunning, ?_, ?_⟩
  · rw [hwake, hs.wake, samples_snoc, List.map_append]
    unfold sample
    split_ifs <;> simp_all
  · rw [hwork, hs.work, samples_snoc, List.map_append]
    unfold sample
    split_ifs <;> simp_all

theorem onSchedule_turn {t0 : Timespec} {s t : Loop} {rs : List Round} {r : Round}
    (ho : o.hz = .finite hz) (hd : o.dur = .finite dur) (hperiod : 0 < period long o)
    (hroom : dur * 1000000000 ≤ (dur * hz + 63) * period long o)
    (hs : OnSchedule long o dur t0 s rs) (hslept : Slept long o s r)
    (h : turn long o t0 s r = some t) :
    OnSchedule long o dur t0 t (rs ++ [r]) := by
  obtain ⟨hrunning, hstop, hnext, hsignal, hround⟩ := turn_cases h
  have hgoes := hs.goes hrunning hstop
  have hwakes : s.main.wake.length < cap long o := by
    have hle := samples_length_le long o t0 rs
    have hlt := lt_cap ho hd hperiod hroom hgoes
    rw [hs.wake, List.length_map]
    omega
  have hns : t.next.ns = t0.ns + (rs ++ [r]).length * period long o := by
    rw [hnext, advance_ns, hs.next, List.length_append, List.length_singleton]
    ring
  have hrounds : ((rs ++ [r]).length : ℚ) * period long o < dur * 1000000000 + period long o := by
    rw [List.length_append, List.length_singleton]
    push_cast
    linarith only [hgoes]
  obtain ⟨hbreaks, hmain⟩ | ⟨hbreaks, hmain⟩ := hround
  · refine ⟨hns, ?_, ?_, ?_, hrounds⟩
    · rw [hmain, samples_snoc, sample_of_breaks hbreaks, Option.toList_none, List.append_nil]
      exact hs.wake
    · rw [hmain, samples_snoc, sample_of_breaks hbreaks, Option.toList_none, List.append_nil]
      exact hs.work
    · intro hgo
      rw [hmain] at hgo
      simp at hgo
  · obtain ⟨hdur, hwake, hwork⟩ := onSchedule_measure hd hs hwakes hbreaks hmain
    refine ⟨hns, hwake, hwork, ?_, hrounds⟩
    intro hgo hnosignal
    -- without a signal the sleep was not cut short, and the clock is past the tick
    have hret : r.ret = 0 := by
      by_contra hret
      have hcarry := advance_tvNsec long o s.next
      obtain hset | hinvalid := hslept.early hret
      · rw [hsignal, hset] at hnosignal
        exact Bool.noConfusion hnosignal
      · omega
    have htick : (t.next.ns : ℚ) ≤ r.wake.ns := by
      rw [hnext]
      exact_mod_cast hslept.late hret
    rw [hdur, decide_eq_true_eq, div_lt_iff₀ (by norm_num)] at hgo
    rw [hns] at htick
    push_cast at htick
    linarith only [htick, hgo]

theorem onSchedule_begin (t0 : Timespec) (hdur : 0 < dur) :
    OnSchedule long o dur t0 (begin t0) [] := by
  refine ⟨?_, rfl, rfl, fun _ _ => ?_, ?_⟩
  · simp [begin]
  · simpa using hdur
  · have hpos : (0 : ℚ) ≤ period long o := Nat.cast_nonneg _
    simp only [List.length_nil, Nat.cast_zero, zero_mul]
    linarith only [hdur, hpos]

/-- **The samples are those of an absolute schedule.** However late the wakeups come and however
long their work takes, the deadline of round `k` is `t0 + (k + 1) * period`, every round past the
warmup is kept with how late it was against that deadline, in order and none for want of room, and
there are no more rounds than fit in the duration. -/
theorem samples_on_schedule {t0 : Timespec} {rs : List Round} {s : Loop}
    (ho : o.hz = .finite hz) (hd : o.dur = .finite dur)
    (hdur : 0 < dur) (hperiod : 0 < period long o)
    (hroom : dur * 1000000000 ≤ (dur * hz + 63) * period long o)
    (hslept : StepsMeet (turn long o t0) (Slept long o) (begin t0) rs)
    (hrun : run (turn long o t0) (begin t0) rs = some s) :
    s.next.ns = t0.ns + rs.length * period long o ∧
      s.main.wake = (samples long o t0 rs).map Prod.fst ∧
      s.main.work = (samples long o t0 rs).map Prod.snd ∧
      rs.length * period long o < dur * 1000000000 + period long o := by
  have hend := inv_trace (J := fun s rs => OnSchedule long o dur t0 s rs) (o := fun _ r => [r])
    (fun s r t rs hs hr h => onSchedule_turn ho hd hperiod hroom hs hr h) rs
    (onSchedule_begin t0 hdur) hslept hrun
  rw [trace_taken hrun, List.nil_append] at hend
  exact ⟨hend.next, hend.wake, hend.work, hend.rounds⟩

end Turns

/-- A second at 2 Hz, all of it kept. -/
def brief : Options := { hz := .finite 2, dur := .finite 1, warmup := .finite 0 }

/-- Work that overruns its period makes one wakeup late, and the next tick is where it was. -/
def overrun : List Round :=
  [⟨false, 0, 0, ⟨1, 200050000⟩, ⟨1, 900000000⟩⟩, ⟨false, 0, 0, ⟨1, 900000000⟩, ⟨1, 901000000⟩⟩]

theorem overrun_period : period cvttsd2si brief = 500000000 := by
  unfold period brief
  rw [Double.under, if_neg (by norm_num), cvttsd2si.finite]
  norm_num
  rfl

theorem overrun_cap : cap cvttsd2si brief = 66 := by
  unfold cap brief
  rw [Double.mul, cvttsd2si.finite]
  norm_num

theorem overrun_advance :
    advance cvttsd2si brief ⟨0, 700000000⟩ = ⟨1, 200000000⟩ ∧
      advance cvttsd2si brief ⟨1, 200000000⟩ = ⟨1, 700000000⟩ := by
  unfold advance
  rw [overrun_period, carry_eq, carry_eq]
  exact ⟨rfl, rfl⟩

theorem overrun_first :
    turn cvttsd2si brief ⟨0, 700000000⟩ (begin ⟨0, 700000000⟩)
        ⟨false, 0, 0, ⟨1, 200050000⟩, ⟨1, 900000000⟩⟩ =
      some ⟨⟨1, 200000000⟩, ⟨[50], [699950], true⟩, false⟩ := by
  unfold turn
  simp only [begin, overrun_advance.1, wakeStep, start, Round.Breaks, Round.measure, overrun_cap,
    micros, Timespec.seconds]
  norm_num [brief, Double.le]

theorem overrun_second :
    turn cvttsd2si brief ⟨0, 700000000⟩
        ⟨⟨1, 200000000⟩, ⟨[50], [699950], true⟩, false⟩
        ⟨false, 0, 0, ⟨1, 900000000⟩, ⟨1, 901000000⟩⟩ =
      some ⟨⟨1, 700000000⟩, ⟨[50, 200000], [699950, 1000], false⟩, false⟩ := by
  unfold turn
  simp only [overrun_advance.2, wakeStep, Round.Breaks, Round.measure, overrun_cap, micros,
    Timespec.seconds]
  norm_num [brief, Double.le]

theorem overrun_runs :
    run (turn cvttsd2si brief ⟨0, 700000000⟩) (begin ⟨0, 700000000⟩) overrun =
      some ⟨⟨1, 700000000⟩, ⟨[50, 200000], [699950, 1000], false⟩, false⟩ := by
  unfold overrun
  rw [run_cons, overrun_first, Option.bind_some, run_cons, overrun_second, Option.bind_some,
    run_nil]

theorem overrun_slept :
    StepsMeet (turn cvttsd2si brief ⟨0, 700000000⟩)
      (Slept cvttsd2si brief) (begin ⟨0, 700000000⟩) overrun := by
  refine fun t ht => ⟨⟨fun _ => ?_, fun h => absurd rfl h⟩, fun u _ =>
    ⟨⟨fun _ => ?_, fun h => absurd rfl h⟩, trivial⟩⟩
  · rw [advance_ns, overrun_period]
    decide
  · rw [advance_ns, (turn_cases ht).2.2.1, advance_ns, overrun_period]
    decide

theorem samples_on_schedule_overrun :
    [50, 200000] = (samples cvttsd2si brief ⟨0, 700000000⟩ overrun).map
      Prod.fst :=
  (samples_on_schedule rfl rfl (by norm_num) (by rw [overrun_period]; decide)
    (by rw [overrun_period]; norm_num) overrun_slept overrun_runs).2.1

end Pinger

end FakeBigLittle
