import FakeBigLittle.Kernel.Placement

/-!
# Who is served before a waiting task

A DSQ is a FIFO for the CPUs that may run a task, so they overtake it at most once for each
task ahead of it. A CPU of the other domain looks at its own DSQ first, and there is no
bound on how often it finds something there.
-/

namespace FakeBigLittle

open Runs Fifo

variable {T : Type}

/-- The tasks that wait on the DSQ of `d`. -/
def waiting (s : Sys T) (d : Dom) : List T := (s.sched.dsq d).map (·.task)

/-- The task that `dispatch` on `cpu` put on the local DSQ. -/
def arrival (m : Machine T) (cpu : Nat) (s : Sched T) : Option (Queued T) :=
  (((blsDispatch m cpu s).localDsq cpu).drop (s.localDsq cpu).length).head?

/-- The tasks on the shared DSQs and on the CPUs. -/
def load (m : Machine T) (s : Sys T) : Nat :=
  (waiting s .big).length + (waiting s .little).length +
    (List.range m.nrCpus).countP fun cpu => (s.running cpu).isSome

variable [DecidableEq T]

/-- `dispatch` on `c` moves a task other than `p` to `c`. -/
def overtakes (m : Machine T) (p : T) (c : Nat) (s : Sys T) : Event T → Bool
  | .dispatch cpu => cpu == c && (arrival m cpu s.sched).any fun q => q.task != p
  | _ => false

/-- The same, out of the DSQ of `d`. -/
def overtakesIn (m : Machine T) (p : T) (d : Dom) (c : Nat) (s : Sys T) : Event T → Bool
  | .dispatch cpu =>
    cpu == c && (arrival m cpu s.sched).any fun q => q.task != p && (waiting s d).contains q.task
  | _ => false

/-! ## One dispatch -/

omit [DecidableEq T] in
/-- What arrives was the first task on its DSQ that the CPU may run. -/
theorem arrival_cases (m : Machine T) (cpu : Nat) (s : Sched T) :
    (∃ d q, ((s.dsq d).find? fun q => m.cpusPtr q.task cpu) = some q ∧
      arrival m cpu s = some q ∧
      (blsDispatch m cpu s).dsq d = (s.dsq d).eraseP fun q => m.cpusPtr q.task cpu) ∨
    arrival m cpu s = none := by
  unfold arrival
  rcases blsDispatch_cases m cpu s with ⟨q, hq, heq⟩ | ⟨q, -, -, hq, heq⟩ | ⟨-, -, heq⟩
  · left
    refine ⟨_, q, hq, ?_⟩
    rw [heq]
    simp [moved]
  · left
    refine ⟨_, q, hq, ?_⟩
    rw [heq]
    simp [moved]
  · right
    rw [heq]
    simp

omit [DecidableEq T] in
/-- A CPU that may run a task of its own DSQ takes a task from this DSQ. -/
theorem arrival_own {m : Machine T} {cpu : Nat} {s : Sched T} {q r : Queued T}
    (hq : q ∈ s.dsq (domOfCpu m.toConfig cpu)) (hmask : m.cpusPtr q.task cpu = true)
    (hr : arrival m cpu s = some r) : r ∈ s.dsq (domOfCpu m.toConfig cpu) := by
  unfold arrival at hr
  rcases blsDispatch_cases m cpu s with ⟨q', hq', heq⟩ | ⟨q', hnone, -⟩ | ⟨hnone, -, -⟩
  · rw [heq] at hr
    simp only [moved, Function.update_self, List.drop_left, List.head?_cons,
      Option.some.injEq] at hr
    exact hr ▸ List.mem_of_find?_eq_some hq'
  all_goals
    have := List.find?_eq_none.mp hnone q hq
    exact absurd hmask this

/-! ## The rank of a waiting task -/

theorem ahead_step {m : Machine T} {s t : Sys T} {w : T → Option Place} {e : Event T}
    (hw : Placed s w) (hstep : step m s e = some t) {p : T} {d : Dom}
    (hin : p ∈ waiting s d) (hin' : p ∈ waiting t d) :
    ahead (·.task) p (t.sched.dsq d) ≤ ahead (·.task) p (s.sched.dsq d) := by
  rcases step_dsq hw.direct hstep d with heq | ⟨q, heq⟩ | ⟨takes, heq⟩
  · rw [heq]
  · rw [heq, ahead_append _ _ _ _ hin]
  · rw [waiting, heq] at hin'
    rw [heq]
    apply ahead_eraseP_le
    rintro a ha rfl
    exact notMem_map_eraseP (hw.holds.nodup (.shared d)) ha hin'

/-- A CPU that may run `p` and takes another task from the DSQ brings `p` forward. -/
theorem ahead_overtaken {m : Machine T} {s t : Sys T} {w : T → Option Place} {e : Event T}
    (hw : Placed s w) (hstep : step m s e = some t) {p : T} {d : Dom} {c : Nat}
    (hmask : m.cpusPtr p c = true) (hover : overtakesIn m p d c s e = true) :
    ahead (·.task) p (t.sched.dsq d) + 1 = ahead (·.task) p (s.sched.dsq d) := by
  unfold overtakesIn at hover
  split at hover
  case h_2 => exact absurd hover (by simp)
  case h_1 cpu =>
    simp only [Bool.and_eq_true, beq_iff_eq, Option.any_eq_true, bne_iff_ne, ne_eq,
      List.contains_iff_mem] at hover
    obtain ⟨rfl, q, harr, hne, hmem⟩ := hover
    obtain ⟨-, rfl⟩ := step_dispatch hstep
    rw [settle_dsq]
    rcases arrival_cases m cpu s.sched with ⟨e, q', hq', harr', heq⟩ | hnone
    · obtain rfl : q' = q := Option.some.inj (harr'.symm.trans harr)
      -- The DSQ it came from is the DSQ that `p` waits on.
      have hplace : Place.shared e = Place.shared d :=
        hw.holds.place_eq (List.mem_map_of_mem (List.mem_of_find?_eq_some hq')) hmem
      obtain rfl : e = d := Place.shared.inj hplace
      rw [heq]
      refine ahead_served _ _ _ _ q' hq' hne fun r _ hr => ?_
      rw [hr]
      exact hmask
    · rw [hnone] at harr
      exact absurd harr (by simp)

/-- On a CPU of the DSQ's own domain every overtaking is one in this DSQ. -/
theorem overtakesIn_of_overtakes {m : Machine T} {s : Sys T} {p : T} {d : Dom} {c : Nat}
    (hin : p ∈ waiting s d) (hmask : m.cpusPtr p c = true) (hd : domOfCpu m.toConfig c = d)
    {e : Event T} (h : overtakes m p c s e = true) : overtakesIn m p d c s e = true := by
  unfold overtakes at h
  unfold overtakesIn
  split at h
  case h_2 => exact absurd h (by simp)
  case h_1 cpu =>
    simp only [Bool.and_eq_true, beq_iff_eq, Option.any_eq_true, bne_iff_ne, ne_eq,
      List.contains_iff_mem] at h ⊢
    obtain ⟨rfl, q, harr, hne⟩ := h
    subst hd
    obtain ⟨r, hr, rfl⟩ := List.mem_map.mp hin
    exact ⟨rfl, q, harr, hne, List.mem_map_of_mem (arrival_own hr hmask harr)⟩

omit [DecidableEq T] in
theorem waiting_length_le (m : Machine T) (s : Sys T) (d : Dom) :
    (waiting s d).length ≤ load m s := by
  unfold load
  cases d <;> omega

/-! ## Runs -/

abbrev hogMachine : Machine Nat := pairMachine .comm false

/-- Task 1 is called `make`, so it is BIG. -/
def hogStart : Sys Nat := { pairStart with comm := fun p => if p = 1 then makeComm else shComm }

/-- Task 0, which may run on the BIG core only, waits as LITTLE. Task 1 is BIG, and it is
on the core, on its local DSQ or on the BIG DSQ. -/
structure Hogged (s : Sys Nat) (running : Option Nat) (big loc : List Nat) : Prop where
  running : s.running 0 = running
  big : waiting s .big = big
  little : waiting s .little = [0]
  loc : (s.sched.localDsq 0).map (·.task) = loc
  ctx : ∃ tc, s.sched.taskCtx 1 = some tc ∧ tc.domain = .big ∧ tc.commPinned = true

theorem hogged_expire {s : Sys Nat} (h : Hogged s (some 1) [] []) :
    ∃ t, step hogMachine s (.expire 0 2 0) = some t ∧ Hogged t none [1] [] := by
  obtain ⟨tc, htc, hdom, hpin⟩ := h.ctx
  obtain ⟨tc', htc', hpin', -, hsame⟩ := blsStopping_ctx hogMachine 1 2 0 s.sched tc htc
  have hctx := blsStopping_ctxOnly hogMachine 1 2 0 s.sched
  have hdom' := (hsame (not_adapts_of_pinned hpin 2)).trans hdom
  have hbig : taskDom (blsStopping hogMachine 1 2 0 s.sched) 1 = .big := by
    unfold taskDom
    rw [htc']
    exact hdom'
  refine ⟨enter hogMachine (leave hogMachine s 1 0 2) 1 0, by simp [step, h.running], ?_⟩
  constructor
  · simp [enter, wake, leave]
  · simp only [waiting, enter, leave, blsEnqueue_eq, hbig, Function.update_self, hctx.dsq,
      List.map_append, List.map_cons, List.map_nil]
    exact congrArg (· ++ [1]) h.big
  · simp only [waiting, enter, leave, blsEnqueue_eq, hbig]
    rw [Function.update_of_ne (by simp), hctx.dsq]
    exact h.little
  · simp only [enter, leave, blsEnqueue_eq, hctx.localDsq]
    exact h.loc
  · refine ⟨tc', ?_, hdom', hpin'.trans hpin⟩
    simp only [enter, leave, blsEnqueue_eq]
    exact htc'

/-- The core takes task 1 from its own DSQ. -/
theorem hogged_dispatch {s : Sys Nat} (h : Hogged s none [1] []) :
    ∃ t, step hogMachine s (.dispatch 0) = some t ∧ Hogged t none [] [1] ∧
      overtakes hogMachine 0 0 s (.dispatch 0) = true := by
  obtain ⟨q, hq, htask⟩ : ∃ q, s.sched.dsq .big = [q] ∧ q.task = 1 := by
    simpa [waiting] using h.big
  have hloc : s.sched.localDsq 0 = [] := by simpa using h.loc
  have hmask : hogMachine.cpusPtr q.task 0 = true := by
    rw [htask]
    rfl
  have hdisp : blsDispatch hogMachine 0 s.sched =
      moved hogMachine s.sched 0 .big q .localHit := by
    have hdom : domOfCpu hogMachine.toConfig ((0 : Nat) : Int) = .big := rfl
    have hfind : ((s.sched.dsq .big).find? fun q => hogMachine.cpusPtr q.task 0) = some q := by
      rw [hq]
      exact List.find?_cons_of_pos hmask
    rcases blsDispatch_cases hogMachine 0 s.sched with ⟨r, hr, heq⟩ | ⟨r, hr, -⟩ | ⟨hr, -⟩
    all_goals rw [hdom, hfind] at hr
    · rw [heq, ← Option.some.inj hr]
      rfl
    · exact absurd hr (by simp)
    · exact absurd hr (by simp)
  refine ⟨settle { s with sched := blsDispatch hogMachine 0 s.sched } 0, ?_, ?_, ?_⟩
  · unfold step
    exact if_pos (by decide)
  · have hbusy : (moved hogMachine s.sched 0 .big q .localHit).localDsq 0 ≠ [] := by
      simp [moved]
    rw [hdisp]
    unfold settle
    rw [if_neg fun hidle => hbusy hidle.2]
    constructor
    · exact h.running
    · simp [waiting, moved, hq, hmask]
    · exact h.little
    · simp [moved, hloc, htask]
    · exact h.ctx
  · simp only [overtakes, arrival, hdisp]
    simp [moved, htask]

theorem hogged_run {s : Sys Nat} (h : Hogged s none [] [1]) :
    ∃ t, step hogMachine s (.run 0 3) = some t ∧ Hogged t (some 1) [] [] := by
  obtain ⟨q, hq, htask⟩ : ∃ q, s.sched.localDsq 0 = [q] ∧ q.task = 1 := by
    simpa using h.loc
  obtain ⟨tc, htc, hdom, hpin⟩ := h.ctx
  have hctx := blsRunning_ctxOnly q.task 3 (popLocal s.sched 0 [])
  refine ⟨{ s with
    sched := blsRunning q.task 3 (popLocal s.sched 0 [])
    running := Function.update s.running 0 (some q.task) },
    by simp only [step, h.running, hq], ?_⟩
  constructor
  · simp [htask]
  · simp only [waiting, hctx.dsq]
    exact h.big
  · simp only [waiting, hctx.dsq]
    exact h.little
  · simp only [hctx.localDsq]
    simp [popLocal]
  · rw [htask]
    exact ⟨_, blsRunning_ctx 1 3 _ tc htc, hdom, hpin⟩

/-- In each slice of task 1 the core overtakes task 0 once. -/
theorem hogged_round (s : Sys Nat) (h : Hogged s (some 1) [] []) :
    ∃ es t, run (step hogMachine) s es = some t ∧ Hogged t (some 1) [] [] ∧
      StatesMeet (step hogMachine) (fun s => 0 ∈ waiting s .little) s es ∧
      0 < countSteps (step hogMachine) (overtakes hogMachine 0 0) s es := by
  obtain ⟨t₁, h₁, hog₁⟩ := hogged_expire h
  obtain ⟨t₂, h₂, hog₂, hover⟩ := hogged_dispatch hog₁
  obtain ⟨t₃, h₃, hog₃⟩ := hogged_run hog₂
  have hwaits : ∀ {s : Sys Nat} {r big loc}, Hogged s r big loc → 0 ∈ waiting s .little := by
    intro s r big loc h
    rw [h.little]
    exact List.mem_singleton_self _
  refine ⟨[.expire 0 2 0, .dispatch 0, .run 0 3], t₃, ?_, hog₃, ?_, ?_⟩
  · simp only [run, h₁, h₂, h₃, Option.bind_some]
  · simp only [StatesMeet, h₁, h₂, h₃, Option.some.injEq, forall_eq']
    exact ⟨hwaits h, hwaits hog₁, hwaits hog₂, hwaits hog₃⟩
  · simp only [countSteps, h₁, h₂, hover, if_true]
    omega

end FakeBigLittle
