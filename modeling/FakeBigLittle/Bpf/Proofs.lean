import FakeBigLittle.Bpf.Spec
import Mathlib.Data.List.Perm.Basic

/-!
# What each callback does

One spec per function of `Spec.lean`. Each callback is described by the fields that it
changes, so that no later proof unfolds it.
-/

namespace FakeBigLittle

variable {T : Type}

/-! ## Domains -/

theorem domDsq_eq (d : Dom) : domDsq d = .shared d := by cases d <;> rfl

theorem domOfCpu_nat (c : Config) (cpu : Nat) (h : cpu < blsMaxCpus) :
    domOfCpu c cpu = c.cpuDom cpu := by
  unfold domOfCpu
  rw [if_neg (by omega), Int.toNat_natCast]
  cases c.cpuDom cpu <;> rfl

theorem domOfCpu_of_all_big (c : Config) (h : ∀ i, c.cpuDom i = .big) (cpu : Int) :
    domOfCpu c cpu = .big := by
  unfold domOfCpu
  split_ifs <;> simp_all

/-! ## Claiming an idle CPU -/

/-- The lowest-numbered idle CPU of `dom` that `p` may use. -/
def firstIdle (m : Machine T) (p : T) (dom : Dom) (idle : Nat → Bool) : Option Nat :=
  (List.range m.nrCpus).find? fun i =>
    decide (domOfCpu m.toConfig i = dom) && m.cpusPtr p i && idle i

/-- `mask` with the bit of `cpu`, if there is one, set to `b`. -/
def setBit (mask : Nat → Bool) (cpu : Option Nat) (b : Bool) : Nat → Bool :=
  match cpu with
  | none => mask
  | some i => Function.update mask i b

@[simp]
theorem setBit_some (mask : Nat → Bool) (i : Nat) (b : Bool) :
    setBit mask (some i) b = Function.update mask i b := rfl

theorem setBit_false {mask : Nat → Bool} {cpu : Option Nat} {i : Nat}
    (h : setBit mask cpu false i = true) : mask i = true ∧ cpu ≠ some i := by
  rcases cpu with _ | j
  · exact ⟨h, by simp⟩
  · rw [setBit_some] at h
    rcases eq_or_ne i j with rfl | hne
    · simp at h
    · rw [Function.update_of_ne hne] at h
      exact ⟨h, by simpa using hne.symm⟩

theorem setBit_of_ne {mask : Nat → Bool} {cpu : Option Nat} {i : Nat} (b : Bool)
    (h : cpu ≠ some i) : setBit mask cpu b i = mask i := by
  rcases cpu with _ | j
  · rfl
  · exact Function.update_of_ne (by simpa [eq_comm] using h) ..

-- The state after the idle bit of `cpu`, if there is one, is cleared.
def claim (s : Sched T) (cpu : Option Nat) : Sched T :=
  { s with idle := setBit s.idle cpu false }

theorem claimIdle_eq (m : Machine T) (p : T) (dom : Dom) (l : List Nat) (s : Sched T) :
    claimIdle m p dom l s =
      let cpu := (l.takeWhile fun i => decide (i < m.nrCpus)).find? fun (i : Nat) =>
        decide (domOfCpu m.toConfig i = dom) && m.cpusPtr p i && s.idle i
      (cpu, claim s cpu) := by
  induction l with
  | nil => rfl
  | cons i rest ih =>
    unfold claimIdle
    by_cases hi : i < m.nrCpus
    · rw [if_neg (by omega), List.takeWhile_cons_of_pos (by simpa using hi)]
      split_ifs with hdom hmask
      · rw [List.find?_cons_of_neg (by simp [hdom])]
        exact ih
      · rw [List.find?_cons_of_neg (by simp_all)]
        exact ih
      · cases hidle : s.idle i with
        | true =>
          rw [List.find?_cons_of_pos (by simp_all)]
          simp [scxBpfTestAndClearCpuIdle, hidle, claim]
        | false =>
          rw [List.find?_cons_of_neg (by simp [hidle])]
          -- Clearing a bit that is clear changes nothing.
          have hsame : Function.update s.idle i false = s.idle := by
            rw [← hidle, Function.update_eq_self]
          simpa only [scxBpfTestAndClearCpuIdle, hidle, hsame] using ih
    · rw [if_pos (by omega), List.takeWhile_cons_of_neg (by simpa using hi)]
      rfl

theorem takeWhile_range (m n : Nat) (h : m ≤ n) :
    ((List.range n).takeWhile fun i => decide (i < m)) = List.range m := by
  obtain ⟨k, rfl⟩ := Nat.exists_eq_add_of_le h
  rw [List.range_add, List.takeWhile_append_of_pos (by simp)]
  cases k with
  | zero => simp
  | succ k => rw [List.range_succ_eq_map]; simp

theorem claimIdle_range (m : Machine T) (p : T) (dom : Dom) (s : Sched T) :
    claimIdle m p dom (List.range blsMaxCpus) s =
      (firstIdle m p dom s.idle, claim s (firstIdle m p dom s.idle)) := by
  rw [claimIdle_eq, takeWhile_range _ _ m.nrCpus_le]
  rfl

/-- The CPU that `pick_idle_in_dom` returns. -/
def pickedCpu (m : Machine T) (p : T) (dom : Dom) (prevCpu : Int) (idle : Nat → Bool) :
    Option Nat :=
  if prevCpu ≥ 0 ∧ prevCpu < blsMaxCpus ∧ domOfCpu m.toConfig prevCpu = dom ∧
      idle prevCpu.toNat = true then some prevCpu.toNat
  else firstIdle m p dom idle

theorem pickIdleInDom_eq (m : Machine T) (p : T) (dom : Dom) (prevCpu : Int) (s : Sched T) :
    pickIdleInDom m p dom prevCpu s =
      (pickedCpu m p dom prevCpu s.idle, claim s (pickedCpu m p dom prevCpu s.idle)) := by
  unfold pickIdleInDom pickedCpu
  by_cases hprev : prevCpu ≥ 0 ∧ prevCpu < blsMaxCpus ∧ domOfCpu m.toConfig prevCpu = dom
  · obtain ⟨h0, h64, hdom⟩ := hprev
    rw [if_pos ⟨h0, h64, hdom⟩]
    cases hidle : s.idle prevCpu.toNat with
    | true => simp [scxBpfTestAndClearCpuIdle, h0, h64, hdom, hidle, claim]
    | false =>
      have hsame : Function.update s.idle prevCpu.toNat false = s.idle := by
        rw [← hidle, Function.update_eq_self]
      simp only [scxBpfTestAndClearCpuIdle, hidle, hsame]
      rw [if_neg (by simp), claimIdle_range]
  · rw [if_neg hprev, if_neg (by tauto), claimIdle_range]

theorem kickIdleInDom_eq (m : Machine T) (p : T) (dom : Dom) (s : Sched T) :
    kickIdleInDom m p dom s =
      { s with idle := setBit s.idle (firstIdle m p dom s.idle) false
               kicked := setBit s.kicked (firstIdle m p dom s.idle) true } := by
  unfold kickIdleInDom
  rw [claimIdle_range]
  cases firstIdle m p dom s.idle <;> rfl

theorem firstIdle_some {m : Machine T} {p : T} {dom : Dom} {idle : Nat → Bool} {i : Nat}
    (h : firstIdle m p dom idle = some i) :
    i < m.nrCpus ∧ domOfCpu m.toConfig i = dom ∧ m.cpusPtr p i = true ∧ idle i = true := by
  unfold firstIdle at h
  have hmem := List.mem_of_find?_eq_some h
  have hp := List.find?_some h
  simp only [List.mem_range] at hmem
  simp only [Bool.and_eq_true, decide_eq_true_eq] at hp
  exact ⟨hmem, hp.1.1, hp.1.2, hp.2⟩

theorem firstIdle_none {m : Machine T} {p : T} {dom : Dom} {idle : Nat → Bool}
    (h : firstIdle m p dom idle = none) {i : Nat} (hdom : domOfCpu m.toConfig i = dom)
    (hmask : m.cpusPtr p i = true) : idle i = false := by
  unfold firstIdle at h
  have := List.find?_eq_none.mp h i (List.mem_range.mpr (m.cpusPtr_lt p i hmask))
  simpa [hdom, hmask] using this

theorem pickedCpu_dom {m : Machine T} {p : T} {dom : Dom} {prevCpu : Int} {idle : Nat → Bool}
    {i : Nat} (h : pickedCpu m p dom prevCpu idle = some i) :
    domOfCpu m.toConfig i = dom ∧ idle i = true := by
  unfold pickedCpu at h
  split_ifs at h with hprev
  · obtain ⟨h0, -, hdom, hidle⟩ := hprev
    rw [Option.some.injEq] at h
    subst h
    rw [Int.toNat_of_nonneg h0]
    exact ⟨hdom, hidle⟩
  · have := firstIdle_some h
    exact ⟨this.2.1, this.2.2.2⟩

theorem pickedCpu_neg (m : Machine T) (p : T) (dom : Dom) (idle : Nat → Bool) :
    pickedCpu m p dom (-1) idle = firstIdle m p dom idle := by
  unfold pickedCpu
  rw [if_neg (by omega)]

theorem pickedCpu_none {m : Machine T} {p : T} {dom : Dom} {prevCpu : Int} {idle : Nat → Bool}
    (h : pickedCpu m p dom prevCpu idle = none) : firstIdle m p dom idle = none := by
  unfold pickedCpu at h
  split_ifs at h
  exact h

/-! ## `select_cpu`, `enqueue` and `dispatch` -/

/-- `stats` with counter `i` raised by `n`. -/
def bump (stats : Stat → Nat) (i : Stat) (n : Nat) : Stat → Nat :=
  Function.update stats i (stats i + n)

@[simp]
theorem bump_same (stats : Stat → Nat) (i : Stat) (n : Nat) : bump stats i n i = stats i + n :=
  Function.update_self ..

@[simp]
theorem bump_ne (stats : Stat → Nat) {i j : Stat} (n : Nat) (h : j ≠ i) :
    bump stats i n j = stats j :=
  Function.update_of_ne h ..

@[simp]
theorem statAdd_stats (s : Sched T) (i : Stat) (n : Nat) :
    (statAdd s i n).stats = bump s.stats i n := rfl

/-- `select_cpu` inserts into the local DSQ of a CPU of the task's domain, or spills to the
other domain, or inserts nothing. -/
theorem blsSelectCpu_cases (m : Machine T) (p : T) (prevCpu : Int) (s : Sched T) :
    (∃ cpu : Nat, pickedCpu m p (taskDom s p) prevCpu s.idle = some cpu ∧
      blsSelectCpu m p prevCpu s = ((cpu : Int), { s with
        stats := bump s.stats .direct 1
        idle := setBit s.idle (some cpu) false
        direct := s.direct ++ [⟨p, domSlice m.toConfig (taskDom s p), 0⟩] })) ∨
    (∃ cpu : Nat, pickedCpu m p (taskDom s p) prevCpu s.idle = none ∧
      m.strictDomains = false ∧ firstIdle m p (taskDom s p).other s.idle = some cpu ∧
      blsSelectCpu m p prevCpu s = ((cpu : Int), { s with
        stats := bump (bump (bump s.stats .noIdleInDom 1) .direct 1) .steal 1
        idle := setBit s.idle (some cpu) false
        direct := s.direct ++ [⟨p, domSlice m.toConfig (taskDom s p), 0⟩] })) ∨
    (pickedCpu m p (taskDom s p) prevCpu s.idle = none ∧
      (m.strictDomains = false → firstIdle m p (taskDom s p).other s.idle = none) ∧
      blsSelectCpu m p prevCpu s =
        (prevCpu, { s with stats := bump s.stats .noIdleInDom 1 })) := by
  unfold blsSelectCpu
  simp only [pickIdleInDom_eq, pickedCpu_neg]
  rcases hown : pickedCpu m p (taskDom s p) prevCpu s.idle with _ | cpu
  · right
    rcases hstrict : m.strictDomains with _ | _
    · have hidle : (statAdd (claim s none) .noIdleInDom 1).idle = s.idle := rfl
      simp only [Bool.not_false, if_true, hidle]
      rcases hother : firstIdle m p (taskDom s p).other s.idle with _ | cpu
      · exact Or.inr ⟨trivial, fun _ => rfl, rfl⟩
      · exact Or.inl ⟨cpu, trivial, trivial, rfl, rfl⟩
    · exact Or.inr ⟨rfl, by simp, rfl⟩
  · exact Or.inl ⟨cpu, rfl, rfl⟩

/-- `enqueue` appends to the DSQ of the task's domain and kicks the first idle CPU there. -/
theorem blsEnqueue_eq (m : Machine T) (p : T) (enqFlags : UInt64) (s : Sched T) :
    blsEnqueue m p enqFlags s = { s with
      stats := bump (bump s.stats .enq 1)
        (if taskDom s p = .little then .dsqLittle else .dsqBig) 1
      dsq := Function.update s.dsq (taskDom s p)
        (s.dsq (taskDom s p) ++ [⟨p, domSlice m.toConfig (taskDom s p), enqFlags⟩])
      idle := setBit s.idle (firstIdle m p (taskDom s p) s.idle) false
      kicked := setBit s.kicked (firstIdle m p (taskDom s p) s.idle) true } := by
  unfold blsEnqueue
  rw [kickIdleInDom_eq, domDsq_eq]
  rfl

/-- What `enqueue` put on the DSQ, and what was there before. -/
theorem mem_blsEnqueue_dsq {m : Machine T} {p : T} {f : UInt64} {s : Sched T} {d : Dom}
    {q : Queued T} : q ∈ (blsEnqueue m p f s).dsq d ↔
      q ∈ s.dsq d ∨ (d = taskDom s p ∧ q = ⟨p, domSlice m.toConfig (taskDom s p), f⟩) := by
  rw [blsEnqueue_eq]
  rcases eq_or_ne d (taskDom s p) with rfl | hne
  · simp
  · simp [hne]

/-- The state after `dispatch` on `cpu` has moved `q` out of the DSQ of `d`. -/
def moved (m : Machine T) (s : Sched T) (cpu : Nat) (d : Dom) (q : Queued T) (i : Stat) :
    Sched T :=
  { s with
    stats := bump s.stats i 1
    dsq := Function.update s.dsq d ((s.dsq d).eraseP fun q => m.cpusPtr q.task cpu)
    localDsq := Function.update s.localDsq cpu (s.localDsq cpu ++ [q]) }

/-- `dispatch` takes from the CPU's own DSQ, or steals from the other one when its own has
nothing for this CPU, or does nothing. -/
theorem blsDispatch_cases (m : Machine T) (cpu : Nat) (s : Sched T) :
    let d := domOfCpu m.toConfig cpu
    (∃ q, ((s.dsq d).find? fun q => m.cpusPtr q.task cpu) = some q ∧
      blsDispatch m cpu s = moved m s cpu d q .localHit) ∨
    (∃ q, ((s.dsq d).find? fun q => m.cpusPtr q.task cpu) = none ∧ m.strictDomains = false ∧
      ((s.dsq d.other).find? fun q => m.cpusPtr q.task cpu) = some q ∧
      blsDispatch m cpu s = moved m s cpu d.other q .steal) ∨
    (((s.dsq d).find? fun q => m.cpusPtr q.task cpu) = none ∧
      (m.strictDomains = false →
        ((s.dsq d.other).find? fun q => m.cpusPtr q.task cpu) = none) ∧
      blsDispatch m cpu s = s) := by
  intro d
  unfold blsDispatch scxBpfDsqMoveToLocal
  rcases hown : (s.dsq d).find? fun q => m.cpusPtr q.task cpu with _ | q
  · right
    rcases hstrict : m.strictDomains with _ | _
    · rcases hother : (s.dsq d.other).find? fun q => m.cpusPtr q.task cpu with _ | q
      · exact Or.inr ⟨hown, fun _ => hother, by simp [d, hown, hother]⟩
      · exact Or.inl ⟨q, hown, rfl, hother, by simp [d, hown, hother, moved, statAdd, bump]⟩
    · exact Or.inr ⟨hown, by simp, by simp [d, hown]⟩
  · exact Or.inl ⟨q, hown, by simp [d, hown, moved, statAdd, bump]⟩

theorem moved_dsq (m : Machine T) (s : Sched T) (cpu : Nat) (e : Dom) (q : Queued T) (i : Stat)
    (d : Dom) : (moved m s cpu e q i).dsq d = s.dsq d ∨
      (moved m s cpu e q i).dsq d = (s.dsq d).eraseP fun q => m.cpusPtr q.task cpu := by
  rcases eq_or_ne d e with rfl | hne
  · exact Or.inr (Function.update_self ..)
  · exact Or.inl (Function.update_of_ne hne ..)

theorem blsDispatch_dsq (m : Machine T) (cpu : Nat) (s : Sched T) (d : Dom) :
    (blsDispatch m cpu s).dsq d = s.dsq d ∨
      (blsDispatch m cpu s).dsq d = (s.dsq d).eraseP fun q => m.cpusPtr q.task cpu := by
  rcases blsDispatch_cases m cpu s with ⟨q, -, heq⟩ | ⟨q, -, -, -, heq⟩ | ⟨-, -, heq⟩
  · rw [heq]
    exact moved_dsq ..
  · rw [heq]
    exact moved_dsq ..
  · rw [heq]
    exact Or.inl rfl

theorem blsDispatch_dsq_subset {m : Machine T} {cpu : Nat} {s : Sched T} {d : Dom}
    {q : Queued T} (hq : q ∈ (blsDispatch m cpu s).dsq d) : q ∈ s.dsq d := by
  rcases blsDispatch_dsq m cpu s d with heq | heq
  · rwa [heq] at hq
  · rw [heq] at hq
    exact List.mem_of_mem_eraseP hq

/-- What the callbacks that only place tasks leave alone. -/
structure PlaceOnly (s s' : Sched T) : Prop where
  taskCtx : s'.taskCtx = s.taskCtx
  stats : ∀ i ∈ [Stat.reclassify, .runBigMs, .runLittleMs, .tasksBig, .tasksLittle],
    s'.stats i = s.stats i

theorem blsSelectCpu_placeOnly (m : Machine T) (p : T) (prevCpu : Int) (s : Sched T) :
    PlaceOnly s (blsSelectCpu m p prevCpu s).2 := by
  rcases blsSelectCpu_cases m p prevCpu s with
    ⟨cpu, -, heq⟩ | ⟨cpu, -, -, -, heq⟩ | ⟨-, -, heq⟩ <;> rw [heq] <;> refine ⟨rfl, ?_⟩ <;>
    simp

theorem blsEnqueue_placeOnly (m : Machine T) (p : T) (f : UInt64) (s : Sched T) :
    PlaceOnly s (blsEnqueue m p f s) := by
  rw [blsEnqueue_eq]
  refine ⟨rfl, ?_⟩
  cases taskDom s p <;> simp

theorem blsDispatch_placeOnly (m : Machine T) (cpu : Nat) (s : Sched T) :
    PlaceOnly s (blsDispatch m cpu s) := by
  rcases blsDispatch_cases m cpu s with ⟨q, -, heq⟩ | ⟨q, -, -, -, heq⟩ | ⟨-, -, heq⟩ <;>
    rw [heq] <;> refine ⟨rfl, ?_⟩ <;> simp [moved]

/-! ## `running`, `stopping` and `init_task` -/

/-- What the callbacks that only touch task storage leave alone. -/
structure CtxOnly (p : T) (s s' : Sched T) : Prop where
  idle : s'.idle = s.idle
  kicked : s'.kicked = s.kicked
  dsq : s'.dsq = s.dsq
  localDsq : s'.localDsq = s.localDsq
  direct : s'.direct = s.direct
  others : ∀ q, q ≠ p → s'.taskCtx q = s.taskCtx q

variable [DecidableEq T]

theorem blsRunning_ctxOnly (p : T) (now : UInt64) (s : Sched T) :
    CtxOnly p s (blsRunning p now s) := by
  unfold blsRunning
  split
  · exact ⟨rfl, rfl, rfl, rfl, rfl, fun q hq => Function.update_of_ne hq ..⟩
  · exact ⟨rfl, rfl, rfl, rfl, rfl, fun q _ => rfl⟩

theorem blsInitTask_ctxOnly (m : Machine T) (p : T) (comm : Option Comm) (alloc : Bool)
    (s : Sched T) : CtxOnly p s (blsInitTask m p comm alloc s).2 := by
  unfold blsInitTask
  split_ifs
  · exact ⟨rfl, rfl, rfl, rfl, rfl, fun q _ => rfl⟩
  · exact ⟨rfl, rfl, rfl, rfl, rfl, fun q hq => by simp [statAdd, setCtx, hq]⟩

/-- The running average is past the threshold that a task of domain `d` may not pass. -/
def crosses (thresh : UInt64) (d : Dom) (ewma : UInt64) : Prop :=
  (d = .little ∧ ewma > thresh) ∨ (d = .big ∧ ewma < thresh / 2)

/-- `stopping` at `now` moves the task to the other domain. -/
def adapts (c : Config) (tc : TaskCtx) (now : UInt64) : Prop :=
  tc.startedAt ≠ 0 ∧ tc.commPinned = false ∧
    (c.classifyMode = .adaptive ∨ c.classifyMode = .hybrid) ∧
    crosses c.bigSliceThreshNs tc.domain ((tc.execEwmaNs * 3 + (now - tc.startedAt)) / 4)

/-- The counter of the time that is run on the CPUs of `d`. -/
def runMs : Dom → Stat
  | .big => .runBigMs
  | .little => .runLittleMs

-- `ran_big_ns` and `ran_little_ns`
def TaskCtx.ran (tc : TaskCtx) : Dom → UInt64
  | .big => tc.ranBigNs
  | .little => tc.ranLittleNs

/-- The task context after a slice of `delta` ns on a CPU of `d`, with the domain that
`stopping` leaves it. -/
def TaskCtx.credit (tc : TaskCtx) (d : Dom) (delta : UInt64) (domain : Dom) : TaskCtx where
  execEwmaNs := (tc.execEwmaNs * 3 + delta) / 4
  startedAt := 0
  ranBigNs := if d = .big then tc.ranBigNs + delta else tc.ranBigNs
  ranLittleNs := if d = .little then tc.ranLittleNs + delta else tc.ranLittleNs
  domain := domain
  commPinned := tc.commPinned

theorem TaskCtx.credit_ran (tc : TaskCtx) (d : Dom) (delta : UInt64) (domain e : Dom) :
    (tc.credit d delta domain).ran e = if d = e then tc.ran e + delta else tc.ran e := by
  cases e <;> rfl

/-- `stopping` of a task that `running` has not started does nothing. -/
theorem blsStopping_idle (m : Machine T) (p : T) (now : UInt64) (cpu : Nat) (s : Sched T)
    (h : ∀ tc, s.taskCtx p = some tc → tc.startedAt = 0) :
    blsStopping m p now cpu s = s := by
  unfold blsStopping
  cases htc : s.taskCtx p with
  | none => rfl
  | some tc => simp only [h tc htc, if_true]

/-- The state after a slice is credited to its task and counted, with the domain that
`stopping` leaves the task. -/
def credited (m : Machine T) (p : T) (tc : TaskCtx) (delta : UInt64) (cpu : Nat) (domain : Dom)
    (s : Sched T) : Sched T :=
  setCtx (statAdd s (runMs (domOfCpu m.toConfig cpu)) (delta / nsecPerMsec).toNat) p
    (tc.credit (domOfCpu m.toConfig cpu) delta domain)

theorem blsStopping_adapts (m : Machine T) (p : T) (now : UInt64) (cpu : Nat) (s : Sched T)
    (tc : TaskCtx) (h : s.taskCtx p = some tc) (ha : adapts m.toConfig tc now) :
    blsStopping m p now cpu s =
      statAdd (credited m p tc (now - tc.startedAt) cpu tc.domain.other s) .reclassify 1 := by
  obtain ⟨hstart, hpin, hmode, hcross⟩ := ha
  have hguard : (tc.commPinned || (m.classifyMode != .adaptive && m.classifyMode != .hybrid)) =
      false := by
    rcases hmode with hmode | hmode <;> simp [hpin, hmode]
  unfold blsStopping
  simp only [h, if_neg hstart]
  rcases hcross with ⟨hdom, hup⟩ | ⟨hdom, hdown⟩ <;>
    cases hcpu : domOfCpu m.toConfig cpu <;>
    simp_all [credited, TaskCtx.credit, runMs, Dom.other]

/-- The task stays in its domain. -/
theorem blsStopping_stays (m : Machine T) (p : T) (now : UInt64) (cpu : Nat) (s : Sched T)
    (tc : TaskCtx) (h : s.taskCtx p = some tc) (hstart : tc.startedAt ≠ 0)
    (ha : ¬ adapts m.toConfig tc now) :
    blsStopping m p now cpu s = credited m p tc (now - tc.startedAt) cpu tc.domain s := by
  have hcross : ¬ (tc.commPinned || (m.classifyMode != .adaptive && m.classifyMode != .hybrid)) →
      ¬ crosses m.bigSliceThreshNs tc.domain ((tc.execEwmaNs * 3 + (now - tc.startedAt)) / 4) := by
    intro hguard hcross
    simp only [Bool.or_eq_true, Bool.and_eq_true, bne_iff_ne, not_or, not_and,
      Bool.not_eq_true] at hguard
    exact ha ⟨hstart, hguard.1, by tauto, hcross⟩
  unfold crosses at hcross
  unfold blsStopping
  simp only [h, if_neg hstart]
  cases hcpu : domOfCpu m.toConfig cpu <;>
    simp only [reduceCtorEq, if_true, if_false] <;> split_ifs with hpin hup hdown
  -- The task is promoted or demoted only when it crosses a threshold.
  all_goals
    first
    | exact absurd (Or.inl hup) (hcross hpin)
    | exact absurd (Or.inr hdown) (hcross hpin)
    | simp only [credited, hcpu, TaskCtx.credit, runMs, if_true, if_false, reduceCtorEq]

theorem credited_ctxOnly (m : Machine T) (p : T) (tc : TaskCtx) (delta : UInt64) (cpu : Nat)
    (domain : Dom) (s : Sched T) : CtxOnly p s (credited m p tc delta cpu domain s) :=
  ⟨rfl, rfl, rfl, rfl, rfl, fun _ hq => Function.update_of_ne hq ..⟩

theorem blsStopping_ctxOnly (m : Machine T) (p : T) (now : UInt64) (cpu : Nat) (s : Sched T) :
    CtxOnly p s (blsStopping m p now cpu s) := by
  by_cases hidle : ∀ tc, s.taskCtx p = some tc → tc.startedAt = 0
  · rw [blsStopping_idle m p now cpu s hidle]
    exact ⟨rfl, rfl, rfl, rfl, rfl, fun _ _ => rfl⟩
  · push Not at hidle
    obtain ⟨tc, htc, hstart⟩ := hidle
    by_cases ha : adapts m.toConfig tc now
    · rw [blsStopping_adapts m p now cpu s tc htc ha]
      obtain ⟨hidle, hkicked, hdsq, hlocal, hdirect, hothers⟩ :=
        credited_ctxOnly m p tc (now - tc.startedAt) cpu tc.domain.other s
      exact ⟨hidle, hkicked, hdsq, hlocal, hdirect, hothers⟩
    · rw [blsStopping_stays m p now cpu s tc htc hstart ha]
      exact credited_ctxOnly ..

/-- The context of the task after a slice. -/
theorem blsStopping_slice (m : Machine T) (p : T) (now : UInt64) (cpu : Nat) (s : Sched T)
    (tc : TaskCtx) (h : s.taskCtx p = some tc) (hstart : tc.startedAt ≠ 0) :
    ∃ domain, (blsStopping m p now cpu s).taskCtx p =
        some (tc.credit (domOfCpu m.toConfig cpu) (now - tc.startedAt) domain) ∧
      (adapts m.toConfig tc now → domain = tc.domain.other) ∧
      (¬ adapts m.toConfig tc now → domain = tc.domain) := by
  by_cases ha : adapts m.toConfig tc now
  · rw [blsStopping_adapts m p now cpu s tc h ha]
    exact ⟨_, Function.update_self .., fun _ => rfl, fun hno => absurd ha hno⟩
  · rw [blsStopping_stays m p now cpu s tc h hstart ha]
    exact ⟨_, Function.update_self .., fun h' => absurd h' ha, fun _ => rfl⟩

theorem blsStopping_ctx (m : Machine T) (p : T) (now : UInt64) (cpu : Nat) (s : Sched T)
    (tc : TaskCtx) (h : s.taskCtx p = some tc) :
    ∃ tc', (blsStopping m p now cpu s).taskCtx p = some tc' ∧
      tc'.commPinned = tc.commPinned ∧
      (adapts m.toConfig tc now → tc'.domain = tc.domain.other) ∧
      (¬ adapts m.toConfig tc now → tc'.domain = tc.domain) := by
  by_cases hstart : tc.startedAt = 0
  · rw [blsStopping_idle m p now cpu s fun tc' h' => by simp_all]
    exact ⟨tc, h, rfl, fun ha => absurd hstart ha.1, fun _ => rfl⟩
  · obtain ⟨domain, heq, hother, hsame⟩ := blsStopping_slice m p now cpu s tc h hstart
    exact ⟨_, heq, rfl, hother, hsame⟩

theorem not_adapts_of_pinned {c : Config} {tc : TaskCtx} (h : tc.commPinned = true)
    (now : UInt64) : ¬ adapts c tc now := by
  rintro ⟨-, hpin, -⟩
  rw [h] at hpin
  exact absurd hpin (by simp)

theorem not_adapts_of_mode {c : Config} (tc : TaskCtx) (h : c.classifyMode ≠ .adaptive)
    (h' : c.classifyMode ≠ .hybrid) (now : UInt64) : ¬ adapts c tc now := by
  rintro ⟨-, -, hmode | hmode, -⟩
  · exact h hmode
  · exact h' hmode

/-- `stopping` counts the slice on the domain of the CPU, and a change of domain. -/
theorem blsStopping_counts (m : Machine T) (p : T) (now : UInt64) (cpu : Nat) (s : Sched T)
    (tc : TaskCtx) (h : s.taskCtx p = some tc) (hstart : tc.startedAt ≠ 0) (i : Stat)
    (hi : i ≠ .reclassify) :
    (blsStopping m p now cpu s).stats i = bump s.stats (runMs (domOfCpu m.toConfig cpu))
      ((now - tc.startedAt) / nsecPerMsec).toNat i := by
  by_cases ha : adapts m.toConfig tc now
  · rw [blsStopping_adapts m p now cpu s tc h ha, statAdd_stats, bump_ne _ _ hi]
    rfl
  · rw [blsStopping_stays m p now cpu s tc h hstart ha]
    rfl

theorem blsStopping_stats (m : Machine T) (p : T) (now : UInt64) (cpu : Nat) (s : Sched T)
    (i : Stat) (hbig : i ≠ .runBigMs) (hlittle : i ≠ .runLittleMs) (hre : i ≠ .reclassify) :
    (blsStopping m p now cpu s).stats i = s.stats i := by
  by_cases hidle : ∀ tc, s.taskCtx p = some tc → tc.startedAt = 0
  · rw [blsStopping_idle m p now cpu s hidle]
  · obtain ⟨tc, hidle⟩ := Classical.not_forall.mp hidle
    obtain ⟨htc, hstart⟩ := Classical.not_imp.mp hidle
    rw [blsStopping_counts m p now cpu s tc htc hstart i hre]
    apply bump_ne
    cases domOfCpu m.toConfig cpu <;> assumption

theorem blsRunning_ctx (p : T) (now : UInt64) (s : Sched T) (tc : TaskCtx)
    (h : s.taskCtx p = some tc) :
    (blsRunning p now s).taskCtx p = some { tc with startedAt := now } := by
  unfold blsRunning
  simp [h, setCtx]

theorem blsRunning_stats (p : T) (now : UInt64) (s : Sched T) :
    (blsRunning p now s).stats = s.stats := by
  unfold blsRunning
  split <;> rfl

/-- `running` and `stopping` write through storage that exists, and create none. -/
theorem blsRunning_isSome (p : T) (now : UInt64) (s : Sched T) (q : T) :
    ((blsRunning p now s).taskCtx q).isSome = (s.taskCtx q).isSome := by
  rcases eq_or_ne q p with rfl | hne
  · cases htc : s.taskCtx q with
    | none => simp [blsRunning, htc]
    | some tc => simp [blsRunning_ctx q now s tc htc]
  · rw [(blsRunning_ctxOnly p now s).others q hne]

theorem blsStopping_isSome (m : Machine T) (p : T) (now : UInt64) (cpu : Nat) (s : Sched T)
    (q : T) : ((blsStopping m p now cpu s).taskCtx q).isSome = (s.taskCtx q).isSome := by
  rcases eq_or_ne q p with rfl | hne
  · cases htc : s.taskCtx q with
    | none => simp [blsStopping, htc]
    | some tc =>
      obtain ⟨tc', htc', -⟩ := blsStopping_ctx m q now cpu s tc htc
      simp [htc']
  · rw [(blsStopping_ctxOnly m p now cpu s).others q hne]

theorem blsInitTask_ctx (m : Machine T) (p : T) (comm : Option Comm) (s : Sched T) :
    ∃ tc', (blsInitTask m p comm true s).2.taskCtx p = some tc' ∧
      tc'.domain = (initialDomain m.toConfig comm).1 ∧
      tc'.commPinned = (initialDomain m.toConfig comm).2 := by
  unfold blsInitTask
  simp [statAdd, setCtx]

theorem blsInitTask_stats (m : Machine T) (p : T) (comm : Option Comm) (alloc : Bool)
    (s : Sched T) (i : Stat) (hbig : i ≠ .tasksBig) (hlittle : i ≠ .tasksLittle) :
    (blsInitTask m p comm alloc s).2.stats i = s.stats i := by
  unfold blsInitTask
  split
  · rfl
  · apply Function.update_of_ne
    split_ifs <;> assumption

/-! ## Classification -/

/-- The domain that the comm rules give in COMM mode: LITTLE when no rule matches. -/
def commDomain (c : Config) (comm : Comm) : Dom :=
  (classifyByComm c.commRules (some comm)).getD .little

theorem initialDomain_flat (c : Config) (comm : Option Comm) (h : c.classifyMode = .flat) :
    initialDomain c comm = (.big, false) := by
  unfold initialDomain
  rw [h]

theorem initialDomain_comm (c : Config) (comm : Comm) (h : c.classifyMode = .comm) :
    (initialDomain c (some comm)).1 = commDomain c comm := by
  unfold initialDomain commDomain
  rw [h]
  cases classifyByComm c.commRules (some comm) <;> rfl

theorem initialDomain_hybrid (c : Config) (comm : Comm) (d : Dom) (h : c.classifyMode = .hybrid)
    (hd : classifyByComm c.commRules (some comm) = some d) :
    initialDomain c (some comm) = (d, true) := by
  unfold initialDomain
  rw [h]
  simp [hd]

end FakeBigLittle
