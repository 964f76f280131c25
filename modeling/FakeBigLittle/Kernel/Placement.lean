import FakeBigLittle.Fifo
import FakeBigLittle.Kernel.Proofs

/-!
# No task is lost or doubled

What the scheduler is for, without its queues: a map that says where each runnable task
is. Each event moves one task in that map, and the queues of the real system hold exactly
what the map says.
-/

namespace FakeBigLittle

open Runs Slots

variable {T : Type} [DecidableEq T]

/-! ## The abstract scheduler -/

inductive Place where
  | running (cpu : Nat)
  | localDsq (cpu : Nat)
  | shared (d : Dom)
  deriving DecidableEq

/-- The tasks at each place, in queue order. -/
def slots (s : Sys T) : Place → List T
  | .running cpu => (s.running cpu).toList
  | .localDsq cpu => (s.sched.localDsq cpu).map (·.task)
  | .shared d => (s.sched.dsq d).map (·.task)

/-- One event moves one task, or none. -/
def Hop (w w' : T → Option Place) : Prop :=
  w' = w ∨ ∃ p place, w' = Function.update w p place

/-- The system keeps its tasks where `w` says. -/
structure Placed (s : Sys T) (w : T → Option Place) : Prop where
  holds : Holds (slots s) w
  runnable : ∀ p, (w p).isSome = s.runnable p
  known : ∀ p, s.runnable p = true → (s.sched.taskCtx p).isSome
  direct : s.sched.direct = []

omit [DecidableEq T] in
theorem Placed.nowhere {s : Sys T} {w : T → Option Place} (h : Placed s w) {p : T}
    (hp : s.runnable p = false) : w p = none := by
  have := h.runnable p
  rw [hp] at this
  simpa using this

omit [DecidableEq T] in
theorem Placed.running {s : Sys T} {w : T → Option Place} (h : Placed s w) {p : T} {cpu : Nat}
    (hp : s.running cpu = some p) : w p = some (.running cpu) :=
  h.holds.mem_iff.mp (by simp [slots, hp])

omit [DecidableEq T] in
/-- A task on a CPU is on no DSQ. -/
theorem Placed.not_queued {s : Sys T} {w : T → Option Place} (h : Placed s w) {p : T}
    {cpu : Nat} (hp : s.running cpu = some p) (d : Dom) : ∀ q ∈ s.sched.dsq d, q.task ≠ p := by
  intro q hq hqp
  have hmem : p ∈ slots s (.shared d) := hqp ▸ List.mem_map_of_mem hq
  have := h.holds.mem_iff.mp hmem
  rw [h.running hp] at this
  simp at this

omit [DecidableEq T] in
theorem Placed.not_local {s : Sys T} {w : T → Option Place} (h : Placed s w) {p : T}
    {cpu : Nat} (hp : s.running cpu = some p) (c : Nat) :
    ∀ q ∈ s.sched.localDsq c, q.task ≠ p := by
  intro q hq hqp
  have hmem : p ∈ slots s (.localDsq c) := hqp ▸ List.mem_map_of_mem hq
  have := h.holds.mem_iff.mp hmem
  rw [h.running hp] at this
  simp at this

theorem isSome_update (w : T → Option Place) (p : T) (place : Option Place) (q : T) :
    (Function.update w p place q).isSome =
      Function.update (fun r => (w r).isSome) p place.isSome q := by
  by_cases hq : q = p
  · simp [hq]
  · simp [hq]

theorem known_ctxOnly {p : T} {s s' : Sched T} (h : CtxOnly p s s')
    (hp : (s.taskCtx p).isSome → (s'.taskCtx p).isSome) {q : T}
    (hq : (s.taskCtx q).isSome) : (s'.taskCtx q).isSome := by
  by_cases hqp : q = p
  · exact hqp ▸ hp (hqp ▸ hq)
  · rw [h.others q hqp]
    exact hq

/-! ## Each event -/

theorem placed_adopt {m : Machine T} {s : Sys T} {w : T → Option Place} (h : Placed s w)
    (p : T) : Placed (adopt m s p) w := by
  have hctx := blsInitTask_ctxOnly m p (some (s.comm p)) true s.sched
  obtain ⟨tc, htc, -⟩ := blsInitTask_ctx m p (some (s.comm p)) s.sched
  have hslots : slots (adopt m s p) = slots s := by
    funext place
    cases place <;> simp only [slots, adopt, hctx.dsq, hctx.localDsq]
  refine ⟨hslots ▸ h.holds, h.runnable, fun q hq => ?_, ?_⟩
  · exact known_ctxOnly hctx (fun _ => by rw [htc]; rfl) (h.known q hq)
  · simp only [adopt, hctx.direct, h.direct]

/-- `enqueue` of a task that is nowhere. -/
theorem placed_enter {m : Machine T} {s : Sys T} {w : T → Option Place} (h : Placed s w)
    {p : T} (hp : canWake s p = true) (f : UInt64) :
    Placed (enter m s p f) (Function.update w p (some (.shared (taskDom s.sched p)))) := by
  obtain ⟨hknown, hblocked⟩ := (canWake_iff s p).mp hp
  rw [enter, blsEnqueue_eq]
  constructor
  · apply h.holds.add (h.nowhere hblocked)
    · simp only [slots, taskDom, Function.update_self, List.map_append, List.map_cons,
        List.map_nil]
      exact List.perm_append_singleton ..
    · rintro (c | c | d) hne
      · rfl
      · rfl
      · have : d ≠ taskDom s.sched p := fun hd => hne (by rw [hd])
        simp only [slots]
        exact congrArg _ (Function.update_of_ne this ..)
  · intro q
    rw [isSome_update, funext h.runnable]
    rfl
  · intro q hq
    by_cases hqp : q = p
    · exact hqp ▸ hknown
    · exact h.known q (by simpa [wake, hqp] using hq)
  · exact h.direct

theorem placed_directed {m : Machine T} {s : Sys T} {w : T → Option Place} (h : Placed s w)
    {p : T} (hp : canWake s p = true) (cpu : Nat) (stats : Stat → Nat) :
    Placed (directed m s p cpu stats) (Function.update w p (some (.localDsq cpu))) := by
  obtain ⟨hknown, hblocked⟩ := (canWake_iff s p).mp hp
  constructor
  · apply h.holds.add (h.nowhere hblocked)
    · simp only [slots, directed, wake, Function.update_self, List.map_append, List.map_cons,
        List.map_nil]
      exact List.perm_append_singleton ..
    · rintro (c | c | d) hne
      · rfl
      · have : c ≠ cpu := fun hc => hne (by rw [hc])
        simp only [slots, directed]
        exact congrArg _ (Function.update_of_ne this ..)
      · rfl
  · intro q
    rw [isSome_update, funext h.runnable]
    rfl
  · intro q hq
    by_cases hqp : q = p
    · exact hqp ▸ hknown
    · exact h.known q (by simpa [directed, wake, hqp] using hq)
  · exact h.direct

theorem placed_dequeue {m : Machine T} {s t : Sys T} {w : T → Option Place} (h : Placed s w)
    {p : T} (hstep : step m s (.dequeue p) = some t) :
    Placed t (Function.update w p none) := by
  obtain ⟨d, hmem, rfl⟩ := step_dequeue hstep
  obtain ⟨q, hq, rfl⟩ := Fifo.find?_of_mem_map hmem
  constructor
  · apply h.holds.remove (i := .shared d)
    · simp only [slots, unqueue, Function.update_self]
      exact (Fifo.perm_eraseP hq).map (·.task)
    · rintro (c | c | e) hne
      · rfl
      · rfl
      · have : e ≠ d := fun he => hne (by rw [he])
        simp only [slots, unqueue]
        exact congrArg _ (Function.update_of_ne this ..)
  · intro r
    rw [isSome_update, funext h.runnable]
    rfl
  · intro r hr
    by_cases hrp : r = q.task
    · simp [unqueue, hrp] at hr
    · exact h.known r (by simpa [unqueue, hrp] using hr)
  · exact h.direct

omit [DecidableEq T] in
theorem placed_settle {s : Sys T} {w : T → Option Place} (h : Placed s w) (cpu : Nat) :
    Placed (settle s cpu) w := by
  unfold settle
  simp only
  split_ifs <;> exact ⟨h.holds, h.runnable, h.known, h.direct⟩

/-- `dispatch` moves a task from a shared DSQ to the local one. -/
theorem placed_moved {m : Machine T} {s : Sys T} {w : T → Option Place} (h : Placed s w)
    {cpu : Nat} {d : Dom} {q : Queued T} (i : Stat)
    (hq : ((s.sched.dsq d).find? fun q => m.cpusPtr q.task cpu) = some q) :
    Placed { s with sched := moved m s.sched cpu d q i }
      (Function.update w q.task (some (.localDsq cpu))) := by
  have hrun : s.runnable q.task = true := by
    have hmem : q.task ∈ slots s (.shared d) :=
      List.mem_map_of_mem (List.mem_of_find?_eq_some hq)
    rw [← h.runnable, h.holds.mem_iff.mp hmem]
    rfl
  constructor
  · apply h.holds.move (i := .shared d) (j := .localDsq cpu) (by simp)
    · simp only [slots, moved, Function.update_self]
      exact (Fifo.perm_eraseP hq).map (·.task)
    · simp only [slots, moved, Function.update_self, List.map_append, List.map_cons,
        List.map_nil]
      exact List.perm_append_singleton ..
    · rintro (c | c | e) hne hne'
      · rfl
      · have : c ≠ cpu := fun hc => hne' (by rw [hc])
        simp only [slots, moved]
        exact congrArg _ (Function.update_of_ne this ..)
      · have : e ≠ d := fun he => hne (by rw [he])
        simp only [slots, moved]
        exact congrArg _ (Function.update_of_ne this ..)
  · intro r
    rw [isSome_update, funext h.runnable]
    by_cases hr : r = q.task
    · simp [hr, hrun]
    · simp [hr]
  · exact h.known
  · exact h.direct

theorem placed_dispatch {m : Machine T} {s t : Sys T} {w : T → Option Place} (h : Placed s w)
    {cpu : Nat} (hstep : step m s (.dispatch cpu) = some t) : ∃ w', Placed t w' ∧ Hop w w' := by
  obtain ⟨-, rfl⟩ := step_dispatch hstep
  rcases blsDispatch_cases m cpu s.sched with
    ⟨q, hq, heq⟩ | ⟨q, -, -, hq, heq⟩ | ⟨-, -, heq⟩
  · rw [heq]
    exact ⟨_, placed_settle (placed_moved h _ hq) cpu, Or.inr ⟨_, _, rfl⟩⟩
  · rw [heq]
    exact ⟨_, placed_settle (placed_moved h _ hq) cpu, Or.inr ⟨_, _, rfl⟩⟩
  · rw [heq]
    exact ⟨w, placed_settle h cpu, Or.inl rfl⟩

/-- A task that leaves its CPU and is not yet anywhere else. -/
theorem placed_leave {m : Machine T} {s : Sys T} {w : T → Option Place} (h : Placed s w)
    {p : T} {cpu : Nat} (now : UInt64) (hrun : s.running cpu = some p) :
    Placed (leave m s p cpu now) (Function.update w p none) := by
  have hctx := blsStopping_ctxOnly m p now cpu s.sched
  constructor
  · apply h.holds.remove (i := .running cpu)
    · simp [slots, leave, hrun]
    · rintro (c | c | d) hne
      · have : c ≠ cpu := fun hc => hne (by rw [hc])
        simp [slots, leave, this]
      · simp only [slots, leave, hctx.localDsq]
      · simp only [slots, leave, hctx.dsq]
  · intro r
    rw [isSome_update, funext h.runnable]
    rfl
  · intro r hr
    have hne : r ≠ p := by
      rintro rfl
      simp [leave] at hr
    have hknown := h.known r (by simpa [leave, hne] using hr)
    simpa only [leave, hctx.others r hne] using hknown
  · simp only [leave, hctx.direct, h.direct]

theorem placed_expire {m : Machine T} {s : Sys T} {w : T → Option Place} (h : Placed s w)
    {p : T} {cpu : Nat} (now f : UInt64) (hrun : s.running cpu = some p) :
    Placed (enter m (leave m s p cpu now) p f)
      (Function.update w p (some (.shared (taskDom (blsStopping m p now cpu s.sched) p)))) := by
  -- The task is off its CPU first, and then it enters the queue like any other.
  have hknown : ((blsStopping m p now cpu s.sched).taskCtx p).isSome := by
    have hp : (s.sched.taskCtx p).isSome := by
      apply h.known
      rw [← h.runnable, h.running hrun]
      rfl
    obtain ⟨tc, htc⟩ := Option.isSome_iff_exists.mp hp
    obtain ⟨tc', htc', -⟩ := blsStopping_ctx m p now cpu s.sched tc htc
    rw [htc']
    rfl
  have hwake : canWake (leave m s p cpu now) p = true :=
    (canWake_iff _ _).mpr ⟨hknown, Function.update_self ..⟩
  have hin := placed_enter (m := m) (placed_leave h now hrun) hwake f
  rwa [Function.update_idem] at hin

theorem placed_run {m : Machine T} {s t : Sys T} {w : T → Option Place} (h : Placed s w)
    {cpu : Nat} {now : UInt64} (hstep : step m s (.run cpu now) = some t) :
    ∃ w', Placed t w' ∧ Hop w w' := by
  obtain ⟨hrun, q, rest, hloc, rfl⟩ := step_run hstep
  have hctx := blsRunning_ctxOnly q.task now (popLocal s.sched cpu rest)
  have hloc' : (blsRunning q.task now (popLocal s.sched cpu rest)).localDsq =
      Function.update s.sched.localDsq cpu rest := hctx.localDsq
  have hdsq : (blsRunning q.task now (popLocal s.sched cpu rest)).dsq = s.sched.dsq := hctx.dsq
  have hrunnable : s.runnable q.task = true := by
    have hmem : q.task ∈ slots s (.localDsq cpu) := by simp [slots, hloc]
    rw [← h.runnable, h.holds.mem_iff.mp hmem]
    rfl
  refine ⟨Function.update w q.task (some (.running cpu)), ?_, Or.inr ⟨_, _, rfl⟩⟩
  constructor
  · apply h.holds.move (i := .localDsq cpu) (j := .running cpu) (by simp)
    · simp [slots, hloc', hloc]
    · simp [slots, hrun]
    · rintro (c | c | d) hne hne'
      · have : c ≠ cpu := fun hc => hne' (by rw [hc])
        simp [slots, this]
      · have : c ≠ cpu := fun hc => hne (by rw [hc])
        simp [slots, hloc', this]
      · simp only [slots, hdsq]
  · intro r
    rw [isSome_update, funext h.runnable]
    by_cases hr : r = q.task
    · simp [hr, hrunnable]
    · simp [hr]
  · intro r hr
    apply known_ctxOnly hctx _ (h.known r hr)
    intro hsome
    obtain ⟨tc, htc⟩ := Option.isSome_iff_exists.mp hsome
    rw [blsRunning_ctx _ _ _ tc htc]
    rfl
  · exact hctx.direct.trans h.direct

/-! ## Runs -/

theorem placed_step {m : Machine T} {s t : Sys T} {w : T → Option Place} {e : Event T}
    (h : Placed s w) (hstep : step m s e = some t) : ∃ w', Placed t w' ∧ Hop w w' := by
  cases e with
  | attach p =>
    obtain ⟨-, rfl⟩ := step_attach hstep
    exact ⟨w, placed_adopt h p, Or.inl rfl⟩
  | fork parent child =>
    obtain ⟨-, -, rfl⟩ := step_fork hstep
    have h' : Placed { s with comm := Function.update s.comm child (s.comm parent) } w :=
      ⟨h.holds, h.runnable, h.known, h.direct⟩
    exact ⟨w, placed_adopt h' child, Or.inl rfl⟩
  | exec p comm =>
    obtain ⟨-, rfl⟩ := step_exec hstep
    exact ⟨w, ⟨h.holds, h.runnable, h.known, h.direct⟩, Or.inl rfl⟩
  | wakeup p prevCpu f =>
    obtain ⟨hwake, ⟨-, rfl⟩ | ⟨-, cpu, -, rfl⟩ | ⟨-, cpu, -, -, -, rfl⟩ | ⟨-, -, -, rfl⟩⟩ :=
      step_wakeup h.direct hstep
    · exact ⟨_, placed_enter h hwake f, Or.inr ⟨_, _, rfl⟩⟩
    · exact ⟨_, placed_directed h hwake cpu _, Or.inr ⟨_, _, rfl⟩⟩
    · exact ⟨_, placed_directed h hwake cpu _, Or.inr ⟨_, _, rfl⟩⟩
    · have h' : Placed { s with sched := statAdd s.sched .noIdleInDom 1 } w :=
        ⟨h.holds, h.runnable, h.known, h.direct⟩
      exact ⟨_, placed_enter h' hwake f, Or.inr ⟨_, _, rfl⟩⟩
  | enqueue p f =>
    obtain ⟨hwake, rfl⟩ := step_enqueue hstep
    exact ⟨_, placed_enter h hwake f, Or.inr ⟨_, _, rfl⟩⟩
  | dequeue p => exact ⟨_, placed_dequeue h hstep, Or.inr ⟨_, _, rfl⟩⟩
  | expire cpu now f =>
    obtain ⟨p, hrun, rfl⟩ := step_expire hstep
    exact ⟨_, placed_expire h now f hrun, Or.inr ⟨_, _, rfl⟩⟩
  | block cpu now =>
    obtain ⟨p, hrun, rfl⟩ := step_block hstep
    exact ⟨_, placed_leave h now hrun, Or.inr ⟨_, _, rfl⟩⟩
  | dispatch cpu => exact placed_dispatch h hstep
  | run cpu now => exact placed_run h hstep

omit [DecidableEq T] in
theorem placed_init {m : Machine T} {s : Sys T} (h : Init m s) : Placed s fun _ => none := by
  have hslots : slots s = fun _ => [] := by
    funext place
    cases place with
    | running cpu => simp [slots, h.running]
    | localDsq cpu => rw [slots, h.sched]; rfl
    | shared d => rw [slots, h.sched]; rfl
  refine ⟨hslots ▸ Holds.empty, fun p => by simp [h.runnable], fun p hp => ?_, ?_⟩
  · simp [h.runnable] at hp
  · rw [h.sched]
    rfl

theorem placed_reachable {m : Machine T} {s : Sys T} (h : Reachable (step m) (Init m) s) :
    ∃ w, Placed s w := by
  apply inv_reachable (I := fun s => ∃ w, Placed s w) _ _ h
  · exact fun s hs => ⟨_, placed_init hs⟩
  · rintro s e t ⟨w, hw⟩ hstep
    obtain ⟨w', hw', -⟩ := placed_step hw hstep
    exact ⟨w', hw'⟩

/-- A slot is a place and a position in its queue. -/
def occupant (s : Sys T) (slot : Place × Nat) : Option T := (slots s slot.1)[slot.2]?

/-- **No task is lost or doubled.** A runnable task is in exactly one slot of a CPU, a
local DSQ or a shared DSQ, and a blocked task is in none. -/
theorem runnable_in_one_slot (m : Machine T) (s : Sys T)
    (h : Reachable (step m) (Init m) s) (p : T) :
    (s.runnable p = true → ∃! slot, occupant s slot = some p) ∧
      (s.runnable p = false → ∀ slot, occupant s slot ≠ some p) := by
  obtain ⟨w, hw⟩ := placed_reachable h
  constructor
  · intro hp
    exact hw.holds.existsUnique_slot (by rw [hw.runnable, hp])
  · rintro hp ⟨place, i⟩ hslot
    have hmem := hw.holds.mem_iff.mp (List.mem_of_getElem? hslot)
    rw [hw.nowhere hp] at hmem
    exact absurd hmem (by simp)

/-- On two cores a woken task is in one slot. -/
theorem runnable_in_one_slot_pair :
    ∃ s, run (step (pairMachine .hybrid false)) pairStart [.attach 1, .wakeup 1 0 0] = some s ∧
      (s.runnable 1 = true → ∃! slot, occupant s slot = some 1) ∧
      (s.runnable 1 = false → ∀ slot, occupant s slot ≠ some 1) := by
  obtain ⟨s, hrun⟩ : ∃ s, run (step (pairMachine .hybrid false)) pairStart
      [.attach 1, .wakeup 1 0 0] = some s := ⟨_, rfl⟩
  exact ⟨s, hrun, runnable_in_one_slot _ s (reachable_pair hrun) 1⟩

end FakeBigLittle
