import FakeBigLittle.Kernel.Isolation

/-!
# Comm rules over the life of a task

`init_task` classifies a task by the name that it has then, and no callback hears of an
`execve`. The domain is a cache of the name, and it is right for as long as no name changes
to one of the other class.
-/

namespace FakeBigLittle

open Runs

variable {T : Type}

/-- The domain that the rules give a task called `comm`. In HYBRID mode a name that no rule
matches may be in either domain. -/
def ruleDomain (c : Config) (comm : Comm) : Option Dom :=
  match c.classifyMode with
  | .comm => some (commDomain c comm)
  | .hybrid => classifyByComm c.commRules (some comm)
  | .flat => none
  | .adaptive => none

/-- Every task is in the domain that the rules give its name. -/
def Governed (m : Machine T) (s : Sys T) : Prop :=
  ∀ p e d, ctxDom s.sched p = some e → ruleDomain m.toConfig (s.comm p) = some d → e = d

/-- An `execve` keeps the class, and the hysteresis leaves tasks that a rule matches alone. -/
def KeepsRule (m : Machine T) (s : Sys T) : Event T → Prop
  | .exec p comm => ∀ e d, ctxDom s.sched p = some e → ruleDomain m.toConfig comm = some d → e = d
  | .expire cpu now _ | .block cpu now => ∀ p tc d, s.running cpu = some p →
      s.sched.taskCtx p = some tc → ruleDomain m.toConfig (s.comm p) = some d →
      ¬ adapts m.toConfig tc now
  | _ => True

/-! ## Where the domain comes from -/

theorem initialDomain_rule (c : Config) (comm : Comm) (d : Dom)
    (h : ruleDomain c comm = some d) : (initialDomain c (some comm)).1 = d := by
  unfold ruleDomain at h
  cases hmode : c.classifyMode with
  | flat => simp [hmode] at h
  | adaptive => simp [hmode] at h
  | comm =>
    simp only [hmode, Option.some.injEq] at h
    rw [initialDomain_comm c comm hmode, h]
  | hybrid =>
    simp only [hmode] at h
    rw [initialDomain_hybrid c comm d hmode h]

variable [DecidableEq T]

theorem ctxDom_initTask (m : Machine T) (p : T) (comm : Option Comm) (s : Sched T) :
    ctxDom (blsInitTask m p comm true s).2 p = some (initialDomain m.toConfig comm).1 := by
  obtain ⟨tc, htc, hdom, -⟩ := blsInitTask_ctx m p comm s
  simp [ctxDom, htc, hdom]

theorem ctxDom_stopping_same (m : Machine T) (p : T) (now : UInt64) (cpu : Nat) (s : Sched T)
    (h : ∀ tc, s.taskCtx p = some tc → ¬ adapts m.toConfig tc now) :
    ctxDom (blsStopping m p now cpu s) p = ctxDom s p := by
  cases htc : s.taskCtx p with
  | none => simp [blsStopping, htc]
  | some tc =>
    obtain ⟨tc', htc', -, -, hsame⟩ := blsStopping_ctx m p now cpu s tc htc
    simp [ctxDom, htc, htc', hsame (h tc htc)]

theorem ctxDom_stopping_adapts (m : Machine T) (p : T) (now : UInt64) (cpu : Nat) (s : Sched T)
    (tc : TaskCtx) (htc : s.taskCtx p = some tc) (h : adapts m.toConfig tc now) :
    ctxDom (blsStopping m p now cpu s) p = some tc.domain.other := by
  obtain ⟨tc', htc', -, hother, -⟩ := blsStopping_ctx m p now cpu s tc htc
  simp [ctxDom, htc', hother h]

/-! ## Each event -/

omit [DecidableEq T] in
theorem governed_of_eq {m : Machine T} {s t : Sys T} (h : Governed m s)
    (hctx : ∀ p, ctxDom t.sched p = ctxDom s.sched p) (hcomm : t.comm = s.comm) :
    Governed m t := by
  intro p e d he hd
  rw [hctx] at he
  rw [hcomm] at hd
  exact h p e d he hd

theorem governed_adopt {m : Machine T} {s : Sys T} (p : T)
    (h : ∀ q, q ≠ p → ∀ e d, ctxDom s.sched q = some e →
      ruleDomain m.toConfig (s.comm q) = some d → e = d) :
    Governed m (adopt m s p) := by
  intro q e d he hd
  rcases eq_or_ne q p with rfl | hne
  · rw [adopt, ctxDom_initTask, Option.some.injEq] at he
    exact he ▸ initialDomain_rule _ _ d hd
  · rw [adopt, ctxDom_others (blsInitTask_ctxOnly ..) hne] at he
    exact h q hne e d he hd

theorem governed_stopping {m : Machine T} {s : Sys T} (h : Governed m s) {p : T} {cpu : Nat}
    {now : UInt64} (hkeep : ∀ tc d, s.sched.taskCtx p = some tc →
      ruleDomain m.toConfig (s.comm p) = some d → ¬ adapts m.toConfig tc now) :
    Governed m (leave m s p cpu now) := by
  intro q e d he hd
  rcases eq_or_ne q p with rfl | hne
  · rw [leave, ctxDom_stopping_same m q now cpu s.sched fun tc htc => hkeep tc d htc hd] at he
    exact h q e d he hd
  · rw [leave, ctxDom_others (blsStopping_ctxOnly ..) hne] at he
    exact h q e d he hd

omit [DecidableEq T] in
theorem ctxDom_settle (s : Sys T) (cpu : Nat) (q : T) :
    ctxDom (settle s cpu).sched q = ctxDom s.sched q := by
  unfold settle
  simp only
  split_ifs <;> rfl

theorem governed_step {m : Machine T} {s t : Sys T} {e : Event T}
    (hdirect : s.sched.direct = []) (h : Governed m s) (he : KeepsRule m s e)
    (hstep : step m s e = some t) : Governed m t := by
  cases e with
  | attach p =>
    obtain ⟨-, rfl⟩ := step_attach hstep
    exact governed_adopt p fun q _ => h q
  | fork parent child =>
    obtain ⟨-, -, rfl⟩ := step_fork hstep
    refine governed_adopt child fun q hne e d he hd => ?_
    simp only [Function.update_of_ne hne] at hd
    exact h q e d he hd
  | exec p comm =>
    obtain ⟨-, rfl⟩ := step_exec hstep
    intro q e d hq hd
    rcases eq_or_ne q p with rfl | hne
    · simp only [Function.update_self] at hd
      exact he e d hq hd
    · simp only [Function.update_of_ne hne] at hd
      exact h q e d hq hd
  | wakeup p prevCpu f =>
    obtain ⟨-, ⟨-, rfl⟩ | ⟨-, cpu, -, rfl⟩ | ⟨-, cpu, -, -, -, rfl⟩ | ⟨-, -, -, rfl⟩⟩ :=
      step_wakeup hdirect hstep
    · exact governed_of_eq h (ctxDom_placeOnly (blsEnqueue_placeOnly m p f s.sched)) rfl
    · exact governed_of_eq h (fun _ => rfl) rfl
    · exact governed_of_eq h (fun _ => rfl) rfl
    · exact governed_of_eq h (fun q => ctxDom_placeOnly (blsEnqueue_placeOnly m p f _) q) rfl
  | enqueue p f =>
    obtain ⟨-, rfl⟩ := step_enqueue hstep
    exact governed_of_eq h (ctxDom_placeOnly (blsEnqueue_placeOnly m p f s.sched)) rfl
  | dequeue p =>
    obtain ⟨d, -, rfl⟩ := step_dequeue hstep
    exact governed_of_eq h (fun _ => rfl) rfl
  | expire cpu now f =>
    obtain ⟨p, hrun, rfl⟩ := step_expire hstep
    exact governed_of_eq (governed_stopping h fun tc d => he p tc d hrun)
      (ctxDom_placeOnly (blsEnqueue_placeOnly m p f _)) rfl
  | block cpu now =>
    obtain ⟨p, hrun, rfl⟩ := step_block hstep
    exact governed_stopping h fun tc d => he p tc d hrun
  | dispatch cpu =>
    obtain ⟨-, rfl⟩ := step_dispatch hstep
    refine governed_of_eq h (fun q => ?_) ?_
    · rw [ctxDom_settle]
      exact ctxDom_placeOnly (blsDispatch_placeOnly m cpu s.sched) q
    · unfold settle
      simp only
      split_ifs <;> rfl
  | run cpu now =>
    obtain ⟨-, q, rest, -, rfl⟩ := step_run hstep
    exact governed_of_eq h (fun r => ctxDom_blsRunning ..) rfl

/-- A task that stops and changes its domain leaves the domain of its rule. -/
theorem not_adapts_of_governed {m : Machine T} {s : Sys T} (h : Governed m s) {p : T}
    {cpu : Nat} {now : UInt64} (ht : Governed m (leave m s p cpu now)) (tc : TaskCtx) (d : Dom)
    (htc : s.sched.taskCtx p = some tc) (hd : ruleDomain m.toConfig (s.comm p) = some d) :
    ¬ adapts m.toConfig tc now := by
  intro ha
  have hold := h p tc.domain d (by simp [ctxDom, htc]) hd
  have hnew := ht p tc.domain.other d (ctxDom_stopping_adapts m p now cpu _ tc htc ha) hd
  exact Dom.other_ne _ (hnew.trans hold.symm)

theorem keepsRule_of_governed {m : Machine T} {s t : Sys T} {e : Event T} (h : Governed m s)
    (hstep : step m s e = some t) (ht : Governed m t) : KeepsRule m s e := by
  cases e with
  | exec p comm =>
    obtain ⟨-, rfl⟩ := step_exec hstep
    intro e d he hd
    exact ht p e d he (by simpa only [Function.update_self] using hd)
  | expire cpu now f =>
    obtain ⟨p, hrun, rfl⟩ := step_expire hstep
    intro q tc d hq htc hd
    obtain rfl : p = q := Option.some.inj (hrun.symm.trans hq)
    apply not_adapts_of_governed h ?_ tc d htc hd
    · exact cpu
    exact governed_of_eq ht (fun r => (ctxDom_placeOnly (blsEnqueue_placeOnly m p f _) r).symm) rfl
  | block cpu now =>
    obtain ⟨p, hrun, rfl⟩ := step_block hstep
    intro q tc d hq htc hd
    obtain rfl : p = q := Option.some.inj (hrun.symm.trans hq)
    exact not_adapts_of_governed h ht tc d htc hd
  | _ => trivial

/-! ## Runs -/

/-- **When the rules govern placement.** Every task is in its rule's domain throughout a
run exactly when each `execve` of the run keeps the class of the task, and the hysteresis
moves no task that a rule matches. -/
theorem rules_govern_iff (m : Machine T) (s : Sys T) (hinit : Init m s) (es : List (Event T)) :
    StatesMeet (step m) (Governed m) s es ↔ StepsMeet (step m) (KeepsRule m) s es := by
  apply statesMeet_iff (A := fun _ _ => True) (I := fun s => ∃ w, Placed s w)
  · rintro s e t ⟨w, hw⟩ h _ hstep
    obtain ⟨w', hw', -⟩ := placed_step hw hstep
    exact ⟨⟨w', hw'⟩, keepsRule_of_governed h hstep,
      fun he => governed_step hw.direct h he hstep⟩
  · exact ⟨_, placed_init hinit⟩
  · intro p e d he
    rw [hinit.sched] at he
    simp [ctxDom, Sched.start] at he
  · exact stepsMeet_true ..

theorem rules_govern_iff_pair :
    StatesMeet (step (pairMachine .comm false)) (Governed (pairMachine .comm false)) pairStart
        [.attach 1, .fork 1 2, .exec 2 makeComm] ↔
      StepsMeet (step (pairMachine .comm false)) (KeepsRule (pairMachine .comm false)) pairStart
        [.attach 1, .fork 1 2, .exec 2 makeComm] :=
  rules_govern_iff (pairMachine .comm false) pairStart (pairStart_init .comm false) _

/-- A shell forks, and its child becomes `make`: the rule says BIG and the task is LITTLE. -/
theorem rules_govern_fails :
    (∃ s, run (step (pairMachine .comm false)) pairStart
        [.attach 1, .fork 1 2, .exec 2 makeComm] = some s ∧
      ctxDom s.sched 2 = some .little ∧
      commDomain (pairMachine .comm false).toConfig (s.comm 2) = .big) ∧
    ∃ s, run (step (pairMachine .hybrid false)) pairStart
        [.attach 1, .fork 1 2, .exec 2 makeComm] = some s ∧
      ctxDom s.sched 2 = some .little ∧
      classifyByComm (pairMachine .hybrid false).commRules (some (s.comm 2)) = some .big :=
  ⟨⟨_, rfl, rfl, by decide⟩, _, rfl, rfl, by decide⟩

end FakeBigLittle
