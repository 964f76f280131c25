import Mathlib.Logic.Relation

/-!
# Runs of an event machine

A machine is a partial step function: `step s e` is the state after event `e`, or
`none` when `e` cannot happen in `s`. Nothing here knows which machine it is.
-/

namespace Runs

variable {σ τ ε : Type*}

/-- The state after all of `es`, if each of them can happen in its turn. -/
def run (step : σ → ε → Option σ) : σ → List ε → Option σ
  | s, [] => some s
  | s, e :: es => (step s e).bind fun t => run step t es

/-- Some run from an initial state ends in `s`. -/
def Reachable (step : σ → ε → Option σ) (init : σ → Prop) (s : σ) : Prop :=
  ∃ s₀ es, init s₀ ∧ run step s₀ es = some s

/-- Every step that the run takes is taken in a state where `C` allows it. -/
def StepsMeet (step : σ → ε → Option σ) (C : σ → ε → Prop) : σ → List ε → Prop
  | _, [] => True
  | s, e :: es => ∀ t, step s e = some t → C s e ∧ StepsMeet step C t es

/-- `P` holds in every state of the run, the first and the last included. -/
def StatesMeet (step : σ → ε → Option σ) (P : σ → Prop) : σ → List ε → Prop
  | s, [] => P s
  | s, e :: es => P s ∧ ∀ t, step s e = some t → StatesMeet step P t es

/-- How many of the steps that the run takes are counted by `c`. -/
def countSteps (step : σ → ε → Option σ) (c : σ → ε → Bool) : σ → List ε → Nat
  | _, [] => 0
  | s, e :: es =>
    match step s e with
    | none => 0
    | some t => (if c s e then 1 else 0) + countSteps step c t es

/-- What the steps that the run takes add up to, each weighed by `w`. -/
def sumSteps (step : σ → ε → Option σ) (w : σ → ε → Nat) : σ → List ε → Nat
  | _, [] => 0
  | s, e :: es =>
    match step s e with
    | none => 0
    | some t => w s e + sumSteps step w t es

/-- What the steps that the run takes put out, in order. -/
def trace {α : Type*} (step : σ → ε → Option σ) (o : σ → ε → List α) : σ → List ε → List α
  | _, [] => []
  | s, e :: es =>
    match step s e with
    | none => []
    | some t => o s e ++ trace step o t es

/-! ## Taking a run apart -/

@[simp]
theorem run_nil (step : σ → ε → Option σ) (s : σ) : run step s [] = some s := rfl

theorem run_cons (step : σ → ε → Option σ) (s : σ) (e : ε) (es : List ε) :
    run step s (e :: es) = (step s e).bind fun t => run step t es := rfl

theorem run_cons_eq_some {step : σ → ε → Option σ} {s u : σ} {e : ε} {es : List ε} :
    run step s (e :: es) = some u ↔ ∃ t, step s e = some t ∧ run step t es = some u := by
  rw [run_cons, Option.bind_eq_some_iff]

theorem run_append (step : σ → ε → Option σ) (s : σ) (es fs : List ε) :
    run step s (es ++ fs) = (run step s es).bind fun t => run step t fs := by
  induction es generalizing s with
  | nil => rfl
  | cons e es ih =>
    rw [List.cons_append, run_cons, run_cons, Option.bind_assoc]
    congr 1
    funext t
    exact ih t

theorem run_singleton (step : σ → ε → Option σ) (s : σ) (e : ε) :
    run step s [e] = step s e := by
  rw [run_cons]
  exact Option.bind_fun_some _

/-- A loop that takes the same event `n` times, with what holds before each round. -/
theorem run_replicate {step : σ → ε → Option σ} {J : Nat → σ → Prop} {e : ε} {n : Nat} {s : σ}
    (hstep : ∀ k < n, ∀ s, J k s → ∃ t, step s e = some t ∧ J (k + 1) t) (hs : J 0 s) :
    ∃ t, run step s (List.replicate n e) = some t ∧ J n t := by
  induction n with
  | zero => exact ⟨s, rfl, hs⟩
  | succ n ih =>
    obtain ⟨t, hrun, ht⟩ := ih fun k hk => hstep k (by omega)
    obtain ⟨u, hu, hJ⟩ := hstep n (by omega) t ht
    refine ⟨u, ?_, hJ⟩
    rw [List.replicate_succ', run_append, hrun, Option.bind_some, run_cons, hu]
    rfl

/-! ## Invariants -/

theorem inv_run {step : σ → ε → Option σ} {I : σ → Prop}
    (hstep : ∀ s e t, I s → step s e = some t → I t) (es : List ε) {s t : σ}
    (hs : I s) (hrun : run step s es = some t) : I t := by
  induction es generalizing s with
  | nil =>
    rw [run_nil, Option.some.injEq] at hrun
    exact hrun ▸ hs
  | cons e es ih =>
    obtain ⟨u, hu, hrest⟩ := run_cons_eq_some.mp hrun
    exact ih (hstep s e u hs hu) hrest

theorem inv_reachable {step : σ → ε → Option σ} {init I : σ → Prop}
    (hinit : ∀ s, init s → I s) (hstep : ∀ s e t, I s → step s e = some t → I t) {s : σ}
    (h : Reachable step init s) : I s := by
  obtain ⟨s₀, es, h₀, hrun⟩ := h
  exact inv_run hstep es (hinit s₀ h₀) hrun

theorem trace_taken {step : σ → ε → Option σ} {s t : σ} {es : List ε}
    (h : run step s es = some t) : trace step (fun _ e => [e]) s es = es := by
  induction es generalizing s with
  | nil => rfl
  | cons e es ih =>
    obtain ⟨u, hu, hrest⟩ := run_cons_eq_some.mp h
    simp only [trace, hu, ih hrest, List.singleton_append]

/-- An invariant of the state and of what was put out so far. -/
theorem inv_trace {α : Type*} {step : σ → ε → Option σ} {o : σ → ε → List α}
    {C : σ → ε → Prop} {J : σ → List α → Prop}
    (hstep : ∀ s e t l, J s l → C s e → step s e = some t → J t (l ++ o s e)) (es : List ε)
    {s t : σ} {l : List α} (hs : J s l) (hC : StepsMeet step C s es)
    (hrun : run step s es = some t) : J t (l ++ trace step o s es) := by
  induction es generalizing s l with
  | nil =>
    rw [run_nil, Option.some.injEq] at hrun
    rw [trace, List.append_nil]
    exact hrun ▸ hs
  | cons e es ih =>
    obtain ⟨u, hu, hrest⟩ := run_cons_eq_some.mp hrun
    simp only [trace, hu]
    obtain ⟨hCe, hCes⟩ := hC u hu
    rw [← List.append_assoc]
    exact ih (hstep s e u l hs hCe hu) hCes hrest

theorem StatesMeet.head {step : σ → ε → Option σ} {P : σ → Prop} {s : σ} {es : List ε}
    (h : StatesMeet step P s es) : P s := by
  cases es with
  | nil => exact h
  | cons _ _ => exact h.1

/-- If a step from a `P`-state leads to a `P`-state exactly when `C` allows it, then a run
goes through `P`-states only exactly when it takes allowed steps only. `A` is what is
assumed of every step. -/
theorem statesMeet_iff {step : σ → ε → Option σ} {A C : σ → ε → Prop} {I P : σ → Prop}
    (hstep : ∀ s e t, I s → P s → A s e → step s e = some t → I t ∧ (P t ↔ C s e))
    (es : List ε) {s : σ} (hI : I s) (hP : P s) (hA : StepsMeet step A s es) :
    StatesMeet step P s es ↔ StepsMeet step C s es := by
  induction es generalizing s with
  | nil => exact ⟨fun _ => trivial, fun _ => hP⟩
  | cons e es ih =>
    constructor
    · intro h t ht
      obtain ⟨hAe, hAes⟩ := hA t ht
      obtain ⟨hIt, hiff⟩ := hstep s e t hI hP hAe ht
      have hPt := (h.2 t ht).head
      exact ⟨hiff.mp hPt, (ih hIt hPt hAes).mp (h.2 t ht)⟩
    · intro h
      refine ⟨hP, fun t ht => ?_⟩
      obtain ⟨hAe, hAes⟩ := hA t ht
      obtain ⟨hIt, hiff⟩ := hstep s e t hI hP hAe ht
      obtain ⟨hC, hrest⟩ := h t ht
      have hPt := hiff.mpr hC
      exact (ih hIt hPt hAes).mpr hrest

/-- Where an invariant makes two conditions the same, the same runs meet them. -/
theorem stepsMeet_iff {step : σ → ε → Option σ} {A C : σ → ε → Prop} {I : σ → Prop}
    (hI : ∀ s e t, I s → step s e = some t → I t)
    (h : ∀ s e t, I s → step s e = some t → (A s e ↔ C s e)) (es : List ε) {s : σ} (hs : I s) :
    StepsMeet step A s es ↔ StepsMeet step C s es := by
  induction es generalizing s with
  | nil => exact Iff.rfl
  | cons e es ih =>
    apply forall_congr'
    intro t
    apply imp_congr_right
    intro ht
    exact and_congr (h s e t hs ht) (ih (hI s e t hs ht))

/-- An invariant of the steps that `C` allows. -/
theorem statesMeet_of_stepsMeet {step : σ → ε → Option σ} {C : σ → ε → Prop} {I : σ → Prop}
    (hI : ∀ s e t, I s → step s e = some t → C s e → I t) (es : List ε) {s : σ} (hs : I s)
    (h : StepsMeet step C s es) : StatesMeet step I s es := by
  induction es generalizing s with
  | nil => exact hs
  | cons e es ih =>
    refine ⟨hs, fun t ht => ?_⟩
    obtain ⟨hC, hrest⟩ := h t ht
    exact ih (hI s e t hs ht hC) hrest

theorem StatesMeet.imp {step : σ → ε → Option σ} {P Q : σ → Prop} (hPQ : ∀ s, P s → Q s)
    (es : List ε) {s : σ} (h : StatesMeet step P s es) : StatesMeet step Q s es := by
  induction es generalizing s with
  | nil => exact hPQ s h
  | cons e es ih => exact ⟨hPQ s h.1, fun t ht => ih (h.2 t ht)⟩

/-- If the first step that `C` forbids leads to a `B`-state, then a run with such a step
starts with a run to a `B`-state. -/
theorem exists_of_not_stepsMeet {step : σ → ε → Option σ} {C : σ → ε → Prop} {I B : σ → Prop}
    (hI : ∀ s e t, I s → step s e = some t → C s e → I t)
    (hB : ∀ s e t, I s → step s e = some t → ¬ C s e → B t) (es : List ε) {s : σ} (hs : I s)
    (h : ¬ StepsMeet step C s es) : ∃ k t, run step s (es.take k) = some t ∧ B t := by
  induction es generalizing s with
  | nil => exact absurd trivial h
  | cons e es ih =>
    unfold StepsMeet at h
    obtain ⟨t, ht⟩ := Classical.not_forall.mp h
    obtain ⟨ht, hno⟩ := Classical.not_imp.mp ht
    by_cases hC : C s e
    · obtain ⟨k, u, hrun, hu⟩ := ih (hI s e t hs ht hC) fun hrest => hno ⟨hC, hrest⟩
      exact ⟨k + 1, u, run_cons_eq_some.mpr ⟨t, ht, hrun⟩, hu⟩
    · exact ⟨1, t, run_cons_eq_some.mpr ⟨t, ht, by simp⟩, hB s e t hs ht hC⟩

instance decidableStepsMeet {step : σ → ε → Option σ} {C : σ → ε → Prop}
    [∀ s e, Decidable (C s e)] :
    ∀ (s : σ) (es : List ε), Decidable (StepsMeet step C s es)
  | _, [] => isTrue trivial
  | s, e :: es =>
    match h : step s e with
    | none => isTrue fun _ ht => absurd (h.symm.trans ht) (by simp)
    | some t =>
      have : Decidable (StepsMeet step C t es) := decidableStepsMeet t es
      decidable_of_iff (C s e ∧ StepsMeet step C t es)
        ⟨fun hC u hu => Option.some.inj (h.symm.trans hu) ▸ hC, fun hall => hall t h⟩

theorem stepsMeet_of_forall {step : σ → ε → Option σ} {C : σ → ε → Prop} {es : List ε}
    (h : ∀ e ∈ es, ∀ s, C s e) (s : σ) : StepsMeet step C s es := by
  induction es generalizing s with
  | nil => exact trivial
  | cons e es ih =>
    obtain ⟨he, hes⟩ := List.forall_mem_cons.mp h
    exact fun t _ => ⟨he s, ih hes t⟩

theorem stepsMeet_true (step : σ → ε → Option σ) (s : σ) (es : List ε) :
    StepsMeet step (fun _ _ => True) s es :=
  stepsMeet_of_forall (fun _ _ _ => trivial) s

/-! ## Counting and simulating -/

/-- A rank that no step raises, and that every counted step lowers, bounds the count. -/
theorem countSteps_le {step : σ → ε → Option σ} {c : σ → ε → Bool} {I W : σ → Prop}
    (rank : σ → Nat) (hI : ∀ s e t, I s → step s e = some t → I t)
    (hrank : ∀ s e t, I s → W s → W t → step s e = some t →
      rank t + (if c s e then 1 else 0) ≤ rank s)
    (es : List ε) {s : σ} (hs : I s) (hW : StatesMeet step W s es) :
    countSteps step c s es ≤ rank s := by
  induction es generalizing s with
  | nil => exact Nat.zero_le _
  | cons e es ih =>
    rw [countSteps]
    cases ht : step s e with
    | none => exact Nat.zero_le _
    | some t =>
      have hrest := hW.2 t ht
      have h1 := hrank s e t hs hW.1 hrest.head ht
      have h2 := ih (hI s e t hs ht) hrest
      simp only
      omega

theorem countSteps_append {step : σ → ε → Option σ} {c : σ → ε → Bool} {s t : σ} {es : List ε}
    (hrun : run step s es = some t) (fs : List ε) :
    countSteps step c s (es ++ fs) = countSteps step c s es + countSteps step c t fs := by
  induction es generalizing s with
  | nil =>
    rw [run_nil, Option.some.injEq] at hrun
    subst hrun
    simp [countSteps]
  | cons e es ih =>
    obtain ⟨u, hu, hrest⟩ := run_cons_eq_some.mp hrun
    simp only [List.cons_append, countSteps, hu, ih hrest]
    omega

theorem countSteps_eq_sumSteps (step : σ → ε → Option σ) (c : σ → ε → Bool) (s : σ)
    (es : List ε) : countSteps step c s es = sumSteps step (fun s e => (c s e).toNat) s es := by
  induction es generalizing s with
  | nil => rfl
  | cons e es ih =>
    rw [countSteps, sumSteps]
    cases ht : step s e with
    | none => rfl
    | some t =>
      simp only [ih t]
      cases c s e <;> rfl

@[simp]
theorem sumSteps_zero (step : σ → ε → Option σ) (s : σ) (es : List ε) :
    sumSteps step (fun _ _ => 0) s es = 0 := by
  induction es generalizing s with
  | nil => rfl
  | cons e es ih =>
    rw [sumSteps]
    cases ht : step s e with
    | none => rfl
    | some t => simp only [ih t]

theorem sumSteps_add (step : σ → ε → Option σ) (v w : σ → ε → Nat) (s : σ) (es : List ε) :
    sumSteps step (fun s e => v s e + w s e) s es =
      sumSteps step v s es + sumSteps step w s es := by
  induction es generalizing s with
  | nil => rfl
  | cons e es ih =>
    rw [sumSteps, sumSteps, sumSteps]
    cases ht : step s e with
    | none => rfl
    | some t =>
      simp only [ih t]
      omega

/-- What each step keeps in balance, the run keeps in balance. -/
theorem sumSteps_balance {step : σ → ε → Option σ} {I : σ → Prop} {f g : σ → Nat}
    {v w : σ → ε → Nat} (hI : ∀ s e t, I s → step s e = some t → I t)
    (hstep : ∀ s e t, I s → step s e = some t → f t + g s + v s e = f s + g t + w s e)
    (es : List ε) {s t : σ} (hs : I s) (hrun : run step s es = some t) :
    f t + g s + sumSteps step v s es = f s + g t + sumSteps step w s es := by
  induction es generalizing s with
  | nil =>
    rw [run_nil, Option.some.injEq] at hrun
    subst hrun
    rfl
  | cons e es ih =>
    obtain ⟨u, hu, hrest⟩ := run_cons_eq_some.mp hrun
    have hhead := hstep s e u hs hu
    have htail := ih (hI s e u hs hu) hrest
    simp only [sumSteps, hu]
    omega

/-- What each step adds at least, the run adds at least. -/
theorem sumSteps_le {step : σ → ε → Option σ} {I : σ → Prop} {f : σ → Nat} {w : σ → ε → Nat}
    (hI : ∀ s e t, I s → step s e = some t → I t)
    (hstep : ∀ s e t, I s → step s e = some t → f s + w s e ≤ f t)
    (es : List ε) {s t : σ} (hs : I s) (hrun : run step s es = some t) :
    f s + sumSteps step w s es ≤ f t := by
  induction es generalizing s with
  | nil =>
    rw [run_nil, Option.some.injEq] at hrun
    subst hrun
    exact Nat.le_refl _
  | cons e es ih =>
    obtain ⟨u, hu, hrest⟩ := run_cons_eq_some.mp hrun
    have hhead := hstep s e u hs hu
    have htail := ih (hI s e u hs hu) hrest
    simp only [sumSteps, hu]
    omega

theorem StepsMeet.append {step : σ → ε → Option σ} {C : σ → ε → Prop} {s t : σ} {es fs : List ε}
    (h : StepsMeet step C s es) (hrun : run step s es = some t) (hfs : StepsMeet step C t fs) :
    StepsMeet step C s (es ++ fs) := by
  induction es generalizing s with
  | nil =>
    rw [run_nil, Option.some.injEq] at hrun
    exact hrun ▸ hfs
  | cons e es ih =>
    obtain ⟨u, hu, hrest⟩ := run_cons_eq_some.mp hrun
    intro v hv
    obtain rfl : u = v := Option.some.inj (hu.symm.trans hv)
    exact ⟨(h u hu).1, ih (h u hu).2 hrest⟩

theorem StatesMeet.append {step : σ → ε → Option σ} {P : σ → Prop} {s t : σ} {es fs : List ε}
    (h : StatesMeet step P s es) (hrun : run step s es = some t)
    (hfs : StatesMeet step P t fs) : StatesMeet step P s (es ++ fs) := by
  induction es generalizing s with
  | nil =>
    rw [run_nil, Option.some.injEq] at hrun
    exact hrun ▸ hfs
  | cons e es ih =>
    obtain ⟨u, hu, hrest⟩ := run_cons_eq_some.mp hrun
    refine ⟨h.1, fun v hv => ?_⟩
    obtain rfl : u = v := Option.some.inj (hu.symm.trans hv)
    exact ih (h.2 u hu) hrest

/-- A loop that takes a counted step each time round has no bound on its count. -/
theorem countSteps_unbounded {step : σ → ε → Option σ} {c : σ → ε → Bool} {J W : σ → Prop}
    (hloop : ∀ s, J s → ∃ es t, run step s es = some t ∧ J t ∧ StatesMeet step W s es ∧
      0 < countSteps step c s es) (n : Nat) {s : σ} (hs : J s) :
    ∃ es, StatesMeet step W s es ∧ n ≤ countSteps step c s es := by
  induction n generalizing s with
  | zero =>
    obtain ⟨es, t, -, -, hW, -⟩ := hloop s hs
    exact ⟨es, hW, Nat.zero_le _⟩
  | succ n ih =>
    obtain ⟨es, t, hrun, ht, hW, hpos⟩ := hloop s hs
    obtain ⟨fs, hWfs, hn⟩ := ih ht
    refine ⟨es ++ fs, hW.append hrun hWfs, ?_⟩
    rw [countSteps_append hrun]
    omega

/-- If the abstract machine does on `abs s` what the concrete one does on `s`, event by
event, then the two machines take the same runs. -/
theorem run_map {step : σ → ε → Option σ} {step' : τ → ε → Option τ} {abs : σ → τ}
    {I : σ → Prop} (hI : ∀ s e t, I s → step s e = some t → I t)
    (hsim : ∀ s e, I s → (step s e).map abs = step' (abs s) e) (es : List ε) {s : σ}
    (hs : I s) : (run step s es).map abs = run step' (abs s) es := by
  induction es generalizing s with
  | nil => rfl
  | cons e es ih =>
    rw [run_cons, run_cons, ← hsim s e hs]
    cases ht : step s e with
    | none => rfl
    | some t => exact ih (hI s e t hs ht)

/-- If one machine answers each step of another with the run that `share` names, then it
answers a run with the shares of its steps. -/
theorem run_trace {δ : Type*} {step : σ → ε → Option σ} {step' : τ → δ → Option τ}
    {view : σ → τ} {share : σ → ε → List δ} {I : σ → Prop}
    (hI : ∀ s e t, I s → step s e = some t → I t)
    (hsim : ∀ s e t, I s → step s e = some t → run step' (view s) (share s e) = some (view t))
    (es : List ε) {s t : σ} (hs : I s) (hrun : run step s es = some t) :
    run step' (view s) (trace step share s es) = some (view t) := by
  induction es generalizing s with
  | nil =>
    rw [run_nil, Option.some.injEq] at hrun
    subst hrun
    rfl
  | cons e es ih =>
    obtain ⟨u, hu, hrest⟩ := run_cons_eq_some.mp hrun
    simp only [trace, hu]
    rw [run_append, hsim s e u hs hu]
    exact ih (hI s e u hs hu) hrest

end Runs
