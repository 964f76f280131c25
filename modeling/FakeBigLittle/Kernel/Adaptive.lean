import FakeBigLittle.Ewma
import FakeBigLittle.Kernel.Hysteresis

/-!
# Where the adaptive classifier settles

The class of an unpinned task is a function of the lengths of its slices. Over natural
numbers this function is an average with two thresholds, and the callbacks compute it as
long as no slice is longer than 146 years.
-/

namespace FakeBigLittle

open Runs

/-! ## The average and the thresholds -/

/-- What the classifier knows of a task. -/
structure Rating where
  domain : Dom
  ewma : Nat

/-- The rating after a slice of `x` ns. -/
def Rating.next (thresh : Nat) (r : Rating) (x : Nat) : Rating where
  domain :=
    if r.domain = .little ∧ thresh < Ewma.step 3 r.ewma x then .big
    else if r.domain = .big ∧ Ewma.step 3 r.ewma x < thresh / 2 then .little
    else r.domain
  ewma := Ewma.step 3 r.ewma x

/-- The class is one that the hysteresis allows at this average. -/
structure Rating.Fits (thresh : Nat) (r : Rating) : Prop where
  little : r.domain = .little → r.ewma ≤ thresh
  big : r.domain = .big → thresh / 2 ≤ r.ewma

def Rating.after (thresh : Nat) (r : Rating) (xs : List Nat) : Rating :=
  xs.foldl (Rating.next thresh) r

namespace Rating

variable {thresh : Nat} {r : Rating} {xs : List Nat}

theorem after_ewma (thresh : Nat) (r : Rating) (xs : List Nat) :
    (r.after thresh xs).ewma = xs.foldl (Ewma.step 3) r.ewma := by
  unfold after
  induction xs generalizing r with
  | nil => rfl
  | cons x xs ih =>
    rw [List.foldl_cons, List.foldl_cons, ih]
    rfl

theorem fits_next (thresh : Nat) (r : Rating) (x : Nat) : (r.next thresh x).Fits thresh := by
  unfold next
  split_ifs with hup hdown
  · exact ⟨by simp, fun _ => by have := hup.2; simp only; omega⟩
  · exact ⟨fun _ => by have := hdown.2; simp only; omega, by simp⟩
  · exact ⟨fun hl => Nat.le_of_not_lt fun hlt => hup ⟨hl, hlt⟩,
      fun hb => Nat.le_of_not_lt fun hlt => hdown ⟨hb, hlt⟩⟩

theorem fits_after (h : r.Fits thresh) (xs : List Nat) : (r.after thresh xs).Fits thresh := by
  unfold after
  induction xs generalizing r with
  | nil => exact h
  | cons x xs ih => exact ih (fits_next thresh r x)

theorem Fits.eq_big (h : r.Fits thresh) (hup : thresh < r.ewma) : r.domain = .big := by
  cases hd : r.domain with
  | big => rfl
  | little =>
    have := h.little hd
    omega

theorem Fits.eq_little (h : r.Fits thresh) (hdown : r.ewma < thresh / 2) :
    r.domain = .little := by
  cases hd : r.domain with
  | little => rfl
  | big =>
    have := h.big hd
    omega

/-- Slices up to the threshold promote nothing. -/
theorem after_little (hd : r.domain = .little) (he : r.ewma ≤ thresh)
    (h : ∀ x ∈ xs, x ≤ thresh) : (r.after thresh xs).domain = .little := by
  unfold after
  induction xs generalizing r with
  | nil => exact hd
  | cons x xs ih =>
    rw [List.forall_mem_cons] at h
    have hle : Ewma.step 3 r.ewma x ≤ thresh := Ewma.step_le he h.1
    refine ih ?_ hle h.2
    simp only [next, hd, reduceCtorEq, false_and, if_false]
    rw [if_neg (by omega)]

/-- A slice that is not short demotes nothing. -/
theorem next_big (hfits : r.Fits thresh) (hd : r.domain = .big) {x : Nat}
    (hx : thresh / 2 ≤ x) : (r.next thresh x).domain = .big := by
  have hle : thresh / 2 ≤ Ewma.step 3 r.ewma x := Ewma.le_step (hfits.big hd) hx
  simp only [next, hd, reduceCtorEq, false_and, if_false, true_and]
  rw [if_neg (by omega)]

/-- Slices that are 4 ns above the threshold lift the average past it. -/
theorem after_big (hfits : r.Fits thresh) (h : ∀ x ∈ xs, thresh + 4 ≤ x)
    (hlength : thresh + 1 ≤ xs.length) : (r.after thresh xs).domain = .big := by
  apply (fits_after hfits xs).eq_big
  have hclimb := Ewma.climbs (k := 3) (e := r.ewma) h
  rw [after_ewma]
  omega

/-- Slices below half of the threshold pull the average down there. -/
theorem after_falls (hfits : r.Fits thresh) (h : ∀ x ∈ xs, x < thresh / 2)
    (hlength : r.ewma < xs.length) : (r.after thresh xs).domain = .little := by
  apply (fits_after hfits xs).eq_little
  rw [after_ewma]
  rcases Ewma.sinks (k := 3) (e := r.ewma) h with hlt | hle
  · exact hlt
  · omega

end Rating

/-! ## The life of a task -/

variable {T : Type} [DecidableEq T]

def TaskCtx.rating (tc : TaskCtx) : Rating := ⟨tc.domain, tc.execEwmaNs.toNat⟩

/-- The lengths of the slices of `p`, in ns. -/
def lengthsOf (p : T) (l : List (Slice T)) : List Nat :=
  (l.filter fun x => x.task = p).map (·.delta.toNat)

/-- `init_task` has just made `p` a task that no rule pins. -/
def Born (m : Machine T) (p : T) (s : Sched T) : Prop :=
  ∃ s' comm, (initialDomain m.toConfig comm).2 = false ∧ s = (blsInitTask m p comm true s').2

/-- The calls `es`, in which `p` stays the task that it is and runs no slice of 146 years. -/
structure Life (m : Machine T) (p : T) (s : Sched T) (es : List (Call T)) (t : Sched T) :
    Prop where
  run : Runs.run (call m) s es = some t
  same : ∀ comm alloc, Call.initTask p comm alloc ∉ es
  short : ∀ x ∈ lengthsOf p (slices m s es), x < 2 ^ 62

/-- An unpinned task whose average is far from overflow, rated `r`. -/
def RatedAs (p : T) (s : Sched T) (r : Rating) : Prop :=
  ∃ tc, s.taskCtx p = some tc ∧ tc.commPinned = false ∧ tc.execEwmaNs.toNat < 2 ^ 62 ∧
    tc.rating = r

section Steps

variable {m : Machine T} {s t : Sched T} {c : Call T} {p : T}

theorem lengthsOf_append (p : T) (l l' : List (Slice T)) :
    lengthsOf p (l ++ l') = lengthsOf p l ++ lengthsOf p l' := by
  unfold lengthsOf
  rw [List.filter_append, List.map_append]

theorem lengthsOf_length (p : T) (l : List (Slice T)) :
    (lengthsOf p l).length = slicesBy p l := List.length_map ..

theorem lengthsOf_others {p : T} {l : List (Slice T)} (h : ∀ x ∈ l, x.task ≠ p) :
    lengthsOf p l = [] := by
  rw [← List.length_eq_zero_iff, lengthsOf_length, slicesBy_of_ne h]

/-- No call takes the storage of a task away. -/
theorem call_isSome (hcall : call m s c = some t) (h : (s.taskCtx p).isSome = true) :
    (t.taskCtx p).isSome = true := by
  cases c with
  | initTask q comm alloc =>
    obtain rfl := Option.some.inj hcall
    rcases eq_or_ne p q with rfl | hne
    · cases alloc with
      | false => exact h
      | true =>
        obtain ⟨tc, htc, -⟩ := blsInitTask_ctx m p comm s
        simp [htc]
    · rwa [(blsInitTask_ctxOnly m q comm alloc s).others p hne]
  | selectCpu q prevCpu =>
    obtain rfl := Option.some.inj hcall
    have heq := congrFun (blsSelectCpu_placeOnly m q prevCpu s).taskCtx p
    exact (congrArg Option.isSome heq).trans h
  | enqueue q f =>
    obtain rfl := Option.some.inj hcall
    rwa [(blsEnqueue_placeOnly m q f s).taskCtx]
  | dispatch cpu =>
    obtain rfl := Option.some.inj hcall
    rwa [(blsDispatch_placeOnly m cpu s).taskCtx]
  | running q now =>
    obtain rfl := Option.some.inj hcall
    rwa [blsRunning_isSome]
  | stopping q now cpu =>
    obtain rfl := Option.some.inj hcall
    rwa [blsStopping_isSome]

/-- Over 64 bits the thresholds are crossed as they are over natural numbers. -/
theorem next_domain {thresh ewma delta : UInt64} {d domain : Dom}
    (hother : crosses thresh d ((ewma * 3 + delta) / 4) → domain = d.other)
    (hstay : ¬ crosses thresh d ((ewma * 3 + delta) / 4) → domain = d)
    (he : ewma.toNat < 2 ^ 62) (hdelta : delta.toNat < 2 ^ 62) :
    (Rating.next thresh.toNat ⟨d, ewma.toNat⟩ delta.toNat).domain = domain := by
  have hhalf : (thresh / 2).toNat = thresh.toNat / 2 := UInt64.toNat_div ..
  have hstep : ((ewma * 3 + delta) / 4).toNat = Ewma.step 3 ewma.toNat delta.toNat := by
    rw [update_div ewma delta he hdelta, Ewma.step, Nat.mul_comm]
  simp only [crosses, gt_iff_lt, UInt64.lt_iff_toNat_lt, hstep, hhalf] at hother hstay
  simp only [Rating.next]
  split_ifs with hup hdown
  · rw [hother (Or.inl hup), hup.1]
    rfl
  · rw [hother (Or.inr hdown), hdown.1]
    rfl
  · exact (hstay (not_or.mpr ⟨hup, hdown⟩)).symm

theorem ratedAs_call (hmode : m.classifyMode = .adaptive ∨ m.classifyMode = .hybrid)
    {r : Rating} (h : RatedAs p s r) (hcall : call m s c = some t)
    (hsame : ∀ comm alloc, c ≠ .initTask p comm alloc)
    (hshort : ∀ x ∈ lengthsOf p (slicesOf m s c), x < 2 ^ 62) :
    RatedAs p t (r.after m.bigSliceThreshNs.toNat (lengthsOf p (slicesOf m s c))) := by
  obtain ⟨tc, htc, hpin, hewma, rfl⟩ := h
  obtain ⟨tc', htc'⟩ := Option.isSome_iff_exists.mp
    (call_isSome (p := p) hcall (by rw [htc]; rfl))
  rcases call_ctx hcall htc' with ⟨-, comm, rfl, -⟩ |
    ⟨hnone, tc₀, htc₀, hdom', hpin', hewma'⟩ |
    ⟨tc₀, now, cpu, delta, domain, rfl, htc₀, hstart, hdelta, heq, rfl, hother, hstay⟩
  · exact absurd rfl (hsame comm true)
  · obtain rfl := Option.some.inj (htc.symm.trans htc₀)
    rw [lengthsOf_others hnone]
    refine ⟨tc', htc', hpin'.trans hpin, by rwa [hewma'], ?_⟩
    simp only [TaskCtx.rating, hdom', hewma']
    rfl
  · obtain rfl := Option.some.inj (htc.symm.trans htc₀)
    have hlengths : lengthsOf p (slicesOf m s (.stopping p now cpu)) = [delta.toNat] := by
      simp [heq, lengthsOf]
    rw [hlengths] at hshort ⊢
    have hlt : delta.toNat < 2 ^ 62 := hshort _ List.mem_cons_self
    have hupdate := update_div tc.execEwmaNs delta hewma hlt
    rw [adapts_iff hmode hpin hstart hdelta] at hother hstay
    refine ⟨_, htc', hpin, ?_, ?_⟩
    · simp only [TaskCtx.credit, hupdate]
      omega
    · have hdomain := next_domain hother hstay hewma hlt
      simp only [TaskCtx.rating, TaskCtx.credit, Rating.after, List.foldl_cons, List.foldl_nil]
      rw [hupdate, Nat.mul_comm, ← hdomain]
      rfl

theorem Rating.after_append (thresh : Nat) (r : Rating) (xs ys : List Nat) :
    r.after thresh (xs ++ ys) = (r.after thresh xs).after thresh ys := List.foldl_append ..

/-- The callbacks rate a task by the lengths of its slices. -/
theorem ratedAs_life (hmode : m.classifyMode = .adaptive ∨ m.classifyMode = .hybrid)
    {r : Rating} (h : RatedAs p s r) {es : List (Call T)} (hlife : Life m p s es t) :
    RatedAs p t (r.after m.bigSliceThreshNs.toNat (lengthsOf p (slices m s es))) := by
  obtain ⟨hrun, hsame, hshort⟩ := hlife
  induction es generalizing s r with
  | nil =>
    rw [run_nil, Option.some.injEq] at hrun
    exact hrun ▸ h
  | cons c es ih =>
    obtain ⟨u, hu, hrest⟩ := run_cons_eq_some.mp hrun
    have hcons : slices m s (c :: es) = slicesOf m s c ++ slices m u es := by
      simp only [slices, trace, hu]
    rw [hcons, lengthsOf_append] at hshort ⊢
    rw [Rating.after_append]
    refine ih ?_ hrest (fun comm alloc hmem => hsame comm alloc (List.mem_cons_of_mem _ hmem))
      fun x hx => hshort x (List.mem_append_right _ hx)
    exact ratedAs_call hmode h hu
      (fun comm alloc heq => hsame comm alloc (heq ▸ List.mem_cons_self))
      fun x hx => hshort x (List.mem_append_left _ hx)

theorem Born.ratedAs (hmode : m.classifyMode = .adaptive ∨ m.classifyMode = .hybrid)
    (h : Born m p s) : RatedAs p s ⟨.little, 0⟩ := by
  obtain ⟨s', comm, hpin, rfl⟩ := h
  have hdom := initialDomain_unpinned m.toConfig comm hmode hpin
  unfold blsInitTask
  simp only [Bool.not_true, Bool.false_eq_true, if_false]
  exact ⟨_, Function.update_self .., hpin, by simp, by simp [TaskCtx.rating, hdom]⟩

omit [DecidableEq T] in
theorem RatedAs.ctxDom {r : Rating} (h : RatedAs p s r) : ctxDom s p = some r.domain := by
  obtain ⟨tc, htc, -, -, rfl⟩ := h
  simp [FakeBigLittle.ctxDom, htc, TaskCtx.rating]

/-- A slice at which a task does not move. -/
theorem RatedAs.not_demoted (hmode : m.classifyMode = .adaptive ∨ m.classifyMode = .hybrid)
    {r : Rating} (h : RatedAs p s r) (hfits : r.Fits m.bigSliceThreshNs.toNat) {now delta : UInt64}
    (hslice : sliceOf s p now = some delta) (hshort : delta.toNat < 2 ^ 62)
    (hlong : m.bigSliceThreshNs.toNat / 2 ≤ delta.toNat) (cpu : Nat) :
    ¬ Moves m s p now cpu .big := by
  rintro ⟨hbig, hmoved⟩
  have hlengths : lengthsOf p (slicesOf m s (.stopping p now cpu)) = [delta.toNat] := by
    simp [slicesOf, hslice, lengthsOf]
  have hnext := ratedAs_call (c := .stopping p now cpu) hmode h rfl (by simp)
    (by simpa [hlengths] using hshort)
  rw [h.ctxDom, Option.some.injEq] at hbig
  rw [hnext.ctxDom, hlengths, Option.some.injEq] at hmoved
  exact absurd (hmoved.symm.trans (Rating.next_big hfits hbig hlong)) (by decide)

end Steps

/-- **Where the classifier settles.** Slices up to the threshold never promote a task, slices
4 ns above it bring the task to BIG within threshold + 1 stoppings and keep it there, and
slices below half of it bring the task to LITTLE in finitely many and keep it there. -/
theorem adaptive_separates (m : Machine T)
    (hmode : m.classifyMode = .adaptive ∨ m.classifyMode = .hybrid) (p : T) (s₀ : Sched T)
    (hborn : Born m p s₀) :
    (∀ es s, Life m p s₀ es s →
      (∀ x ∈ lengthsOf p (slices m s₀ es), x ≤ m.bigSliceThreshNs.toNat) →
      ctxDom s p = some .little) ∧
    ∀ es s, Life m p s₀ es s →
      (∀ fs t, Life m p s fs t →
        (∀ x ∈ lengthsOf p (slices m s fs), m.bigSliceThreshNs.toNat + 4 ≤ x) →
        (m.bigSliceThreshNs.toNat + 1 ≤ slicesBy p (slices m s fs) → ctxDom t p = some .big) ∧
        ∀ now cpu delta, sliceOf t p now = some delta →
          m.bigSliceThreshNs.toNat + 4 ≤ delta.toNat → delta.toNat < 2 ^ 62 →
          ¬ Moves m t p now cpu .big) ∧
      ∃ n, ∀ fs t, Life m p s fs t →
        (∀ x ∈ lengthsOf p (slices m s fs), x < m.bigSliceThreshNs.toNat / 2) →
        n ≤ slicesBy p (slices m s fs) → ctxDom t p = some .little := by
  have hstart := hborn.ratedAs hmode
  have hzero : Rating.Fits m.bigSliceThreshNs.toNat ⟨.little, 0⟩ :=
    ⟨fun _ => Nat.zero_le _, by simp⟩
  refine ⟨fun es s hlife hle => ?_, fun es s hlife => ?_⟩
  · rw [(ratedAs_life hmode hstart hlife).ctxDom,
      Rating.after_little rfl (Nat.zero_le _) hle]
  · have hrated := ratedAs_life hmode hstart hlife
    have hfits := Rating.fits_after hzero (lengthsOf p (slices m s₀ es))
    let r := Rating.after m.bigSliceThreshNs.toNat ⟨.little, 0⟩ (lengthsOf p (slices m s₀ es))
    refine ⟨fun fs t hfs hlong => ⟨fun hcount => ?_, fun now cpu delta hslice hdelta hlt => ?_⟩,
      r.ewma + 1, fun fs t hfs hshort hcount => ?_⟩
    · rw [← lengthsOf_length] at hcount
      rw [(ratedAs_life hmode hrated hfs).ctxDom, Rating.after_big hfits hlong hcount]
    · exact (ratedAs_life hmode hrated hfs).not_demoted hmode (Rating.fits_after hfits _) hslice
        hlt (by omega) cpu
    · rw [← lengthsOf_length] at hcount
      rw [(ratedAs_life hmode hrated hfs).ctxDom,
        Rating.after_falls hfits hshort (Nat.lt_of_succ_le hcount)]

/-- Task 1 on two cores, and a slice at the threshold. -/
theorem adaptive_separates_pair : ∃ s,
    run (call (pairMachine .adaptive false))
      (blsInitTask (pairMachine .adaptive false) 1 none true (Sched.start fun _ => false)).2
      [.running 1 1, .stopping 1 1500001 0] = some s ∧ ctxDom s 1 = some .little :=
  ⟨_, rfl, (adaptive_separates (pairMachine .adaptive false) (Or.inl rfl) 1 _
    ⟨_, none, rfl, rfl⟩).1 [.running 1 1, .stopping 1 1500001 0] _
    ⟨rfl, by simp, by decide⟩ (by decide)⟩

end FakeBigLittle
