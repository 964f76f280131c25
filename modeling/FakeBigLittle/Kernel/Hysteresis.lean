import FakeBigLittle.Kernel.Isolation
import FakeBigLittle.Kernel.RunTime

/-!
# Hysteresis

A task is promoted when the average of its slices passes the threshold, and demoted when it
falls below half of it. The average decays by a quarter at most in a slice, so a task that
was promoted stays for two more.
-/

namespace FakeBigLittle

open Runs

variable {T : Type} [DecidableEq T]

/-! ## What a call does to a context -/

/-- `init_task` makes a context anew, `stopping` credits a slice to it, and no other call
touches what the class depends on. -/
theorem call_ctx {m : Machine T} {s t : Sched T} {c : Call T} {p : T} {tc' : TaskCtx}
    (hcall : call m s c = some t) (h : t.taskCtx p = some tc') :
    (slicesOf m s c = [] ∧ ∃ comm, c = .initTask p comm true ∧
      tc'.domain = (initialDomain m.toConfig comm).1 ∧
      tc'.commPinned = (initialDomain m.toConfig comm).2 ∧ tc'.execEwmaNs = 0) ∨
    ((∀ x ∈ slicesOf m s c, x.task ≠ p) ∧ ∃ tc, s.taskCtx p = some tc ∧
      tc'.domain = tc.domain ∧ tc'.commPinned = tc.commPinned ∧
      tc'.execEwmaNs = tc.execEwmaNs) ∨
    (∃ tc now cpu delta domain, c = .stopping p now cpu ∧ s.taskCtx p = some tc ∧
      tc.startedAt ≠ 0 ∧ now - tc.startedAt = delta ∧
      slicesOf m s c = [⟨p, domOfCpu m.toConfig cpu, delta⟩] ∧
      tc' = tc.credit (domOfCpu m.toConfig cpu) delta domain ∧
      (adapts m.toConfig tc now → domain = tc.domain.other) ∧
      (¬ adapts m.toConfig tc now → domain = tc.domain)) := by
  -- A callback that leaves the storage of `p` alone.
  have hsame : t.taskCtx p = s.taskCtx p → (∀ x ∈ slicesOf m s c, x.task ≠ p) →
      (∀ x ∈ slicesOf m s c, x.task ≠ p) ∧ ∃ tc, s.taskCtx p = some tc ∧
      tc'.domain = tc.domain ∧ tc'.commPinned = tc.commPinned ∧
      tc'.execEwmaNs = tc.execEwmaNs :=
    fun heq hnone => ⟨hnone, tc', heq ▸ h, rfl, rfl, rfl⟩
  cases c with
  | initTask q comm alloc =>
    obtain rfl := Option.some.inj hcall
    by_cases hq : p = q ∧ alloc = true
    · obtain ⟨rfl, rfl⟩ := hq
      refine Or.inl ⟨rfl, comm, rfl, ?_⟩
      unfold blsInitTask at h
      simp only [Bool.not_true, Bool.false_eq_true, if_false, statAdd, setCtx,
        Function.update_self, Option.some.injEq] at h
      rw [← h]
      exact ⟨rfl, rfl, rfl⟩
    · refine Or.inr (Or.inl (hsame ?_ (by simp [slicesOf])))
      rcases not_and_or.mp hq with hne | halloc
      · exact (blsInitTask_ctxOnly m q comm alloc s).others p hne
      · simp [blsInitTask, halloc]
  | selectCpu q prevCpu =>
    obtain rfl := Option.some.inj hcall
    have hplace := blsSelectCpu_placeOnly m q prevCpu s
    exact Or.inr (Or.inl (hsame (congrFun hplace.taskCtx p) (by simp [slicesOf])))
  | enqueue q f =>
    obtain rfl := Option.some.inj hcall
    have hplace := blsEnqueue_placeOnly m q f s
    exact Or.inr (Or.inl (hsame (congrFun hplace.taskCtx p) (by simp [slicesOf])))
  | dispatch cpu =>
    obtain rfl := Option.some.inj hcall
    have hplace := blsDispatch_placeOnly m cpu s
    exact Or.inr (Or.inl (hsame (congrFun hplace.taskCtx p) (by simp [slicesOf])))
  | running q now =>
    obtain rfl := Option.some.inj hcall
    refine Or.inr (Or.inl ⟨by simp [slicesOf], ?_⟩)
    by_cases hq : p = q
    · subst hq
      cases htc : s.taskCtx p with
      | none => simp [blsRunning, htc] at h
      | some tc =>
        rw [blsRunning_ctx p now s tc htc, Option.some.injEq] at h
        exact ⟨tc, rfl, by rw [← h], by rw [← h], by rw [← h]⟩
    · rw [(blsRunning_ctxOnly q now s).others p hq] at h
      exact ⟨tc', h, rfl, rfl, rfl⟩
  | stopping q now cpu =>
    obtain rfl := Option.some.inj hcall
    have htask : ∀ x ∈ slicesOf m s (.stopping q now cpu), x.task = q := by
      intro x hx
      unfold slicesOf at hx
      cases hslice : sliceOf s q now <;> simp_all
    by_cases hq : p = q
    · subst hq
      cases hslice : sliceOf s p now with
      | none =>
        rw [blsStopping_idle m p now cpu s (sliceOf_eq_none.mp hslice)] at hsame
        exact Or.inr (Or.inl (hsame rfl (by simp [slicesOf, hslice])))
      | some delta =>
        obtain ⟨tc, htc, hstart, rfl⟩ := sliceOf_eq_some.mp hslice
        obtain ⟨domain, hctx, hother, hstay⟩ := blsStopping_slice m p now cpu s tc htc hstart
        have htc' := Option.some.inj (h.symm.trans hctx)
        exact Or.inr (Or.inr ⟨tc, now, cpu, _, domain, rfl, htc, hstart, rfl,
          by simp [slicesOf, hslice], htc', hother, hstay⟩)
    · refine Or.inr (Or.inl (hsame ((blsStopping_ctxOnly m q now cpu s).others p hq) ?_))
      exact fun x hx hxp => hq (hxp.symm.trans (htask x hx))

/-! ## The average -/

/-- An unpinned task starts in LITTLE. -/
theorem initialDomain_unpinned (c : Config) (comm : Option Comm)
    (hmode : c.classifyMode = .adaptive ∨ c.classifyMode = .hybrid)
    (h : (initialDomain c comm).2 = false) : (initialDomain c comm).1 = .little := by
  unfold initialDomain at h ⊢
  rcases hmode with hmode | hmode <;> rw [hmode] at h ⊢
  cases hrule : classifyByComm c.commRules comm with
  | none => rfl
  | some d => simp [hrule] at h

/-- No slice is longer than 146 years. -/
def ShortSlices (m : Machine T) (s : Sched T) (c : Call T) : Prop :=
  ∀ x ∈ slicesOf m s c, x.delta.toNat < 2 ^ 62

instance decidableShortSlices (m : Machine T) (s : Sched T) (c : Call T) :
    Decidable (ShortSlices m s c) :=
  inferInstanceAs (Decidable (∀ x ∈ slicesOf m s c, x.delta.toNat < 2 ^ 62))

/-- The class of an unpinned task is the one of its average, give or take the hysteresis, and
some slice was as long as the average. -/
structure Rated (m : Machine T) (l : List (Slice T)) (p : T) (tc : TaskCtx) : Prop where
  little : tc.commPinned = false → tc.domain = .little → tc.execEwmaNs ≤ m.bigSliceThreshNs
  big : tc.commPinned = false → tc.domain = .big → m.bigSliceThreshNs / 2 ≤ tc.execEwmaNs
  seen : tc.execEwmaNs = 0 ∨ ∃ x ∈ l, x.task = p ∧ tc.execEwmaNs ≤ x.delta

/-- All slices are short, and every task is rated by them. -/
def AllRated (m : Machine T) (s : Sched T) (l : List (Slice T)) : Prop :=
  (∀ x ∈ l, x.delta.toNat < 2 ^ 62) ∧ ∀ p tc, s.taskCtx p = some tc → Rated m l p tc

theorem update_lt (ewma delta : UInt64) (he : ewma.toNat < 2 ^ 62) (hd : delta.toNat < 2 ^ 62) :
    (ewma * 3 + delta).toNat = ewma.toNat * 3 + delta.toNat := by
  rw [UInt64.toNat_add, UInt64.toNat_mul, show (3 : UInt64).toNat = 3 from rfl]
  omega

theorem update_div (ewma delta : UInt64) (he : ewma.toNat < 2 ^ 62)
    (hd : delta.toNat < 2 ^ 62) :
    ((ewma * 3 + delta) / 4).toNat = (ewma.toNat * 3 + delta.toNat) / 4 := by
  rw [UInt64.toNat_div, update_lt ewma delta he hd]
  rfl

omit [DecidableEq T] in
theorem Rated.lt {m : Machine T} {l : List (Slice T)} {p : T} {tc : TaskCtx}
    (h : Rated m l p tc) (hl : ∀ x ∈ l, x.delta.toNat < 2 ^ 62) :
    tc.execEwmaNs.toNat < 2 ^ 62 := by
  rcases h.seen with hzero | ⟨x, hx, -, hle⟩
  · rw [hzero]
    decide
  · have := hl x hx
    have := UInt64.le_iff_toNat_le.mp hle
    omega

/-- The new average is between the old one and the slice. -/
theorem update_le (ewma delta : UInt64) (he : ewma.toNat < 2 ^ 62) (hd : delta.toNat < 2 ^ 62) :
    (ewma * 3 + delta) / 4 ≤ ewma ∨ (ewma * 3 + delta) / 4 ≤ delta := by
  rw [UInt64.le_iff_toNat_le, UInt64.le_iff_toNat_le, update_div ewma delta he hd]
  omega

/-- Where the hysteresis leaves a task, its average is on the right side. -/
theorem class_after {thresh ewma : UInt64} {d domain : Dom}
    (h : (crosses thresh d ewma ∧ domain = d.other) ∨ (¬ crosses thresh d ewma ∧ domain = d)) :
    (domain = .little → ewma ≤ thresh) ∧ (domain = .big → thresh / 2 ≤ ewma) := by
  have hhalf : (thresh / 2).toNat = thresh.toNat / 2 := UInt64.toNat_div ..
  unfold crosses at h
  simp only [gt_iff_lt, UInt64.lt_iff_toNat_lt, UInt64.le_iff_toNat_le, hhalf] at h ⊢
  rcases h with ⟨⟨rfl, hup⟩ | ⟨rfl, hdown⟩, rfl⟩ | ⟨hstay, rfl⟩
  · exact ⟨by simp [Dom.other], fun _ => by omega⟩
  · exact ⟨fun _ => by omega, by simp [Dom.other]⟩
  · rw [not_or] at hstay
    exact ⟨fun hd => Nat.le_of_not_lt fun hlt => hstay.1 ⟨hd, hlt⟩,
      fun hd => Nat.le_of_not_lt fun hlt => hstay.2 ⟨hd, hlt⟩⟩

omit [DecidableEq T] in
/-- For an unpinned task `stopping` decides by the new average alone. -/
theorem adapts_iff {m : Machine T} {tc : TaskCtx} {now delta : UInt64}
    (hmode : m.classifyMode = .adaptive ∨ m.classifyMode = .hybrid)
    (hpin : tc.commPinned = false) (hstart : tc.startedAt ≠ 0)
    (hdelta : now - tc.startedAt = delta) :
    adapts m.toConfig tc now ↔
      crosses m.bigSliceThreshNs tc.domain ((tc.execEwmaNs * 3 + delta) / 4) := by
  unfold adapts
  rw [hdelta]
  exact ⟨fun h => h.2.2.2, fun h => ⟨hstart, hpin, hmode, h⟩⟩

omit [DecidableEq T] in
theorem rated_credit {m : Machine T} {l : List (Slice T)} {p : T} {tc : TaskCtx}
    (h : Rated m l p tc) {d domain : Dom} {now delta : UInt64}
    (hmode : m.classifyMode = .adaptive ∨ m.classifyMode = .hybrid)
    (hstart : tc.startedAt ≠ 0) (hdelta : now - tc.startedAt = delta)
    (hl : ∀ x ∈ l ++ [⟨p, d, delta⟩], x.delta.toNat < 2 ^ 62)
    (hother : adapts m.toConfig tc now → domain = tc.domain.other)
    (hstay : ¬ adapts m.toConfig tc now → domain = tc.domain) :
    Rated m (l ++ [⟨p, d, delta⟩]) p (tc.credit d delta domain) := by
  have hclass : tc.commPinned = false →
      (domain = .little → (tc.execEwmaNs * 3 + delta) / 4 ≤ m.bigSliceThreshNs) ∧
        (domain = .big → m.bigSliceThreshNs / 2 ≤ (tc.execEwmaNs * 3 + delta) / 4) := by
    intro hpin
    rw [adapts_iff hmode hpin hstart hdelta] at hother hstay
    apply class_after
    by_cases hcross : crosses m.bigSliceThreshNs tc.domain ((tc.execEwmaNs * 3 + delta) / 4)
    · exact Or.inl ⟨hcross, hother hcross⟩
    · exact Or.inr ⟨hcross, hstay hcross⟩
  have hold : tc.execEwmaNs.toNat < 2 ^ 62 :=
    h.lt fun x hx => hl x (List.mem_append_left _ hx)
  have hnew : delta.toNat < 2 ^ 62 := hl ⟨p, d, delta⟩ (by simp)
  refine ⟨fun hpin => (hclass hpin).1, fun hpin => (hclass hpin).2, Or.inr ?_⟩
  have hslice : (⟨p, d, delta⟩ : Slice T) ∈ l ++ [⟨p, d, delta⟩] := by simp
  rcases update_le tc.execEwmaNs delta hold hnew with hle | hle
  · rcases h.seen with hzero | ⟨x, hx, htask, hmax⟩
    · exact ⟨_, hslice, rfl, UInt64.le_trans hle (hzero ▸ UInt64.zero_le)⟩
    · exact ⟨x, List.mem_append_left _ hx, htask, UInt64.le_trans hle hmax⟩
  · exact ⟨_, hslice, rfl, hle⟩

theorem rated_call {m : Machine T} {s t : Sched T} {l : List (Slice T)} {c : Call T}
    (hmode : m.classifyMode = .adaptive ∨ m.classifyMode = .hybrid)
    (h : AllRated m s l) (hshort : ShortSlices m s c) (hcall : call m s c = some t) :
    AllRated m t (l ++ slicesOf m s c) := by
  have hl : ∀ x ∈ l ++ slicesOf m s c, x.delta.toNat < 2 ^ 62 := by
    intro x hx
    rcases List.mem_append.mp hx with hx | hx
    · exact h.1 x hx
    · exact hshort x hx
  refine ⟨hl, fun p tc' htc' => ?_⟩
  rcases call_ctx hcall htc' with ⟨-, comm, -, hdom, hpin, hzero⟩ |
    ⟨-, tc, htc, hdom, hpin, hewma⟩ |
    ⟨tc, now, cpu, delta, domain, rfl, htc, hstart, hdelta, heq, rfl, hother, hstay⟩
  · refine ⟨fun _ _ => hzero ▸ UInt64.zero_le, fun hno hbig => ?_, Or.inl hzero⟩
    have hlittle := initialDomain_unpinned m.toConfig comm hmode (hpin ▸ hno)
    rw [hdom, hlittle] at hbig
    exact absurd hbig (by decide)
  · have hold := h.2 p tc htc
    refine ⟨?_, ?_, ?_⟩
    · rw [hpin, hdom, hewma]
      exact hold.little
    · rw [hpin, hdom, hewma]
      exact hold.big
    · rw [hewma]
      exact hold.seen.imp_right fun ⟨x, hx, hle⟩ => ⟨x, List.mem_append_left _ hx, hle⟩
  · rw [heq] at hl ⊢
    exact rated_credit (h.2 p tc htc) hmode hstart hdelta hl hother hstay

theorem rated_run {m : Machine T} {idle : Nat → Bool} {es : List (Call T)} {s : Sched T}
    (hmode : m.classifyMode = .adaptive ∨ m.classifyMode = .hybrid)
    (hshort : StepsMeet (call m) (ShortSlices m) (Sched.start idle) es)
    (hrun : run (call m) (Sched.start idle) es = some s) :
    AllRated m s (slices m (Sched.start idle) es) := by
  have hstart : AllRated m (Sched.start (T := T) idle) [] := by
    refine ⟨by simp, fun p tc htc => ?_⟩
    exact absurd htc (by simp [Sched.start])
  exact inv_trace (fun _ _ _ _ h hshort hcall => rated_call hmode h hshort hcall) es hstart
    hshort hrun

/-! ## The dwell -/

/-- What the average of a task is at least, `k` slices after it passed the threshold. -/
def dwellBound (thresh : UInt64) : Nat → Nat
  | 0 => thresh.toNat + 1
  | k + 1 => 3 * dwellBound thresh k / 4

theorem dwellBound_le (thresh : UInt64) (k : Nat) : dwellBound thresh k ≤ thresh.toNat + 1 := by
  induction k with
  | zero => exact Nat.le_refl _
  | succ k ih =>
    rw [dwellBound]
    omega

theorem half_le_dwellBound (thresh : UInt64) {k : Nat} (hk : k ≤ 2) :
    thresh.toNat / 2 ≤ dwellBound thresh k := by
  obtain rfl | rfl | rfl : k = 0 ∨ k = 1 ∨ k = 2 := by omega
  all_goals
    simp only [dwellBound]
    omega

/-- `p` was promoted, and `k` of its slices ended since. -/
structure Dwells (m : Machine T) (p : T) (s : Sched T) (k : Nat) : Prop where
  small : ∀ tc, s.taskCtx p = some tc → tc.execEwmaNs.toNat < 2 ^ 62
  bound : ∀ tc, s.taskCtx p = some tc → tc.commPinned = false → tc.domain = .big →
    dwellBound m.bigSliceThreshNs k ≤ tc.execEwmaNs.toNat

-- How many of the slices `l` are of `p`.
def slicesBy (p : T) (l : List (Slice T)) : Nat := (l.filter fun x => x.task = p).length

theorem slicesBy_of_ne {p : T} {l : List (Slice T)} (h : ∀ x ∈ l, x.task ≠ p) :
    slicesBy p l = 0 := by
  unfold slicesBy
  rw [List.length_eq_zero_iff, List.filter_eq_nil_iff]
  simpa using h

/-- The average that a slice leaves, when the task stays in BIG or is promoted. -/
theorem dwellBound_update {thresh ewma delta : UInt64} {k : Nat} (he : ewma.toNat < 2 ^ 62)
    (hd : delta.toNat < 2 ^ 62) (h : dwellBound thresh k ≤ ewma.toNat) :
    dwellBound thresh (k + 1) ≤ ((ewma * 3 + delta) / 4).toNat := by
  rw [update_div ewma delta he hd, dwellBound]
  omega

theorem dwells_call {m : Machine T} {s t : Sched T} {p : T} {k : Nat} {c : Call T}
    (hmode : m.classifyMode = .adaptive ∨ m.classifyMode = .hybrid)
    (h : Dwells m p s k) (hshort : ShortSlices m s c) (hcall : call m s c = some t) :
    Dwells m p t (k + slicesBy p (slicesOf m s c)) := by
  suffices hone : ∀ tc', t.taskCtx p = some tc' → tc'.execEwmaNs.toNat < 2 ^ 62 ∧
      (tc'.commPinned = false → tc'.domain = .big →
        dwellBound m.bigSliceThreshNs (k + slicesBy p (slicesOf m s c)) ≤
          tc'.execEwmaNs.toNat) from
    ⟨fun tc' htc' => (hone tc' htc').1, fun tc' htc' => (hone tc' htc').2⟩
  intro tc' htc'
  rcases call_ctx hcall htc' with ⟨-, comm, -, hdom, hpin, hzero⟩ |
    ⟨hnone, tc, htc, hdom, hpin, hewma⟩ |
    ⟨tc, now, cpu, delta, domain, rfl, htc, hstart, hdelta, heq, rfl, hother, hstay⟩
  · refine ⟨by rw [hzero]; decide, fun hno hbig => ?_⟩
    have hlittle := initialDomain_unpinned m.toConfig comm hmode (hpin ▸ hno)
    rw [hdom, hlittle] at hbig
    exact absurd hbig (by decide)
  · rw [slicesBy_of_ne hnone, hdom, hpin, hewma]
    exact ⟨h.small tc htc, h.bound tc htc⟩
  · have hsmall := h.small tc htc
    have hdelta' : delta.toNat < 2 ^ 62 :=
      hshort ⟨p, domOfCpu m.toConfig cpu, delta⟩ (by simp [heq])
    have hby : slicesBy p (slicesOf m s (.stopping p now cpu)) = 1 := by simp [heq, slicesBy]
    have hupdate := update_div tc.execEwmaNs delta hsmall hdelta'
    refine ⟨?_, fun hpin hbig => ?_⟩
    · simp only [TaskCtx.credit, hupdate]
      omega
    · change tc.commPinned = false at hpin
      change domain = .big at hbig
      rw [adapts_iff hmode hpin hstart hdelta] at hother hstay
      rw [hby]
      change dwellBound m.bigSliceThreshNs (k + 1) ≤ ((tc.execEwmaNs * 3 + delta) / 4).toNat
      by_cases hcross : crosses m.bigSliceThreshNs tc.domain ((tc.execEwmaNs * 3 + delta) / 4)
      · -- It comes to BIG, from above the threshold.
        rcases hcross with ⟨hlittle, hup⟩ | ⟨hold, hdown⟩
        · have := dwellBound_le m.bigSliceThreshNs (k + 1)
          have := UInt64.lt_iff_toNat_lt.mp hup
          omega
        · have := hother (Or.inr ⟨hold, hdown⟩)
          rw [hold, hbig] at this
          exact absurd this (by decide)
      · have hold : tc.domain = .big := (hstay hcross).symm.trans hbig
        exact dwellBound_update hsmall hdelta' (h.bound tc htc hpin hold)

/-- `stopping` of `p` moves it from `d` to the other domain. -/
def Moves (m : Machine T) (s : Sched T) (p : T) (now : UInt64) (cpu : Nat) (d : Dom) : Prop :=
  ctxDom s p = some d ∧ ctxDom (blsStopping m p now cpu s) p = some d.other

theorem moves_iff {m : Machine T} {s : Sched T} {p : T} {now : UInt64} {cpu : Nat} {d : Dom} :
    Moves m s p now cpu d ↔
      ∃ tc, s.taskCtx p = some tc ∧ tc.domain = d ∧ adapts m.toConfig tc now := by
  unfold Moves ctxDom
  cases htc : s.taskCtx p with
  | none => simp
  | some tc =>
    obtain ⟨tc', htc', -, hother, hstay⟩ := blsStopping_ctx m p now cpu s tc htc
    simp only [htc', Option.map_some, Option.some.injEq, exists_eq_left']
    constructor
    · rintro ⟨rfl, hmoved⟩
      refine ⟨rfl, Classical.by_contradiction fun hno => ?_⟩
      rw [hstay hno] at hmoved
      exact absurd hmoved.symm (Dom.other_ne _)
    · rintro ⟨rfl, ha⟩
      exact ⟨rfl, hother ha⟩

/-- A promotion starts a dwell. -/
theorem dwells_of_promoted {m : Machine T} {s : Sched T} {p : T} {now : UInt64} {cpu : Nat}
    (hsmall : ∀ tc, (blsStopping m p now cpu s).taskCtx p = some tc →
      tc.execEwmaNs.toNat < 2 ^ 62) (h : Moves m s p now cpu .little) :
    Dwells m p (blsStopping m p now cpu s) 0 := by
  obtain ⟨tc, htc, hlittle, ha⟩ := moves_iff.mp h
  refine ⟨hsmall, fun tc' htc' _ _ => ?_⟩
  have hctx := congrArg (fun u => u.taskCtx p) (blsStopping_adapts m p now cpu s tc htc ha)
  obtain rfl := Option.some.inj (htc'.symm.trans (hctx.trans (Function.update_self ..)))
  rcases ha.2.2.2 with ⟨-, hup⟩ | ⟨hbig, -⟩
  · exact UInt64.lt_iff_toNat_lt.mp hup
  · rw [hlittle] at hbig
    exact absurd hbig (by decide)

/-- A task does not leave BIG while its dwell lasts. -/
theorem Dwells.not_demoted {m : Machine T} {s : Sched T} {p : T} {k : Nat} (h : Dwells m p s k)
    (hk : k < 2) {now : UInt64} {cpu : Nat}
    (hshort : ShortSlices m s (.stopping p now cpu)) : ¬ Moves m s p now cpu .big := by
  intro hmoves
  obtain ⟨tc, htc, hbig, hstart, hpin, -, hcross⟩ := moves_iff.mp hmoves
  have hslice : sliceOf s p now = some (now - tc.startedAt) :=
    sliceOf_eq_some.mpr ⟨tc, htc, hstart, rfl⟩
  have hdelta : (now - tc.startedAt).toNat < 2 ^ 62 :=
    hshort ⟨p, domOfCpu m.toConfig cpu, now - tc.startedAt⟩ (by simp [slicesOf, hslice])
  have hbound := dwellBound_update (h.small tc htc) hdelta (h.bound tc htc hpin hbig)
  have hhalf := half_le_dwellBound m.bigSliceThreshNs (k := k + 1) (by omega)
  rcases hcross with ⟨hlittle, -⟩ | ⟨-, hdown⟩
  · rw [hlittle] at hbig
    exact absurd hbig (by decide)
  · have hlt := UInt64.lt_iff_toNat_lt.mp hdown
    have hdiv : (m.bigSliceThreshNs / 2).toNat = m.bigSliceThreshNs.toNat / 2 :=
      UInt64.toNat_div ..
    omega

-- A slice of 6 ms promotes task 1 on two cores.
def promotion : List (Call Nat) := [.initTask 1 none true, .running 1 1]

-- Two empty slices and the start of a third.
def decay : List (Call Nat) :=
  [.running 1 1, .stopping 1 1 0, .running 1 1, .stopping 1 1 0, .running 1 1]

/-- The third slice can demote the task. -/
theorem third_demotes :
    ∃ s t, run (call (pairMachine .adaptive false)) (Sched.start fun _ => false) promotion =
        some s ∧
      Moves (pairMachine .adaptive false) s 1 6000005 0 .little ∧
      run (call (pairMachine .adaptive false))
        (blsStopping (pairMachine .adaptive false) 1 6000005 0 s) decay = some t ∧
      slicesBy 1 (slices (pairMachine .adaptive false)
        (blsStopping (pairMachine .adaptive false) 1 6000005 0 s) decay) = 2 ∧
      Moves (pairMachine .adaptive false) t 1 1 0 .big := by
  refine ⟨_, _, rfl, ?_, rfl, ?_, ?_⟩
  · unfold Moves
    decide
  · decide
  · unfold Moves
    decide

/-- **The hysteresis holds and dwells.** An unpinned task is on the right side of the threshold,
its average never passes its longest slice nor overflows, and after a promotion it stays in
BIG for two more slices at least, and sometimes for no more than two. -/
theorem hysteresis_dwells (m : Machine T)
    (hmode : m.classifyMode = .adaptive ∨ m.classifyMode = .hybrid) (idle : Nat → Bool)
    (es : List (Call T)) (s : Sched T)
    (hshort : StepsMeet (call m) (ShortSlices m) (Sched.start idle) es)
    (hrun : run (call m) (Sched.start idle) es = some s) :
    (∀ p tc, s.taskCtx p = some tc →
      (tc.commPinned = false →
        (tc.domain = .little → tc.execEwmaNs ≤ m.bigSliceThreshNs) ∧
        (tc.domain = .big → m.bigSliceThreshNs / 2 ≤ tc.execEwmaNs)) ∧
      (tc.execEwmaNs = 0 ∨
        ∃ x ∈ slices m (Sched.start idle) es, x.task = p ∧ tc.execEwmaNs ≤ x.delta) ∧
      ∀ now delta, sliceOf s p now = some delta → delta.toNat < 2 ^ 62 →
        (tc.execEwmaNs * 3 + delta).toNat = tc.execEwmaNs.toNat * 3 + delta.toNat) ∧
    (∀ p now cpu es' t now' cpu', Moves m s p now cpu .little →
      ShortSlices m s (.stopping p now cpu) →
      StepsMeet (call m) (ShortSlices m) (blsStopping m p now cpu s) es' →
      run (call m) (blsStopping m p now cpu s) es' = some t →
      slicesBy p (slices m (blsStopping m p now cpu s) es') < 2 →
      ShortSlices m t (.stopping p now' cpu') → ¬ Moves m t p now' cpu' .big) ∧
    (∃ s t, run (call (pairMachine .adaptive false)) (Sched.start fun _ => false) promotion =
        some s ∧
      Moves (pairMachine .adaptive false) s 1 6000005 0 .little ∧
      run (call (pairMachine .adaptive false))
        (blsStopping (pairMachine .adaptive false) 1 6000005 0 s) decay = some t ∧
      slicesBy 1 (slices (pairMachine .adaptive false)
        (blsStopping (pairMachine .adaptive false) 1 6000005 0 s) decay) = 2 ∧
      Moves (pairMachine .adaptive false) t 1 1 0 .big) := by
  have hrated := rated_run hmode hshort hrun
  refine ⟨?_, ?_, third_demotes⟩
  · intro p tc htc
    have h := hrated.2 p tc htc
    have hsmall := h.lt hrated.1
    exact ⟨fun hpin => ⟨h.little hpin, h.big hpin⟩, h.seen,
      fun _ delta _ hdelta => update_lt tc.execEwmaNs delta hsmall hdelta⟩
  · intro p now cpu es' t now' cpu' hmoves hpromote hshort' hrun' hcount hlast
    have hnext := rated_call hmode hrated hpromote rfl
    have hdwells := dwells_of_promoted (fun tc htc => (hnext.2 p tc htc).lt hnext.1) hmoves
    have hlater := inv_trace (o := slicesOf m) (l := [])
      (J := fun s l => Dwells m p s (slicesBy p l)) ?_ es' hdwells hshort' hrun'
    · exact hlater.not_demoted hcount hlast
    · intro s e t l h hshort hcall
      have hstep := dwells_call hmode h hshort hcall
      unfold slicesBy at hstep ⊢
      rwa [List.filter_append, List.length_append]

/-- On two cores: before the promotion, and one slice after it. -/
theorem hysteresis_dwells_pair :
    ∃ s t, run (call (pairMachine .adaptive false)) (Sched.start fun _ => false) promotion =
        some s ∧
      run (call (pairMachine .adaptive false))
        (blsStopping (pairMachine .adaptive false) 1 6000005 0 s) (decay.take 3) = some t ∧
      (∀ tc, s.taskCtx 1 = some tc → tc.commPinned = false → tc.domain = .little →
        tc.execEwmaNs ≤ 1500000) ∧
      ¬ Moves (pairMachine .adaptive false) t 1 1 0 .big := by
  refine ⟨_, _, rfl, rfl, ?_, ?_⟩
  · intro tc htc hpin
    exact (((hysteresis_dwells (pairMachine .adaptive false) (Or.inl rfl) _ promotion _
      (by decide) rfl).1 1 tc htc).1 hpin).1
  · apply (hysteresis_dwells (pairMachine .adaptive false) (Or.inl rfl) (fun _ => false) promotion
      _ (by decide) rfl).2.1 1 6000005 0 (decay.take 3) _ 1 0 ?_ (by decide) (by decide) rfl
      (by decide) (by decide)
    unfold Moves
    decide

end FakeBigLittle
