import FakeBigLittle.Json.Proofs

/-!
# Behind an opening brace

A text that opens with a brace is an object or nothing, and what is appended to one that was cut
off is lost with it.
-/

namespace Json

/-- The outermost container, if there is one, is an object. -/
def Bottom (stack : List Frame) : Prop := ∀ f, stack.getLast? = some f → ∃ ms, f = .obj ms

/-- An object is read: it is open until its end. -/
structure Under (s : State) : Prop where
  bottom : Bottom s.stack
  closed : s.stack = [] → (∃ v, s.mode = .done v) ∨ s.mode = .fail
  done : ∀ v, s.mode = .done v → ∃ ms, v = .obj ms
  element : s.mode = .element → s.stack.tail ≠ []

section Steps

variable {s t : State} {stack : List Frame} {f : Frame} {v : Value}

theorem bottom_cons (hne : stack ≠ []) : (f :: stack).getLast? = stack.getLast? := by
  obtain ⟨g, stack, rfl⟩ := List.exists_cons_of_ne_nil hne
  exact List.getLast?_cons_cons

theorem Bottom.push (h : Bottom stack) (hne : stack ≠ []) (f : Frame) : Bottom (f :: stack) := by
  unfold Bottom
  rwa [bottom_cons hne]

theorem Bottom.pop (h : Bottom (f :: stack)) : Bottom stack := by
  intro g hg
  have hne : stack ≠ [] := by
    rintro rfl
    simp at hg
  exact h g (by rw [bottom_cons hne, hg])

theorem Bottom.obj (h : Bottom stack) (ms : List (Text × Value)) : Bottom (.obj ms :: stack) := by
  by_cases hne : stack = []
  · subst hne
    intro g hg
    exact ⟨ms, (Option.some.inj hg).symm⟩
  · exact h.push hne _

theorem Bottom.arr {values : List Value} (h : Bottom (.arr values :: stack)) : stack ≠ [] := by
  rintro rfl
  obtain ⟨ms, hms⟩ := h _ rfl
  exact Frame.noConfusion hms

theorem Bottom.key {k : Text} (h : Bottom (.key k :: stack)) : stack ≠ [] := by
  rintro rfl
  obtain ⟨ms, hms⟩ := h _ rfl
  exact Frame.noConfusion hms

theorem under_fail (h : Bottom stack) : Under ⟨.fail, stack⟩ :=
  ⟨h, fun _ => Or.inr rfl, fun _ hdone => Mode.noConfusion hdone, fun hel => Mode.noConfusion hel⟩

/-- Where a container is open, nothing else is asked of most modes. -/
theorem Bottom.under {mode : Mode} (h : Bottom stack) (hne : stack ≠ [])
    (hmode : (∀ v, mode ≠ .done v) ∧ mode ≠ .element) : Under ⟨mode, stack⟩ :=
  ⟨h, fun hnil => absurd hnil hne, fun v hv => absurd hv (hmode.1 v), fun h => absurd h hmode.2⟩

theorem under_ite {p : Prop} [Decidable p] (hs : Under s) (ht : Under t) :
    Under (if p then s else t) := by
  split_ifs
  · exact hs
  · exact ht

theorem under_give (h : Bottom stack) (hv : stack = [] → ∃ ms, v = .obj ms) :
    Under (give v stack) := by
  unfold give
  split
  · obtain ⟨ms, rfl⟩ := hv rfl
    exact ⟨h, fun _ => Or.inl ⟨_, rfl⟩, fun w hw => ⟨ms, (Mode.done.inj hw).symm⟩,
      fun hel => Mode.noConfusion hel⟩
  · exact (h.pop.push h.arr _).under (List.cons_ne_nil _ _) (by simp)
  · exact (h.pop.pop.obj _).under (List.cons_ne_nil _ _) (by simp)
  · exact under_fail h

theorem under_close (h : Under s) (c : Char) : Under (close s c) := by
  unfold close
  split
  · have hne := h.bottom.arr
    refine under_ite (h.bottom.under (List.cons_ne_nil _ _) (by simp)) (under_ite ?_ ?_)
    · exact under_give h.bottom.pop fun hnil => absurd hnil hne
    · split_ifs
      · exact h
      · exact under_fail h.bottom
  · refine under_ite (h.bottom.under (List.cons_ne_nil _ _) (by simp)) (under_ite ?_ ?_)
    · exact under_give h.bottom.pop fun _ => ⟨_, rfl⟩
    · split_ifs
      · exact h
      · exact under_fail h.bottom
  · split_ifs
    · exact h
    · exact under_fail h.bottom
  · exact under_fail h.bottom

theorem under_start (h : Bottom stack) (hne : stack ≠ []) (c : Char) : Under (start stack c) := by
  have hsame : ∀ mode : Mode, (∀ v, mode ≠ .done v) ∧ mode ≠ .element → Under ⟨mode, stack⟩ :=
    fun mode hmode => h.under hne hmode
  have harray : Under ⟨.element, .arr [] :: stack⟩ :=
    ⟨h.push hne _, fun hnil => absurd hnil (List.cons_ne_nil _ _),
      fun _ hdone => Mode.noConfusion hdone, fun _ => hne⟩
  unfold start
  refine under_ite (hsame _ (by simp)) ?_
  refine under_ite ((h.obj []).under (List.cons_ne_nil _ _) (by simp)) ?_
  refine under_ite harray ?_
  refine under_ite (hsame _ (by simp)) (under_ite (hsame _ (by simp)) ?_)
  refine under_ite (hsame _ (by simp)) (under_ite (hsame _ (by simp)) ?_)
  refine under_ite (hsame _ (by simp)) (under_ite (hsame _ (by simp)) ?_)
  refine under_ite (hsame _ (by simp)) (under_ite (hsame _ (by simp)) ?_)
  exact under_fail h

theorem Under.ne_nil (h : Under s) (hmode : (∀ v, s.mode ≠ .done v) ∧ s.mode ≠ .fail) :
    s.stack ≠ [] := by
  intro hnil
  rcases h.closed hnil with ⟨v, hv⟩ | hfail
  · exact hmode.1 v hv
  · exact hmode.2 hfail

theorem under_step (h : Under s) (c : Char) : Under (step s c) := by
  obtain ⟨mode, stack⟩ := s
  have hbottom : Bottom stack := h.bottom
  cases mode with
  | value => exact under_ite h (under_start hbottom (h.ne_nil (by simp)) c)
  | element =>
    have hne : stack ≠ [] := h.ne_nil (by simp)
    have htail : stack.tail ≠ [] := h.element rfl
    obtain ⟨f, stack, rfl⟩ := List.exists_cons_of_ne_nil hne
    exact under_ite h (under_ite (under_give hbottom.pop fun hnil => absurd hnil htail)
      (under_start hbottom hne c))
  | member first =>
    have hne : stack ≠ [] := h.ne_nil (by simp)
    obtain ⟨f, stack, rfl⟩ := List.exists_cons_of_ne_nil hne
    refine under_ite h (under_ite (hbottom.under hne (by simp)) ?_)
    exact under_ite (under_give hbottom.pop fun _ => ⟨[], rfl⟩) (under_fail hbottom)
  | str key escape text =>
    have hne : stack ≠ [] := h.ne_nil (by simp)
    refine under_ite (under_ite ?_ ?_) ?_
    · exact (hbottom.push hne _).under (List.cons_ne_nil _ _) (by simp)
    · exact under_give hbottom fun hnil => absurd hnil hne
    · cases escape.next c with
      | none => exact under_fail hbottom
      | some escape => exact hbottom.under hne (by simp)
  | colon =>
    have hne : stack ≠ [] := h.ne_nil (by simp)
    refine under_ite h (hbottom.under hne ?_)
    split_ifs <;> simp
  | num n text =>
    have hne : stack ≠ [] := h.ne_nil (by simp)
    cases hn : n.next c with
    | some m =>
      simp only [step, hn]
      exact hbottom.under hne (by simp)
    | none =>
      simp only [step, hn]
      refine under_ite (hbottom.under hne (by simp)) (under_ite ?_ (under_fail hbottom))
      exact under_close (under_give hbottom fun hnil => absurd hnil hne) c
  | word w seen =>
    have hne : stack ≠ [] := h.ne_nil (by simp)
    refine under_ite (under_fail hbottom) (under_ite ?_ (hbottom.under hne (by simp)))
    exact under_give hbottom fun hnil => absurd hnil hne
  | after => exact under_close h c
  | done v => exact under_close h c
  | fail => exact under_close h c

theorem under_run (h : Under s) (t : Text) : Under (run s t) := by
  induction t generalizing s with
  | nil => exact h
  | cons c t ih => exact ih (under_step h c)

theorem under_brace : Under (step ⟨.value, []⟩ '{') := by
  have hbottom : Bottom [] := fun f hf => by simp at hf
  exact (hbottom.obj []).under (List.cons_ne_nil _ _) (by simp)

end Steps

/-- **A text in braces is an object.** -/
theorem loads_brace {t : Text} {v : Value} (h : loads ('{' :: t) = some v) : ∃ ms, v = .obj ms := by
  have hunder : Under (run ⟨.value, []⟩ ('{' :: t)) := under_run under_brace t
  unfold loads at h
  unfold finish at h
  split at h
  · rename_i w stack hw
    obtain rfl := Option.some.inj h
    rw [hw] at hunder
    exact hunder.done _ rfl
  · rename_i n text hn
    rw [hn] at hunder
    exact absurd rfl (hunder.ne_nil (by simp))
  · simp at h

/-! ## Behind a text that was cut off -/

section Cut

variable {s : State} {c : Char} {rest : Text}

/-- The beginning of an object has no place but that of a value. -/
theorem object_fails (hvalue : s.mode ≠ .value) (helement : s.mode ≠ .element)
    (hc : c.isAlpha = true) (rest : Text) : (run s ('{' :: '"' :: c :: rest)).mode = .fail := by
  obtain ⟨hws, hcloses, hcolon⟩ := alpha_other hc
  obtain ⟨mode, stack⟩ := s
  have hfail : ∀ t : State, t.mode = .fail → (run t ('"' :: c :: rest)).mode = .fail :=
    fun t ht => run_fail ht _
  rw [run_cons]
  cases mode with
  | value => exact absurd rfl hvalue
  | element => exact absurd rfl helement
  | member first => exact hfail _ rfl
  | str key escape text =>
    cases escape with
    | plain =>
      rw [run_cons, run_cons]
      apply run_fail
      cases key with
      | true =>
        have hend : step (step ⟨.str true .plain text, stack⟩ '{') '"' =
            ⟨.colon, .key (text ++ ['{']) :: stack⟩ := rfl
        rw [hend]
        simp [step, hws, hcolon]
      | false =>
        have hend : step (step ⟨.str false .plain text, stack⟩ '{') '"' =
            give (.str (text ++ ['{'])) stack := rfl
        rw [hend, step_give]
        exact close_fail _ hcloses
    | slash => exact hfail _ rfl
    | hex left => exact hfail _ rfl
  | colon => exact hfail _ rfl
  | num n text =>
    have hnone : n.next '{' = none := by cases n <;> rfl
    apply hfail
    simp only [step, hnone]
    split_ifs
    · exact absurd ‹_ ∧ _›.2 (by decide)
    · exact close_fail _ rfl
    · rfl
  | word w seen =>
    have hbrace : w.text[seen]? ≠ some '{' := by
      have hletters : '{' ∉ w.text := by cases w <;> decide
      exact fun h => hletters (List.mem_of_getElem? h)
    apply hfail
    simp only [step, if_pos hbrace]
  | after => exact hfail _ (close_fail _ rfl)
  | done v => exact hfail _ (close_fail _ rfl)
  | fail => exact hfail _ rfl

/-- **What is appended to the beginning of an object is lost.** -/
theorem cut_off {t : Text} (hc : c.isAlpha = true)
    (hread : ∀ stack, ∃ v, run ⟨.value, stack⟩ ('{' :: '"' :: c :: rest) = give v stack) :
    ¬IsObject (loads ('{' :: (t ++ '{' :: '"' :: c :: rest))) := by
  have hunder : Under (run ⟨.value, []⟩ ('{' :: t)) := under_run under_brace t
  have hsplit : loads ('{' :: (t ++ '{' :: '"' :: c :: rest)) =
      finish (run (run ⟨.value, []⟩ ('{' :: t)) ('{' :: '"' :: c :: rest)) := by
    rw [← run_append, List.cons_append]
    rfl
  rw [hsplit]
  generalize run ⟨.value, []⟩ ('{' :: t) = s at hunder
  obtain ⟨mode, stack⟩ := s
  obtain ⟨v, hv⟩ := hread stack
  by_cases hvalue : mode = .value
  · subst hvalue
    rw [hv]
    exact fun hobject => hunder.ne_nil (by simp) (give_isObject hobject)
  · by_cases helement : mode = .element
    · subst helement
      have hstart : run ⟨.element, stack⟩ ('{' :: '"' :: c :: rest) =
          run ⟨.value, stack⟩ ('{' :: '"' :: c :: rest) := rfl
      rw [hstart, hv]
      exact fun hobject => hunder.ne_nil (by simp) (give_isObject hobject)
    · exact not_isObject_fail (object_fails hvalue helement hc rest) []

end Cut

end Json
