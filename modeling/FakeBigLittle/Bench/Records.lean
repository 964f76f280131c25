import FakeBigLittle.Bench.Collect
import FakeBigLittle.Json.Braces

/-!
# Records behind each other

Two tools write to one pipe. Each record is a line of its own, unless the one before it was cut
off.
-/

namespace FakeBigLittle

open CString
open Json (Value Reads Named IsObject members array)

namespace Bench

/-! ## Lines -/

section Lines

variable {t : Text}

theorem feed_behind (lines : List Text) (u : Text) (s : Lines) :
    u.foldl Lines.feed { s with lines := lines ++ s.lines } =
      { u.foldl Lines.feed s with lines := lines ++ (u.foldl Lines.feed s).lines } := by
  induction u generalizing s with
  | nil => rfl
  | cons c u ih =>
    have hstep : Lines.feed { s with lines := lines ++ s.lines } c =
        { s.feed c with lines := lines ++ (s.feed c).lines } := by
      unfold Lines.feed
      split_ifs
      · rfl
      · simp [List.append_assoc]
      · rfl
    rw [List.foldl_cons, List.foldl_cons, hstep, ih]

theorem splitlines_cons (h : ∀ c ∈ t, isBreak c = false) (hne : t ≠ []) (u : Text) :
    splitlines (t ++ '\n' :: u) = t :: splitlines u := by
  have hfeed : feedAll (t ++ '\n' :: u) = u.foldl Lines.feed ⟨[t] ++ [], [], false⟩ := by
    unfold feedAll
    rw [List.foldl_append, feed_line h hne]
    rfl
  have hbehind := feed_behind [t] u ⟨[], [], false⟩
  unfold splitlines
  rw [hfeed, hbehind]
  unfold Lines.all feedAll
  split_ifs <;> simp

theorem collectJson_cons (h : ∀ c ∈ t, isBreak c = false) (hne : t ≠ []) (u : Text) :
    collectJson (t ++ '\n' :: u) = (readLine t).toList ++ collectJson u := by
  unfold collectJson
  rw [splitlines_cons h hne, List.filterMap_cons]
  cases readLine t <;> rfl

theorem feedAll_cr (t : Text) : (feedAll t).cr = true → (feedAll t).cur = [] := by
  have hfeed : ∀ (s : Lines) (c : Char), (s.cr = true → s.cur = []) →
      (s.feed c).cr = true → (s.feed c).cur = [] := by
    intro s c h
    unfold Lines.feed
    split_ifs
    · simp
    · exact fun _ => rfl
    · simp
  induction t using List.reverseRecOn with
  | nil => exact fun _ => rfl
  | append_singleton t c ih =>
    unfold feedAll at ih ⊢
    rw [List.foldl_append]
    exact hfeed _ c ih

/-- What stands before a new line is collected by itself. -/
theorem collectJson_newline (pre u : Text) :
    collectJson (pre ++ '\n' :: u) = collectJson pre ++ collectJson u := by
  have hempty : readLine [] = none := rfl
  have hlines : ∃ lines, (feedAll pre).feed '\n' = ⟨lines, [], false⟩ ∧
      lines.filterMap readLine = collectJson pre := by
    unfold collectJson splitlines Lines.all
    by_cases hcr : (feedAll pre).cr = true
    · have hcur := feedAll_cr pre hcr
      refine ⟨(feedAll pre).lines, ?_, by rw [if_pos hcur]⟩
      unfold Lines.feed
      rw [if_pos ⟨rfl, hcr⟩, hcur]
    · refine ⟨(feedAll pre).lines ++ [(feedAll pre).cur], ?_, ?_⟩
      · unfold Lines.feed
        rw [if_neg fun h => hcr h.2, if_pos (by decide)]
        rfl
      · split_ifs with hcur
        · rw [hcur, List.filterMap_append]
          simp [hempty]
        · rfl
  obtain ⟨lines, hfeed, hmap⟩ := hlines
  have hall : feedAll (pre ++ '\n' :: u) =
      { feedAll u with lines := lines ++ (feedAll u).lines } := by
    have hbehind := feed_behind lines u ⟨[], [], false⟩
    rw [List.append_nil] at hbehind
    unfold feedAll at hfeed ⊢
    rw [List.foldl_append, List.foldl_cons, hfeed, hbehind]
  have hsplit : splitlines (pre ++ '\n' :: u) = lines ++ splitlines u := by
    unfold splitlines Lines.all
    rw [hall]
    simp only
    split_ifs <;> simp
  rw [← hmap]
  unfold collectJson
  rw [hsplit, List.filterMap_append]

/-- What is between braces is read as it is. -/
theorem readLine_braces (t : Text) :
    readLine ('{' :: (t ++ ['}'])) = Json.loads ('{' :: (t ++ ['}'])) := by
  have hstrip : strip ('{' :: (t ++ ['}'])) = '{' :: (t ++ ['}']) :=
    strip_append [] (show isSpaceChar '{' = false from rfl) t
      (show isSpaceChar '}' = false from rfl)
  have hlast : ('{' :: (t ++ ['}'])).getLast? = some '}' := by
    rw [← List.cons_append, List.getLast?_concat]
  unfold readLine
  simp only [hstrip, hlast, List.head?_cons, and_self, if_true]

theorem readLine_none {u : Text} (h : ¬IsObject (readLine ('{' :: (u ++ ['}'])))) :
    readLine ('{' :: (u ++ ['}'])) = none := by
  rw [readLine_braces] at h ⊢
  by_contra hne
  obtain ⟨v, hv⟩ := Option.ne_none_iff_exists'.mp hne
  obtain ⟨ms, rfl⟩ := Json.loads_brace hv
  exact h ⟨ms, hv⟩

end Lines

/-! ## The line of a record -/

/-- A record without the end of its line. -/
def recordLine (label : Text) (fields : List (Text × Text)) : Text :=
  opening ++ label ++ '"' :: members fields

theorem record_eq (label : Text) (fields : List (Text × Text)) :
    record label fields = recordLine label fields ++ ['\n'] := by
  unfold record recordLine
  simp

section Record

variable {label : Text} {fields : List (Text × Text)}

theorem object_printable (hkeys : ∀ f ∈ fields, Printf.isKey f.1 = true)
    (hslots : ∀ f ∈ fields, Printf.Slot f.2) :
    (Json.object fields).all Printf.printable = true := by
  have hall := members_printable hkeys hslots
  cases fields with
  | nil => rfl
  | cons f fields =>
    have hbehind : '"' :: members (f :: fields) =
        ['"', ','] ++ (Json.field f ++ members fields) := by
      simp [members]
    rw [hbehind, List.all_append, Bool.and_eq_true] at hall
    rw [Json.object, List.all_cons, hall.2]
    rfl

/-- A record opens with the quotation mark of a key, and closes with a brace. -/
theorem recordLine_braces (label : Text) (fields : List (Text × Text)) :
    ∃ t, recordLine label fields = '{' :: '"' :: 'l' :: (t ++ ['}']) := by
  refine ⟨"abel\":\"".toList ++ label ++ '"' :: fields.flatMap (fun f => ',' :: Json.field f), ?_⟩
  unfold recordLine opening members
  simp

theorem recordLine_noBreak (hlabel : label.all Printf.printable = true)
    (hkeys : ∀ f ∈ fields, Printf.isKey f.1 = true) (hslots : ∀ f ∈ fields, Printf.Slot f.2) :
    ∀ c ∈ recordLine label fields, isBreak c = false := by
  intro c hc
  apply isBreak_printable
  have hall : (recordLine label fields).all Printf.printable = true := by
    unfold recordLine
    rw [List.all_append, List.all_append, hlabel, members_printable hkeys hslots]
    rfl
  exact List.all_eq_true.mp hall c hc

theorem run_label (h : label.all Json.plain = true) (fields : List (Text × Text))
    (stack : List Json.Frame) :
    Json.run ⟨.value, stack⟩ (recordLine label fields) =
      Json.run ⟨.after, .obj [("label".toList, .str label)] :: stack⟩ (members fields) := by
  unfold recordLine
  rw [Json.run_append, run_opening h, Json.run_cons]
  rfl

/-- What a record is read as where it stands, and by which keys. -/
theorem run_record (h : label.all Json.plain = true) (hkeys : ∀ f ∈ fields, Printf.isKey f.1 = true)
    (hread : ∀ f ∈ fields, ∃ v, Reads f.2 v) :
    ∃ ms, ms.map Prod.fst = "label".toList :: fields.map Prod.fst ∧
      ∀ stack, Json.run ⟨.value, stack⟩ (recordLine label fields) = Json.give (.obj ms) stack := by
  obtain ⟨ms, hms, hrun⟩ := Json.run_members_some (fun f hf => Printf.isKey_named (hkeys f hf))
    hread [("label".toList, Value.str label)]
  exact ⟨ms, hms, fun stack => (run_label h fields stack).trans (hrun stack)⟩

theorem readLine_record {v : Value}
    (h : Json.run ⟨.value, []⟩ (recordLine label fields) = Json.give v []) :
    readLine (recordLine label fields) = some v := by
  obtain ⟨t, ht⟩ := recordLine_braces label fields
  have hline : recordLine label fields = '{' :: (('"' :: 'l' :: t) ++ ['}']) := ht
  rw [hline, readLine_braces, ← hline]
  unfold Json.loads
  rw [h]
  rfl

theorem recordLine_ne_nil (label : Text) (fields : List (Text × Text)) :
    recordLine label fields ≠ [] := by
  obtain ⟨t, ht⟩ := recordLine_braces label fields
  rw [ht]
  exact List.cons_ne_nil _ _

/-- A record takes up the first line. -/
theorem collectJson_append (hlabel : label.all Printf.printable = true)
    (hkeys : ∀ f ∈ fields, Printf.isKey f.1 = true) (hslots : ∀ f ∈ fields, Printf.Slot f.2)
    {v : Option Value} (hread : readLine (recordLine label fields) = v) (u : Text) :
    collectJson (record label fields ++ u) = v.toList ++ collectJson u := by
  rw [record_eq, List.append_assoc, List.singleton_append,
    collectJson_cons (recordLine_noBreak hlabel hkeys hslots) (recordLine_ne_nil label fields),
    hread]

theorem collectJson_single (hlabel : label.all Printf.printable = true)
    (hkeys : ∀ f ∈ fields, Printf.isKey f.1 = true) (hslots : ∀ f ∈ fields, Printf.Slot f.2)
    {v : Option Value} (hread : readLine (recordLine label fields) = v) :
    collectJson (record label fields) = v.toList := by
  have happend := collectJson_append hlabel hkeys hslots hread []
  rwa [List.append_nil, show collectJson [] = [] from rfl, List.append_nil] at happend

/-- The line of a record holds the record, if all of its members are read. -/
theorem collectJson_record (h : label.all Json.plain = true)
    (hlabel : label.all Printf.printable = true) (hkeys : ∀ f ∈ fields, Printf.isKey f.1 = true)
    (hslots : ∀ f ∈ fields, Printf.Slot f.2) (hread : ∀ f ∈ fields, ∃ v, Reads f.2 v) :
    ∃ ms, ms.map Prod.fst = "label".toList :: fields.map Prod.fst ∧
      collectJson (record label fields) = [.obj ms] := by
  obtain ⟨ms, hms, hrun⟩ := run_record h hkeys hread
  exact ⟨ms, hms, collectJson_single hlabel hkeys hslots (readLine_record (hrun []))⟩

/-- A line that ends in a record with a member that is not read. -/
theorem readLine_unread (hne : fields ≠ []) (hkeys : ∀ f ∈ fields, Printf.isKey f.1 = true)
    (hslots : ∀ f ∈ fields, Printf.Slot f.2) (hbad : ¬∀ f ∈ fields, ∃ v, Reads f.2 v)
    (pre : Text) : ¬IsObject (readLine (pre ++ recordLine label fields)) := by
  unfold recordLine
  rw [← List.append_assoc, ← List.append_assoc, readLine_members hne hkeys hslots]
  exact fun h => hbad h.2

/-- **A record is lost with what was cut off before it**, and with a member that is not read. -/
theorem readLine_lost (h : label.all Json.plain = true) (hne : fields ≠ [])
    (hkeys : ∀ f ∈ fields, Printf.isKey f.1 = true) (hslots : ∀ f ∈ fields, Printf.Slot f.2)
    (pre : Text) :
    readLine ('{' :: (pre ++ recordLine label fields)) = none := by
  obtain ⟨t, ht⟩ := recordLine_braces label fields
  have hline : '{' :: (pre ++ recordLine label fields) =
      '{' :: ((pre ++ '{' :: '"' :: 'l' :: t) ++ ['}']) := by
    rw [ht]
    simp
  have hnot : ¬IsObject (readLine ('{' :: (pre ++ recordLine label fields))) := by
    by_cases hread : ∀ f ∈ fields, ∃ v, Reads f.2 v
    · obtain ⟨ms, -, hrun⟩ := run_record h hkeys hread
      rw [hline, readLine_braces, ← hline, ht]
      refine Json.cut_off (by decide) fun stack => ⟨.obj ms, ?_⟩
      rw [← ht]
      exact hrun stack
    · rw [← List.cons_append]
      exact readLine_unread hne hkeys hslots hread _
  rw [hline] at hnot ⊢
  exact readLine_none hnot

theorem collectJson_unread (hlabel : label.all Printf.printable = true) (hne : fields ≠ [])
    (hkeys : ∀ f ∈ fields, Printf.isKey f.1 = true) (hslots : ∀ f ∈ fields, Printf.Slot f.2)
    (hbad : ¬∀ f ∈ fields, ∃ v, Reads f.2 v) : collectJson (record label fields) = [] := by
  obtain ⟨t, ht⟩ := recordLine_braces label fields
  have hline : recordLine label fields = '{' :: (('"' :: 'l' :: t) ++ ['}']) := ht
  have hnot : ¬IsObject (readLine ([] ++ recordLine label fields)) :=
    readLine_unread hne hkeys hslots hbad []
  have hnone : readLine (recordLine label fields) = none := by
    rw [List.nil_append, hline] at hnot
    rw [hline]
    exact readLine_none hnot
  exact collectJson_single hlabel hkeys hslots hnone

theorem collectJson_lost (h : label.all Json.plain = true)
    (hlabel : label.all Printf.printable = true) (hne : fields ≠ [])
    (hkeys : ∀ f ∈ fields, Printf.isKey f.1 = true) (hslots : ∀ f ∈ fields, Printf.Slot f.2)
    {pre : Text} (hpre : ∀ c ∈ '{' :: pre, isBreak c = false) :
    collectJson ('{' :: pre ++ record label fields) = [] := by
  have hbreak : ∀ c ∈ '{' :: (pre ++ recordLine label fields), isBreak c = false := by
    rw [← List.cons_append]
    exact List.forall_mem_append.mpr ⟨hpre, recordLine_noBreak hlabel hkeys hslots⟩
  rw [record_eq, ← List.append_assoc, List.cons_append,
    collectJson_cons hbreak (List.cons_ne_nil _ _), readLine_lost h hne hkeys hslots]
  rfl

end Record

end Bench

end FakeBigLittle
