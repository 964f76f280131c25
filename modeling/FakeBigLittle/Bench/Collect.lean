import FakeBigLittle.CString
import FakeBigLittle.Json.Proofs
import FakeBigLittle.Printf
import Mathlib.Data.List.DropRight

/-!
# What the harness makes of an output

`collect_json` of `scripts/bench.py`: the JSON objects of a text, a line each. A line that is
not one is dropped.
-/

namespace FakeBigLittle

open CString
open Json hiding Text

namespace Bench

-- `str.isspace`
def isSpaceChar (c : Char) : Bool :=
  let n := c.toNat
  decide (9 ≤ n ∧ n ≤ 13) || decide (28 ≤ n ∧ n ≤ 32) || n == 0x85 || n == 0xa0 || n == 0x1680 ||
    decide (0x2000 ≤ n ∧ n ≤ 0x200a) || n == 0x2028 || n == 0x2029 || n == 0x202f ||
    n == 0x205f || n == 0x3000

-- where `str.splitlines` ends a line
def isBreak (c : Char) : Bool :=
  let n := c.toNat
  decide (10 ≤ n ∧ n ≤ 13) || decide (28 ≤ n ∧ n ≤ 30) || n == 0x85 || n == 0x2028 || n == 0x2029

def strip (t : Text) : Text := (t.dropWhile isSpaceChar).rdropWhile isSpaceChar

/-- The lines so far, and whether a carriage return ended the last one. -/
structure Lines where
  lines : List Text
  cur : Text
  cr : Bool

def Lines.feed (s : Lines) (c : Char) : Lines :=
  if c = '\n' ∧ s.cr then { s with cr := false }
  else if isBreak c then ⟨s.lines ++ [s.cur], [], c = '\r'⟩
  else ⟨s.lines, s.cur ++ [c], false⟩

def Lines.all (s : Lines) : List Text := if s.cur = [] then s.lines else s.lines ++ [s.cur]

def feedAll (t : Text) : Lines := t.foldl Lines.feed ⟨[], [], false⟩

def splitlines (t : Text) : List Text := (feedAll t).all

/-- A line of `collect_json`; `none` where it is dropped. -/
def readLine (line : Text) : Option Value :=
  let line := strip line
  if line.head? = some '{' ∧ line.getLast? = some '}' then loads line else none

def collectJson (text : Text) : List Value := (splitlines text).filterMap readLine

/-- Each line of the text is collected as an object. -/
def Kept (text : Text) : Prop :=
  (splitlines text).map readLine = (collectJson text).map some ∧
    ∀ v ∈ collectJson text, ∃ ms, v = .obj ms

theorem filterMap_kept {lines : List Text} :
    (lines.map readLine = (lines.filterMap readLine).map some ∧
      ∀ v ∈ lines.filterMap readLine, ∃ ms, v = .obj ms) ↔
      ∀ line ∈ lines, IsObject (readLine line) := by
  constructor
  · rintro ⟨hmap, hobjects⟩ line hline
    have hmem : readLine line ∈ (lines.filterMap readLine).map some := by
      rw [← hmap]
      exact List.mem_map_of_mem hline
    obtain ⟨v, hv, heq⟩ := List.mem_map.mp hmem
    obtain ⟨ms, rfl⟩ := hobjects v hv
    exact ⟨ms, heq.symm⟩
  · intro hall
    constructor
    · induction lines with
      | nil => rfl
      | cons line lines ih =>
        obtain ⟨⟨ms, hms⟩, hrest⟩ := List.forall_mem_cons.mp hall
        rw [List.map_cons, List.filterMap_cons_some hms, List.map_cons, hms, ih hrest]
    · intro v hv
      obtain ⟨line, hline, heq⟩ := List.mem_filterMap.mp hv
      obtain ⟨ms, hms⟩ := hall line hline
      exact ⟨ms, Option.some.inj (heq.symm.trans hms)⟩

theorem kept_iff (text : Text) : Kept text ↔ ∀ line ∈ splitlines text, IsObject (readLine line) :=
  filterMap_kept

/-! ## The last line -/

section LastLine

variable {t : Text} {s : Lines}

theorem feed_line (h : ∀ c ∈ t, isBreak c = false) (hne : t ≠ []) (s : Lines) :
    t.foldl Lines.feed s = ⟨s.lines, s.cur ++ t, false⟩ := by
  have hfeed : ∀ (s : Lines) (c : Char), isBreak c = false →
      s.feed c = ⟨s.lines, s.cur ++ [c], false⟩ := by
    intro s c hc
    have hnewline : c ≠ '\n' := by
      rintro rfl
      exact Bool.noConfusion hc
    unfold Lines.feed
    rw [if_neg fun hboth => hnewline hboth.1, if_neg (by simp [hc])]
  induction t generalizing s with
  | nil => exact absurd rfl hne
  | cons c t ih =>
    obtain ⟨hc, hrest⟩ := List.forall_mem_cons.mp h
    rw [List.foldl_cons, hfeed s c hc]
    by_cases hnil : t = []
    · rw [hnil]
      rfl
    · rw [ih hrest hnil, List.append_assoc, List.singleton_append]

theorem splitlines_append (pre : Text) (h : ∀ c ∈ t, isBreak c = false) (hne : t ≠ []) :
    splitlines (pre ++ t) = (feedAll pre).lines ++ [(feedAll pre).cur ++ t] := by
  have hcur : (feedAll pre).cur ++ t ≠ [] := by simp [hne]
  unfold splitlines Lines.all feedAll
  rw [List.foldl_append, feed_line h hne]
  exact if_neg hcur

theorem splitlines_newline (pre : Text) (h : ∀ c ∈ t, isBreak c = false) (hne : t ≠ []) :
    splitlines (pre ++ (t ++ ['\n'])) = (feedAll pre).lines ++ [(feedAll pre).cur ++ t] := by
  unfold splitlines feedAll
  rw [List.foldl_append, List.foldl_append, feed_line h hne]
  rfl

end LastLine

/-! ## A record -/

section Record

variable {t : Text} {fields : List (Text × Text)}

theorem isBreak_printable {c : Char} (h : Printf.printable c = true) : isBreak c = false := by
  simp only [Printf.printable, Bool.and_eq_true, decide_eq_true_eq] at h
  simp only [isBreak, Bool.or_eq_false_iff, decide_eq_false_iff_not, beq_eq_false_iff_ne]
  omega

/-- The white space before a line, but not what is behind it. -/
theorem strip_append (cur : Text) {c : Char} (hc : isSpaceChar c = false) (t : Text) {d : Char}
    (hd : isSpaceChar d = false) :
    strip (cur ++ c :: (t ++ [d])) = cur.dropWhile isSpaceChar ++ c :: (t ++ [d]) := by
  have hfront : ∀ cur : Text, (cur ++ c :: (t ++ [d])).dropWhile isSpaceChar =
      cur.dropWhile isSpaceChar ++ c :: (t ++ [d]) := by
    intro cur
    induction cur with
    | nil => simp [hc]
    | cons b cur ih =>
      rw [List.cons_append, List.dropWhile_cons, List.dropWhile_cons]
      split_ifs
      · exact ih
      · rfl
  have hback : cur.dropWhile isSpaceChar ++ c :: (t ++ [d]) =
      (cur.dropWhile isSpaceChar ++ c :: t) ++ [d] := by simp
  unfold strip
  rw [hfront, hback, List.rdropWhile_concat, if_neg (by simp [hd])]

/-- A line that ends in a quotation mark and what is behind it. -/
theorem readLine_append (cur t : Text) :
    readLine (cur ++ '"' :: (t ++ ['}'])) =
      if (cur.dropWhile isSpaceChar).head? = some '{' then
        finish (run (step (run ⟨.value, []⟩ (cur.dropWhile isSpaceChar)) '"') (t ++ ['}']))
      else none := by
  have hlast : (cur.dropWhile isSpaceChar ++ '"' :: (t ++ ['}'])).getLast? = some '}' := by
    rw [← List.cons_append, ← List.append_assoc, List.getLast?_concat]
  have hhead : (cur.dropWhile isSpaceChar ++ '"' :: (t ++ ['}'])).head? = some '{' ↔
      (cur.dropWhile isSpaceChar).head? = some '{' := by
    cases cur.dropWhile isSpaceChar with
    | nil => simp
    | cons c rest => simp
  unfold readLine
  simp only [strip_append cur (show isSpaceChar '"' = false from rfl) t
    (show isSpaceChar '}' = false from rfl), hlast, hhead, and_true]
  split_ifs
  · rw [loads, run_append, run_cons]
  · rfl

-- What stands before the label.
def opening : Text := '{' :: "\"label\":\"".toList

/-- A record of the tools, with what it has behind the label. -/
def record (label : Text) (fields : List (Text × Text)) : Text :=
  opening ++ label ++ '"' :: (members fields ++ ['\n'])

/-- The label on its own. -/
def labelOnly (label : Text) : Text := opening ++ label ++ ['"', '}']

/-- The label is the first member of what opens there. -/
theorem run_opening {label : Text} (h : label.all Json.plain = true) (stack : List Json.Frame) :
    run ⟨.value, stack⟩ (opening ++ label) =
      ⟨.str false .plain label, .key "label".toList :: .obj [] :: stack⟩ := by
  have hstart : run ⟨.value, stack⟩ opening =
      ⟨.str false .plain [], .key "label".toList :: .obj [] :: stack⟩ := rfl
  rw [run_append, hstart, run_plain h, List.nil_append]

theorem members_printable (hkeys : ∀ f ∈ fields, Printf.isKey f.1 = true)
    (hslots : ∀ f ∈ fields, Printf.Slot f.2) :
    ('"' :: members fields).all Printf.printable = true := by
  have hfields : fields.all (fun f => (',' :: field f).all Printf.printable) = true := by
    apply List.all_eq_true.mpr
    intro f hf
    rw [field, List.all_cons, List.all_cons, List.all_append, List.all_cons, List.all_cons,
      Printf.isKey_printable (hkeys f hf), (hslots f hf).printable]
    rfl
  unfold members
  rw [List.all_cons, List.all_append, List.all_flatMap, hfields]
  rfl

/-- The line that a record ends, whatever stands before its last quotation mark. -/
theorem readLine_members (hne : fields ≠ []) (hkeys : ∀ f ∈ fields, Printf.isKey f.1 = true)
    (hslots : ∀ f ∈ fields, Printf.Slot f.2) (line : Text) :
    IsObject (readLine (line ++ '"' :: members fields)) ↔
      IsObject (readLine (line ++ ['"', '}'])) ∧ ∀ f ∈ fields, ∃ v, Reads f.2 v := by
  have hrest := rest_isObject_iff hne (fun f hf => Printf.isKey_named (hkeys f hf))
    (fun f hf => (hslots f hf).judged) (run ⟨.value, []⟩ (line.dropWhile isSpaceChar))
  unfold members at hrest ⊢
  rw [readLine_append, show ['"', '}'] = '"' :: ([] ++ ['}']) from rfl, readLine_append]
  split_ifs
  · exact hrest
  · refine iff_of_false ?_ fun hboth => ?_
    · rintro ⟨ms, hms⟩
      simp at hms
    · obtain ⟨ms, hms⟩ := hboth.1
      simp at hms

/-- **A record is kept if its label is and each of its members is read.** -/
theorem record_kept_iff (label : Text) (hne : fields ≠ [])
    (hkeys : ∀ f ∈ fields, Printf.isKey f.1 = true)
    (hslots : ∀ f ∈ fields, Printf.Slot f.2) :
    Kept (record label fields) ↔
      Kept (labelOnly label) ∧ ∀ f ∈ fields, ∃ v, Reads f.2 v := by
  have hmembers : ∀ c ∈ '"' :: members fields, isBreak c = false := fun c hc =>
    isBreak_printable (List.all_eq_true.mp (members_printable hkeys hslots) c hc)
  have hend : ∀ c ∈ ['"', '}'], isBreak c = false := by
    simp only [List.forall_mem_cons]
    exact ⟨rfl, rfl, List.forall_mem_nil _⟩
  unfold record labelOnly
  rw [← List.cons_append, kept_iff, kept_iff, splitlines_newline _ hmembers (List.cons_ne_nil _ _),
    splitlines_append _ hend (by decide)]
  simp only [List.forall_mem_append, List.forall_mem_singleton,
    readLine_members hne hkeys hslots, and_assoc]

end Record

end Bench

end FakeBigLittle
