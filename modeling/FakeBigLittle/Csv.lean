import FakeBigLittle.CString
import Mathlib.Data.List.Nodup

/-!
# Rows by name

A row of a CSV file as Python's `csv.DictReader` shows it: each name of the header with its
cell, the last one where a name is there twice.
-/

namespace Csv

open CString

variable {α : Type} {header : List Text} {cells : List (Option α)} {name : Text}

/-- `row.get(name)` as a value; `none` where there is no such column, or nothing in it. -/
def get (header : List Text) (cells : List (Option α)) (name : Text) : Option α :=
  ((header.zip cells).reverse.lookup name).join

theorem lookup_of_mem {β : Type} {l : List (Text × β)} (hnodup : (l.map Prod.fst).Nodup)
    {x : β} (h : (name, x) ∈ l) : l.lookup name = some x := by
  induction l with
  | nil => simp at h
  | cons p l ih =>
    obtain ⟨hp, hl⟩ := List.nodup_cons.mp hnodup
    rcases List.mem_cons.mp h with rfl | h
    · exact List.lookup_cons_self
    · have hne : (name == p.1) = false := by
        rw [beq_eq_false_iff_ne]
        rintro rfl
        exact hp (List.mem_map.mpr ⟨(p.1, x), h, rfl⟩)
      rw [List.lookup_cons, hne]
      exact ih hl h

theorem get_of_mem (hnodup : header.Nodup) (hlen : header.length = cells.length)
    {x : Option α} (h : (name, x) ∈ header.zip cells) : get header cells name = x := by
  have hkeys : ((header.zip cells).reverse.map Prod.fst).Nodup := by
    rw [List.map_reverse, List.map_fst_zip hlen.le, List.nodup_reverse]
    exact hnodup
  unfold get
  rw [lookup_of_mem hkeys (List.mem_reverse.mpr h), Option.join_some]

theorem get_of_notMem (h : name ∉ header) : get header cells name = none := by
  have hnone : (header.zip cells).reverse.lookup name = none := by
    rw [List.lookup_eq_none_iff]
    intro p hp
    rw [bne_iff_ne]
    rintro rfl
    exact h (List.of_mem_zip (List.mem_reverse.mp hp)).1
  unfold get
  rw [hnone, Option.join_none]

theorem lookup_map {β γ : Type} (f : β → γ) (l : List (Text × β)) (name : Text) :
    (l.map (Prod.map id f)).lookup name = (l.lookup name).map f := by
  induction l with
  | nil => rfl
  | cons p l ih =>
    rw [List.map_cons, Prod.map, id_eq, List.lookup_cons, List.lookup_cons, ih]
    cases name == p.1 <;> rfl

/-- Cells that come out of `f`. -/
theorem get_map {β : Type} (f : β → Option α) (header : List Text) (cells : List β)
    (name : Text) :
    get header (cells.map f) name = ((header.zip cells).reverse.lookup name).bind f := by
  unfold get
  rw [List.zip_map_right, ← List.map_reverse, lookup_map]
  cases (header.zip cells).reverse.lookup name <;> rfl

end Csv
