import FakeBigLittle.CString
import FakeBigLittle.Json.RoundTrip

/-!
# The analysis as JSON

`sanitize` of `scripts/analyze.py`, and `json.dump(.., indent=2, allow_nan=False)` of what it
returns.
-/

namespace FakeBigLittle

open CString
open Json (Py Floats Distinct AllFinite)

namespace Analyze

variable {F : Type}

/-! ## What is dumped -/

-- `str(k).startswith("_")`
def isPrivate (k : Text) : Bool := k.head? == some '_'

mutual

def sanitize (fl : Floats F) : Py F → Py F
  | .dict items => .dict (sanitizeItems fl items)
  | .list vs => .list (sanitizeList fl vs)
  | .float x => if fl.finite x then .float x else .none
  | .none => .none
  | .bool b => .bool b
  | .int i => .int i
  | .str s => .str s

def sanitizeList (fl : Floats F) : List (Py F) → List (Py F)
  | [] => []
  | v :: vs => sanitize fl v :: sanitizeList fl vs

def sanitizeItems (fl : Floats F) : List (Text × Py F) → List (Text × Py F)
  | [] => []
  | (k, v) :: items =>
    if isPrivate k then sanitizeItems fl items else (k, sanitize fl v) :: sanitizeItems fl items

end

mutual

/-- `allow_nan=False` raises where there is a float that is no number. -/
def allowed (fl : Floats F) : Py F → Bool
  | .float x => fl.finite x
  | .list vs => allowedList fl vs
  | .dict items => allowedItems fl items
  | .none | .bool _ | .int _ | .str _ => true

def allowedList (fl : Floats F) : List (Py F) → Bool
  | [] => true
  | v :: vs => allowed fl v && allowedList fl vs

def allowedItems (fl : Floats F) : List (Text × Py F) → Bool
  | [] => true
  | (_, v) :: items => allowed fl v && allowedItems fl items

end

/-- `json.dump(v, f, indent=2, allow_nan=False)`; `none` is the `ValueError`. -/
def dumpStrict (fl : Floats F) (v : Py F) : Option Text :=
  if allowed fl v then some (Json.dumps fl 2 0 v) else none

/-! ## Nothing private, and only numbers -/

/-- No key of it begins with an underscore. -/
inductive Public : Py F → Prop where
  | none : Public .none
  | bool (b : Bool) : Public (.bool b)
  | int (i : Int) : Public (.int i)
  | float (x : F) : Public (.float x)
  | str (s : Text) : Public (.str s)
  | list {vs : List (Py F)} (h : ∀ v ∈ vs, Public v) : Public (.list vs)
  | dict {items : List (Text × Py F)} (hkeys : ∀ e ∈ items, isPrivate e.1 = false)
      (h : ∀ e ∈ items, Public e.2) : Public (.dict items)

section Sanitized

variable {fl : Floats F}

theorem sanitizeList_eq (vs : List (Py F)) : sanitizeList fl vs = vs.map (sanitize fl) := by
  induction vs with
  | nil => rfl
  | cons v vs ih => rw [sanitizeList, ih, List.map_cons]

theorem sanitizeItems_eq (items : List (Text × Py F)) : sanitizeItems fl items =
    Dict.mapValues (sanitize fl) (items.filter fun e => !isPrivate e.1) := by
  induction items with
  | nil => rfl
  | cons e items ih =>
    rw [sanitizeItems, ih, List.filter_cons]
    cases isPrivate e.1 <;> rfl

/-- An item that is left, with the item that it comes from. -/
theorem mem_sanitizeItems {items : List (Text × Py F)} {e : Text × Py F} :
    e ∈ sanitizeItems fl items ↔
      ∃ e' ∈ items, isPrivate e'.1 = false ∧ e = (e'.1, sanitize fl e'.2) := by
  rw [sanitizeItems_eq]
  unfold Dict.mapValues
  simp only [List.mem_map, List.mem_filter, Bool.not_eq_true']
  constructor
  · rintro ⟨e', ⟨he', hprivate⟩, rfl⟩
    exact ⟨e', he', hprivate, rfl⟩
  · rintro ⟨e', he', hprivate, rfl⟩
    exact ⟨e', ⟨he', hprivate⟩, rfl⟩

theorem public_sanitize (v : Py F) : Public (sanitize fl v) := by
  induction v using Py.ind with
  | none => exact .none
  | bool b => exact .bool b
  | int i => exact .int i
  | float x =>
    rw [sanitize]
    split_ifs
    · exact .float x
    · exact .none
  | str s => exact .str s
  | list vs ih =>
    rw [sanitize, sanitizeList_eq]
    refine .list fun v hv => ?_
    obtain ⟨w, hw, rfl⟩ := List.mem_map.mp hv
    exact ih w hw
  | dict items ih =>
    rw [sanitize]
    refine .dict (fun e he => ?_) fun e he => ?_ <;>
      obtain ⟨e', he', hprivate, rfl⟩ := mem_sanitizeItems.mp he
    · exact hprivate
    · exact ih e' he'

theorem finite_sanitize (v : Py F) : AllFinite fl (sanitize fl v) := by
  induction v using Py.ind with
  | none => exact .none
  | bool b => exact .bool b
  | int i => exact .int i
  | float x =>
    rw [sanitize]
    split_ifs with hx
    · exact .float hx
    · exact .none
  | str s => exact .str s
  | list vs ih =>
    rw [sanitize, sanitizeList_eq]
    refine .list fun v hv => ?_
    obtain ⟨w, hw, rfl⟩ := List.mem_map.mp hv
    exact ih w hw
  | dict items ih =>
    rw [sanitize]
    refine .dict fun e he => ?_
    obtain ⟨e', he', -, rfl⟩ := mem_sanitizeItems.mp he
    exact ih e' he'

theorem distinct_sanitize {v : Py F} (h : Distinct v) : Distinct (sanitize fl v) := by
  induction v using Py.ind with
  | none => exact .none
  | bool b => exact .bool b
  | int i => exact .int i
  | float x =>
    rw [sanitize]
    split_ifs
    · exact .float x
    · exact .none
  | str s => exact .str s
  | list vs ih =>
    cases h with
    | list hvs =>
      rw [sanitize, sanitizeList_eq]
      refine .list fun v hv => ?_
      obtain ⟨w, hw, rfl⟩ := List.mem_map.mp hv
      exact ih w hw (hvs w hw)
  | dict items ih =>
    cases h with
    | dict hkeys hitems =>
      rw [sanitize]
      refine .dict ?_ fun e he => ?_
      · rw [sanitizeItems_eq, Dict.keys_mapValues]
        exact hkeys.sublist (List.filter_sublist.map Prod.fst)
      · obtain ⟨e', he', -, rfl⟩ := mem_sanitizeItems.mp he
        exact ih e' he' (hitems e' he')

theorem allowed_of_finite {v : Py F} (h : AllFinite fl v) : allowed fl v = true := by
  induction v using Py.ind with
  | none => rfl
  | bool b => rfl
  | int i => rfl
  | float x =>
    cases h with
    | float hx => rwa [allowed]
  | str s => rfl
  | list vs ih =>
    cases h with
    | list hvs =>
      rw [allowed]
      induction vs with
      | nil => rfl
      | cons v vs ihvs =>
        obtain ⟨hv, hvs⟩ := List.forall_mem_cons.mp hvs
        obtain ⟨ihv, ihrest⟩ := List.forall_mem_cons.mp ih
        rw [allowedList, ihv hv, ihvs ihrest hvs]
        rfl
  | dict items ih =>
    cases h with
    | dict hitems =>
      rw [allowed]
      induction items with
      | nil => rfl
      | cons e items ihitems =>
        obtain ⟨he, hitems⟩ := List.forall_mem_cons.mp hitems
        obtain ⟨ihe, ihrest⟩ := List.forall_mem_cons.mp ih
        rw [allowedItems, ihe he, ihitems ihrest hitems]
        rfl

/-- What is public and finite is left as it is. -/
theorem sanitize_of_public {v : Py F} (hpublic : Public v) (hfinite : AllFinite fl v) :
    sanitize fl v = v := by
  induction v using Py.ind with
  | none => rfl
  | bool b => rfl
  | int i => rfl
  | float x =>
    cases hfinite with
    | float hx => rw [sanitize, if_pos hx]
  | str s => rfl
  | list vs ih =>
    cases hpublic with
    | list hpublics =>
      cases hfinite with
      | list hfinites =>
        rw [sanitize, sanitizeList_eq]
        congr 1
        refine (List.map_congr_left fun v hv => ?_).trans (List.map_id vs)
        exact ih v hv (hpublics v hv) (hfinites v hv)
  | dict items ih =>
    cases hpublic with
    | dict hkeys hpublics =>
      cases hfinite with
      | dict hfinites =>
        have hfilter : items.filter (fun e => !isPrivate e.1) = items :=
          List.filter_eq_self.mpr fun e he => by rw [hkeys e he]; rfl
        rw [sanitize, sanitizeItems_eq, hfilter]
        congr 1
        refine (List.map_congr_left fun e he => ?_).trans (List.map_id items)
        rw [ih e he (hpublics e he) (hfinites e he)]
        rfl

end Sanitized

/-- **The analysis can always be dumped, and what is dumped is all of it but the private parts.**
`--json` raises on no result, shows no private key at any depth, and what it prints is loaded as
the very structure; to sanitize it once more changes nothing. -/
theorem analysis_dumped (fl : Floats F) (result : Py F) (h : Distinct result) :
    ∃ t, dumpStrict fl (sanitize fl result) = some t ∧
      Json.load fl t = some (sanitize fl result) ∧
      Public (sanitize fl result) ∧
      sanitize fl (sanitize fl result) = sanitize fl result := by
  have hfinite : AllFinite fl (sanitize fl result) := finite_sanitize result
  refine ⟨_, if_pos (allowed_of_finite hfinite), ?_, public_sanitize result,
    sanitize_of_public (public_sanitize result) hfinite⟩
  rw [Json.load_dumps (distinct_sanitize h), Json.reload_of_finite hfinite]

/-- The floats 1.5 and NaN. -/
def oneAndNan : Floats Bool where
  finite x := x
  repr x := if x then "1.5".toList else "NaN".toList
  parse t := decide (t = "1.5".toList)
  isFloat x h := ⟨false, 1, ".5".toList, [], by rw [h]; rfl, by decide,
    Or.inr ⟨['5'], by decide, List.all_eq_true.mp rfl, rfl⟩, Or.inl rfl⟩
  parse_repr x h := by
    rw [h]
    rfl
  special x h := by
    rw [h]
    decide

/-- A number that is missing and a private part, in what is dumped and loaded. -/
theorem analysis_dumped_missing :
    ∃ t, dumpStrict oneAndNan (sanitize oneAndNan
        (.dict [("_n".toList, .int 1), ("p".toList, .float false),
          ("q".toList, .list [.float true])])) = some t ∧
      Json.load oneAndNan t =
        some (.dict [("p".toList, .none), ("q".toList, .list [.float true])]) := by
  have hdistinct : Distinct (.dict [("_n".toList, .int 1), ("p".toList, .float false),
      ("q".toList, .list [.float true])] : Py Bool) := by
    have hkeys : ["_n".toList, "p".toList, "q".toList].Nodup := by decide
    refine .dict hkeys ?_
    simp only [List.forall_mem_cons]
    refine ⟨.int 1, .float false, .list ?_, List.forall_mem_nil _⟩
    simp only [List.forall_mem_cons]
    exact ⟨.float true, List.forall_mem_nil _⟩
  obtain ⟨t, ht, hload, -⟩ := analysis_dumped oneAndNan _ hdistinct
  exact ⟨t, ht, hload⟩

end Analyze

end FakeBigLittle
