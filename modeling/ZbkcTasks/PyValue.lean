import Mathlib.Data.List.Basic
import Mathlib.Data.Rat.Defs

/-! The data of programs that read JSON or YAML: atoms, lists, and dictionaries as lists of their items,
in the order in which they are gone through. -/

theorem mem_of_lookup {κ β : Type} [BEq κ] [LawfulBEq κ] {items : List (κ × β)} {key : κ} {v : β}
    (h : items.lookup key = some v) : (key, v) ∈ items := by
  obtain ⟨before, after, rfl, -⟩ := List.lookup_eq_some_iff.mp h
  exact List.mem_append_right _ (.head _)

/-- `d[key] = v`. A key that is there keeps its place. -/
def setItem {κ β : Type} [DecidableEq κ] (d : List (κ × β)) (key : κ) (v : β) : List (κ × β) :=
  match d with
  | [] => [(key, v)]
  | (k, u) :: d => if k = key then (k, v) :: d else (k, u) :: setItem d key v

/-- A value without parts, which is also what keys are. -/
inductive PyAtom
  | none
  | bool (b : Bool)
  | int (n : Int)
  | float (q : ℚ)
  | str (s : String)
  deriving DecidableEq

inductive PyValue
  | atom (a : PyAtom)
  | list (xs : List PyValue)
  | dict (items : List (PyAtom × PyValue))

instance : Coe String PyAtom := ⟨.str⟩

/-- What `if` takes for true. -/
def PyAtom.truthy : PyAtom → Bool
  | .none => false
  | .bool b => b
  | .int n => decide (n ≠ 0)
  | .float q => decide (q ≠ 0)
  | .str s => decide (s ≠ "")

abbrev PyDict := List (PyAtom × PyValue)

namespace PyDict

def get? (d : PyDict) (key : PyAtom) : Option PyValue := d.lookup key

def set (d : PyDict) (key : PyAtom) (v : PyValue) : PyDict := setItem d key v

/-- `del d[key]`. -/
def del (d : PyDict) (key : PyAtom) : PyDict := d.filter fun item => item.1 ≠ key

theorem get?_nil (key : PyAtom) : get? [] key = .none := rfl

theorem get?_cons (k : PyAtom) (u : PyValue) (d : PyDict) (key : PyAtom) :
    get? ((k, u) :: d) key = if key = k then some u else get? d key := by
  rw [get?, List.lookup_cons]
  by_cases h : key = k
  · simp [h]
  · rw [if_neg h, beq_eq_false_iff_ne.mpr h]
    rfl

theorem get?_set (d : PyDict) (key : PyAtom) (v : PyValue) (l : PyAtom) :
    get? (set d key v) l = if l = key then some v else get? d l := by
  induction d with
  | nil => rw [set, setItem, get?_cons, get?_nil]
  | cons item d ih =>
    obtain ⟨k, u⟩ := item
    rw [set] at ih ⊢
    rw [setItem]
    by_cases hk : k = key
    · rw [if_pos hk, get?_cons, get?_cons, hk]
      split <;> rfl
    · rw [if_neg hk, get?_cons, get?_cons, ih]
      by_cases hl : l = k
      · rw [if_pos hl, if_pos hl, if_neg (hl.symm ▸ hk)]
      · rw [if_neg hl, if_neg hl]

theorem get?_del (d : PyDict) (key l : PyAtom) :
    get? (del d key) l = if l = key then .none else get? d l := by
  induction d with
  | nil => simp [del, get?]
  | cons item d ih =>
    obtain ⟨k, u⟩ := item
    rw [del] at ih ⊢
    by_cases hk : k = key
    · rw [List.filter_cons_of_neg (by simp [hk]), ih, get?_cons, hk]
      by_cases hl : l = key
      · rw [if_pos hl, if_pos hl]
      · rw [if_neg hl, if_neg hl, if_neg hl]
    · rw [List.filter_cons_of_pos (by simp [hk]), get?_cons, get?_cons, ih]
      by_cases hl : l = k
      · rw [if_pos hl, if_pos hl, if_neg (hl.symm ▸ hk)]
      · rw [if_neg hl, if_neg hl]

end PyDict
