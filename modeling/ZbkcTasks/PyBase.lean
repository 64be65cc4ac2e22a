import Mathlib.Data.Finset.Sort
import Mathlib.Data.Rat.Defs
import Mathlib.Data.String.Basic

/-! The Python values and exceptions that the tasks share. Numbers are exact: an `int` is an `Int`
and a `float` is the rational it stands for. -/

namespace ZbkcTasks

abbrev Osd := Nat
abbrev Pgid := String

/-- What a command raises: teuthology's `CommandFailedError`, or anything else. -/
inductive CommandError
  | failed (status : Int)
  | other (msg : String)
  deriving DecidableEq

inductive PyError
  | exception (msg : String)
  | runtimeError (msg : String)
  | assertionError (msg : String)
  /-- `random.choice` of an empty list. -/
  | indexError
  /-- `list.remove` of an element that is not there, or a range that `random` cannot draw from. -/
  | valueError
  | keyError (key : String)
  | typeError
  | zeroDivisionError
  | attributeError (name : String)
  /-- teuthology's `MaxWhileTries`, raised when `safe_while` runs out of tries. -/
  | maxWhileTries (action : String)
  | command (e : CommandError)
  deriving DecidableEq

/-- A number whose type the code looks at. -/
inductive PyNum
  | int (n : Int)
  | float (q : ℚ)
  deriving DecidableEq

def PyNum.toFloat : PyNum → ℚ
  | .int n => n
  | .float q => q

/-- `int(x)`, which cuts the fraction off. -/
def PyNum.toInt : PyNum → Int
  | .int n => n
  | .float q => q.num.tdiv q.den

/-- `range(start, stop)`. -/
def pyRange (start stop : Int) : List Int := (List.range (stop - start).toNat).map fun i : Nat => start + i

theorem mem_pyRange {start stop z : Int} : z ∈ pyRange start stop ↔ start ≤ z ∧ z < stop := by
  simp only [pyRange, List.mem_map, List.mem_range]
  constructor
  · rintro ⟨i, hi, rfl⟩
    omega
  · rintro ⟨hstart, hstop⟩
    exact ⟨(z - start).toNat, by omega, by omega⟩

theorem nodup_pyRange (start stop : Int) : (pyRange start stop).Nodup := by
  refine List.nodup_range.map fun i j hij => ?_
  omega

/-- Python 2 operands of `max_pgs`: a number, or the list of OSD ids repeated. -/
inductive MaxPgs
  | int (n : Int)
  | list (xs : List Osd)
  deriving DecidableEq

def sorted (names : Finset String) : List String := names.sort (· ≤ ·)

theorem mem_sorted {names : Finset String} {name : String} : name ∈ sorted names ↔ name ∈ names :=
  Finset.mem_sort _

end ZbkcTasks
