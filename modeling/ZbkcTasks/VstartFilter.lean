import ZbkcTasks.NestedList
import ZbkcTasks.PyBase

/-! The part of `exec_test` in `tasks/vstart_runner.py` that takes tests out of the suite. The second
condition overwrites what the first has decided: a test with both marks stays when the user is root. -/

namespace ZbkcTasks.VstartFilter

open NestedList

abbrev Text := List Char

/-- A test case; the class stands for its identity. Two test cases are equal if the class and the name of
the method are. -/
structure TestCase where
  cls : Nat
  testMethodName : Text
  deriving DecidableEq

/-- The attributes of a test function; `some true` stands for `True`, and `some false` for anything else. -/
structure Attrs where
  isForTeuthology : Option Bool := none
  needsTrimming : Option Bool := none

def forTeuthology (f : Attrs) : Attrs := { f with isForTeuthology := some true }

def needsTrimming (f : Attrs) : Attrs := { f with needsTrimming := some true }

/-- What the test classes are: their names, with the module, and their functions. -/
structure Classes where
  strclass : Nat → Text
  fn : Nat → Text → Attrs

/-- A suite with what it holds. Suites are objects, and the labels are their identities. -/
structure Suite where
  label : Nat
  tests : NestedList Nat TestCase
  distinct : (label :: tests.labels).Nodup

def enumerateMethods (s : Suite) : List (Nat × TestCase) := s.tests.leaves s.label

section Filter

variable (c : Classes) (uid : Nat) (modules : List Text)

def fnOf (t : TestCase) : Attrs := c.fn t.cls t.testMethodName

def testId (t : TestCase) : Text := c.strclass t.cls ++ '.' :: t.testMethodName

def dropTest (fn : Attrs) : Bool :=
  let drop := decide (fn.isForTeuthology = some true)
  if fn.needsTrimming = some true then decide (uid ≠ 0) else drop

def isNamed (t : TestCase) : Bool := modules.any fun named => (testId c t).isSuffixOf named

def isVictim (t : TestCase) : Bool := dropTest uid (fnOf c t) && !isNamed c modules t

def victims (s : Suite) : List (Nat × TestCase) :=
  (enumerateMethods s).filter fun v => isVictim c uid modules v.2

def filterTests (s : Suite) : Except PyError (NestedList Nat TestCase) :=
  (removeAll s.label (victims c uid modules s) s.tests).elim (.error .valueError) .ok

/-! ### Which tests are left -/

/-- The tests that should be left: those that are named, and those with no mark that rules them out. -/
def Suitable (t : TestCase) : Prop :=
  isNamed c modules t = true ∨ ¬ ((fnOf c t).isForTeuthology = some true ∨
    (fnOf c t).needsTrimming = some true ∧ uid ≠ 0)

instance (t : TestCase) : Decidable (Suitable c uid modules t) := inferInstanceAs (Decidable (_ ∨ _))

variable {c uid modules}

theorem filterTests_eq (s : Suite) :
    filterTests c uid modules s = .ok (s.tests.keep fun t => !isVictim c uid modules t) := by
  rw [filterTests, victims, enumerateMethods, removeAll_leaves _ s.distinct]
  rfl

/-- What the code decides is right, but for a test with both marks when the user is root. -/
theorem not_isVictim_iff (t : TestCase) : isVictim c uid modules t = false ↔
    Suitable c uid modules t ∨ uid = 0 ∧ (fnOf c t).isForTeuthology = some true ∧
      (fnOf c t).needsTrimming = some true := by
  rw [isVictim, dropTest, Suitable]
  by_cases hnamed : isNamed c modules t = true
  · simp [hnamed]
  · by_cases hlong : (fnOf c t).isForTeuthology = some true
    · by_cases htrim : (fnOf c t).needsTrimming = some true
      · simp [hnamed, hlong, htrim]
      · simp [hnamed, hlong, htrim]
    · by_cases htrim : (fnOf c t).needsTrimming = some true
      · simp [hnamed, hlong, htrim]
      · simp [hnamed, hlong, htrim]

/-- **The filter.** The tests that are left are the suitable ones, in order and with their suites, if and
only if the user is not root or each test with both marks is named. -/
theorem filter_exact_iff (s : Suite) : (∃ tests, filterTests c uid modules s = .ok tests ∧
      tests.leaves s.label = (enumerateMethods s).filter fun v => Suitable c uid modules v.2) ↔
    (uid = 0 → ∀ v ∈ enumerateMethods s, (fnOf c v.2).isForTeuthology = some true →
      (fnOf c v.2).needsTrimming = some true → isNamed c modules v.2 = true) := by
  have hkeep : (∃ tests, filterTests c uid modules s = .ok tests ∧
      tests.leaves s.label = (enumerateMethods s).filter fun v => Suitable c uid modules v.2) ↔
      ∀ v ∈ enumerateMethods s, (!isVictim c uid modules v.2) = decide (Suitable c uid modules v.2) := by
    rw [filterTests_eq]
    constructor
    · rintro ⟨tests, heq, htests⟩ v hv
      rw [← Except.ok.inj heq, leaves_keep] at htests
      have hmem : v ∈ (s.tests.leaves s.label).filter (fun v => !isVictim c uid modules v.2) ↔
          v ∈ (enumerateMethods s).filter fun v => Suitable c uid modules v.2 := by rw [htests]
      rw [List.mem_filter, List.mem_filter] at hmem
      exact Bool.eq_iff_iff.mpr ((and_congr_right_iff.mp hmem) hv)
    · intro h
      refine ⟨_, rfl, ?_⟩
      rw [leaves_keep]
      exact List.filter_congr h
  rw [hkeep]
  constructor
  · intro h huid v hv hlong htrim
    have hstays : isVictim c uid modules v.2 = false :=
      (not_isVictim_iff v.2).mpr (.inr ⟨huid, hlong, htrim⟩)
    have hsuitable : Suitable c uid modules v.2 := by
      have hv := h v hv
      rw [hstays] at hv
      exact of_decide_eq_true hv.symm
    exact hsuitable.resolve_right fun hnot => hnot (.inl hlong)
  · intro h v hv
    rw [Bool.eq_iff_iff, Bool.not_eq_true', decide_eq_true_iff, not_isVictim_iff]
    refine or_iff_left_of_imp fun ⟨huid, hlong, htrim⟩ => ?_
    exact .inl (h huid v hv hlong htrim)

end Filter

def bothMarks : Classes :=
  ⟨fun _ => "zbkcfs.test_x.TestX".toList, fun _ _ => forTeuthology (needsTrimming {})⟩

def oneTest : Suite := ⟨0, .leaf ⟨0, "test_y".toList⟩ .nil, by decide⟩

/-- Root keeps the test, which is marked as one for teuthology and was not named. -/
theorem filter_keeps_both_marks : filterTests bothMarks 0 [] oneTest = .ok oneTest.tests ∧
    ¬ Suitable bothMarks 0 [] ⟨0, "test_y".toList⟩ :=
  ⟨rfl, by decide⟩

end ZbkcTasks.VstartFilter
