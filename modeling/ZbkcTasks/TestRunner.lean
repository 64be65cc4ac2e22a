import ZbkcTasks.PyBase

/-! The verdict of `tasks/zbkcfs_test_runner.py`: the outcomes are fed to a result object until it asks to
stop. Left out are the loading of the tests, the log and the interactive sessions. -/

namespace ZbkcTasks.TestRunner

/-- How a test ended, with the text that is recorded for it. -/
inductive TestOutcome
  | pass
  | failure (err : String)
  | error (err : String)
  | skip (reason : String)
  deriving DecidableEq

structure Report where
  test : String
  outcome : TestOutcome

structure Options where
  interactive : Bool
  failOnSkip : Bool

/-- The result object, with `failfast` set. -/
structure Result where
  failures : List (String × String) := []
  errors : List (String × String) := []
  skipped : List (String × String) := []
  shouldStop : Bool := false

section Result

variable (opts : Options)

/-- `addFailure` of `InteractiveFailureResult`, or of unittest's `TextTestResult`. -/
def addFailure (test err : String) (r : Result) : Result :=
  if opts.interactive then r else { r with failures := r.failures ++ [(test, err)], shouldStop := true }

/-- `addError` of `InteractiveFailureResult`, or of unittest's `TextTestResult`. -/
def addError (test err : String) (r : Result) : Result :=
  if opts.interactive then r else { r with errors := r.errors ++ [(test, err)], shouldStop := true }

def addSkip (test reason : String) (r : Result) : Result :=
  if opts.failOnSkip then { r with failures := r.failures ++ [(test, reason)] }
  else { r with skipped := r.skipped ++ [(test, reason)] }

def feed (x : Report) (r : Result) : Result :=
  match x.outcome with
  | .pass => r
  | .failure err => addFailure opts x.test err r
  | .error err => addError opts x.test err r
  | .skip reason => addSkip opts x.test reason r

def runSuite : List Report → Result → List Report × Result
  | [], r => ([], r)
  | x :: xs, r =>
      if r.shouldStop then ([], r)
      else
        let rest := runSuite xs (feed opts x r)
        (x :: rest.1, rest.2)

def Result.wasSuccessful (r : Result) : Bool := r.failures.isEmpty && r.errors.isEmpty

def Result.badTests (r : Result) : List String := r.errors.map Prod.fst ++ r.failures.map Prod.fst

def task (reports : List Report) : Except PyError Unit :=
  let r := (runSuite opts reports {}).2
  if r.wasSuccessful then .ok ()
  else .error (.runtimeError ("Test failure: " ++ ", ".intercalate r.badTests))

def executed (reports : List Report) : List Report := (runSuite opts reports {}).1

end Result

/-! ### What is recorded -/

def TestOutcome.broken : TestOutcome → Bool
  | .failure _ => true
  | .error _ => true
  | _ => false

def TestOutcome.skipped : TestOutcome → Bool
  | .skip _ => true
  | _ => false

def TestOutcome.bad (opts : Options) (o : TestOutcome) : Bool := o.broken || o.skipped && opts.failOnSkip

def TestOutcome.recorded (opts : Options) (o : TestOutcome) : Bool :=
  o.broken && !opts.interactive || o.skipped && opts.failOnSkip

section Verdict

variable {opts : Options}

theorem wasSuccessful_feed (x : Report) (r : Result) :
    (feed opts x r).wasSuccessful = (r.wasSuccessful && !x.outcome.recorded opts) := by
  unfold feed
  cases x.outcome with
  | pass => simp [TestOutcome.recorded, TestOutcome.broken, TestOutcome.skipped]
  | failure err =>
    cases hi : opts.interactive <;>
      simp [addFailure, hi, Result.wasSuccessful, TestOutcome.recorded, TestOutcome.broken,
        TestOutcome.skipped]
  | error err =>
    cases hi : opts.interactive <;>
      simp [addError, hi, Result.wasSuccessful, TestOutcome.recorded, TestOutcome.broken,
        TestOutcome.skipped]
  | skip reason =>
    cases hs : opts.failOnSkip <;>
      simp [addSkip, hs, Result.wasSuccessful, TestOutcome.recorded, TestOutcome.broken,
        TestOutcome.skipped]

theorem wasSuccessful_runSuite (reports : List Report) (r : Result) :
    (runSuite opts reports r).2.wasSuccessful =
      (r.wasSuccessful && (runSuite opts reports r).1.all fun x => !x.outcome.recorded opts) := by
  induction reports generalizing r with
  | nil => simp [runSuite]
  | cons x xs ih =>
    unfold runSuite
    split
    · simp
    · rw [ih, wasSuccessful_feed, List.all_cons, Bool.and_assoc]

theorem task_raises_iff (reports : List Report) :
    (∃ e, task opts reports = .error e) ↔ ∃ x ∈ executed opts reports, x.outcome.recorded opts = true := by
  have hraises : (∃ e, task opts reports = .error e) ↔
      (runSuite opts reports {}).2.wasSuccessful = false := by
    unfold task
    cases h : (runSuite opts reports {}).2.wasSuccessful <;> simp [h]
  rw [hraises, wasSuccessful_runSuite, executed]
  simp [Result.wasSuccessful]

/-- An interactive run goes through all tests. -/
theorem executed_of_interactive (hi : opts.interactive = true) (reports : List Report) :
    executed opts reports = reports := by
  have hrun : ∀ r : Result, r.shouldStop = false → (runSuite opts reports r).1 = reports := by
    induction reports with
    | nil => exact fun _ _ => rfl
    | cons x xs ih =>
      intro r hr
      have hfeed : (feed opts x r).shouldStop = false := by
        unfold feed
        cases x.outcome <;> simp [addFailure, addError, addSkip, hi, hr, apply_ite Result.shouldStop]
      rw [runSuite, if_neg (by rw [hr]; nofun)]
      exact congrArg (x :: ·) (ih _ hfeed)
  exact hrun {} rfl

end Verdict

/-- **The task reports every failure** exactly when it is not interactive, or no test fails or errors, or it
raises anyway for a test that was skipped. -/
theorem every_failure_reported_iff (opts : Options) (reports : List Report) :
    ((∃ e, task opts reports = .error e) ↔ ∃ x ∈ executed opts reports, x.outcome.bad opts = true) ↔
    opts.interactive = false ∨ (∀ x ∈ reports, x.outcome.broken = false) ∨
      opts.failOnSkip = true ∧ ∃ x ∈ reports, x.outcome.skipped = true := by
  rw [task_raises_iff]
  cases hi : opts.interactive with
  | false => simp [TestOutcome.recorded, TestOutcome.bad, hi]
  | true =>
    have hrecorded : ∀ o : TestOutcome, o.recorded opts = (o.skipped && opts.failOnSkip) := by
      simp [TestOutcome.recorded, hi]
    simp only [executed_of_interactive hi, hrecorded, Bool.true_eq_false, false_or]
    constructor
    · intro h
      by_contra hneither
      push Not at hneither
      obtain ⟨⟨x, hx, hbroken⟩, hskip⟩ := hneither
      obtain ⟨y, hy, hskipped⟩ := h.mpr ⟨x, hx, by simp [TestOutcome.bad, hbroken]⟩
      rw [Bool.and_eq_true] at hskipped
      exact hskip hskipped.2 y hy hskipped.1
    · rintro (hwhole | ⟨hfail, x, hx, hskipped⟩)
      · refine exists_congr fun x => and_congr_right fun hx => ?_
        simp [TestOutcome.bad, hwhole x hx]
      · exact ⟨fun _ => ⟨x, hx, by simp [TestOutcome.bad, hskipped, hfail]⟩,
          fun _ => ⟨x, hx, by simp [hskipped, hfail]⟩⟩

/-- An interactive run with one failing test ends as if it had passed. -/
theorem interactive_failure_unreported :
    task ⟨true, true⟩ [⟨"test_a", .failure "AssertionError"⟩] = .ok () ∧
      (executed ⟨true, true⟩ [⟨"test_a", .failure "AssertionError"⟩]).any
        (fun x => x.outcome.bad ⟨true, true⟩) = true := by
  decide

end ZbkcTasks.TestRunner
