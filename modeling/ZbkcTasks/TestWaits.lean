import Mathlib.Data.Rat.Floor
import ZbkcTasks.PyProg

/-! The waits of `tasks/zbkc_test_case.py`. The time is not read from a clock: the periods are added up,
and what the calls themselves take is not counted. -/

namespace ZbkcTasks.TestWaits

open Prog

/-- `call` is a call of the function that is waited on. -/
inductive Op (α : Type)
  | call
  | sleep (seconds : Nat)

@[reducible] def Op.Ans {α : Type} : Op α → Type
  | .call => Except PyError α
  | .sleep _ => Unit

@[reducible] def sig (α : Type) : Sig where
  Op := Op α
  Ans := Op.Ans

abbrev M (α : Type) := Prog (sig α) Unit PyError

def period : Nat := 5

variable {α : Type}

/-- What the two loops differ in: which values end the wait and how, and what is raised in the end. -/
structure Wait (α : Type) where
  judge : α → Option (Except PyError Unit)
  timedOut : Nat → α → String
  timeout : ℚ

def Wait.poll (wait : Wait α) : (fuel elapsed : Nat) → M α Unit
  | 0, _ => .cut
  | fuel + 1, elapsed => .op .call fun r => orThrow r >>= fun val =>
    (wait.judge val).elim
      (if wait.timeout ≤ elapsed then .throw (.runtimeError (wait.timedOut elapsed val))
      else .op (.sleep period) fun _ => wait.poll fuel (elapsed + period))
      orThrow

def untilEqual [DecidableEq α] (str : α → String) (expectVal : α) (timeout : ℚ)
    (rejectFn : Option (α → Bool)) : Wait α where
  judge val :=
    if val = expectVal then some (.ok ())
    else if rejectFn.any (· val) = true then
      some (.error (.runtimeError ("wait_until_equal: forbidden value " ++ str val ++ " seen")))
    else none
  timedOut elapsed val := "Timed out after " ++ toString elapsed ++ " seconds waiting for " ++
    str expectVal ++ " (currently " ++ str val ++ ")"
  timeout := timeout

def untilTrue (condition : α → Bool) (timeout : ℚ) : Wait α where
  judge val := if condition val = true then some (.ok ()) else none
  timedOut elapsed _ := "Timed out after " ++ toString elapsed ++ "s"
  timeout := timeout

def waitUntilEqual [DecidableEq α] (str : α → String) (expectVal : α) (timeout : ℚ)
    (rejectFn : Option (α → Bool)) (fuel : Nat) : M α Unit :=
  (untilEqual str expectVal timeout rejectFn).poll fuel 0

def waitUntilTrue (condition : α → Bool) (timeout : ℚ) (fuel : Nat) : M α Unit :=
  (untilTrue condition timeout).poll fuel 0

/-! ### How a wait ends -/

structure Clock where
  calls : Nat
  slept : Nat

/-- The calls give what `vals` lists. -/
def answers (vals : Nat → Except PyError α) : Env (sig α) Unit Clock
  | .call, _, x, a, _, x' => a = vals x.calls ∧ x' = { x with calls := x.calls + 1 }
  | .sleep seconds, _, x, _, _, x' => x' = { x with slept := x.slept + seconds }

theorem answers_total (vals : Nat → Except PyError α) :
    ∀ o s x, ∃ a s' x', answers vals o s x a s' x'
  | .call, s, _ => ⟨_, s, _, rfl, rfl⟩
  | .sleep _, s, _ => ⟨(), s, _, rfl⟩

namespace Wait

variable (wait : Wait α)

/-- The number of periods after which the time is up. -/
def periods : Nat := ⌈wait.timeout / period⌉₊

/-- With this value the wait goes on, unless the time is up. -/
def Open (r : Except PyError α) : Prop := ∃ val, r = .ok val ∧ wait.judge val = none

def result (n : Nat) : Except PyError α → Outcome PyError Unit
  | .error e => .exn e
  | .ok val => (wait.judge val).elim (.exn (.runtimeError (wait.timedOut (period * n) val))) fun
    | .ok () => .ret ()
    | .error e => .exn e

/-- The wait ends with call `n`: the first value that decides, or the first when the time is up. -/
structure EndsAt (vals : Nat → Except PyError α) (n : Nat) (r : Outcome PyError Unit) (x : Clock) :
    Prop where
  inTime : n ≤ wait.periods
  earlier : ∀ k < n, wait.Open (vals k)
  last : wait.Open (vals n) → n = wait.periods
  ending : r = wait.result n (vals n)
  clock : x = ⟨n + 1, period * n⟩

variable {wait} {vals : Nat → Except PyError α}

theorem timeout_le_iff {k : Nat} : wait.timeout ≤ (period * k : Nat) ↔ wait.periods ≤ k := by
  have hperiod : (0 : ℚ) < period := by norm_num [period]
  rw [periods, Nat.ceil_le, div_le_iff₀ hperiod, mul_comm, Nat.cast_mul]

theorem wp_poll {n fuel : Nat} {w : World (sig α) Unit Clock} (hfuel : wait.periods < n + fuel)
    (hn : n ≤ wait.periods) (hearlier : ∀ k < n, wait.Open (vals k)) (hw : w.ext = ⟨n, period * n⟩) :
    wp (answers vals) (fun _ _ _ => True) (wait.poll fuel (period * n))
      (fun r w' => ∃ n', wait.EndsAt vals n' r w'.ext) w := by
  induction fuel generalizing n w with
  | zero => omega
  | succ fuel ih =>
    refine ⟨trivial, ?_⟩
    rintro a s x ⟨rfl, rfl⟩
    rw [hw]
    cases hval : vals n with
    | error e =>
      refine ⟨n, hn, hearlier, ?_, by rw [hval]; rfl, rfl⟩
      rintro ⟨val, hok, -⟩
      cases hval.symm.trans hok
    | ok val =>
      show wp _ _ ((wait.judge val).elim _ _) _ _
      cases hjudge : wait.judge val with
      | some r =>
        have hlast : wait.Open (vals n) → n = wait.periods := by
          rintro ⟨val', hok, hnone⟩
          cases hval.symm.trans hok
          cases hjudge.symm.trans hnone
        rcases r with e | _
        all_goals exact ⟨n, hn, hearlier, hlast, by rw [hval, result, hjudge]; rfl, rfl⟩
      | none =>
        show wp _ _ (ite _ _ _) _ _
        by_cases hup : wait.timeout ≤ (period * n : Nat)
        · have hlast : n = wait.periods := le_antisymm hn (timeout_le_iff.mp hup)
          rw [if_pos hup]
          exact ⟨n, hn, hearlier, fun _ => hlast, by rw [hval, result, hjudge]; rfl, rfl⟩
        · have hmore : n < wait.periods := not_le.mp fun h => hup (timeout_le_iff.mpr h)
          rw [if_neg hup]
          refine ⟨trivial, ?_⟩
          rintro _ _ _ rfl
          refine ih (n := n + 1) (by omega) hmore ?_ rfl
          intro k hk
          rcases Nat.lt_succ_iff_lt_or_eq.mp hk with hk | rfl
          · exact hearlier k hk
          · exact ⟨val, hval, hjudge⟩

theorem poll_ends (wait : Wait α) {fuel : Nat} (hfuel : wait.periods < fuel) :
    wp (answers vals) (fun _ _ _ => True) (wait.poll fuel 0)
      (fun r w => ∃ n, wait.EndsAt vals n r w.ext) ⟨(), ⟨0, 0⟩, []⟩ :=
  wp_poll (n := 0) (by omega) (Nat.zero_le _) (fun _ hk => absurd hk (Nat.not_lt_zero _)) rfl

end Wait

/-- **How the waits end.** Both waits take the first value that is expected, is to be rejected or could not
be got, and time out only with the first value that comes when the time is up. -/
theorem waits_end [DecidableEq α] (str : α → String) (expectVal : α) (rejectFn : Option (α → Bool))
    (condition : α → Bool) (timeout : ℚ) (vals : Nat → Except PyError α) (fuel : Nat)
    (hfuel : ⌈timeout / period⌉₊ < fuel) :
    (∀ r w, Exec (answers vals) (waitUntilEqual str expectVal timeout rejectFn fuel) ⟨(), ⟨0, 0⟩, []⟩ r w →
      ∃ n, (untilEqual str expectVal timeout rejectFn).EndsAt vals n r w.ext) ∧
    ∀ r w, Exec (answers vals) (waitUntilTrue condition timeout fuel) ⟨(), ⟨0, 0⟩, []⟩ r w →
      ∃ n, (untilTrue condition timeout).EndsAt vals n r w.ext :=
  ⟨fun _ _ hrun => wp_post (Wait.poll_ends (untilEqual str expectVal timeout rejectFn) hfuel) hrun,
    fun _ _ hrun => wp_post (Wait.poll_ends (untilTrue condition timeout) hfuel) hrun⟩

/-- The fourth value is the expected one, and comes when the time is up. -/
theorem waits_end_fourth : ∃ r w, Exec (answers fun k => .ok k) (waitUntilEqual toString 3 12 none 4)
    ⟨(), ⟨0, 0⟩, []⟩ r w ∧ ∃ n, (untilEqual toString 3 12 none).EndsAt (fun k => .ok k) n r w.ext := by
  obtain ⟨r, w, hrun⟩ :=
    exists_exec (answers_total _) (waitUntilEqual toString 3 12 none 4) ⟨(), ⟨0, 0⟩, []⟩
  exact ⟨r, w, hrun, (waits_end toString 3 none (fun _ => true) 12 _ 4 (by decide +kernel)).1 r w hrun⟩

end ZbkcTasks.TestWaits
