import ZbkcTasks.PyBase

/-! `LocalRemoteProcess` of `tasks/vstart_runner.py`. A child that was found ended before raises from
`wait` for every status but zero, whether `check_status` is set or not. The log is left out. -/

namespace ZbkcTasks.VstartProcess

open List

structure Child where
  status : Int
  out : String
  err : String

/-- The object, with what has been written to its two sinks. -/
structure LocalRemoteProcess where
  child : Child
  checkStatus : Bool
  stdout : List String
  stderr : List String
  exitstatus : Option Int
  collected : Bool
  kills : Nat

def start (child : Child) (checkStatus : Bool) (stdout stderr : List String) : LocalRemoteProcess :=
  ⟨child, checkStatus, stdout, stderr, none, false, 0⟩

abbrev M := ExceptT PyError (StateM LocalRemoteProcess)

def communicate : M (String × String) := do
  let p ← get
  if p.collected then throw .valueError
  set { p with collected := true }
  return (p.child.out, p.child.err)

def collect : M Unit := do
  let (out, err) ← communicate
  modifyThe LocalRemoteProcess fun p =>
    { p with stdout := p.stdout ++ [out], stderr := p.stderr ++ [err], exitstatus := some p.child.status }

def finished (ended : Bool) : M Bool := do
  if (← get).exitstatus ≠ none then return true
  if ended then
    collect
    return true
  return false

def CommandFailedError (status : Option Int) : PyError := .command (.failed (status.getD 0))

def wait (ended : Bool) : M Unit := do
  if ← finished ended then
    let p ← get
    if p.exitstatus ≠ some 0 then throw (CommandFailedError p.exitstatus)
    return
  collect
  let p ← get
  if p.checkStatus ∧ p.exitstatus ≠ some 0 then throw (CommandFailedError p.exitstatus)

def kill (ended : Bool) : M Unit := do
  if ¬ (← finished ended) then
    modifyThe LocalRemoteProcess fun p => { p with kills := p.kills + 1 }

inductive Call
  | finished
  | wait
  | kill
  deriving DecidableEq

def Call.run (ended : Bool) : Call → M Unit
  | .finished => do let _ ← VstartProcess.finished ended
  | .wait => VstartProcess.wait ended
  | .kill => VstartProcess.kill ended

/-- A call that was made, how it ended, and the process after it. -/
structure Record where
  call : Call
  outcome : Except PyError Unit
  after : LocalRemoteProcess

/-- Calls from the `i`th on. The child ends before the call with the number `moment`. -/
def trace (moment : Nat) : (i : Nat) → List Call → LocalRemoteProcess → List Record × LocalRemoteProcess
  | _, [], p => ([], p)
  | i, c :: cs, p =>
      let r := (c.run (moment ≤ i)).run.run p
      let rest := trace moment (i + 1) cs r.2
      (⟨c, r.1, r.2⟩ :: rest.1, rest.2)

/-! ### One call -/

variable {calls : List Call} {p : LocalRemoteProcess} {o : Except PyError Unit}

section Calls

variable {child : Child} {checkStatus : Bool} {stdout stderr : List String} {kills : Nat} {c : Call}
  {moment i : Nat}

def fresh (child : Child) (checkStatus : Bool) (stdout stderr : List String) (kills : Nat) :
    LocalRemoteProcess :=
  ⟨child, checkStatus, stdout, stderr, none, false, kills⟩

def ended (child : Child) (checkStatus : Bool) (stdout stderr : List String) (kills : Nat) :
    LocalRemoteProcess :=
  ⟨child, checkStatus, stdout ++ [child.out], stderr ++ [child.err], some child.status, true, kills⟩

def checked (check : Bool) (child : Child) : Except PyError Unit :=
  if check = true ∧ child.status ≠ 0 then .error (CommandFailedError (some child.status)) else .ok ()

theorem collect_fresh : collect.run.run (fresh child checkStatus stdout stderr kills) =
    (.ok (), ended child checkStatus stdout stderr kills) := rfl

theorem finished_ended (e : Bool) : (finished e).run.run (ended child checkStatus stdout stderr kills) =
    (.ok true, ended child checkStatus stdout stderr kills) := rfl

theorem finished_fresh_true : (finished true).run.run (fresh child checkStatus stdout stderr kills) =
    (.ok true, ended child checkStatus stdout stderr kills) := rfl

theorem finished_fresh_false : (finished false).run.run (fresh child checkStatus stdout stderr kills) =
    (.ok false, fresh child checkStatus stdout stderr kills) := rfl

theorem run_bind_ok {α β : Type} {x : M α} {f : α → M β} {p' : LocalRemoteProcess} {a : α}
    (h : x.run.run p = (.ok a, p')) : (x >>= f).run.run p = (f a).run.run p' := by
  simp only [ExceptT.run_bind, StateT.run_bind, h]
  rfl

theorem run_get (p : LocalRemoteProcess) : (get : M LocalRemoteProcess).run.run p = (.ok p, p) := rfl

theorem run_ite (c : Prop) [Decidable c] (x y : M Unit) (p : LocalRemoteProcess) :
    (if c then x else y).run.run p = if c then x.run.run p else y.run.run p := by
  split <;> rfl

theorem wait_ended (child : Child) (checkStatus : Bool) (stdout stderr : List String) (kills : Nat)
    (e : Bool) : (wait e).run.run (ended child checkStatus stdout stderr kills) =
      (checked true child, ended child checkStatus stdout stderr kills) := by
  rw [wait, run_bind_ok (finished_ended e), if_pos rfl, run_bind_ok (run_get _), run_ite]
  by_cases h : child.status = 0
  · rw [if_neg (by simp [ended, h]), checked, if_neg (by simp [h])]
    rfl
  · rw [if_pos (by simp [ended, h]), checked, if_pos ⟨rfl, h⟩]
    rfl

theorem wait_fresh_true : (wait true).run.run (fresh child checkStatus stdout stderr kills) =
    (checked true child, ended child checkStatus stdout stderr kills) := by
  have hwait := wait_ended child checkStatus stdout stderr kills true
  rw [wait, run_bind_ok (finished_ended true)] at hwait
  rw [wait, run_bind_ok finished_fresh_true, hwait]

theorem wait_fresh_false : (wait false).run.run (fresh child checkStatus stdout stderr kills) =
    (checked checkStatus child, ended child checkStatus stdout stderr kills) := by
  rw [wait, run_bind_ok finished_fresh_false, if_neg Bool.false_ne_true, run_bind_ok collect_fresh,
    run_bind_ok (run_get _), run_ite]
  by_cases h : checkStatus = true ∧ child.status ≠ 0
  · rw [if_pos (by simpa [ended] using h), checked, if_pos h]
    rfl
  · rw [if_neg (by simpa [ended] using h), checked, if_neg h]
    rfl

theorem call_ended (c : Call) (e : Bool) :
    (c.run e).run.run (ended child checkStatus stdout stderr kills) =
      (if c = .wait then checked true child else .ok (), ended child checkStatus stdout stderr kills) := by
  cases c with
  | finished | kill => rfl
  | wait => exact wait_ended _ _ _ _ _ e

theorem call_fresh_true (c : Call) :
    (c.run true).run.run (fresh child checkStatus stdout stderr kills) =
      (if c = .wait then checked true child else .ok (), ended child checkStatus stdout stderr kills) := by
  cases c with
  | finished | kill => rfl
  | wait => exact wait_fresh_true

theorem call_fresh_false (child : Child) (checkStatus : Bool) (stdout stderr : List String) (kills : Nat)
    (hc : c ≠ .wait) : ∃ kills', (c.run false).run.run (fresh child checkStatus stdout stderr kills) =
      (.ok (), fresh child checkStatus stdout stderr kills') := by
  cases c with
  | finished => exact ⟨kills, rfl⟩
  | wait => exact absurd rfl hc
  | kill => exact ⟨kills + 1, rfl⟩

theorem checked_true_eq_iff :
    checked true child = checked checkStatus child ↔ checkStatus = true ∨ child.status = 0 := by
  unfold checked
  by_cases h : child.status = 0 <;> cases checkStatus <;> simp [h]

/-! ### Sequences of calls -/

def Record.Sound (child : Child) (checkStatus : Bool) (r : Record) : Prop :=
  r.call = .wait → r.outcome = checked checkStatus child ∧ r.after.exitstatus = some child.status

theorem trace_cons {q : LocalRemoteProcess} {e : Bool} (he : decide (moment ≤ i) = e)
    (h : (c.run e).run.run p = (o, q)) : trace moment i (c :: calls) p =
      (⟨c, o, q⟩ :: (trace moment (i + 1) calls q).1, (trace moment (i + 1) calls q).2) := by
  rw [trace, he, h]

/-- Every `wait` is sound, and the output of the child is in the sinks once. -/
def Faithful (child : Child) (checkStatus : Bool) (stdout stderr : List String)
    (t : List Record × LocalRemoteProcess) : Prop :=
  (∀ r ∈ t.1, r.Sound child checkStatus) ∧ t.2.stdout = stdout ++ [child.out] ∧
    t.2.stderr = stderr ++ [child.err]

theorem trace_ended (child : Child) (checkStatus : Bool) (stdout stderr : List String) (kills : Nat)
    (moment i : Nat) (calls : List Call) :
    (trace moment i calls (ended child checkStatus stdout stderr kills)).2 =
        ended child checkStatus stdout stderr kills ∧
      ((∀ r ∈ (trace moment i calls (ended child checkStatus stdout stderr kills)).1,
          r.Sound child checkStatus) ↔ (checkStatus = true ∨ child.status = 0) ∨ .wait ∉ calls) := by
  induction calls generalizing i with
  | nil => exact ⟨rfl, by simp [trace]⟩
  | cons c calls ih =>
    obtain ⟨hlast, hsound⟩ := ih (i + 1)
    rw [trace_cons rfl (call_ended c _)]
    refine ⟨hlast, ?_⟩
    rw [forall_mem_cons, hsound]
    by_cases hc : c = .wait
    · have hhead : Record.Sound child checkStatus
          ⟨.wait, checked true child, ended child checkStatus stdout stderr kills⟩ ↔
            checkStatus = true ∨ child.status = 0 := by
        simp [Record.Sound, checked_true_eq_iff, ended]
      rw [hc, if_pos rfl, hhead]
      simp only [mem_cons, true_or, not_true, or_false]
      exact and_iff_left_of_imp .inl
    · simp [hc, Record.Sound, Ne.symm hc]

def Early (moment i : Nat) (calls : List Call) : Prop :=
  ∀ before after, calls = before ++ .wait :: after → i + before.length < moment ∧ .wait ∉ before

theorem early_wait : Early moment i (.wait :: calls) ↔ i < moment ∧ .wait ∉ calls := by
  constructor
  · intro h
    refine ⟨(h [] calls rfl).1, fun hmem => ?_⟩
    obtain ⟨before, after, rfl⟩ := append_of_mem hmem
    exact (h (.wait :: before) after rfl).2 (.head _)
  · rintro ⟨hlt, hnot⟩ before after heq
    cases before with
    | nil => exact ⟨hlt, not_mem_nil⟩
    | cons c before =>
      rw [cons_append, List.cons.injEq] at heq
      exact absurd (heq.2 ▸ mem_append_right _ (.head _)) hnot

theorem early_other (hc : c ≠ .wait) : Early moment i (c :: calls) ↔ Early moment (i + 1) calls := by
  constructor
  · rintro h before after rfl
    obtain ⟨hlt, hnot⟩ := h (c :: before) after rfl
    rw [length_cons] at hlt
    exact ⟨by omega, fun hmem => hnot (.tail _ hmem)⟩
  · intro h before after heq
    cases before with
    | nil =>
      rw [nil_append, List.cons.injEq] at heq
      exact absurd heq.1 hc
    | cons d before =>
      rw [cons_append, List.cons.injEq] at heq
      obtain ⟨rfl, hcalls⟩ := heq
      obtain ⟨hlt, hnot⟩ := h before after hcalls
      rw [length_cons, mem_cons, not_or]
      exact ⟨by omega, Ne.symm hc, hnot⟩

theorem early_iff_of_le (h : moment ≤ i) : Early moment i calls ↔ .wait ∉ calls := by
  constructor
  · intro hearly hmem
    obtain ⟨before, after, rfl⟩ := append_of_mem hmem
    have hlt := (hearly before after rfl).1
    omega
  · rintro hnot before after rfl
    exact absurd (mem_append_right _ (.head _)) hnot

theorem faithful_cons_ended {e : Bool} (he : decide (moment ≤ i) = e)
    (h : (c.run e).run.run p = (o, ended child checkStatus stdout stderr kills)) :
    Faithful child checkStatus stdout stderr (trace moment i (c :: calls) p) ↔
      (c = .wait → o = checked checkStatus child) ∧
        ((checkStatus = true ∨ child.status = 0) ∨ .wait ∉ calls) := by
  obtain ⟨hlast, hsound⟩ := trace_ended child checkStatus stdout stderr kills moment (i + 1) calls
  have hhead : Record.Sound child checkStatus ⟨c, o, ended child checkStatus stdout stderr kills⟩ ↔
      (c = .wait → o = checked checkStatus child) := by
    simp [Record.Sound, ended]
  rw [Faithful, trace_cons he h, forall_mem_cons, hhead, hsound, hlast]
  simp [ended]

theorem faithful_fresh (child : Child) (checkStatus : Bool) (stdout stderr : List String) (kills : Nat)
    (hi : i ≤ moment) (calls : List Call) : Faithful child checkStatus stdout stderr
        (trace moment i calls (fresh child checkStatus stdout stderr kills)) ↔
      ((checkStatus = true ∨ child.status = 0) ∨ Early moment i calls) ∧
        (.wait ∈ calls ∨ moment < i + calls.length) := by
  induction calls generalizing i kills with
  | nil => simp [Faithful, trace, fresh, hi]
  | cons c calls ih =>
    by_cases hle : moment ≤ i
    · have hseen : moment < i + (c :: calls).length := by
        rw [length_cons]
        omega
      have hhead : (c = .wait → (if c = .wait then checked true child else .ok ()) =
          checked checkStatus child) ↔ (checkStatus = true ∨ child.status = 0) ∨ .wait ≠ c := by
        by_cases hc : c = .wait
        · simp [hc, checked_true_eq_iff]
        · simp [hc, Ne.symm hc]
      rw [faithful_cons_ended (decide_eq_true hle) (call_fresh_true c), hhead, early_iff_of_le hle,
        mem_cons, not_or, or_and_left]
      exact (and_iff_left (.inr hseen)).symm
    · by_cases hc : c = .wait
      · have hlt : i < moment := Nat.lt_of_not_le hle
        rw [hc, faithful_cons_ended (c := .wait) (decide_eq_false hle) wait_fresh_false, early_wait]
        simp [hlt]
      · obtain ⟨kills', hstep⟩ := call_fresh_false child checkStatus stdout stderr kills hc
        have hlength : i + (c :: calls).length = i + 1 + calls.length := by
          rw [length_cons]
          omega
        have hhead : Record.Sound child checkStatus
            ⟨c, .ok (), fresh child checkStatus stdout stderr kills'⟩ := fun h => absurd h hc
        have hrest := ih kills' (Nat.lt_of_not_le hle)
        rw [Faithful] at hrest
        rw [Faithful, trace_cons (decide_eq_false hle) hstep, forall_mem_cons, and_iff_right hhead,
          hrest, early_other hc, mem_cons, hlength]
        simp [Ne.symm hc]

end Calls

/-- **The process behaves as a remote one** exactly when the status need not be ignored, or at most one
`wait` comes and before the child's end; and when some call sees the end at all. -/
theorem process_faithful_iff (child : Child) (checkStatus : Bool) (stdout stderr : List String)
    (moment : Nat) (calls : List Call) : Faithful child checkStatus stdout stderr
        (trace moment 0 calls (start child checkStatus stdout stderr)) ↔
      ((checkStatus = true ∨ child.status = 0) ∨
        ∀ before after, calls = before ++ .wait :: after → before.length < moment ∧ .wait ∉ before) ∧
        (.wait ∈ calls ∨ moment < calls.length) := by
  have hfresh := faithful_fresh child checkStatus stdout stderr 0 (Nat.zero_le moment) calls
  simp only [Early, Nat.zero_add] at hfresh
  exact hfresh

/-- The child has ended with status 1 before it is waited for, and nobody asked for a check. -/
theorem wait_raises_unasked : (trace 0 0 [.wait] (start ⟨1, "", ""⟩ false [] [])).1.map Record.outcome =
        [.error (.command (.failed 1))] ∧ checked false ⟨1, "", ""⟩ = .ok () := by
  decide

end ZbkcTasks.VstartProcess
