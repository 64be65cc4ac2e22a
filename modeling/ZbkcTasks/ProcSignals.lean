import Mathlib.Logic.Function.Basic

/-! Processes that are stopped, continued, killed and started. In a list of allowed acts that leaves none
stopped, every STOP is answered by exactly one CONT before the next STOP or kill. -/

inductive ProcStatus
  | running
  | stopped
  | dead
  deriving DecidableEq

inductive ProcAct (α : Type)
  | stop (p : α)
  | cont (p : α)
  | kill (p : α)
  | start (p : α)
  deriving DecidableEq

namespace ProcAct

variable {α : Type} [DecidableEq α]

def target : ProcAct α → α
  | .stop p => p
  | .cont p => p
  | .kill p => p
  | .start p => p

/-- What an act does; STOP and CONT do nothing to a dead process. -/
def apply : ProcAct α → (α → ProcStatus) → α → ProcStatus
  | .stop p, f => if f p = .running then Function.update f p .stopped else f
  | .cont p, f => if f p = .stopped then Function.update f p .running else f
  | .kill p, f => Function.update f p .dead
  | .start p, f => Function.update f p .running

def Allowed : ProcAct α → (α → ProcStatus) → Prop
  | .stop p, f => f p = .running
  | .cont p, f => f p = .stopped
  | .kill p, f => f p = .running
  | .start p, f => f p = .dead

def replay (f : α → ProcStatus) (acts : List (ProcAct α)) : α → ProcStatus :=
  acts.foldl (fun f a => a.apply f) f

@[simp] theorem replay_nil (f : α → ProcStatus) : replay f [] = f := rfl

@[simp] theorem replay_cons (f : α → ProcStatus) (a : ProcAct α) (acts : List (ProcAct α)) :
    replay f (a :: acts) = replay (a.apply f) acts := rfl

@[simp] theorem replay_append (f : α → ProcStatus) (acts acts' : List (ProcAct α)) :
    replay f (acts ++ acts') = replay (replay f acts) acts' := List.foldl_append

def Legal : (α → ProcStatus) → List (ProcAct α) → Prop
  | _, [] => True
  | f, a :: acts => a.Allowed f ∧ Legal (a.apply f) acts

theorem legal_append {f : α → ProcStatus} {acts acts' : List (ProcAct α)} :
    Legal f (acts ++ acts') ↔ Legal f acts ∧ Legal (replay f acts) acts' := by
  induction acts generalizing f with
  | nil => simp [Legal]
  | cons a acts ih => simp [Legal, ih, and_assoc]

/-- How many CONTs `p` gets before it is next stopped or killed. -/
def contsBefore (p : α) : List (ProcAct α) → Nat
  | [] => 0
  | .stop q :: acts => if q = p then 0 else contsBefore p acts
  | .cont q :: acts => if q = p then contsBefore p acts + 1 else contsBefore p acts
  | .kill q :: acts => if q = p then 0 else contsBefore p acts
  | .start _ :: acts => contsBefore p acts

variable {f : α → ProcStatus} {acts : List (ProcAct α)} {p : α}

theorem apply_stop (h : f p = .running) : (stop p).apply f = Function.update f p .stopped := if_pos h

theorem apply_cont (h : f p = .stopped) : (cont p).apply f = Function.update f p .running := if_pos h

variable {a : ProcAct α}

theorem apply_of_ne (h : a.target ≠ p) : a.apply f p = f p := by
  have hne : p ≠ a.target := Ne.symm h
  cases a <;> simp only [apply, target] at hne ⊢
  case stop q => split <;> simp [hne]
  case cont q => split <;> simp [hne]
  case kill q => simp [hne]
  case start q => simp [hne]

theorem contsBefore_cons_of_ne (h : a.target ≠ p) : contsBefore p (a :: acts) = contsBefore p acts := by
  cases a with
  | stop | cont | kill => exact if_neg h
  | start q => rfl

theorem contsBefore_of_not_stopped (h : Legal f acts) (hp : f p ≠ .stopped) : contsBefore p acts = 0 := by
  induction acts generalizing f with
  | nil => rfl
  | cons a acts ih =>
    obtain ⟨hallowed, hrest⟩ := h
    by_cases ha : a.target = p
    · subst ha
      cases a with
      | stop | kill => exact if_pos rfl
      | cont q => exact absurd hallowed hp
      | start q => exact ih hrest (by simp [apply, target])
    · rw [contsBefore_cons_of_ne ha]
      exact ih hrest (by rwa [apply_of_ne ha])

theorem contsBefore_of_stopped (h : Legal f acts) (hp : f p = .stopped)
    (hend : replay f acts p ≠ .stopped) : contsBefore p acts = 1 := by
  induction acts generalizing f with
  | nil => exact absurd hp hend
  | cons a acts ih =>
    obtain ⟨hallowed, hrest⟩ := h
    by_cases ha : a.target = p
    · subst ha
      cases a with
      | cont q =>
        have hzero : contsBefore q acts = 0 :=
          contsBefore_of_not_stopped hrest (by rw [apply_cont hallowed]; simp)
        simp [contsBefore, target, hzero]
      | stop | kill | start => exact absurd (hallowed.symm.trans hp) (by decide)
    · rw [contsBefore_cons_of_ne ha]
      exact ih hrest (by rwa [apply_of_ne ha]) hend

/-- **One CONT for every STOP** in a list of allowed acts that leaves no process stopped. -/
theorem contsBefore_of_legal {before after : List (ProcAct α)} (h : Legal f (before ++ stop p :: after))
    (hend : replay f (before ++ stop p :: after) p ≠ .stopped) : contsBefore p after = 1 := by
  rw [legal_append] at h
  obtain ⟨-, hallowed, hafter⟩ := h
  have hrunning : replay f before p = .running := hallowed
  apply contsBefore_of_stopped hafter
  · simp [apply, hrunning]
  · simpa using hend

end ProcAct
