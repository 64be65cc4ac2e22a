import Mathlib.Data.Finset.Basic
import Mathlib.Data.Finset.Dedup
import Mathlib.Data.Finset.Filter
import Mathlib.Data.List.Infix

/-! The directories of a file system and the commands that make and remove them. A path is the list of its
names from the root down. In commands joined by `&&` the first failure ends the list. -/

/-- A finite set of directories with the root and, with a directory, everything above it. -/
structure DirTree (ν : Type) where
  dirs : Finset (List ν)
  root_mem : [] ∈ dirs
  above_mem : ∀ {p q : List ν}, p <+: q → q ∈ dirs → p ∈ dirs

namespace DirTree

open List

variable {ν : Type}

instance : Membership (List ν) (DirTree ν) := ⟨fun t p => p ∈ t.dirs⟩

theorem mem_def {t : DirTree ν} {p : List ν} : p ∈ t ↔ p ∈ t.dirs := Iff.rfl

@[ext] theorem ext {t t' : DirTree ν} (h : ∀ p, p ∈ t ↔ p ∈ t') : t = t' := by
  cases t
  cases t'
  congr
  exact Finset.ext h

def bare (ν : Type) : DirTree ν where
  dirs := {[]}
  root_mem := Finset.mem_singleton_self _
  above_mem h hq := by
    rw [Finset.mem_singleton] at hq ⊢
    rw [hq] at h
    exact prefix_nil.mp h

variable [DecidableEq ν] {t t' : DirTree ν} {p q : List ν}

instance (t : DirTree ν) (p : List ν) : Decidable (p ∈ t) := inferInstanceAs (Decidable (p ∈ t.dirs))

/-! ### Commands -/

def mkdirs (t : DirTree ν) (p : List ν) : DirTree ν where
  dirs := t.dirs ∪ p.inits.toFinset
  root_mem := Finset.mem_union_left _ t.root_mem
  above_mem h hq := by
    simp only [Finset.mem_union, mem_toFinset, mem_inits] at hq ⊢
    exact hq.imp (t.above_mem h) h.trans

/-- `rm -rf p`. The root itself stays. -/
def remove (t : DirTree ν) (p : List ν) : DirTree ν where
  dirs := t.dirs.filter fun q => q = [] ∨ ¬ p <+: q
  root_mem := Finset.mem_filter.mpr ⟨t.root_mem, .inl rfl⟩
  above_mem := by
    intro q q' h hq'
    rw [Finset.mem_filter] at hq' ⊢
    refine ⟨t.above_mem h hq'.1, hq'.2.imp (fun hnil => ?_) fun hp hpq => hp (hpq.trans h)⟩
    rw [hnil] at h
    exact prefix_nil.mp h

def Occupied (t : DirTree ν) (p : List ν) : Prop := ∃ q ∈ t.dirs, p <+: q ∧ q ≠ p

instance (t : DirTree ν) (p : List ν) : Decidable (t.Occupied p) :=
  inferInstanceAs (Decidable (∃ q ∈ t.dirs, p <+: q ∧ q ≠ p))

inductive Cmd (ν : Type)
  | stat (p : List ν)
  | mkdir (p : List ν)
  | mkdirs (p : List ν)
  | rmdir (p : List ν)
  | remove (p : List ν)
  deriving DecidableEq

def Cmd.Works (t : DirTree ν) : Cmd ν → Prop
  | .stat p => p ∈ t
  | .mkdir p => p ∉ t ∧ p.dropLast ∈ t
  | .mkdirs _ => True
  | .rmdir p => p ∈ t ∧ p ≠ [] ∧ ¬ t.Occupied p
  | .remove _ => True

instance (t : DirTree ν) : DecidablePred (Cmd.Works t)
  | .stat p => inferInstanceAs (Decidable (p ∈ t))
  | .mkdir p => inferInstanceAs (Decidable (p ∉ t ∧ p.dropLast ∈ t))
  | .mkdirs _ => inferInstanceAs (Decidable True)
  | .rmdir p => inferInstanceAs (Decidable (p ∈ t ∧ p ≠ [] ∧ ¬ t.Occupied p))
  | .remove _ => inferInstanceAs (Decidable True)

def Cmd.apply (t : DirTree ν) : Cmd ν → DirTree ν
  | .stat _ => t
  | .mkdir p => t.mkdirs p
  | .mkdirs p => t.mkdirs p
  | .rmdir p => t.remove p
  | .remove p => t.remove p

/-- Commands joined by `&&`: whether all of them worked, and what they leave. -/
def script (t : DirTree ν) : List (Cmd ν) → Bool × DirTree ν
  | [] => (true, t)
  | c :: cs => if c.Works t then script (c.apply t) cs else (false, t)

variable {cs : List (Cmd ν)} {c : Cmd ν}

theorem script_cons_of_works (h : c.Works t) : t.script (c :: cs) = (c.apply t).script cs := if_pos h

theorem script_cons_of_not_works (h : ¬ c.Works t) : t.script (c :: cs) = (false, t) := if_neg h

@[simp] theorem script_remove : t.script (.remove p :: cs) = (t.remove p).script cs :=
  script_cons_of_works trivial

@[simp] theorem script_mkdirs : t.script (.mkdirs p :: cs) = (t.mkdirs p).script cs :=
  script_cons_of_works trivial

theorem script_stat (h : p ∈ t) : t.script (.stat p :: cs) = t.script cs :=
  script_cons_of_works h

theorem script_mkdir (h : p ∉ t) (habove : p.dropLast ∈ t) :
    t.script (.mkdir p :: cs) = (t.mkdirs p).script cs := script_cons_of_works ⟨h, habove⟩

theorem script_rmdir (h : p ∈ t) (hne : p ≠ []) (hempty : ¬ t.Occupied p) :
    t.script (.rmdir p :: cs) = (t.remove p).script cs := script_cons_of_works ⟨h, hne, hempty⟩

/-! ### What they leave -/

@[simp] theorem mem_mkdirs : q ∈ t.mkdirs p ↔ q ∈ t ∨ q <+: p := by
  simp [mem_def, mkdirs, mem_inits]

theorem mkdirs_eq_self (h : p ∈ t) : t.mkdirs p = t := by
  ext q
  rw [mem_mkdirs]
  exact or_iff_left_of_imp fun hq => t.above_mem hq h

theorem mem_remove (hp : p ≠ []) : q ∈ t.remove p ↔ q ∈ t ∧ ¬ p <+: q := by
  simp only [mem_def, remove, Finset.mem_filter, and_congr_right_iff, or_iff_right_iff_imp]
  rintro - rfl h
  exact hp (prefix_nil.mp h)

theorem mem_of_mem_remove (h : q ∈ t.remove p) : q ∈ t := (Finset.mem_filter.mp h).1

def Cmd.Removes : Cmd ν → Prop
  | .rmdir _ => True
  | .remove _ => True
  | _ => False

instance : DecidablePred (Cmd.Removes (ν := ν))
  | .stat _ => inferInstanceAs (Decidable False)
  | .mkdir _ => inferInstanceAs (Decidable False)
  | .mkdirs _ => inferInstanceAs (Decidable False)
  | .rmdir _ => inferInstanceAs (Decidable True)
  | .remove _ => inferInstanceAs (Decidable True)

theorem mem_of_mem_apply (hc : c.Removes) (h : q ∈ c.apply t) : q ∈ t := by
  cases c with
  | rmdir | remove => exact mem_of_mem_remove h
  | stat p => exact h
  | mkdir | mkdirs => exact hc.elim

theorem mem_of_mem_script (hcs : ∀ c ∈ cs, c.Removes) (h : q ∈ (t.script cs).2) : q ∈ t := by
  induction cs generalizing t with
  | nil => exact h
  | cons c cs ih =>
    rw [script] at h
    split at h
    · exact mem_of_mem_apply (hcs c (.head _)) (ih (fun c' hc' => hcs c' (.tail _ hc')) h)
    · exact h

/-! ### Work in directories -/

def removeAll (t : DirTree ν) (ps : List (List ν)) : DirTree ν := ps.foldl remove t

theorem mem_removeAll {ps : List (List ν)} (hps : ∀ p ∈ ps, p ≠ []) :
    q ∈ t.removeAll ps ↔ q ∈ t ∧ ∀ p ∈ ps, ¬ p <+: q := by
  induction ps generalizing t with
  | nil => simp [removeAll]
  | cons p ps ih =>
    obtain ⟨hp, hps⟩ := forall_mem_cons.mp hps
    rw [removeAll, foldl_cons, ← removeAll, ih hps, mem_remove hp, forall_mem_cons, and_assoc]

/-- The directories `ps` are made with all that is above them; nothing else changes outside of them. -/
def WorksIn (ps : List (List ν)) (t t' : DirTree ν) : Prop :=
  ∀ q, (∀ p ∈ ps, ¬ p <+: q) → (q ∈ t' ↔ q ∈ t ∨ ∃ p ∈ ps, q <+: p)

theorem exists_worksIn (ps : List (List ν)) (t : DirTree ν) : ∃ t', WorksIn ps t t' := by
  have hmem : ∀ q, q ∈ ps.foldl mkdirs t ↔ q ∈ t ∨ ∃ p ∈ ps, q <+: p := by
    intro q
    induction ps generalizing t with
    | nil => simp
    | cons p ps ih => simp [ih, or_assoc]
  exact ⟨ps.foldl mkdirs t, fun q _ => hmem q⟩

end DirTree
