import Mathlib.Data.Finset.Basic
import Mathlib.Data.Finset.Dedup
import Mathlib.Data.Finset.Filter
import Mathlib.Data.List.Infix

/-! A file system with bind mounts. A directory that is bound to a mount point is reached under both
names; removing a tree takes the contents of what is mounted in it, but no mount point. -/

structure MountTree (ν : Type) where
  nodes : Finset (List ν)
  mounts : List (List ν × List ν)

namespace MountTree

variable {ν : Type} [DecidableEq ν]

/-- The mount that decides where a path leads: the one deepest down, and of several there the newest. -/
def nearest (p : List ν) : List (List ν × List ν) → Option (List ν × List ν)
  | [] => none
  | m :: ms =>
      if m.1 <+: p ∧ ∀ m' ∈ nearest p ms, m'.1.length ≤ m.1.length then some m else nearest p ms

def resolve (t : MountTree ν) (p : List ν) : List ν :=
  (nearest p t.mounts).elim p fun m => m.2 ++ p.drop m.1.length

def names (t : MountTree ν) (x : List ν) : List (List ν) :=
  (x :: (t.mounts.filter fun m => m.2 <+: x).map fun m => m.1 ++ x.drop m.2.length).filter
    fun q => t.resolve q = x

/-- `rm -r p` comes across the node, and not at a mount point or above one. -/
def Takes (t : MountTree ν) (p x : List ν) : Prop :=
  ∃ q ∈ t.names x, p <+: q ∧ ∀ m ∈ t.mounts, ¬ q <+: m.1

instance (t : MountTree ν) (p x : List ν) : Decidable (t.Takes p x) :=
  inferInstanceAs (Decidable (∃ q ∈ t.names x, p <+: q ∧ ∀ m ∈ t.mounts, ¬ q <+: m.1))

inductive Cmd (ν : Type)
  | test (p : List ν)
  | mkdir (p : List ν)
  | mkdirs (p : List ν)
  | bind (dir point : List ν)
  | umount (point : List ν)
  | removeTree (p : List ν)
  deriving DecidableEq

def exec (t : MountTree ν) : Cmd ν → Bool × MountTree ν
  | .test p => (decide (t.resolve p ∈ t.nodes), t)
  | .mkdir p =>
      if t.resolve p ∉ t.nodes ∧ t.resolve p.dropLast ∈ t.nodes then
        (true, { t with nodes := insert (t.resolve p) t.nodes })
      else (false, t)
  | .mkdirs p => (true, { t with nodes := t.nodes ∪ (p.inits.map t.resolve).toFinset })
  | .bind dir point =>
      if t.resolve dir ∈ t.nodes ∧ t.resolve point ∈ t.nodes then
        (true, { t with mounts := (point, t.resolve dir) :: t.mounts })
      else (false, t)
  | .umount point =>
      if ∃ m ∈ t.mounts, m.1 = point then
        (true, { t with mounts := t.mounts.eraseP fun m => m.1 = point })
      else (false, t)
  | .removeTree p =>
      (decide (t.resolve p ∈ t.nodes ∧ ∀ m ∈ t.mounts, ¬ p <+: m.1),
        { t with nodes := t.nodes.filter fun x => ¬ t.Takes p x })

variable {t : MountTree ν} {p x : List ν} {ms : List (List ν × List ν)}

theorem exec_mkdir (hp : t.resolve p ∉ t.nodes) (habove : t.resolve p.dropLast ∈ t.nodes) :
    t.exec (.mkdir p) = (true, { t with nodes := insert (t.resolve p) t.nodes }) := if_pos ⟨hp, habove⟩

theorem exec_bind {dir point : List ν} (hdir : t.resolve dir ∈ t.nodes)
    (hpoint : t.resolve point ∈ t.nodes) :
    t.exec (.bind dir point) = (true, { t with mounts := (point, t.resolve dir) :: t.mounts }) :=
  if_pos ⟨hdir, hpoint⟩

theorem exec_umount {point dir : List ν} (h : t.mounts = (point, dir) :: ms) :
    t.exec (.umount point) = (true, { t with mounts := ms }) := by
  have hmounted : ∃ m ∈ t.mounts, m.1 = point := ⟨(point, dir), by rw [h]; exact (.head _), rfl⟩
  have herase : (t.mounts.eraseP fun m => m.1 = point) = ms := by
    rw [h, List.eraseP_cons_of_pos (by simp)]
  simp only [exec, if_pos hmounted, herase]

theorem mem_of_nearest {m : List ν × List ν} (h : nearest p ms = some m) : m ∈ ms ∧ m.1 <+: p := by
  induction ms with
  | nil => cases h
  | cons m' ms ih =>
    rw [nearest] at h
    split at h
    · rename_i hm'
      cases h
      exact ⟨.head _, hm'.1⟩
    · exact ⟨.tail _ (ih h).1, (ih h).2⟩

theorem resolve_eq_or (t : MountTree ν) (p : List ν) :
    t.resolve p = p ∨ ∃ m ∈ t.mounts, m.1 <+: p ∧ m.2 <+: t.resolve p := by
  unfold resolve
  cases h : nearest p t.mounts with
  | none => exact .inl rfl
  | some m =>
    obtain ⟨hm, hp⟩ := mem_of_nearest h
    exact .inr ⟨m, hm, hp, List.prefix_append _ _⟩

theorem resolve_of_outside (h : ∀ m ∈ t.mounts, ¬ m.1 <+: p) : t.resolve p = p := by
  rcases t.resolve_eq_or p with hp | ⟨m, hm, hp, -⟩
  · exact hp
  · exact absurd hp (h m hm)

/-- With nothing mounted, a tree is removed with all that is in it. -/
theorem takes_of_no_mounts (h : t.mounts = []) : t.Takes p x ↔ p <+: x := by
  have hx : t.resolve x = x := resolve_of_outside (by simp [h])
  simp [Takes, names, h, hx]

end MountTree
