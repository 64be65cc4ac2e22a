import Mathlib.Data.List.Basic
import ZbkcTasks.PyProg
import ZbkcTasks.PyValue

/-! The tasks `zbkc-fuse` and `kclient`, nested in each other. Both keep the mounts of a job in
`ctx.mounts`: the first unmounts what it was not asked to mount, the second puts a dictionary of its own
there. -/

namespace ZbkcTasks.MountTasks

open List Prog

/-! ### The tasks -/

abbrev ClientId := String

inductive Kind
  | fuse
  | kernel
  deriving DecidableEq

structure Mount where
  kind : Kind
  clientId : ClientId
  serial : Nat
  deriving DecidableEq

structure ClientConfig where
  id : ClientId
  mounted : Bool
  debug : Bool

structure Task where
  kind : Kind
  clients : List ClientConfig
  disabled : Bool

abbrev Mounts := List (ClientId × Mount)

structure Ctx where
  mounts : Option Mounts
  created : List Mount

inductive Command
  | mount (m : Mount)
  | waitUntilMounted (m : Mount)
  | umountWait (m : Mount)
  | umount (m : Mount)
  /-- `echo 'module {name} +p' > /sys/kernel/debug/dynamic_debug/control`. -/
  | debugModule (id : ClientId) (name : String)

inductive Op
  | command (c : Command)
  | isMounted (m : Mount)
  | inside

abbrev Ans : Op → Type
  | .command _ => Except CommandError Unit
  | .isMounted _ => Except CommandError Bool
  | .inside => Except PyError Unit

abbrev sig : Sig := ⟨Op, Ans⟩

abbrev M := Prog sig Ctx PyError

def run (c : Command) : M Unit := .op (.command c) ofCommand

def newMount (kind : Kind) (id : ClientId) : M Mount :=
  .read fun s =>
    let m : Mount := ⟨kind, id, s.created.length⟩
    .write { s with created := s.created ++ [m] } (.ret m)

def setMounts (mounts : Mounts) : M Unit := .read fun s => .write { s with mounts := some mounts } (.ret ())

/-- `if mount.is_mounted(): mount.umount()`, or `mount.umount_wait()`. -/
def unmountIfMounted (umount : Mount → Command) (m : Mount) : M Unit := do
  let mounted ← .op (.isMounted m) ofCommand
  onlyIf (mounted = true) (run (umount m))

/-- What is there already must be a `FuseMount`. `all_mounts` is `ctx.mounts` itself if `shared`. -/
def fuseMountFor (shared : Bool) (id : ClientId) (all : Mounts) : M (Mounts × Mount) :=
  (all.lookup id).elim
    (do
      let m ← newMount .fuse id
      onlyIf (shared = true) (setMounts (all ++ [(id, m)]))
      return (all ++ [(id, m)], m))
    fun m => do
      pyAssert (m.kind = .fuse) ""
      return (all, m)

def construct (shared disabled : Bool) : List ClientConfig → Mounts → Mounts → M (Mounts × Mounts)
  | [], all, mine => .ret (all, mine)
  | c :: cs, all, mine => do
      let found ← fuseMountFor shared c.id all
      if disabled = false ∧ c.mounted = true then
        construct shared disabled cs found.1 (mine ++ [(c.id, found.2)])
      else construct shared disabled cs found.1 mine

section Programs

-- the order in which Python goes through the values of a dictionary or the elements of a set
variable (order : List Mount → List Mount)

def values (mounts : Mounts) : List Mount := order (mounts.map Prod.snd)

def enterFuse (t : Task) : M Mounts := .read fun s => do
  let found ← construct s.mounts.isSome t.disabled t.clients (s.mounts.getD []) []
  setMounts found.1
  forEach (values order found.2) fun m => run (.mount m)
  forEach (values order found.2) fun m => run (.waitUntilMounted m)
  forEach (values order (found.1.filter fun item => !(found.2.map Prod.fst).contains item.1))
    (unmountIfMounted .umountWait)
  return found.2

def kernelMounts (disabled : Bool) : List ClientConfig → Mounts → M Mounts
  | [], mounts => .ret mounts
  | c :: cs, mounts =>
      if disabled = true ∨ c.mounted = false then kernelMounts disabled cs mounts
      else do
        let m ← newMount .kernel c.id
        onlyIf (c.debug = true) do
          run (.debugModule c.id "zbkc")
          run (.debugModule c.id "libzbkc")
        run (.mount m)
        kernelMounts disabled cs (mounts ++ [(c.id, m)])

def enterKernel (t : Task) : M Mounts := do
  let mounts ← kernelMounts t.disabled t.clients []
  setMounts mounts
  return mounts

def enter (t : Task) : M Mounts := match t.kind with
  | .fuse => enterFuse order t
  | .kernel => enterKernel t

def Kind.umount : Kind → Mount → Command
  | .fuse => .umountWait
  | .kernel => .umount

/-- The dictionary of a `kclient` is `ctx.mounts` itself, to which an inner `zbkc-fuse` may have added
mounts. The inner task has unmounted these, so the loop would pass over them. -/
def exit (t : Task) (mine : Mounts) : M Unit := forEach (values order mine) (unmountIfMounted t.kind.umount)

def nest : List Task → M Unit
  | [] => .op .inside orThrow
  | t :: ts => enter order t >>= fun mine => (nest ts).finallyDo (exit order t mine)

end Programs

/-! ### Commands that succeed -/

def Command.effect : Command → List ClientId → List ClientId
  | .mount m, x => m.clientId :: x
  | .waitUntilMounted _, x => x
  | .umountWait m, x => x.filter fun c => decide (c ≠ m.clientId)
  | .umount m, x => x.filter fun c => decide (c ≠ m.clientId)
  | .debugModule _ _, x => x

/-- The mounted clients. All commands succeed; what runs inside the tasks may raise, and may unmount. -/
def env : Env sig Ctx (List ClientId)
  | .command c, s, x, ans, s', x' => s' = s ∧ ans = .ok () ∧ x' = c.effect x
  | .isMounted m, s, x, ans, s', x' => s' = s ∧ ans = .ok (x.contains m.clientId) ∧ x' = x
  | .inside, s, x, _, s', x' => s' = s ∧ ∀ c ∈ x', c ∈ x

abbrev W := World sig Ctx (List ClientId)

abbrev does {α : Type} (A : Op → Ctx → List ClientId → Prop) (p : M α) (P : α → W → Prop) (w : W) : Prop :=
  wp env A p (returns P) w

structure Made (ids : List ClientId) (new : Mounts) (w w' : W) : Prop where
  keys : new.map Prod.fst = ids
  own : ∀ item ∈ new, item.2.clientId = item.1
  created : w'.st.created = w.st.created ++ new.map Prod.snd

variable {w w' : W} {c : ClientId} {mounts : Mounts} {tasks : List Task} {new : Mounts}
  {umount : Mount → Command}

theorem Made.clientIds {ids : List ClientId} (h : Made ids new w w') :
    (new.map Prod.snd).map Mount.clientId = ids := by
  rw [← h.keys, map_map]
  exact map_congr_left h.own

section Steps

variable {A : Op → Ctx → List ClientId → Prop} (hA : ∀ o s x, o ≠ .inside → A o s x)

include hA

theorem does_run (c : Command) :
    does A (run c) (fun _ w' => w'.st = w.st ∧ w'.ext = c.effect w.ext) w := by
  refine ⟨hA _ _ _ (by simp), fun ans s x hE => ?_⟩
  obtain ⟨rfl, rfl, rfl⟩ := hE
  exact ⟨rfl, rfl⟩

theorem does_mountAll (ms : List Mount) : does A (forEach ms fun m => run (.mount m))
      (fun _ w' => w'.st = w.st ∧ ∀ c, c ∈ w'.ext ↔ c ∈ w.ext ∨ c ∈ ms.map Mount.clientId) w := by
  induction ms generalizing w with
  | nil => exact ⟨rfl, fun c => by simp⟩
  | cons m ms ih =>
    apply wp_seq (does_run hA (.mount m))
    rintro _ w1 ⟨hst1, hext1⟩
    apply wp_result _ ih
    rintro _ w2 ⟨hst2, hext2⟩
    refine ⟨hst2.trans hst1, fun c => ?_⟩
    rw [hext2, hext1, Command.effect, map_cons, mem_cons, mem_cons]
    tauto

theorem does_waitAll (ms : List Mount) : does A (forEach ms fun m => run (.waitUntilMounted m))
      (fun _ w' => w'.st = w.st ∧ w'.ext = w.ext) w := by
  induction ms generalizing w with
  | nil => exact ⟨rfl, rfl⟩
  | cons m ms ih =>
    apply wp_seq (does_run hA (.waitUntilMounted m))
    rintro _ w1 ⟨hst1, hext1⟩
    apply wp_result _ ih
    rintro _ w2 ⟨hst2, hext2⟩
    exact ⟨hst2.trans hst1, hext2.trans hext1⟩

theorem does_unmountIfMounted (m : Mount)
    (humount : ∀ x, (umount m).effect x = x.filter fun c => decide (c ≠ m.clientId)) :
    does A (unmountIfMounted umount m)
      (fun _ w' => w'.st = w.st ∧ ∀ c, c ∈ w'.ext ↔ c ∈ w.ext ∧ c ≠ m.clientId) w := by
  refine ⟨hA _ _ _ (by simp), fun ans s x hE => ?_⟩
  obtain ⟨rfl, rfl, rfl⟩ := hE
  show does A (onlyIf (w.ext.contains m.clientId = true) (run (umount m))) _ _
  rw [onlyIf]
  split
  next =>
    apply wp_result _ (does_run hA (umount m))
    rintro _ w1 ⟨hst1, hext1⟩
    refine ⟨hst1, fun c => ?_⟩
    rw [hext1, humount]
    simp
  next hnot =>
    refine ⟨rfl, fun c => ⟨fun hc => ⟨hc, ?_⟩, fun hc => hc.1⟩⟩
    rintro rfl
    exact hnot (by simpa using hc)

theorem does_unmountAll (humount : ∀ m x, (umount m).effect x = x.filter fun c => decide (c ≠ m.clientId))
    (ms : List Mount) : does A (forEach ms (unmountIfMounted umount))
      (fun _ w' => w'.st = w.st ∧ ∀ c, c ∈ w'.ext ↔ c ∈ w.ext ∧ c ∉ ms.map Mount.clientId) w := by
  induction ms generalizing w with
  | nil => exact ⟨rfl, fun c => by simp⟩
  | cons m ms ih =>
    apply wp_seq (does_unmountIfMounted hA m (humount m))
    rintro _ w1 ⟨hst1, hext1⟩
    apply wp_result _ ih
    rintro _ w2 ⟨hst2, hext2⟩
    refine ⟨hst2.trans hst1, fun c => ?_⟩
    rw [hext2, hext1, map_cons, mem_cons]
    tauto

omit hA in
theorem does_fuseMountFor (shared : Bool) {id : ClientId} {all : Mounts} (hnone : all.lookup id = none) :
    does A (fuseMountFor shared id all) (fun found w' => ∃ m, found = (all ++ [(id, m)], m) ∧
      m.clientId = id ∧ w'.st.created = w.st.created ++ [m] ∧ w'.ext = w.ext) w := by
  rw [fuseMountFor, hnone, Option.elim_none]
  cases shared with
  | true | false => exact ⟨_, rfl, rfl, rfl, rfl⟩

omit hA in
theorem does_construct (shared : Bool) (cs : List ClientConfig) (hmounted : ∀ c ∈ cs, c.mounted = true)
    (hnodup : (cs.map ClientConfig.id).Nodup) (all mine : Mounts)
    (hfresh : ∀ c ∈ cs, all.lookup c.id = none) :
    does A (construct shared false cs all mine) (fun found w' => ∃ new, found = (all ++ new, mine ++ new) ∧
      Made (cs.map ClientConfig.id) new w w' ∧ w'.ext = w.ext) w := by
  induction cs generalizing all mine w with
  | nil => exact ⟨[], by simp, ⟨rfl, by simp, by simp⟩, rfl⟩
  | cons c cs ih =>
    obtain ⟨hc, hcs⟩ := forall_mem_cons.mp hmounted
    obtain ⟨hnone, hnones⟩ := forall_mem_cons.mp hfresh
    obtain ⟨hnot, hnodup⟩ := nodup_cons.mp hnodup
    apply wp_seq (does_fuseMountFor shared hnone)
    rintro _ w1 ⟨m, rfl, hid, hcreated1, hext1⟩
    have hfresh1 : ∀ c' ∈ cs, (all ++ [(c.id, m)]).lookup c'.id = none := by
      intro c' hc'
      have hne : c'.id ≠ c.id := fun heq => hnot (heq ▸ mem_map_of_mem hc')
      rw [lookup_append, hnones c' hc', Option.none_or, lookup_cons,
        beq_eq_false_iff_ne.mpr hne]
      rfl
    rw [if_pos ⟨rfl, hc⟩]
    apply wp_result _ (ih hcs hnodup _ _ hfresh1)
    rintro _ w2 ⟨new, rfl, hmade, hext2⟩
    refine ⟨(c.id, m) :: new, by simp, ⟨?_, ?_, ?_⟩, hext2.trans hext1⟩
    · rw [map_cons, map_cons, hmade.keys]
    · exact forall_mem_cons.mpr ⟨hid, hmade.own⟩
    · rw [hmade.created, hcreated1, map_cons, append_assoc, singleton_append]

theorem does_kernelMounts (cs : List ClientConfig) (hmounted : ∀ c ∈ cs, c.mounted = true)
    (mounts : Mounts) :
    does A (kernelMounts false cs mounts) (fun found w' => ∃ new, found = mounts ++ new ∧
      Made (cs.map ClientConfig.id) new w w' ∧
      ∀ c, c ∈ w'.ext ↔ c ∈ w.ext ∨ c ∈ cs.map ClientConfig.id) w := by
  induction cs generalizing mounts w with
  | nil => exact ⟨[], by simp, ⟨rfl, by simp, by simp⟩, by simp⟩
  | cons c cs ih =>
    obtain ⟨hc, hcs⟩ := forall_mem_cons.mp hmounted
    rw [kernelMounts, if_neg (by simp [hc])]
    let m : Mount := ⟨.kernel, c.id, w.st.created.length⟩
    let w1 : W := { w with st := { w.st with created := w.st.created ++ [m] } }
    have hnew : does A (newMount .kernel c.id) (fun m' w' => m' = m ∧ w' = w1) w := ⟨rfl, rfl⟩
    apply wp_seq hnew
    rintro _ _ ⟨rfl, rfl⟩
    have hdebug : does A (onlyIf (c.debug = true) (run (.debugModule c.id "zbkc") >>=
        fun _ => run (.debugModule c.id "libzbkc")))
        (fun _ w' => w'.st = w1.st ∧ w'.ext = w1.ext) w1 := by
      rw [onlyIf]
      split
      next =>
        apply wp_seq (does_run hA _)
        rintro _ w' ⟨hst', hext'⟩
        apply wp_result _ (does_run hA _)
        rintro _ w'' ⟨hst'', hext''⟩
        exact ⟨hst''.trans hst', hext''.trans hext'⟩
      next => exact ⟨rfl, rfl⟩
    apply wp_seq hdebug
    rintro _ w2 ⟨hst2, hext2⟩
    apply wp_seq (does_run hA (.mount m))
    rintro _ w3 ⟨hst3, hext3⟩
    apply wp_result _ (ih hcs _)
    rintro _ w4 ⟨new, rfl, hmade, hext4⟩
    refine ⟨(c.id, m) :: new, by simp, ⟨?_, ?_, ?_⟩, fun c' => ?_⟩
    · rw [map_cons, map_cons, hmade.keys]
    · exact forall_mem_cons.mpr ⟨rfl, hmade.own⟩
    · rw [hmade.created, hst3, hst2, map_cons]
      rw [append_assoc, singleton_append]
    · rw [hext4, hext3, hext2, Command.effect, map_cons, mem_cons, mem_cons]
      tauto

end Steps

/-! ### Entering a task -/

def Task.ids (t : Task) : List ClientId := t.clients.map ClientConfig.id

structure Task.Plain (t : Task) : Prop where
  enabled : t.disabled = false
  mounted : ∀ c ∈ t.clients, c.mounted = true

def Ctx.registry (s : Ctx) : Mounts := s.mounts.getD []

/-- The clients are mounted, and `ctx.mounts` maps them, and no others, to their mount objects. -/
structure Composed (ids : List ClientId) (s : Ctx) (x : List ClientId) : Prop where
  mounted : ∀ c ∈ ids, c ∈ x
  keys : ∀ c, (∃ m, s.registry.lookup c = some m) ↔ c ∈ ids
  own : ∀ c m, s.registry.lookup c = some m → m.clientId = c ∧ m ∈ s.created

def Lost (c : ClientId) (w : W) : Prop := c ∉ w.ext ∨ w.st.registry.lookup c = none

/-- `ctx.mounts` knows clients of earlier tasks only, with their own objects. -/
def Orderly (seen : List ClientId) (w : W) : Prop :=
  ∀ item ∈ w.st.registry, item.2.clientId = item.1 ∧ item.2 ∈ w.st.created ∧ item.1 ∈ seen

/-- What entering a task leads to. -/
structure Entered (t : Task) (seen : List ClientId) (mine : Mounts) (w w' : W) : Prop where
  clientIds : (mine.map Prod.snd).map Mount.clientId = t.ids
  orderly : Orderly (seen ++ t.ids) w'
  within : ∀ c ∈ w'.ext, c ∈ w.ext ∨ c ∈ t.ids
  lost : ∀ c, c ∉ t.ids → Lost c w'
  composed : seen = [] → Composed t.ids w'.st w'.ext

theorem lookup_eq_none_of_notMem (h : ∀ item ∈ mounts, item.1 ≠ c) : mounts.lookup c = none := by
  rw [lookup_eq_none_iff]
  intro item hitem
  simpa using (h item hitem).symm

theorem exists_lookup (h : c ∈ mounts.map Prod.fst) : ∃ m, mounts.lookup c = some m := by
  obtain ⟨item, hitem, rfl⟩ := mem_map.mp h
  by_contra hnone
  have hnone : mounts.lookup item.1 = none :=
    Option.eq_none_iff_forall_not_mem.mpr fun m hm => hnone ⟨m, hm⟩
  exact absurd (lookup_eq_none_iff.mp hnone item hitem) (by simp)

theorem Made.lookup_iff {ids : List ClientId} (h : Made ids new w w') (c : ClientId) :
    (∃ m, new.lookup c = some m) ↔ c ∈ ids := by
  rw [← h.keys]
  constructor
  · rintro ⟨m, hm⟩
    exact mem_map.mpr ⟨(c, m), mem_of_lookup hm, rfl⟩
  · exact exists_lookup

theorem Made.item {ids : List ClientId} (h : Made ids new w w') :
    ∀ item ∈ new, item.2.clientId = item.1 ∧ item.2 ∈ w'.st.created ∧ item.1 ∈ ids := by
  intro item hitem
  refine ⟨h.own item hitem, ?_, ?_⟩
  · rw [h.created]
    exact mem_append_right _ (mem_map_of_mem hitem)
  · rw [← h.keys]
    exact mem_map_of_mem hitem

theorem mem_others {all mine : Mounts} :
    c ∈ ((all.filter fun item => !(mine.map Prod.fst).contains item.1).map Prod.snd).map Mount.clientId ↔
      ∃ item ∈ all, item.1 ∉ mine.map Prod.fst ∧ item.2.clientId = c := by
  rw [map_map, mem_map]
  constructor
  · rintro ⟨item, hitem, rfl⟩
    obtain ⟨hall, hnot⟩ := mem_filter.mp hitem
    exact ⟨item, hall, by simpa using hnot, rfl⟩
  · rintro ⟨item, hall, hnot, rfl⟩
    exact ⟨item, mem_filter.mpr ⟨hall, by simpa using hnot⟩, rfl⟩

section Entering

variable {A : Op → Ctx → List ClientId → Prop} (hA : ∀ o s x, o ≠ .inside → A o s x)
variable {order : List Mount → List Mount} (horder : ∀ ms, (order ms).Perm ms)
variable {t : Task} {seen : List ClientId}

include hA

theorem does_enterKernel (hplain : t.Plain) :
    does A (enterKernel t) (fun mine w' => Entered t seen mine w w') w := by
  rw [enterKernel, hplain.enabled]
  apply wp_seq (does_kernelMounts hA t.clients hplain.mounted [])
  rintro new w1 ⟨_, rfl, hmade, hext⟩
  let w2 : W := { w1 with st := { w1.st with mounts := some new } }
  have hkeys : ∀ c, (∃ m, new.lookup c = some m) ↔ c ∈ t.ids := hmade.lookup_iff
  have hitem := hmade.item
  constructor
  · exact hmade.clientIds
  · intro item hnew
    obtain ⟨hown, hcreated, hid⟩ := hitem item hnew
    exact ⟨hown, hcreated, mem_append_right _ hid⟩
  · exact fun c hc => (hext c).mp hc
  · intro c hc
    exact .inr (Option.eq_none_iff_forall_not_mem.mpr fun m hm => hc ((hkeys c).mp ⟨m, hm⟩))
  · intro _
    refine ⟨fun c hc => (hext c).mpr (.inr hc), hkeys, fun c m hm => ?_⟩
    obtain ⟨hown, hcreated, -⟩ := hitem _ (mem_of_lookup hm)
    exact ⟨hown, hcreated⟩

include horder

omit hA in
theorem mem_values {mounts : Mounts} {c : ClientId} :
    c ∈ (values order mounts).map Mount.clientId ↔ c ∈ (mounts.map Prod.snd).map Mount.clientId :=
  ((horder _).map _).mem_iff

theorem does_mountMine (all mine : Mounts) :
    does A (do
      setMounts all
      forEach (values order mine) fun m => run (.mount m)
      forEach (values order mine) fun m => run (.waitUntilMounted m)
      forEach (values order (all.filter fun item => !(mine.map Prod.fst).contains item.1))
        (unmountIfMounted .umountWait)
      return mine)
      (fun found w' => found = mine ∧ w'.st = { w.st with mounts := some all } ∧
        ∀ c, c ∈ w'.ext ↔ (c ∈ w.ext ∨ c ∈ (mine.map Prod.snd).map Mount.clientId) ∧
          ∀ item ∈ all, item.1 ∉ mine.map Prod.fst → item.2.clientId ≠ c) w := by
  let w1 : W := { w with st := { w.st with mounts := some all } }
  apply wp_seq (show does A (setMounts all) (fun _ w' => w' = w1) w from rfl)
  rintro _ _ rfl
  apply wp_seq (does_mountAll hA (values order mine))
  rintro _ w2 ⟨hst2, hext2⟩
  apply wp_seq (does_waitAll hA (values order mine))
  rintro _ w3 ⟨hst3, hext3⟩
  apply wp_seq (does_unmountAll hA (fun _ _ => rfl) _)
  rintro _ w4 ⟨hst4, hext4⟩
  refine ⟨rfl, ?_, fun c => ?_⟩
  · rw [hst4, hst3, hst2]
  · rw [hext4, hext3, hext2, mem_values horder, mem_values horder]
    rw [mem_others]
    simp only [not_exists, not_and]
    rfl

theorem does_enterFuse (hplain : t.Plain) (hnodup : t.ids.Nodup) (hdisjoint : ∀ c ∈ t.ids, c ∉ seen)
    (hw : Orderly seen w) : does A (enterFuse order t) (fun mine w' => Entered t seen mine w w') w := by
  have hfresh : ∀ c ∈ t.clients, w.st.registry.lookup c.id = none := by
    intro c hc
    apply lookup_eq_none_of_notMem
    rintro item hitem heq
    exact hdisjoint c.id (mem_map_of_mem hc) (heq ▸ (hw item hitem).2.2)
  show does A (construct w.st.mounts.isSome t.disabled t.clients w.st.registry [] >>= _) _ w
  rw [hplain.enabled]
  apply wp_seq (does_construct _ t.clients hplain.mounted hnodup w.st.registry [] hfresh)
  rintro _ w1 ⟨new, rfl, hmade, hext1⟩
  apply wp_result _ (does_mountMine hA horder (w.st.registry ++ new) ([] ++ new))
  rintro mine w2 ⟨hmine, hst2, hext2⟩
  obtain rfl : mine = new := hmine
  have hregistry : w2.st.registry = w.st.registry ++ mine := by
    rw [hst2]
    rfl
  have hcreated : w2.st.created = w.st.created ++ mine.map Prod.snd := by
    rw [hst2]
    exact hmade.created
  have hall : ∀ item ∈ w2.st.registry, item.2.clientId = item.1 ∧ item.2 ∈ w2.st.created ∧
      item.1 ∈ seen ++ t.ids := by
    intro item hitem
    rw [hregistry] at hitem
    rcases mem_append.mp hitem with hold | hnew
    · obtain ⟨hown, hmem, hid⟩ := hw item hold
      rw [hcreated]
      exact ⟨hown, mem_append_left _ hmem, mem_append_left _ hid⟩
    · obtain ⟨hown, hmem, hid⟩ := hmade.item item hnew
      rw [hst2]
      exact ⟨hown, hmem, mem_append_right _ hid⟩
  rw [nil_append, hmade.clientIds, hext1] at hext2
  constructor
  · exact hmade.clientIds
  · exact hall
  · exact fun c hc => ((hext2 c).mp hc).1
  · intro c hc
    cases hlookup : w2.st.registry.lookup c with
    | none => exact .inr hlookup
    | some m =>
      -- known, but not one of ours: it has been unmounted
      have hitem := mem_of_lookup hlookup
      have hkey : c ∉ mine.map Prod.fst := by rwa [hmade.keys]
      refine .inl fun hmounted => ?_
      rw [hregistry] at hitem
      exact ((hext2 c).mp hmounted).2 (c, m) hitem hkey (hall (c, m) (hregistry ▸ hitem)).1
  · rintro rfl
    have hempty : w.st.registry = [] :=
      eq_nil_iff_forall_not_mem.mpr fun item hitem => not_mem_nil (hw item hitem).2.2
    rw [hempty, nil_append] at hregistry hext2
    refine ⟨fun c hc => (hext2 c).mpr ⟨.inr hc, ?_⟩, ?_, ?_⟩
    · exact fun item hitem hnot => absurd (mem_map_of_mem hitem) hnot
    · rw [hregistry]
      exact hmade.lookup_iff
    · intro c m hm
      obtain ⟨hown, hmem, -⟩ := hall _ (mem_of_lookup hm)
      exact ⟨hown, hmem⟩

theorem does_enter (hplain : t.Plain) (hnodup : t.ids.Nodup) (hdisjoint : ∀ c ∈ t.ids, c ∉ seen)
    (hw : Orderly seen w) : does A (enter order t) (fun mine w' => Entered t seen mine w w') w := by
  rw [enter]
  split
  next => exact does_enterFuse hA horder hplain hnodup hdisjoint hw
  next => exact does_enterKernel hA hplain

theorem does_exit (mine : Mounts) :
    does A (exit order t mine) (fun _ w' => ∀ c, c ∈ w'.ext ↔ c ∈ w.ext ∧
      c ∉ (mine.map Prod.snd).map Mount.clientId) w := by
  have humount : ∀ m x, (t.kind.umount m).effect x = x.filter fun c => decide (c ≠ m.clientId) := by
    intro m x
    cases t.kind with
    | fuse | kernel => rfl
  apply wp_result _ (does_unmountAll hA humount (values order mine))
  rintro _ w1 ⟨-, hext⟩ c
  rw [hext, mem_values horder]

end Entering

/-! ### Nesting -/

def allIds (tasks : List Task) : List ClientId := tasks.flatMap Task.ids

def OnlyInnermost (tasks : List Task) : Prop := ∀ t ∈ tasks.dropLast, t.clients = []

theorem allIds_eq_nil_iff : allIds tasks = [] ↔ ∀ t ∈ tasks, t.clients = [] := by
  simp [allIds, Task.ids, flatMap_eq_nil_iff]

/-- Where the tasks have been entered: those before the last have lost their clients. -/
structure Ready (tasks : List Task) (w : W) : Prop where
  orderly : Orderly (allIds tasks) w
  lost : ∀ c ∈ allIds tasks.dropLast, Lost c w
  composed : allIds tasks.dropLast = [] → Composed (allIds tasks) w.st w.ext

theorem Ready.composed_iff {w : W} (h : Ready tasks w) :
    Composed (allIds tasks) w.st w.ext ↔ OnlyInnermost tasks := by
  rw [OnlyInnermost, ← allIds_eq_nil_iff]
  constructor
  · intro hcomposed
    refine eq_nil_iff_forall_not_mem.mpr fun c hc => ?_
    have hmem : c ∈ allIds tasks := by
      obtain ⟨t, ht, hid⟩ := mem_flatMap.mp hc
      exact mem_flatMap.mpr ⟨t, mem_of_mem_dropLast ht, hid⟩
    rcases h.lost c hc with hnot | hnone
    · exact hnot (hcomposed.mounted c hmem)
    · obtain ⟨m, hm⟩ := (hcomposed.keys c).mpr hmem
      rw [hnone] at hm
      cases hm
  · exact h.composed

theorem Entered.ready {t : Task} {mine : Mounts} (h : Entered t (allIds tasks) mine w w')
    (hdisjoint : ∀ c ∈ t.ids, c ∉ allIds tasks) : Ready (tasks ++ [t]) w' := by
  have hids : allIds (tasks ++ [t]) = allIds tasks ++ t.ids := by simp [allIds]
  constructor
  · rw [hids]
    exact h.orderly
  · rw [dropLast_concat]
    exact fun c hc => h.lost c fun hid => hdisjoint c hid hc
  · rw [dropLast_concat, hids]
    intro hempty
    rw [hempty, nil_append]
    exact h.composed hempty

def InsideComposes (tasks : List Task) (o : Op) (s : Ctx) (x : List ClientId) : Prop :=
  o = .inside → (Composed (allIds tasks) s x ↔ OnlyInnermost tasks)

/-- No more clients are mounted than before, and the tests have been run. -/
structure Left (w : W) (r : Outcome PyError Unit) (w' : W) : Prop where
  ended : r ≠ .cut
  within : ∀ c ∈ w'.ext, c ∈ w.ext
  inside : ∃ e ∈ w'.log, e.op = .inside

section Nesting

variable {order : List Mount → List Mount} (horder : ∀ ms, (order ms).Perm ms)

include horder

/-- **Nesting.** With some tasks entered, the others are entered and left again. -/
theorem wp_nest (entered rest : List Task) (hplain : ∀ t ∈ rest, t.Plain)
    (hnodup : (allIds (entered ++ rest)).Nodup) {w : W} (hw : Ready entered w) :
    wp env (InsideComposes (entered ++ rest)) (nest order rest) (Left w) w := by
  have hA : ∀ o s x, o ≠ .inside → InsideComposes (entered ++ rest) o s x :=
    fun _ _ _ ho heq => absurd heq ho
  -- by induction on the tasks that are still to be entered
  induction rest generalizing entered w with
  | nil =>
    rw [append_nil]
    refine ⟨fun _ => hw.composed_iff, fun ans s x hE => ?_⟩
    obtain ⟨rfl, hwithin⟩ := hE
    have hinside : ∃ e ∈ (w.push .inside ans w.st x).log, e.op = .inside := ⟨_, .head _, rfl⟩
    cases ans with
    | ok | error => exact ⟨by simp, hwithin, hinside⟩
  | cons t rest ih =>
    obtain ⟨ht, hrest⟩ := forall_mem_cons.mp hplain
    have hassoc : entered ++ t :: rest = (entered ++ [t]) ++ rest := by simp
    have hsplit : allIds (entered ++ t :: rest) = allIds entered ++ (t.ids ++ allIds rest) := by
      simp [allIds]
    rw [hsplit] at hnodup
    obtain ⟨-, htail, hapart⟩ := nodup_append.mp hnodup
    have hdisjoint : ∀ c ∈ t.ids, c ∉ allIds entered :=
      fun c hc hseen => hapart c hseen c (mem_append_left _ hc) rfl
    refine wp_bind.mpr (wp_mono ?_
      (does_enter hA horder ht (nodup_append.mp htail).1 hdisjoint hw.orderly))
    rintro (mine | e | _) w1 hentered
    · rw [hassoc] at hA ⊢
      have hnest := ih (entered ++ [t]) hrest (by rwa [← hassoc, hsplit]) (hentered.ready hdisjoint) hA
      refine wp_finallyDo.mpr (wp_mono ?_ hnest)
      -- leaving the task takes away what entering it has added
      have hexit : ∀ (r : Outcome PyError Unit) (w2 : W), Left w1 r w2 →
          wp env (InsideComposes (entered ++ [t] ++ rest)) (exit order t mine)
            (chain (fun _ => Left w r) (Left w)) w2 := by
        intro r w2 hleft
        refine wp_mono ?_ (wp_log_suffix (does_exit hA horder mine))
        rintro (_ | e | _) w3 ⟨hext, hsuffix⟩
        · refine ⟨hleft.ended, fun c hc => ?_, ?_⟩
          · obtain ⟨hc2, hnot⟩ := (hext c).mp hc
            rw [hentered.clientIds] at hnot
            exact (hentered.within c (hleft.within c hc2)).resolve_right hnot
          · obtain ⟨e, he, hinside⟩ := hleft.inside
            exact ⟨e, hsuffix.subset he, hinside⟩
        · exact hext.elim
        · exact hext.elim
      rintro (_ | e | _) w2 hleft
      · exact hexit _ w2 hleft
      · exact hexit _ w2 hleft
      · exact absurd rfl hleft.ended
    all_goals exact hentered.elim

end Nesting

/-- **Nested tasks.** With different clients, every client is mounted and on record inside exactly if no
task but the innermost has clients; after all tasks no client is mounted. -/
theorem tasks_compose_iff {order : List Mount → List Mount} (horder : ∀ ms, (order ms).Perm ms)
    {tasks : List Task} (hplain : ∀ t ∈ tasks, t.Plain) (hdisjoint : (allIds tasks).Nodup)
    {r : Outcome PyError Unit} {w : W} (hrun : Exec env (nest order tasks) ⟨⟨none, []⟩, [], []⟩ r w) :
    (∃ e ∈ w.log, e.op = .inside) ∧
      (∀ e ∈ w.log, e.op = .inside → (Composed (allIds tasks) e.st e.ext ↔ OnlyInnermost tasks)) ∧
      w.ext = [] := by
  have hready : Ready [] ⟨⟨none, []⟩, [], []⟩ := by
    refine ⟨fun item hitem => ?_, fun c hc => ?_, fun _ => ⟨fun c hc => ?_, fun c => ?_, fun c m hm => ?_⟩⟩
    · cases hitem
    · cases hc
    · cases hc
    · exact iff_of_false (fun ⟨m, hm⟩ => by cases hm) not_mem_nil
    · cases hm
  have hwp := wp_nest horder [] tasks hplain hdisjoint hready
  have hleft := wp_post hwp hrun
  refine ⟨hleft.inside, wp_events hwp hrun rfl, ?_⟩
  exact eq_nil_iff_forall_not_mem.mpr fun c hc => not_mem_nil (hleft.within c hc)

/-! ### Two clients -/

def passing : (o : Op) → Ctx → List ClientId → Ans o × Ctx × List ClientId
  | .command c, s, x => (.ok (), s, c.effect x)
  | .isMounted m, s, x => (.ok (x.contains m.clientId), s, x)
  | .inside, s, x => (.ok (), s, x)

theorem env_passing (o : Op) (s : Ctx) (x : List ClientId) :
    env o s x (passing o s x).1 (passing o s x).2.1 (passing o s x).2.2 := by
  cases o with
  | command | isMounted => exact ⟨rfl, rfl, rfl⟩
  | inside => exact ⟨rfl, fun _ hc => hc⟩

def plainTask (kind : Kind) (ids : List ClientId) : Task :=
  ⟨kind, ids.map fun id => ⟨id, true, false⟩, false⟩

theorem plainTask_plain (kind : Kind) (ids : List ClientId) : (plainTask kind ids).Plain := by
  refine ⟨rfl, fun c hc => ?_⟩
  obtain ⟨id, -, rfl⟩ := mem_map.mp hc
  rfl

theorem tasks_compose_one :
    ∃ w, Exec env (nest id [plainTask .fuse ["0", "1"]]) ⟨⟨none, []⟩, [], []⟩ (.ret ()) w ∧
      (∃ e ∈ w.log, e.op = .inside) ∧
      (∀ e ∈ w.log, e.op = .inside → (Composed (allIds [plainTask .fuse ["0", "1"]]) e.st e.ext ↔
        OnlyInnermost [plainTask .fuse ["0", "1"]])) ∧ w.ext = [] := by
  have hrun := exec_runWith env_passing (nest id [plainTask .fuse ["0", "1"]]) ⟨⟨none, []⟩, [], []⟩
  have hplain : ∀ t ∈ [plainTask .fuse ["0", "1"]], t.Plain := by
    intro t ht
    rw [mem_singleton.mp ht]
    exact plainTask_plain _ _
  exact ⟨_, hrun, tasks_compose_iff (fun _ => .refl _) hplain (by decide) hrun⟩

/-- `kclient: [client.1]` inside `zbkc-fuse: [client.0]`: `ctx.mounts` has lost the first. -/
theorem fuse_then_kernel_forgets :
    ∃ w e, Exec env (nest id [plainTask .fuse ["0"], plainTask .kernel ["1"]]) ⟨⟨none, []⟩, [], []⟩
        (.ret ()) w ∧ e ∈ w.log ∧ e.op = .inside ∧ e.ext = ["1", "0"] ∧
      e.st.mounts = some [("1", ⟨.kernel, "1", 1⟩)] ∧
      ¬ Composed (allIds [plainTask .fuse ["0"], plainTask .kernel ["1"]]) e.st e.ext := by
  have hrun := exec_runWith env_passing (nest id [plainTask .fuse ["0"], plainTask .kernel ["1"]])
    ⟨⟨none, []⟩, [], []⟩
  let forgotten : Ctx := ⟨some [("1", ⟨.kernel, "1", 1⟩)], [⟨.fuse, "0", 0⟩, ⟨.kernel, "1", 1⟩]⟩
  refine ⟨_, ⟨.inside, .ok (), forgotten, ["1", "0"]⟩, hrun, mem_of_getElem? (i := 4) rfl, rfl, rfl,
    rfl, ?_⟩
  intro hcomposed
  obtain ⟨m, hm⟩ := (hcomposed.keys "0").mpr (by decide)
  have hnone : forgotten.registry.lookup "0" = none := by decide
  rw [hnone] at hm
  cases hm

end ZbkcTasks.MountTasks
