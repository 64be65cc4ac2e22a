import ZbkcTasks.DirTree
import ZbkcTasks.ProgCrew
import ZbkcTasks.PyProg

/-! The `workunit` task of `tasks/workunit.py`. Every remote command is one operation, and those of
parallel roles come in any order. The workunits succeed and leave nothing outside of their scratch
directory. -/

namespace ZbkcTasks.Workunit

open DirTree List Prog

/-- `config.get('subdir')`: not given, `False`, or a path below the mount point. -/
inductive Subdir
  | unset
  | off
  | path (names : List String)
  deriving DecidableEq

def Subdir.names : Subdir → List String
  | .unset => []
  | .off => []
  | .path names => names

/-- What `split_role` makes of a role. -/
structure Instance where
  cluster : String
  type : String
  id : String
  deriving DecidableEq

def clientMountpoint (cluster id : String) : String :=
  if cluster = "zbkc" then "mnt." ++ id else "mnt." ++ cluster ++ "." ++ id

namespace Instance

variable (i : Instance)

def mnt : String := clientMountpoint i.cluster i.id

def dir : String := "client." ++ i.id

def sub (subdir : Subdir) : List String := if subdir.names = [] then [i.dir] else subdir.names

/-- `scratch_tmp`. Joining a path with `False` raises. -/
def scratchTmp : Subdir → Except PyError (List String)
  | .unset => .ok [i.mnt, i.dir, "tmp"]
  | .off => .error (.attributeError "startswith")
  | .path names => .ok (i.mnt :: names)

end Instance

structure Cluster (Host : Type) where
  remotes : List (Host × List String)
  splitRole : String → Instance

namespace Cluster

variable {Host : Type} (c : Cluster Host)

def getRemote (i : Instance) : Except PyError Host :=
  match c.remotes.filter fun remote => remote.2.any fun role => decide (c.splitRole role = i) with
  | [remote] => .ok remote.1
  | _ => .error (.keyError ("Service " ++ i.cluster ++ "." ++ i.type ++ "." ++ i.id ++ " not found"))

def getRemoteForRole (role : String) : Except PyError Host := c.getRemote (c.splitRole role)

def isClient (role : String) : Bool := decide ((c.splitRole role).type = "client")

def clientRoles : List String := c.remotes.flatMap fun remote => remote.2.filter c.isClient

end Cluster

/-! ### Running tests -/

/-- The arguments of `_run_tests`. -/
structure Job where
  role : String
  tests : List String
  subdir : Subdir
  deriving DecidableEq

def srcdir (role : String) : List String := ["workunit." ++ role]

def clonedir (role : String) : List String := ["clone." ++ role]

def workunitsFile (role : String) : List String := ["workunits.list." ++ role]

/-- A remote command of `_run_tests`: one that works in directories, the reading of the list of workunits,
and `rm -rf`. -/
inductive Step (Host : Type)
  | work (host : Host) (dirs : List (List String)) (command : String)
  | list (host : Host) (role : String)
  | remove (host : Host) (paths : List (List String))

@[reducible] def Step.Ans {Host : Type} : Step Host → Type
  | .work _ _ _ => Bool
  | .list _ _ => List String
  | .remove _ _ => Bool

abbrev stepSig (Host : Type) : Sig := ⟨Step Host, Step.Ans⟩

abbrev T (Host : Type) := Prog (stepSig Host) Unit PyError

variable {Host : Type}

/-- The workunit is named by the spec, or lies in a directory that is. -/
def Matches (spec workunit : String) : Prop := workunit = spec ∨ (spec ++ "/").toList <+: workunit.toList

instance (spec workunit : String) : Decidable (Matches spec workunit) :=
  inferInstanceAs (Decidable (workunit = spec ∨ (spec ++ "/").toList <+: workunit.toList))

/-- One workunit in the scratch directory, which is removed behind it. -/
def runWorkunit (host : Host) (scratchTmp : List String) (workunit : String) : T Host Unit := do
  .op (.work host [scratchTmp] workunit) ofStatus
  .op (.remove host [scratchTmp]) ofStatus

def runSpec (host : Host) (scratchTmp : List String) (workunits : List String) (spec : String) :
    T Host Unit :=
  let toRun := workunits.filter fun workunit => decide (Matches spec workunit)
  if toRun = [] then .throw (.runtimeError ("Spec did not match any workunits: " ++ spec))
  else forEach toRun (runWorkunit host scratchTmp)

namespace Cluster

variable (c : Cluster Host)

def runTests (job : Job) : T Host Unit := do
  pyAssert (c.isClient job.role) "type_ == 'client'"
  let host ← orThrow (c.getRemoteForRole job.role)
  let scratchTmp ← orThrow ((c.splitRole job.role).scratchTmp job.subdir)
  .op (.work host [clonedir job.role, srcdir job.role] "git clone, git checkout, mv") ofStatus
  .op (.work host [srcdir job.role] "make, find") ofStatus
  let workunits ← Prog.op (.list host job.role) .ret
  pyAssert (workunits ≠ []) "workunits"
  finallyDo (forEach job.tests (runSpec host scratchTmp workunits))
    (.op (.remove host [workunitsFile job.role, srcdir job.role, clonedir job.role]) ofStatus)

end Cluster

/-! ### The task -/

/-- A remote command, its parts joined by `&&`, or a `with parallel()` that spawns `_run_tests`. -/
inductive Op (Host : Type)
  | run (host : Host) (cmds : List (DirTree.Cmd String))
  | parallel (jobs : List Job)
  deriving DecidableEq

@[reducible] def Op.Ans {Host : Type} : Op Host → Type
  | .run _ _ => Bool
  | .parallel _ => Outcome PyError Unit

abbrev sig (Host : Type) : Sig := ⟨Op Host, Op.Ans⟩

abbrev M (Host : Type) := Prog (sig Host) Unit PyError

def run (host : Host) (cmds : List (DirTree.Cmd String)) : M Host Unit := .op (.run host cmds) ofStatus

def ofOutcome : Outcome PyError Unit → M Host Unit
  | .ret _ => .ret ()
  | .exn e => .throw e
  | .cut => .cut

def parallel (jobs : List Job) : M Host Unit := .op (.parallel jobs) ofOutcome

def onCommandFailed {α : Type} (handler : M Host α) : PyError → M Host α
  | .command (.failed _) => handler
  | e => .throw e

def MentionsClient (role : String) : Prop := "client".toList <:+: role.toList

instance (role : String) : Decidable (MentionsClient role) :=
  inferInstanceAs (Decidable ("client".toList <:+: role.toList))

def specific (clients : List (String × List String)) : List (String × List String) :=
  clients.filter fun client => decide (client.1 ≠ "all")

def makeMountpoint (host : Host) (mnt : String) : M Host Bool :=
  catching (run host [.stat [mnt]] >>= fun _ => .ret false)
    (onCommandFailed (run host [.mkdir [mnt]] >>= fun _ => .ret true))

/-- `mkdir` below a mount point that was just made, `install -d` below any other. -/
def installCmd (created : Bool) (path : List String) : DirTree.Cmd String :=
  if created then .mkdir path else .mkdirs path

namespace Cluster

variable (c : Cluster Host)

def makeScratchDir (subdir : Subdir) (role : String) : M Host Bool := do
  let i := c.splitRole role
  let host ← orThrow (c.getRemoteForRole role)
  let created ← makeMountpoint host i.mnt
  -- the commands change to the mount point first
  run host [.stat [i.mnt], installCmd created (i.mnt :: i.sub subdir)]
  return created

def deleteDir (created : List (String × Bool)) (role : String) : M Host Unit := do
  let i := c.splitRole role
  let host ← orThrow (c.getRemoteForRole role)
  run host [.remove [i.mnt, i.dir]]
  if (created.lookup role).getD false then run host [.rmdir [i.mnt]]

/-- `items` is the order in which a dictionary is gone through whose keys were set in the given order. -/
def spawnOnAllClients (items : List String → List String) (subdir : Subdir) (tests : List String) :
    M Host Unit := do
  let created ← tabulate c.clientRoles (c.makeScratchDir subdir)
  forEach tests fun unit => parallel ((items c.clientRoles).map fun role => ⟨role, [unit], subdir⟩)
  forEach (items c.clientRoles) (c.deleteDir created)

def task (items : List String → List String) (clients : List (String × List String)) (subdir : Subdir) :
    M Host Unit := do
  let roles := (specific clients).map Prod.fst
  let created ← tabulate roles fun role => do
    pyAssert (MentionsClient role) "'client' in role"
    c.makeScratchDir subdir role
  parallel ((specific clients).map fun client => ⟨client.1, client.2, .unset⟩)
  forEach (items roles) (c.deleteDir created)
  (clients.lookup "all").elim (.ret ()) (c.spawnOnAllClients items subdir)

end Cluster

/-! ### Runs -/

/-- A cluster in which every role is on one host, with the workunits that its checkouts have. -/
structure Site (Host : Type) extends Cluster Host where
  placed : ∀ remote ∈ remotes, ∀ role ∈ remote.2, toCluster.getRemoteForRole role = .ok remote.1
  nodup : toCluster.clientRoles.Nodup
  workunits : List String
  workunits_ne : workunits ≠ []

abbrev Trees (Host : Type) := Host → DirTree String

abbrev W (Host : Type) := World (sig Host) Unit (Trees Host)

namespace Site

variable [DecidableEq Host] (s : Site Host)

def stepEnv : Env (stepSig Host) Unit (Trees Host) := fun o _ x ans _ x' =>
  match o, ans with
  | .work host dirs _, ok => ok = true ∧ WorksIn dirs (x host) (x' host) ∧
      ∀ other, other ≠ host → x' other = x other
  | .list _ _, workunits => workunits = s.workunits ∧ x' = x
  | .remove host paths, ok => ok = true ∧ x' = Function.update x host ((x host).removeAll paths)

def spawned (jobs : List Job) (job : Job) : T Host Unit := if job ∈ jobs then s.runTests job else .ret ()

def env : Env (sig Host) Unit (Trees Host) := fun o _ x ans _ x' =>
  match o, ans with
  | .run host cmds, ok =>
      ok = ((x host).script cmds).1 ∧ x' = Function.update x host ((x host).script cmds).2
  | .parallel jobs, r => Joins s.stepEnv (s.spawned jobs) x r x'

end Site

def Op.FailsCleanUp : (o : Op Host) → o.Ans → Prop
  | .run _ cmds, ok => (∃ cmd ∈ cmds, cmd.Removes) ∧ ok = false
  | .parallel _, _ => False

def Sound (w : W Host) : Prop := ∀ e ∈ w.log, ¬ e.op.FailsCleanUp e.ans

/-- No clean-up has failed, nothing is left of what was made since `x`, and the mount points that were there
are there. -/
structure Tidy (x : Trees Host) (w : W Host) : Prop where
  sound : Sound w
  removed : ∀ host p, p ∈ w.ext host → p ∈ x host
  kept : ∀ host cluster id,
    [clientMountpoint cluster id] ∈ x host → [clientMountpoint cluster id] ∈ w.ext host

/-! ### Paths -/

/-- The path belongs to the checkout of a role. -/
def Aside (p : List String) : Prop :=
  ∃ role, srcdir role <+: p ∨ clonedir role <+: p ∨ workunitsFile role <+: p

theorem append_ne_append {a b u v : String} (h : a.toList.head? ≠ b.toList.head?) (ha : a.toList ≠ [])
    (hb : b.toList ≠ []) : a ++ u ≠ b ++ v := by
  intro heq
  have hlist := congrArg (fun t => t.toList.head?) heq
  simp only [String.toList_append] at hlist
  rw [head?_append_of_ne_nil _ ha, head?_append_of_ne_nil _ hb] at hlist
  exact h hlist

theorem exists_clientMountpoint (cluster id : String) : ∃ t, clientMountpoint cluster id = "mnt." ++ t := by
  unfold clientMountpoint
  split
  · exact ⟨id, rfl⟩
  · exact ⟨cluster ++ "." ++ id, by rw [String.append_assoc, String.append_assoc, String.append_assoc]⟩

theorem not_aside_mountpoint (cluster id : String) (p : List String) :
    ¬ Aside (clientMountpoint cluster id :: p) := by
  obtain ⟨t, ht⟩ := exists_clientMountpoint cluster id
  rw [ht]
  have hne : ∀ a : String, a.toList.head? ≠ some 'm' → a.toList ≠ [] →
      ∀ role, ¬ [a ++ role] <+: ("mnt." ++ t) :: p := by
    intro a hhead ha role habove
    refine append_ne_append (a := a) (b := "mnt.") ?_ ha (by decide +kernel)
      (cons_prefix_cons.mp habove).1
    intro heq
    exact hhead (heq.trans (by decide +kernel))
  rintro ⟨role, habove | habove | habove⟩
  · exact hne "workunit." (by decide +kernel) (by decide +kernel) role habove
  · exact hne "clone." (by decide +kernel) (by decide +kernel) role habove
  · exact hne "workunits.list." (by decide +kernel) (by decide +kernel) role habove

theorem Aside.mono {p q : List String} (h : Aside p) (hpq : p <+: q) : Aside q := by
  obtain ⟨role, h⟩ := h
  exact ⟨role, h.imp (·.trans hpq) (Or.imp (·.trans hpq) (·.trans hpq))⟩

namespace Instance

/-- The path from the mount point to the scratch directory, if the joining does not raise. -/
def below (i : Instance) : Subdir → List String
  | .path names => names
  | _ => [i.dir, "tmp"]

def scratch (i : Instance) (subdir : Subdir) : List String := i.mnt :: i.below subdir

theorem scratchTmp_eq (i : Instance) {subdir : Subdir} (h : subdir ≠ .off) :
    i.scratchTmp subdir = .ok (i.scratch subdir) := by
  cases subdir with
  | unset | path => rfl
  | off => exact absurd rfl h

theorem length_scratch (i j : Instance) (subdir : Subdir) :
    (i.scratch subdir).length = (j.scratch subdir).length := by
  cases subdir with
  | unset | off | path => rfl

theorem not_aside_scratch (i : Instance) (subdir : Subdir) : ¬ Aside (i.scratch subdir) :=
  not_aside_mountpoint _ _ _

end Instance

namespace Cluster

variable {c : Cluster Host} {job job' : Job} {p q : List String}

def On (c : Cluster Host) (role : String) (host : Host) : Prop := c.getRemoteForRole role = .ok host

theorem On.eq {role : String} {host host' : Host} (h : c.On role host) (h' : c.On role host') :
    host = host' := Except.ok.inj (h.symm.trans h')

def areas (c : Cluster Host) (job : Job) : List (List String) :=
  (if job.tests = [] then [] else [(c.splitRole job.role).scratch job.subdir]) ++
    [workunitsFile job.role, srcdir job.role, clonedir job.role]

theorem scratch_mem_areas (h : job.tests ≠ []) :
    (c.splitRole job.role).scratch job.subdir ∈ c.areas job := by
  simp [areas, h]

theorem of_mem_areas (h : p ∈ c.areas job) :
    p = (c.splitRole job.role).scratch job.subdir ∨ p.length = 1 ∧ Aside p := by
  rcases mem_append.mp h with h | h
  · split at h
    · cases h
    · exact .inl (mem_singleton.mp h)
  · simp only [mem_cons, not_mem_nil, or_false] at h
    rcases h with rfl | rfl | rfl
    · exact .inr ⟨rfl, job.role, .inr (.inr prefix_rfl)⟩
    · exact .inr ⟨rfl, job.role, .inl prefix_rfl⟩
    · exact .inr ⟨rfl, job.role, .inr (.inl prefix_rfl)⟩

theorem length_pos_of_mem_areas (h : p ∈ c.areas job) : 0 < p.length := by
  rcases of_mem_areas h with rfl | ⟨hlen, -⟩
  · exact Nat.succ_pos _
  · omega

theorem eq_of_areas (hsub : job.subdir = job'.subdir) (hp : p ∈ c.areas job) (hq : q ∈ c.areas job')
    (h : p <+: q) : p = q := by
  have hpos := length_pos_of_mem_areas hp
  have hle := h.length_le
  refine h.eq_of_length ?_
  rcases of_mem_areas hq with rfl | ⟨hlen, -⟩
  · rcases of_mem_areas hp with rfl | ⟨-, haside⟩
    · rw [hsub]
      exact Instance.length_scratch _ _ _
    · exact absurd (haside.mono h) (Instance.not_aside_scratch _ _)
  · omega

end Cluster

/-! ### Jobs side by side -/

def Step.Within (host : Host) (areas : List (List String)) : Step Host → Prop
  | .work host' dirs _ => host' = host ∧ ∀ p ∈ dirs, p ∈ areas
  | .list _ _ => True
  | .remove host' paths => host' = host ∧ ∀ p ∈ paths, p ∈ areas

variable {r : Outcome PyError Unit}

section Jobs

variable {s : Site Host} {jobs : List Job} {x₀ x x' : Trees Host} {g : Job → List String → Prop} {job : Job}
  {host : Host} {A : Step Host → Unit → (List String → Prop) → Prop}

/-- A job notes which directories it has removed since it last worked in them. -/
def Site.notesEnv (s : Site Host) : Env (stepSig Host) Unit (List String → Prop) := fun o _ g ans _ g' =>
  match o, ans with
  | .work _ dirs _, ok => ok = true ∧ g' = fun p => g p ∧ p ∉ dirs
  | .list _ _, workunits => workunits = s.workunits ∧ g' = g
  | .remove _ paths, ok => ok = true ∧ g' = fun p => g p ∨ p ∈ paths

/-- What the jobs have made of `x₀`: nothing has changed outside of their areas. -/
structure Site.Changed (s : Site Host) (jobs : List Job) (x₀ : Trees Host) (g : Job → List String → Prop)
    (x : Trees Host) : Prop where
  upper : ∀ host q, q ∈ x host → q ∈ x₀ host ∨
    ∃ job ∈ jobs, s.On job.role host ∧ ∃ p ∈ s.areas job, q <+: p ∨ p <+: q
  lower : ∀ host q, q ∈ x₀ host →
    (∀ job ∈ jobs, s.On job.role host → ∀ p ∈ s.areas job, ¬ p <+: q) → q ∈ x host
  dirty : ∀ host q, q ∈ x host → ∀ job ∈ jobs, s.On job.role host → ∀ p ∈ s.areas job, p <+: q →
    ∃ job' ∈ jobs, s.On job'.role host ∧ p ∈ s.areas job' ∧ ¬ g job' p

theorem Site.Changed.refl (s : Site Host) (jobs : List Job) (x : Trees Host) :
    s.Changed jobs x (fun _ _ => False) x where
  upper _ _ hq := .inl hq
  lower _ _ hq _ := hq
  dirty _ _ _ job hjob hon _ hp _ := ⟨job, hjob, hon, hp, not_false⟩

abbrev JobW (Host : Type) := World (stepSig Host) Unit (List String → Prop)

variable {scratch : List String}

theorem wp_runWorkunit {workunit : String} {w : JobW Host}
    (hwork : ∀ u g, A (.work host [scratch] workunit) u g)
    (hremove : ∀ u g, A (.remove host [scratch]) u g) :
    wp s.notesEnv A (runWorkunit host scratch workunit)
      (returns fun _ w' => (∀ p, w.ext p → w'.ext p) ∧ w'.ext scratch) w := by
  refine ⟨hwork _ _, ?_⟩
  rintro _ _ _ ⟨rfl, rfl⟩
  refine ⟨hremove _ _, ?_⟩
  rintro _ _ _ ⟨rfl, rfl⟩
  refine ⟨fun p hp => ?_, .inr (mem_singleton_self _)⟩
  by_cases hscratch : p ∈ [scratch]
  · exact .inr hscratch
  · exact .inl ⟨hp, hscratch⟩

theorem wp_forEach_scratch {α : Type} {f : α → T Host Unit} {xs : List α}
    (hf : ∀ a ∈ xs, ∀ w : JobW Host, wp s.notesEnv A (f a)
      (returns fun _ w' => (∀ p, w.ext p → w'.ext p) ∧ w'.ext scratch) w) (w : JobW Host) :
    wp s.notesEnv A (forEach xs f)
      (returns fun _ w' => (∀ p, w.ext p → w'.ext p) ∧ (xs ≠ [] → w'.ext scratch)) w := by
  induction xs generalizing w with
  | nil => exact ⟨fun _ hp => hp, fun h => absurd rfl h⟩
  | cons a xs ih =>
    obtain ⟨ha, hxs⟩ := forall_mem_cons.mp hf
    refine wp_seq (ha w) ?_
    rintro _ w1 ⟨hmono1, hscratch1⟩
    refine wp_result ?_ (ih hxs w1)
    rintro _ w2 ⟨hmono2, -⟩
    exact ⟨fun p hp => hmono2 p (hmono1 p hp), fun _ => hmono2 scratch hscratch1⟩

theorem wp_runSpec {spec : String} (hmatch : ∃ workunit ∈ s.workunits, Matches spec workunit)
    (hwork : ∀ command u g, A (.work host [scratch] command) u g)
    (hremove : ∀ u g, A (.remove host [scratch]) u g) (w : JobW Host) :
    wp s.notesEnv A (runSpec host scratch s.workunits spec)
      (returns fun _ w' => (∀ p, w.ext p → w'.ext p) ∧ w'.ext scratch) w := by
  have hne : (s.workunits.filter fun workunit => decide (Matches spec workunit)) ≠ [] := by
    obtain ⟨workunit, hmem, hmatch⟩ := hmatch
    exact ne_nil_of_mem (mem_filter.mpr ⟨hmem, decide_eq_true hmatch⟩)
  rw [runSpec, if_neg hne]
  refine wp_result ?_
    (wp_forEach_scratch (fun workunit _ _ => wp_runWorkunit (hwork workunit) hremove) w)
  exact fun _ w' h => ⟨h.1, h.2 hne⟩

/-- A job that finds its role and the workunits it is to run. -/
structure Site.Runs (s : Site Host) (job : Job) : Prop where
  client : s.isClient job.role = true
  on : ∃ host, s.On job.role host
  subdir_ne : job.subdir ≠ .off
  specs : ∀ spec ∈ job.tests, ∃ workunit ∈ s.workunits, Matches spec workunit

theorem wp_runTests (h : s.Runs job) (hon : s.On job.role host) (w : JobW Host) :
    wp s.notesEnv (fun o _ _ => o.Within host (s.areas job)) (s.runTests job)
      (returns fun _ w' => ∀ p ∈ s.areas job, w'.ext p) w := by
  have haside : ∀ p ∈ [workunitsFile job.role, srcdir job.role, clonedir job.role], p ∈ s.areas job :=
    fun p hp => mem_append_right _ hp
  have hsrc : srcdir job.role ∈ s.areas job := haside _ (by simp)
  have hclone : clonedir job.role ∈ s.areas job := haside _ (by simp)
  have hscratch : job.tests ≠ [] →
      ∀ p ∈ [(s.splitRole job.role).scratch job.subdir], p ∈ s.areas job := fun htests =>
    forall_mem_singleton.mpr (Cluster.scratch_mem_areas htests)
  have hloop : ∀ w0 : JobW Host,
      wp s.notesEnv (fun o _ _ => o.Within host (s.areas job))
        (forEach job.tests (runSpec host ((s.splitRole job.role).scratch job.subdir) s.workunits))
        (returns fun _ w' => (∀ p, w0.ext p → w'.ext p) ∧
          (job.tests ≠ [] → w'.ext ((s.splitRole job.role).scratch job.subdir))) w0 :=
    wp_forEach_scratch fun spec hspec => wp_runSpec (h.specs spec hspec)
      (fun _ _ _ => ⟨rfl, hscratch (ne_nil_of_mem hspec)⟩)
      fun _ _ => ⟨rfl, hscratch (ne_nil_of_mem hspec)⟩
  have hremote : s.getRemoteForRole job.role = .ok host := hon
  rw [Cluster.runTests, h.client, hremote, Instance.scratchTmp_eq _ h.subdir_ne]
  refine ⟨⟨rfl, ?_⟩, ?_⟩
  · simp [hsrc, hclone]
  rintro _ _ _ ⟨rfl, rfl⟩
  refine ⟨⟨rfl, by simp [hsrc]⟩, ?_⟩
  rintro _ _ _ ⟨rfl, rfl⟩
  refine ⟨trivial, ?_⟩
  rintro _ _ _ ⟨rfl, rfl⟩
  have hlisted : (pyAssert (s.workunits ≠ []) "workunits" : T Host Unit) = .ret () := by
    simp [pyAssert, s.workunits_ne]
  show wp _ _ (pyAssert (s.workunits ≠ []) "workunits" >>= fun _ => _) _ _
  rw [hlisted]
  refine wp_finallyDo.mpr (wp_mono ?_ (hloop _))
  rintro (_ | e | _) w1 hw1
  · refine ⟨⟨rfl, haside⟩, ?_⟩
    rintro _ _ _ ⟨rfl, rfl⟩
    intro p hp
    rcases mem_append.mp hp with hp | hp
    · split at hp
      · cases hp
      · rename_i htests
        rw [mem_singleton.mp hp]
        exact .inl (hw1.2 htests)
    · exact .inr hp
  · exact hw1.elim
  · exact hw1.elim

theorem keeps_spawned (hruns : ∀ job ∈ jobs, s.Runs job) :
    (⟨s.spawned jobs, x⟩ : Crew (stepSig Host) (Trees Host) PyError Job).Keeps (fun _ => s.notesEnv)
      (fun job o => job ∈ jobs ∧ ∃ host, s.On job.role host ∧ o.Within host (s.areas job))
      (fun job r g => r = .ret () ∧ (job ∈ jobs → ∀ p ∈ s.areas job, g p)) (fun _ _ => False) := by
  intro job
  refine ⟨⟨(), fun _ => False, []⟩, rfl, ?_⟩
  show wp _ _ (s.spawned jobs job) _ _
  by_cases hjob : job ∈ jobs
  · obtain ⟨host, hon⟩ := (hruns job hjob).on
    rw [Site.spawned, if_pos hjob]
    refine wp_mono ?_ (wp_assert_mono ?_ (wp_runTests (hruns job hjob) hon _))
    · rintro (_ | e | _) w hw
      · exact ⟨rfl, fun _ => hw⟩
      · exact hw.elim
      · exact hw.elim
    · exact fun o _ _ ho => ⟨hjob, host, hon, ho⟩
  · rw [Site.spawned, if_neg hjob]
    exact ⟨rfl, fun h => absurd h hjob⟩

/-- What jobs of the roles leave: `y` differs from `x` only in scratch directories, those above them, and
checkouts. -/
structure Site.Worked (s : Site Host) (roles : List String) (subdir : Subdir) (swept : Prop)
    (x y : Trees Host) : Prop where
  upper : ∀ host q, q ∈ y host →
    q ∈ x host ∨ ∃ role ∈ roles, s.On role host ∧ q <+: (s.splitRole role).scratch subdir
  lower : ∀ host q, ¬ Aside q → q ∈ x host →
    (∀ role ∈ roles, s.On role host → ¬ (s.splitRole role).scratch subdir <+: q) → q ∈ y host
  gone : swept → ∀ host q, q ∈ y host → ∀ role ∈ roles, s.On role host →
    ¬ (s.splitRole role).scratch subdir <+: q

variable [DecidableEq Host]

theorem Site.Changed.work {dirs : List (List String)} (h : s.Changed jobs x₀ g x)
    (hsub : ∀ job ∈ jobs, ∀ job' ∈ jobs, job.subdir = job'.subdir)
    (hjob : job ∈ jobs) (hon : s.On job.role host) (hdirs : ∀ p ∈ dirs, p ∈ s.areas job)
    (hworks : WorksIn dirs (x host) (x' host)) (hothers : ∀ other, other ≠ host → x' other = x other) :
    s.Changed jobs x₀ (Function.update g job fun p => g job p ∧ p ∉ dirs) x' where
  upper := by
    intro host' q hq
    by_cases hhost : host' = host
    · subst hhost
      by_cases hbelow : ∃ p ∈ dirs, p <+: q
      · obtain ⟨p, hp, hpq⟩ := hbelow
        exact .inr ⟨job, hjob, hon, p, hdirs p hp, .inr hpq⟩
      · rcases (hworks q fun p hp hpq => hbelow ⟨p, hp, hpq⟩).mp hq with hq | ⟨p, hp, hqp⟩
        · exact h.upper _ q hq
        · exact .inr ⟨job, hjob, hon, p, hdirs p hp, .inl hqp⟩
    · rw [hothers host' hhost] at hq
      exact h.upper host' q hq
  lower := by
    intro host' q hq hout
    have hx := h.lower host' q hq hout
    by_cases hhost : host' = host
    · subst hhost
      exact (hworks q fun p hp => hout job hjob hon p (hdirs p hp)).mpr (.inl hx)
    · rw [hothers host' hhost]
      exact hx
  dirty := by
    intro host' q hq job' hjob' hon' p hp hpq
    have hold : q ∈ x host' → ∃ job' ∈ jobs, s.On job'.role host' ∧ p ∈ s.areas job' ∧
        ¬ Function.update g job (fun p => g job p ∧ p ∉ dirs) job' p := by
      intro hq
      obtain ⟨job1, hjob1, hon1, hp1, hg1⟩ := h.dirty host' q hq job' hjob' hon' p hp hpq
      refine ⟨job1, hjob1, hon1, hp1, ?_⟩
      by_cases heq : job1 = job
      · subst heq
        rw [Function.update_self]
        exact fun hg => hg1 hg.1
      · rw [Function.update_of_ne heq]
        exact hg1
    by_cases hhost : host' = host
    · subst hhost
      by_cases hpdirs : p ∈ dirs
      · refine ⟨job, hjob, hon, hdirs p hpdirs, ?_⟩
        rw [Function.update_self]
        exact fun hg => hg.2 hpdirs
      · -- areas do not lie in each other, so that the work is done elsewhere
        have hsame : ∀ d ∈ dirs, p <+: d ∨ d <+: p → False := by
          intro d hd hnested
          rcases hnested with hnested | hnested
          · exact hpdirs (Cluster.eq_of_areas (hsub job' hjob' job hjob) hp (hdirs d hd) hnested ▸ hd)
          · exact hpdirs (Cluster.eq_of_areas (hsub job hjob job' hjob') (hdirs d hd) hp hnested ▸ hd)
        have hout : ∀ d ∈ dirs, ¬ d <+: q := fun d hd hdq =>
          hsame d hd ( prefix_or_prefix_of_prefix hpq hdq)
        rcases (hworks q hout).mp hq with hq | ⟨d, hd, hqd⟩
        · exact hold hq
        · exact (hsame d hd (.inl (hpq.trans hqd))).elim
    · rw [hothers host' hhost] at hq
      exact hold hq

theorem Site.Changed.remove {paths : List (List String)} (h : s.Changed jobs x₀ g x)
    (hjob : job ∈ jobs) (hon : s.On job.role host) (hpaths : ∀ p ∈ paths, p ∈ s.areas job) :
    s.Changed jobs x₀ (Function.update g job fun p => g job p ∨ p ∈ paths)
      (Function.update x host ((x host).removeAll paths)) := by
  have hmem : ∀ q, q ∈ (x host).removeAll paths ↔ q ∈ x host ∧ ∀ p ∈ paths, ¬ p <+: q := fun q =>
    mem_removeAll fun p hp => ne_nil_of_length_pos (Cluster.length_pos_of_mem_areas (hpaths p hp))
  have hsubset : ∀ host' q, q ∈ Function.update x host ((x host).removeAll paths) host' → q ∈ x host' := by
    intro host' q hq
    by_cases hhost : host' = host
    · subst hhost
      rw [Function.update_self] at hq
      exact ((hmem q).mp hq).1
    · rwa [Function.update_of_ne hhost] at hq
  refine ⟨fun host' q hq => h.upper host' q (hsubset host' q hq), ?_, ?_⟩
  · intro host' q hq hout
    have hx := h.lower host' q hq hout
    by_cases hhost : host' = host
    · subst hhost
      rw [Function.update_self]
      exact (hmem q).mpr ⟨hx, fun p hp => hout job hjob hon p (hpaths p hp)⟩
    · rwa [Function.update_of_ne hhost]
  · intro host' q hq job' hjob' hon' p hp hpq
    obtain ⟨job1, hjob1, hon1, hp1, hg1⟩ := h.dirty host' q (hsubset host' q hq) job' hjob' hon' p hp hpq
    refine ⟨job1, hjob1, hon1, hp1, ?_⟩
    by_cases heq : job1 = job
    · subst heq
      rw [Function.update_self]
      have hhost : host' = host := hon1.eq hon
      subst hhost
      rw [Function.update_self] at hq
      exact fun hg => hg.elim hg1 fun hpaths => ((hmem q).mp hq).2 p hpaths hpq
    · rw [Function.update_of_ne heq]
      exact hg1

theorem exists_changed (hsub : ∀ job ∈ jobs, ∀ job' ∈ jobs, job.subdir = job'.subdir)
    (hruns : ∀ job ∈ jobs, s.Runs job) {left : Job → T Host Unit}
    (h : Moves s.stepEnv ⟨s.spawned jobs, x⟩ ⟨left, x'⟩) :
    ∃ g, s.Changed jobs x g x' ∧ ∀ job r, ended (left job) = some r →
      r = .ret () ∧ (job ∈ jobs → ∀ p ∈ s.areas job, g job p) := by
  have hstep : ∀ (job : Job) (o : Step Host) g y a u y',
      (job ∈ jobs ∧ ∃ host, s.On job.role host ∧ o.Within host (s.areas job)) → s.Changed jobs x g y →
      s.stepEnv o () y a u y' →
        ∃ b, s.notesEnv o () (g job) a () b ∧ s.Changed jobs x (Function.update g job b) y' := by
    rintro job o g y a u y' ⟨hjob, host, hon, hwithin⟩ hchanged hE
    cases o with
    | work host' dirs command =>
      obtain ⟨rfl, hdirs⟩ := hwithin
      obtain ⟨hok, hworks, hothers⟩ := hE
      exact ⟨_, ⟨hok, rfl⟩, hchanged.work hsub hjob hon hdirs hworks hothers⟩
    | list host' role =>
      obtain ⟨hlist, rfl⟩ := hE
      refine ⟨g job, ⟨hlist, rfl⟩, ?_⟩
      rw [Function.update_eq_self]
      exact hchanged
    | remove host' paths =>
      obtain ⟨rfl, hpaths⟩ := hwithin
      obtain ⟨hok, rfl⟩ := hE
      exact ⟨_, ⟨hok, rfl⟩, hchanged.remove hjob hon hpaths⟩
  obtain ⟨g, hchanged, hkeeps⟩ := Moves.inv hstep h (Site.Changed.refl s jobs x) (keeps_spawned hruns)
  exact ⟨g, hchanged, fun job r hended => hkeeps.post hended⟩

/-- **Jobs side by side.** In whatever order their commands come, all jobs return and leave nothing in the
directories they have worked in. -/
theorem worked_of_joins {subdir : Subdir} (hsub : ∀ job ∈ jobs, job.subdir = subdir)
    (hruns : ∀ job ∈ jobs, s.Runs job) (h : Joins s.stepEnv (s.spawned jobs) x r x') :
    r = .ret () ∧ s.Worked (jobs.map Job.role) subdir (∀ job ∈ jobs, job.tests ≠ []) x x' := by
  obtain ⟨left, hmoves, hend⟩ := h
  obtain ⟨g, hchanged, hpost⟩ := exists_changed
    (fun job hjob job' hjob' => (hsub job hjob).trans (hsub job' hjob').symm) hruns hmoves
  rcases hend with ⟨rfl, hended⟩ | ⟨hr, job, hended⟩
  · have hclean : ∀ host q, q ∈ x' host → ∀ job ∈ jobs, s.On job.role host →
        ∀ p ∈ s.areas job, ¬ p <+: q := by
      intro host q hq job hjob hon p hp hpq
      obtain ⟨job', hjob', -, hp', hdirty⟩ := hchanged.dirty host q hq job hjob hon p hp hpq
      exact hdirty ((hpost job' _ (hended job')).2 hjob' p hp')
    refine ⟨rfl, ?_, ?_, ?_⟩
    · intro host q hq
      rcases hchanged.upper host q hq with hx | ⟨job, hjob, hon, p, hp, hqp | hpq⟩
      · exact .inl hx
      · rcases Cluster.of_mem_areas hp with rfl | ⟨hlen, -⟩
        · rw [hsub job hjob] at hqp
          exact .inr ⟨job.role, mem_map_of_mem hjob, hon, hqp⟩
        · -- above a directory of the test directory there is nothing else
          by_cases hnil : q = []
          · rw [hnil]
            exact .inl (x host).root_mem
          · have hpos := length_pos_of_ne_nil hnil
            have heq : q = p := hqp.eq_of_length (by have := hqp.length_le; omega)
            exact absurd (heq ▸ prefix_rfl) (hclean host q hq job hjob hon p hp)
      · exact absurd hpq (hclean host q hq job hjob hon p hp)
    · intro host q haside hq hout
      refine hchanged.lower host q hq fun job hjob hon p hp hpq => ?_
      rcases Cluster.of_mem_areas hp with rfl | ⟨-, hp⟩
      · rw [hsub job hjob] at hpq
        exact hout job.role (mem_map_of_mem hjob) hon hpq
      · exact haside (hp.mono hpq)
    · intro htests host q hq role hrole hon hscratch
      obtain ⟨job, hjob, rfl⟩ := mem_map.mp hrole
      rw [← hsub job hjob] at hscratch
      exact hclean host q hq job hjob hon _ (Cluster.scratch_mem_areas (htests job hjob)) hscratch
  · exact absurd (hpost job r hended).1 hr

theorem stepEnv_total (s : Site Host) (o : Step Host) (x : Trees Host) :
    ∃ a u x', s.stepEnv o () x a u x' := by
  cases o with
  | work host dirs command =>
    obtain ⟨t, ht⟩ := exists_worksIn dirs (x host)
    refine ⟨true, (), Function.update x host t, rfl, ?_, fun other hother => ?_⟩
    · rw [Function.update_self]
      exact ht
    · exact Function.update_of_ne hother _ _
  | list host role => exact ⟨s.workunits, (), x, rfl, rfl⟩
  | remove host paths => exact ⟨true, (), _, rfl, rfl⟩

theorem env_total (s : Site Host) (o : Op Host) (u : Unit) (x : Trees Host) :
    ∃ a u' x', s.env o u x a u' x' := by
  cases o with
  | run host cmds => exact ⟨_, (), _, rfl, rfl⟩
  | parallel jobs =>
    have hothers : ∀ job, job ∉ jobs → (ended (s.spawned jobs job)).isSome := by
      intro job hjob
      rw [Site.spawned, if_neg hjob]
      rfl
    obtain ⟨r, x', h⟩ := exists_joins (stepEnv_total s) jobs hothers x
    exact ⟨r, (), x', h⟩

theorem joins_off (hne : jobs ≠ []) (hclient : ∀ job ∈ jobs, s.isClient job.role = true)
    (hon : ∀ job ∈ jobs, ∃ host, s.On job.role host) (hoff : ∀ job ∈ jobs, job.subdir = .off)
    (h : Joins s.stepEnv (s.spawned jobs) x r x') : r = .exn (.attributeError "startswith") ∧ x' = x := by
  have hraises : ∀ job ∈ jobs, s.spawned jobs job = .throw (.attributeError "startswith") := by
    intro job hjob
    obtain ⟨host, hhost⟩ := hon job hjob
    have hremote : s.getRemoteForRole job.role = .ok host := hhost
    rw [Site.spawned, if_pos hjob, Cluster.runTests, hclient job hjob, hremote, hoff job hjob]
    rfl
  have hothers : ∀ job, job ∉ jobs → s.spawned jobs job = .ret () := fun job hjob => if_neg hjob
  obtain ⟨left, hmoves, hend⟩ := h
  have hstays := hmoves.eq_of_ended fun job => by
    by_cases hjob : job ∈ jobs
    · show (ended (s.spawned jobs job)).isSome
      rw [hraises job hjob]
      rfl
    · show (ended (s.spawned jobs job)).isSome
      rw [hothers job hjob]
      rfl
  cases hstays
  refine ⟨?_, rfl⟩
  rcases hend with ⟨-, hall⟩ | ⟨hr, job, hended⟩
  · obtain ⟨job, hjob⟩ := exists_mem_of_ne_nil jobs hne
    have hreturns := hall job
    rw [hraises job hjob] at hreturns
    cases hreturns
  · by_cases hjob : job ∈ jobs
    · rw [hraises job hjob] at hended
      exact (Option.some.inj hended).symm
    · rw [hothers job hjob] at hended
      exact absurd (Option.some.inj hended).symm hr

end Jobs

end ZbkcTasks.Workunit
