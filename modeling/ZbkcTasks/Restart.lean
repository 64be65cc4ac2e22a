import Mathlib.Data.List.Dedup
import ZbkcTasks.PyProg
import ZbkcTasks.PyText
import ZbkcTasks.TextLines

/-! The task `restart` of `tasks/zbkc.py`, which restarts daemons and marks the OSDs among them down. The
second loop does not take the names apart as the first one does, and only speaks to the cluster `zbkc`. -/

namespace ZbkcTasks.Restart

open List Prog TextLines

abbrev Text := List Char

def zbkc : Text := "zbkc".toList
def osd : Text := "osd".toList

def zbkcRoleTypes : List Text := ["mon", "mgr", "osd", "mds", "rgw"].map String.toList

inductive Op (Host : Type)
  | restart (cluster type id : Text)
  | waitUntilOsdsUp (remote : Host) (cluster : Text)
  | waitUntilHealthy (remote : Host) (cluster : Text)
  | waitForDaemons (timeout : Nat)
  | rawClusterCmd (cluster : Text) (args : List Text)

abbrev sig (Host : Type) : Sig := ⟨Op Host, fun _ => Except CommandError Unit⟩

abbrev M (Host α : Type) := Prog (sig Host) Unit PyError α

/-- What teuthology tells the task. A set is gone through in an order of its own. -/
structure Ctx (Host : Type) where
  resolveRoleList : Option (List Text) → List Text → Except PyError (List Text)
  splitRole : Text → Except PyError (Text × Text × Text)
  firstMonRemotes : Text → List Host
  hasMds : Text → Bool
  managers : List Text
  setOrder : List Text → List Text
  setOrder_perm : ∀ names, (setOrder names).Perm names

variable {Host : Type} {ctx : Ctx Host}

def run (o : Op Host) : M Host Unit := .op o ofCommand

/-! ### Waiting -/

def healthy (ctx : Ctx Host) (cluster : Text) : M Host Unit := do
  let mon0Remote ← theOnly (ctx.firstMonRemotes cluster)
  run (.waitUntilOsdsUp mon0Remote cluster)
  run (.waitUntilHealthy mon0Remote cluster)
  onlyIf (ctx.hasMds cluster = true) (run (.waitForDaemons 300))

/-- The name of the cluster is not handed on, so that the OSDs of `zbkc` are waited for. -/
def waitForOsdsUp (ctx : Ctx Host) (cluster : Text) : M Host Unit := do
  let mon0Remote ← theOnly (ctx.firstMonRemotes cluster)
  run (.waitUntilOsdsUp mon0Remote zbkc)

/-! ### The task -/

/-- The configuration: nothing, a list of daemons, or a dictionary that may lack each of its keys. -/
inductive Config
  | absent
  | list (daemons : List Text)
  | dict (daemons : Option (List Text)) (waitForHealthy waitForOsdsUp : Option Bool)

def Config.daemons : Config → Option (List Text)
  | .absent => none
  | .list daemons => some daemons
  | .dict daemons _ _ => daemons

def Config.waitForHealthy : Config → Bool
  | .dict _ waitForHealthy _ => waitForHealthy.getD true
  | _ => true

def Config.waitForOsdsUp : Config → Bool
  | .dict _ _ waitForOsdsUp => waitForOsdsUp.getD false
  | _ => false

def restartAll (ctx : Ctx Host) : List Text → List Text → M Host (List Text)
  | [], clusters => .ret clusters
  | role :: roles, clusters => do
      let parts ← orThrow (ctx.splitRole role)
      run (.restart parts.1 parts.2.1 parts.2.2)
      restartAll ctx roles (clusters.insert parts.1)

def markDownOsd (cluster : Text) (osd : Int) : M Host Unit :=
  run (.rawClusterCmd cluster ["osd".toList, "down".toList, (toString osd).toList])

def markDown (manager dmon : Text) : M Host Unit :=
  if '.' ∈ dmon then
    match dmon.splitOn '.' with
    | first :: second :: _ =>
        if isDigits second = true then
          if first = osd then orThrow (pyInt second) >>= markDownOsd manager else .ret ()
        else .ret ()
    | _ => .throw .indexError
  else .ret ()

def managerOf (ctx : Ctx Host) (cluster : Text) : M Host Text :=
  if ctx.managers.contains cluster then .ret cluster else .throw (.keyError (String.ofList cluster))

def restart (ctx : Ctx Host) (config : Config) : M Host Unit := do
  let daemons ← orThrow (ctx.resolveRoleList config.daemons zbkcRoleTypes)
  let clusters ← restartAll ctx daemons []
  onlyIf (config.waitForHealthy = true) (forEach (ctx.setOrder clusters) (healthy ctx))
  onlyIf (config.waitForOsdsUp = true) (forEach (ctx.setOrder clusters) (waitForOsdsUp ctx))
  let manager ← managerOf ctx zbkc
  forEach daemons (markDown manager)

/-! ### Names of daemons -/

/-- A daemon of one of the types. Its name may start with its cluster; without one its identifier has no
dot. -/
structure Daemon where
  inCluster : Option Text
  type : Text
  id : Text
  cluster_dotless : ∀ cluster ∈ inCluster, '.' ∉ cluster
  type_mem : type ∈ zbkcRoleTypes
  id_dotless : inCluster = none → '.' ∉ id
  osd_numeric : type = osd → isDigits id = true

variable {d : Daemon} {fails : Prop} {daemons : List Daemon}

namespace Daemon

def name (d : Daemon) : Text := d.inCluster.elim [] (· ++ ['.']) ++ (d.type ++ '.' :: d.id)

def cluster (d : Daemon) : Text := d.inCluster.getD zbkc

def number (d : Daemon) : Nat := Nat.ofDigitChars 10 d.id 0

theorem type_dotless (d : Daemon) : '.' ∉ d.type := by
  have hall : ∀ type ∈ zbkcRoleTypes, '.' ∉ type := by simp [zbkcRoleTypes]
  exact hall d.type d.type_mem

theorem type_not_digits (d : Daemon) : isDigits d.type = false := by
  have hall : ∀ type ∈ zbkcRoleTypes, isDigits type = false := by simp [zbkcRoleTypes, isDigits]
  exact hall d.type d.type_mem

theorem splitOn_name_of_none (h : d.inCluster = none) : d.name.splitOn '.' = [d.type, d.id] := by
  rw [name, h, Option.elim_none, nil_append, splitOn_append_cons, splitOn_of_notMem d.type_dotless,
    splitOn_of_notMem (d.id_dotless h), singleton_append]

theorem splitOn_name_of_some {cluster : Text} (h : d.inCluster = some cluster) :
    d.name.splitOn '.' = cluster :: d.type :: d.id.splitOn '.' := by
  have hcluster : '.' ∉ cluster := d.cluster_dotless cluster h
  rw [name, h, Option.elim_some, append_assoc, singleton_append, splitOn_append_cons,
    splitOn_append_cons, splitOn_of_notMem hcluster, splitOn_of_notMem d.type_dotless,
    singleton_append, singleton_append]

theorem dot_mem_name (d : Daemon) : '.' ∈ d.name := by simp [name]

end Daemon

def SplitsNames (splitRole : Text → Except PyError (Text × Text × Text)) : Prop :=
  ∀ d : Daemon, splitRole d.name = .ok (d.cluster, d.type, d.id)

/-! ### What a run did -/

abbrev W (Host : Type) := World (sig Host) Unit Unit

def env : Env (sig Host) Unit Unit := fun _ _ _ ans _ _ => ans = .ok ()

theorem env_total (o : Op Host) (s x : Unit) :
    ∃ (ans : Except CommandError Unit) (s' x' : Unit), env o s x ans s' x' :=
  ⟨.ok (), (), (), rfl⟩

def start : W Host := ⟨(), (), []⟩

def ops (w : W Host) : List (Op Host) := (w.log.map Event.op).reverse

def Op.restartedOsd : Op Host → Option (Text × Nat)
  | .restart cluster type id => if type = osd then some (cluster, Nat.ofDigitChars 10 id 0) else none
  | _ => none

def Op.osdDown : Op Host → Option (Text × List Text)
  | .rawClusterCmd cluster args =>
      if args.take 2 = ["osd".toList, "down".toList] then some (cluster, args.drop 2) else none
  | _ => none

def restarted (w : W Host) : List (Text × Nat) := (ops w).filterMap Op.restartedOsd

def downs (w : W Host) : List (Text × List Text) := (ops w).filterMap Op.osdDown

def address (o : Text × Nat) : Text × List Text := (o.1, [numeral o.2])

/-- One `osd down` for each OSD that was restarted, sent to its cluster, and no other. -/
def MarksRestarted (w : W Host) : Prop := (downs w).Perm ((restarted w).dedup.map address)

def Does {α : Type} (fails : Prop) (p : M Host α) (os : List (Text × Nat)) (ds : List (Text × List Text)) :
    Prop :=
  ∀ w, wp env (fun _ _ _ => True) p
    (gives (fun _ w' => restarted w' = restarted w ++ os ∧ downs w' = downs w ++ ds) fun _ => fails) w

section Does

variable {α β : Type}

theorem does_ret (a : α) : Does fails (.ret a : M Host α) [] [] := by
  intro w
  constructor
  all_goals rw [append_nil]

theorem does_throw (h : fails) (e : PyError) (os : List (Text × Nat)) (ds : List (Text × List Text)) :
    Does fails (.throw e : M Host α) os ds :=
  fun _ => h

theorem does_bind {p : M Host α} {f : α → M Host β} {os os' : List (Text × Nat)}
    {ds ds' : List (Text × List Text)} (hp : Does fails p os ds) (hf : ∀ a, Does fails (f a) os' ds') :
    Does fails (p >>= f) (os ++ os') (ds ++ ds') := by
  intro w
  refine wp_seq (hp w) fun a w' hw' => ?_
  refine wp_result (fun b w'' hw'' => ?_) (hf a w')
  rw [hw''.1, hw''.2, hw'.1, hw'.2, append_assoc, append_assoc]
  exact ⟨rfl, rfl⟩

theorem does_run (o : Op Host) : Does fails (run o) o.restartedOsd.toList o.osdDown.toList := by
  intro w
  refine ⟨trivial, fun ans s x hans => ?_⟩
  obtain rfl : ans = .ok () := hans
  have hops : ops (w.push o (.ok ()) s x) = ops w ++ [o] := by simp [ops]
  constructor
  · rw [restarted, hops, filterMap_append, restarted, filterMap_cons]
    cases o.restartedOsd <;> rfl
  · rw [downs, hops, filterMap_append, downs, filterMap_cons]
    cases o.osdDown <;> rfl

theorem does_onlyIf {c : Prop} [Decidable c] {p : M Host Unit} (hp : Does fails p [] []) :
    Does fails (onlyIf c p) [] [] := by
  rw [onlyIf]
  split
  · exact hp
  · exact does_ret ()

variable {f : β → M Host Unit}

theorem does_forEach_map {γ : Type} {g : γ → β} {ds : γ → List (Text × List Text)}
    (hf : ∀ c, Does fails (f (g c)) [] (ds c)) (cs : List γ) :
    Does fails (forEach (cs.map g) f) [] (cs.flatMap ds) := by
  induction cs with
  | nil => exact does_ret ()
  | cons c cs ih => exact does_bind (hf c) fun _ => ih

theorem does_forEach (hf : ∀ b, Does fails (f b) [] []) (bs : List β) :
    Does fails (forEach bs f) [] [] := by
  induction bs with
  | nil => exact does_ret ()
  | cons b bs ih => exact does_bind (hf b) fun _ => ih

end Does

/-! ### The run of the task -/

/-- The task can get to its end: `zbkc` has a manager, and every cluster one host for its first monitor. -/
structure Ready (ctx : Ctx Host) : Prop where
  manager : zbkc ∈ ctx.managers
  mons : ∀ cluster, ∃ remote, ctx.firstMonRemotes cluster = [remote]

theorem does_theOnly (ctx : Ctx Host) (cluster : Text) :
    Does (¬ Ready ctx) (theOnly (ctx.firstMonRemotes cluster) : M Host Host) [] [] := by
  by_cases hready : Ready ctx
  · obtain ⟨remote, hremote⟩ := hready.mons cluster
    rw [hremote]
    exact does_ret remote
  · rw [theOnly.eq_def]
    split
    · exact does_ret _
    · exact does_throw hready .valueError [] []

theorem does_healthy (ctx : Ctx Host) (cluster : Text) :
    Does (¬ Ready ctx) (healthy ctx cluster) [] [] := by
  apply does_bind (does_theOnly ctx cluster)
  intro mon0Remote
  apply does_bind (does_run (.waitUntilOsdsUp mon0Remote cluster))
  intro _
  apply does_bind (does_run (.waitUntilHealthy mon0Remote cluster))
  intro _
  exact does_onlyIf (does_run (.waitForDaemons 300))

theorem does_waitForOsdsUp (ctx : Ctx Host) (cluster : Text) :
    Does (¬ Ready ctx) (waitForOsdsUp ctx cluster) [] [] := by
  apply does_bind (does_theOnly ctx cluster)
  intro mon0Remote
  exact does_run (.waitUntilOsdsUp mon0Remote zbkc)

def Daemon.osd? (d : Daemon) : Option (Text × Nat) :=
  if d.type = osd then some (d.cluster, d.number) else none

def Daemon.plainOsd? (d : Daemon) : Option Nat :=
  if d.inCluster = none ∧ d.type = osd then some d.number else none

theorem does_restartAll (hsplit : SplitsNames ctx.splitRole) (daemons : List Daemon)
    (clusters : List Text) :
    Does fails (restartAll ctx (daemons.map Daemon.name) clusters) (daemons.filterMap Daemon.osd?) [] := by
  induction daemons generalizing clusters with
  | nil => exact does_ret clusters
  | cons d daemons ih =>
    have hfirst : (d :: daemons).filterMap Daemon.osd? =
        d.osd?.toList ++ daemons.filterMap Daemon.osd? := by
      rw [filterMap_cons]
      cases d.osd? <;> rfl
    rw [map_cons, restartAll, hsplit d, hfirst]
    exact does_bind (does_run (.restart d.cluster d.type d.id)) fun _ => ih _

theorem does_markDown (manager : Text) (d : Daemon) : Does fails (markDown manager d.name : M Host Unit) []
      ((d.plainOsd?.map fun n => address (manager, n)).toList) := by
  rw [markDown, if_pos d.dot_mem_name]
  cases hcluster : d.inCluster with
  | some cluster =>
    rw [d.splitOn_name_of_some hcluster, Daemon.plainOsd?, hcluster]
    simp only [d.type_not_digits, Bool.false_eq_true, if_false, reduceCtorEq, false_and, Option.map_none]
    exact does_ret ()
  | none =>
    rw [d.splitOn_name_of_none hcluster, Daemon.plainOsd?, hcluster]
    by_cases htype : d.type = osd
    · have hdigits := d.osd_numeric htype
      simp only [hdigits, htype, if_true, and_self, pyInt_of_isDigits hdigits, orThrow, ret_bind]
      have hargs : (toString (Nat.ofDigitChars 10 d.id 0 : Int)).toList = numeral d.number :=
        toList_toString d.number
      rw [markDownOsd, hargs]
      exact does_run (.rawClusterCmd manager ["osd".toList, "down".toList, numeral d.number])
    · simp only [htype, if_false, ite_self, and_false, Option.map_none]
      exact does_ret ()

theorem does_markAll (daemons : List Daemon) : Does (¬ Ready ctx)
      (managerOf ctx zbkc >>= fun manager => forEach (daemons.map Daemon.name) (markDown manager)) []
      ((daemons.filterMap Daemon.plainOsd?).map fun n => address (zbkc, n)) := by
  by_cases hmanager : ctx.managers.contains zbkc
  · rw [managerOf, if_pos hmanager, ret_bind, map_filterMap, filterMap_eq_flatMap_toList]
    exact does_forEach_map (does_markDown zbkc) daemons
  · rw [managerOf, if_neg hmanager]
    exact does_throw (fun hready => hmanager (contains_iff_mem.mpr hready.manager)) _ _ _

theorem does_restart (hsplit : SplitsNames ctx.splitRole) {config : Config}
    (hresolve : ctx.resolveRoleList config.daemons zbkcRoleTypes = .ok (daemons.map Daemon.name)) :
    Does (¬ Ready ctx) (restart ctx config) (daemons.filterMap Daemon.osd?)
      ((daemons.filterMap Daemon.plainOsd?).map fun n => address (zbkc, n)) := by
  have hrest : ∀ clusters, Does (¬ Ready ctx)
      (onlyIf (config.waitForHealthy = true) (forEach (ctx.setOrder clusters) (healthy ctx)) >>= fun _ =>
        onlyIf (config.waitForOsdsUp = true) (forEach (ctx.setOrder clusters) (waitForOsdsUp ctx)) >>=
          fun _ => managerOf ctx zbkc >>= fun manager =>
            forEach (daemons.map Daemon.name) (markDown manager)) []
      ((daemons.filterMap Daemon.plainOsd?).map fun n => address (zbkc, n)) := by
    intro clusters
    apply does_bind (does_onlyIf (does_forEach (does_healthy ctx) _))
    intro _
    apply does_bind (does_onlyIf (does_forEach (does_waitForOsdsUp ctx) _))
    intro _
    exact does_markAll daemons
  have hrun := does_bind (does_restartAll hsplit daemons []) hrest
  rw [append_nil, nil_append] at hrun
  rw [restart, hresolve]
  exact hrun

/-! ### Which lists are marked down exactly -/

/-- No two OSDs named without a cluster have one number, and one named with its cluster is named without it
too. -/
structure NamedOnce (daemons : List Daemon) : Prop where
  distinct : (daemons.filterMap Daemon.plainOsd?).Nodup
  plain : ∀ d ∈ daemons, d.type = osd → ∀ cluster, d.inCluster = some cluster →
    cluster = zbkc ∧ d.number ∈ daemons.filterMap Daemon.plainOsd?

theorem mem_osds {o : Text × Nat} :
    o ∈ daemons.filterMap Daemon.osd? ↔ ∃ d ∈ daemons, d.type = osd ∧ (d.cluster, d.number) = o := by
  rw [mem_filterMap]
  apply exists_congr
  intro d
  by_cases htype : d.type = osd
  all_goals simp [Daemon.osd?, htype]

theorem mem_plainOsds {n : Nat} : n ∈ daemons.filterMap Daemon.plainOsd? ↔
      ∃ d ∈ daemons, (d.inCluster = none ∧ d.type = osd) ∧ d.number = n := by
  rw [mem_filterMap]
  apply exists_congr
  intro d
  by_cases hplain : d.inCluster = none ∧ d.type = osd
  all_goals simp [Daemon.plainOsd?, hplain]

theorem mem_osds_of_plain {n : Nat} (h : n ∈ daemons.filterMap Daemon.plainOsd?) :
    (zbkc, n) ∈ daemons.filterMap Daemon.osd? := by
  obtain ⟨d, hd, ⟨hcluster, htype⟩, rfl⟩ := mem_plainOsds.mp h
  apply mem_osds.mpr
  exact ⟨d, hd, htype, by rw [Daemon.cluster, hcluster, Option.getD_none]⟩

/-- The restarted OSDs are those named without a cluster exactly if the others are among them. -/
theorem mem_osds_iff_plain (h : ∀ d ∈ daemons, d.type = osd → ∀ cluster, d.inCluster = some cluster →
      cluster = zbkc ∧ d.number ∈ daemons.filterMap Daemon.plainOsd?) (o : Text × Nat) :
    o ∈ (daemons.filterMap Daemon.plainOsd?).map (fun n => (zbkc, n)) ↔
      o ∈ daemons.filterMap Daemon.osd? := by
  rw [mem_map]
  constructor
  · rintro ⟨n, hn, rfl⟩
    exact mem_osds_of_plain hn
  · intro ho
    obtain ⟨d, hd, htype, rfl⟩ := mem_osds.mp ho
    cases hcluster : d.inCluster with
    | none => exact ⟨d.number, mem_plainOsds.mpr ⟨d, hd, ⟨hcluster, htype⟩, rfl⟩, by
        rw [Daemon.cluster, hcluster, Option.getD_none]⟩
    | some cluster =>
      obtain ⟨hzbkc, hmem⟩ := h d hd htype cluster hcluster
      exact ⟨d.number, hmem, by rw [Daemon.cluster, hcluster, Option.getD_some, hzbkc]⟩

theorem address_injective : Function.Injective address := by
  rintro ⟨cluster, n⟩ ⟨cluster', n'⟩ h
  rw [address, address, Prod.mk.injEq, List.cons.injEq] at h
  exact Prod.ext h.1 (numeral_injective h.2.1)

/-- What the second loop sends is right exactly for the lists that name every OSD once. -/
theorem perm_osds_iff (daemons : List Daemon) :
    ((daemons.filterMap Daemon.plainOsd?).map fun n => address (zbkc, n)).Perm
      ((daemons.filterMap Daemon.osd?).dedup.map address) ↔ NamedOnce daemons := by
  have hmap : ((daemons.filterMap Daemon.plainOsd?).map fun n => address (zbkc, n)) =
      ((daemons.filterMap Daemon.plainOsd?).map fun n => (zbkc, n)).map address := by
    rw [map_map]
    rfl
  have hzbkc : Function.Injective fun n : Nat => (zbkc, n) := Prod.mk_right_injective zbkc
  rw [hmap, map_perm_map_iff address_injective]
  constructor
  · intro hperm
    refine ⟨(nodup_map_iff hzbkc).mp (hperm.nodup_iff.mpr (nodup_dedup _)), ?_⟩
    intro d hd htype cluster hcluster
    have hmem : (cluster, d.number) ∈ daemons.filterMap Daemon.osd? :=
      mem_osds.mpr ⟨d, hd, htype, by rw [Daemon.cluster, hcluster, Option.getD_some]⟩
    obtain ⟨n, hn, heq⟩ := mem_map.mp (hperm.mem_iff.mpr (mem_dedup.mpr hmem))
    cases heq
    exact ⟨rfl, hn⟩
  · intro hnamed
    apply (perm_ext_iff_of_nodup ((nodup_map_iff hzbkc).mpr hnamed.distinct)
      (nodup_dedup _)).mpr
    intro o
    rw [mem_dedup]
    exact mem_osds_iff_plain hnamed.plain o

/-- **The OSDs that `restart` marks down.** The task sends one `osd down` for each OSD that it has
restarted, to its cluster, exactly if the list names every OSD once without its cluster. -/
theorem restart_marks_iff {ctx : Ctx Host} (hsplit : SplitsNames ctx.splitRole) (config : Config)
    (daemons : List Daemon)
    (hresolve : ctx.resolveRoleList config.daemons zbkcRoleTypes = .ok (daemons.map Daemon.name)) :
    (Ready ctx → ∃ w, Exec env (restart ctx config) start (.ret ()) w) ∧
      ∀ w, Exec env (restart ctx config) start (.ret ()) w → (MarksRestarted w ↔ NamedOnce daemons) := by
  have hdoes := does_restart hsplit hresolve start
  constructor
  · intro hready
    obtain ⟨r, w, hrun⟩ := exists_exec env_total (restart ctx config) start
    have hpost := wp_post hdoes hrun
    cases r with
    | ret _ => exact ⟨w, hrun⟩
    | exn | cut => exact absurd hready hpost
  · intro w hrun
    obtain ⟨hrestarted, hdowns⟩ := wp_post hdoes hrun
    rw [MarksRestarted, hrestarted, hdowns]
    exact perm_osds_iff daemons

/-- A `split_role` that takes names apart at their dots. -/
def splitAtDots (role : Text) : Except PyError (Text × Text × Text) :=
  match role.splitOn '.' with
  | [type, id] => .ok (zbkc, type, id)
  | cluster :: type :: id => .ok (cluster, type, ['.'].intercalate id)
  | _ => .error .valueError

theorem splitsNames_splitAtDots : SplitsNames splitAtDots := by
  intro d
  rw [splitAtDots]
  cases hcluster : d.inCluster with
  | none => rw [d.splitOn_name_of_none hcluster, Daemon.cluster, hcluster, Option.getD_none]
  | some cluster =>
    rw [d.splitOn_name_of_some hcluster, Daemon.cluster, hcluster, Option.getD_some]
    have hid : ['.'].intercalate (d.id.splitOn '.') = d.id := intercalate_splitOn '.'
    cases hsplit : d.id.splitOn '.' with
    | nil => exact absurd hsplit (splitOn_ne_nil '.' d.id)
    | cons part parts =>
      rw [hsplit] at hid
      show Except.ok (cluster, d.type, ['.'].intercalate (part :: parts)) = _
      rw [hid]

def sampleCtx : Ctx Unit where
  resolveRoleList daemons _ := .ok (daemons.getD [])
  splitRole := splitAtDots
  firstMonRemotes _ := [()]
  hasMds _ := false
  managers := [zbkc]
  setOrder names := names
  setOrder_perm names := .refl names

def plainOsd0 : Daemon where
  inCluster := none
  type := osd
  id := ['0']
  cluster_dotless _ h := by cases h
  type_mem := by simp [zbkcRoleTypes, osd]
  id_dotless _ := by decide
  osd_numeric _ := by simp [isDigits]

def plainOsd1 : Daemon := { plainOsd0 with
  id := ['1']
  id_dotless := fun _ => by decide
  osd_numeric := fun _ => by simp [isDigits] }

theorem restart_marks_twoOsds :
    let names := [plainOsd0, plainOsd1].map Daemon.name
    (Ready sampleCtx → ∃ w, Exec env (restart sampleCtx (.list names)) start (.ret ()) w) ∧
      ∀ w, Exec env (restart sampleCtx (.list names)) start (.ret ()) w →
        (MarksRestarted w ↔ NamedOnce [plainOsd0, plainOsd1]) :=
  restart_marks_iff splitsNames_splitAtDots (.list _) [plainOsd0, plainOsd1] rfl

def succeed (_ : Op Unit) (_ _ : Unit) : Except CommandError Unit × Unit × Unit := (.ok (), (), ())

def backupRun : Outcome PyError Unit × W Unit :=
  runWith succeed (restart sampleCtx (.list ["backup.osd.0".toList])) start

theorem backup_osd_not_marked :
    ∃ w, Exec env (restart sampleCtx (.list ["backup.osd.0".toList])) start (.ret ()) w ∧
      restarted w = [("backup".toList, 0)] ∧ downs w = [] ∧ ¬ MarksRestarted w := by
  have hrun : Exec env (restart sampleCtx (.list ["backup.osd.0".toList])) start backupRun.1 backupRun.2 :=
    exec_runWith (fun _ _ _ => rfl) _ start
  have hret : backupRun.1 = .ret () := by rfl
  have hrestarted : restarted backupRun.2 = [("backup".toList, 0)] := by rfl
  have hdowns : downs backupRun.2 = [] := by rfl
  rw [hret] at hrun
  refine ⟨backupRun.2, hrun, hrestarted, hdowns, ?_⟩
  rw [MarksRestarted, hrestarted, hdowns]
  intro hperm
  cases hperm.length_eq

end ZbkcTasks.Restart
