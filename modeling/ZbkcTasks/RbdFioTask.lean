import Mathlib.Data.List.AList
import ZbkcTasks.RbdFio

/-! The task of `tasks/rbd_fio.py`. Whether a host gets what `client_config` holds depends on whether that
name is bound; it is also the variable of the loop, so from the second host on it is. -/

namespace ZbkcTasks.RbdFio

open List Prog

/-- What `if config.get('all')` takes for true: a dictionary with an entry. -/
def FioConfig.truthy (config : FioConfig) : Bool :=
  config.ioEngine.isSome || config.bs.isSome || config.fioIoSize.isSome || config.runtime.isSome ||
    config.imageSize.isSome || config.formats.isSome || config.features.isSome ||
    config.fioVersion.isSome || config.rw.isSome || config.testCloneIo.isSome || !config.others.isEmpty

/-- The configuration of the task, in the order in which its keys are gone through. -/
abbrev TaskConfig := AList fun _ : String => FioConfig

inductive TaskOp (Host : Type)
  | runFio (remote : Host) (arg : FioArg)

@[reducible] def taskSig (Host : Type) : Sig where
  Op := TaskOp Host
  Ans := fun _ => Except PyError Unit

abbrev TaskM (Host : Type) := Prog (taskSig Host) (Option FioArg) PyError

variable {Host : Type}

def spawn (remote : Host) (arg : FioArg) : TaskM Host Unit := .op (.runFio remote arg) orThrow

def startEntry (host : Host × List String) (entry : Sigma fun _ : String => FioConfig) : TaskM Host Unit :=
  .write (some (.name entry.1)) (onlyIf (host.2.contains entry.1 = true) (spawn host.1 (.dict entry.2)))

def startHost (config : TaskConfig) (host : Host × List String) : TaskM Host Unit :=
  .read fun clientConfig =>
    clientConfig.elim (forEach config.entries (startEntry host)) (spawn host.1)

def boundAll (config : TaskConfig) : Option FioArg :=
  ((config.lookup "all").filter FioConfig.truthy).map .dict

def task (config : TaskConfig) (hosts : List (Host × List String)) : TaskM Host Unit :=
  .write (boundAll config) (forEach hosts (startHost config))

/-- What `run_fio` comes to when its commands succeed. -/
def Answers (arg : FioArg) : Except PyError Unit → Prop
  | .ok () => ∃ ctx w, Exec fioEnv (runFio ctx arg) ⟨[], ⟨[], none⟩, []⟩ (.ret ()) w
  | .error e => ∃ ctx w, Exec fioEnv (runFio ctx arg) ⟨[], ⟨[], none⟩, []⟩ (.exn e) w

/-- A start for which it is known what `run_fio` does: of a dictionary that is complete, or of a name. -/
def Answered : TaskOp Host → Prop
  | .runFio _ arg => ∀ config, arg = .dict config → arg.completes = true

def taskEnv : Env (taskSig Host) (Option FioArg) (List (Host × FioArg))
  | .runFio remote arg, s, x, a, s', x' => s' = s ∧ x' = x ++ [(remote, arg)] ∧ Answers arg a

def matching (config : TaskConfig) (roles : List String) : List FioConfig :=
  (config.entries.filter fun entry => roles.contains entry.1).map Sigma.snd

def hostStarts (config : TaskConfig) (host : Host × List String) : List (Host × FioArg) :=
  (matching config host.2).map fun value => (host.1, .dict value)

def allStarts (all : FioConfig) (hosts : List (Host × List String)) : List (Host × FioArg) :=
  hosts.map fun host => (host.1, .dict all)

def wanted (config : TaskConfig) (hosts : List (Host × List String)) : List (Host × FioArg) :=
  (config.lookup "all").elim (hosts.flatMap (hostStarts config)) fun all => allStarts all hosts

def Dispatches (config : TaskConfig) (hosts : List (Host × List String)) : Prop :=
  ∀ r w, Exec taskEnv (task config hosts) ⟨none, [], []⟩ r w → w.ext.Perm (wanted config hosts)

/-! ### Runs -/

/-- `run_fio` returns for every dictionary of the configuration. -/
abbrev Complete (entries : List (Sigma fun _ : String => FioConfig)) : Prop :=
  ∀ entry ∈ entries, FioArg.completes (.dict entry.2) = true

section Runs

variable {config : TaskConfig} {host : Host × List String} {hosts : List (Host × List String)}
  {w : World (taskSig Host) (Option FioArg) (List (Host × FioArg))} {p q : TaskM Host Unit}
  {S S' : Option FioArg → Prop} {new more : List (Host × FioArg)} {arg : FioArg}

/-- The program returns with these starts, and leaves such a value for `client_config`. -/
abbrev starts (p : TaskM Host Unit) (S : Option FioArg → Prop) (new : List (Host × FioArg))
    (w : World (taskSig Host) (Option FioArg) (List (Host × FioArg))) : Prop :=
  wp taskEnv (fun o _ _ => Answered o) p (returns fun _ w' => S w'.st ∧ w'.ext = w.ext ++ new) w

theorem starts_bind (hp : starts p S new w) (hq : ∀ w', S w'.st → starts q S' more w') :
    starts (p >>= fun _ => q) S' (new ++ more) w := by
  apply wp_bind_returns hp
  rintro _ w1 ⟨hS, hext⟩
  apply wp_result _ (hq w1 hS)
  rintro _ w2 ⟨hS', hext'⟩
  exact ⟨hS', by rw [hext', hext, append_assoc]⟩

theorem starts_nothing (h : S w.st) : starts (.ret ()) S [] w := ⟨h, (append_nil _).symm⟩

theorem starts_spawn (remote : Host) (harg : arg.completes = true) :
    starts (spawn remote arg) (· = w.st) [(remote, arg)] w := by
  refine ⟨fun _ _ => harg, ?_⟩
  rintro (e | _) s x ⟨rfl, rfl, ctx, w', hrun⟩
  · exact (wp_post (returns_runFio ctx harg _) hrun).elim
  · exact ⟨rfl, rfl⟩

/-- The variable of the loop keeps the last key. -/
theorem starts_entries (host : Host × List String) {entries : List (Sigma fun _ : String => FioConfig)}
    (hentries : Complete entries) : starts (forEach entries (startEntry host))
      (· = (entries.getLast?.map fun entry => .name entry.1).or w.st)
      ((entries.filter fun entry => host.2.contains entry.1).map fun entry => (host.1, .dict entry.2))
      w := by
  induction entries generalizing w with
  | nil => exact starts_nothing rfl
  | cons entry entries ih =>
    obtain ⟨hentry, hentries⟩ := forall_mem_cons.mp hentries
    have hfirst : starts (startEntry host entry) (· = some (.name entry.1))
        (([entry].filter fun entry => host.2.contains entry.1).map fun entry => (host.1, .dict entry.2))
        w := by
      rw [startEntry, onlyIf, filter_singleton]
      cases host.2.contains entry.1 with
      | true => exact starts_spawn (w := { w with st := some (.name entry.1) }) host.1 hentry
      | false => exact starts_nothing (w := { w with st := some (.name entry.1) }) rfl
    have hboth := starts_bind hfirst fun w1 hst => hst ▸ ih hentries (w := w1)
    rw [← map_append, ← filter_append, singleton_append] at hboth
    refine wp_result (fun _ w' h => ⟨h.1.trans ?_, h.2⟩) hboth
    cases entries with
    | nil => rfl
    | cons entry' entries => simp [getLast?_cons]

theorem wp_startHost {A : TaskOp Host → Option FioArg → List (Host × FioArg) → Prop}
    {Q : Outcome PyError Unit → World (taskSig Host) (Option FioArg) (List (Host × FioArg)) → Prop}
    (h : wp taskEnv A (w.st.elim (forEach config.entries (startEntry host)) (spawn host.1)) Q w) :
    wp taskEnv A (startHost config host) Q w := h

theorem starts_first (hconfig : Complete config.entries) (hst : w.st = none) :
    starts (startHost config host) (· = config.entries.getLast?.map fun entry => .name entry.1)
      (hostStarts config host) w := by
  have hloop := starts_entries (w := w) host hconfig
  rw [hst, Option.or_none] at hloop
  apply wp_startHost
  rw [hst, hostStarts, matching, map_map]
  exact hloop

theorem starts_all (harg : arg.completes = true) (hst : w.st = some arg) :
    starts (forEach hosts (startHost config)) (fun _ => True) (hosts.map fun host => (host.1, arg)) w := by
  induction hosts generalizing w with
  | nil => exact starts_nothing trivial
  | cons host hosts ih =>
    have hspawn : starts (startHost config host) (· = w.st) [(host.1, arg)] w := by
      have hhere := starts_spawn (w := w) host.1 harg
      apply wp_startHost
      rw [hst] at hhere ⊢
      exact hhere
    rw [map_cons, ← singleton_append]
    exact starts_bind hspawn fun w1 hst1 => ih (hst1.trans hst)

theorem starts_none (hentries : config.entries = []) (hst : w.st = none) :
    starts (forEach hosts (startHost config)) (fun _ => True) [] w := by
  induction hosts generalizing w with
  | nil => exact starts_nothing trivial
  | cons host hosts ih =>
    have hfirst : starts (startHost config host) (· = none) [] w := by
      apply wp_startHost
      rw [hst, hentries]
      exact starts_nothing (S := (· = none)) hst
    exact starts_bind hfirst fun w1 hst1 => ih hst1

theorem raises_name (ctx : Context) (key : String) (w : World sig (List Line) Seen) :
    wp fioEnv (fun _ _ _ => True) (runFio ctx (.name key))
      (fun r _ => r = .exn (.attributeError "get")) w :=
  rfl

/-- A host that is given a name ends the task. -/
theorem ends_name {key : String} (hst : w.st = some (.name key)) :
    wp taskEnv (fun o _ _ => Answered o) (forEach (host :: hosts) (startHost config)) (fun r w' =>
      r = .exn (.attributeError "get") ∧ w'.ext = w.ext ++ [(host.1, .name key)]) w := by
  refine wp_bind.mpr (wp_startHost ?_)
  rw [hst, Option.elim_some]
  refine ⟨fun _ h => (nomatch h), ?_⟩
  rintro (e | _) s x ⟨rfl, rfl, ctx, w', hrun⟩
  · cases wp_post (raises_name ctx key _) hrun
    exact ⟨rfl, rfl⟩
  · cases wp_post (raises_name ctx key _) hrun

theorem ends_two {host' : Host × List String} (hconfig : Complete config.entries)
    (hentries : config.entries ≠ []) (hst : w.st = none) :
    wp taskEnv (fun o _ _ => Answered o) (forEach (host :: host' :: hosts) (startHost config)) (fun r w' =>
      r = .exn (.attributeError "get") ∧ w'.ext = w.ext ++ hostStarts config host ++
        [(host'.1, .name (config.entries.getLast hentries).1)]) w := by
  apply wp_bind_returns (starts_first hconfig hst)
  rintro _ w1 ⟨hst1, hext⟩
  rw [getLast?_eq_some_getLast hentries] at hst1
  rw [← hext]
  exact ends_name hst1

end Runs

theorem exists_answer (o : TaskOp Host) (s : Option FioArg) (x : List (Host × FioArg)) (h : Answered o) :
    ∃ a s' x', taskEnv o s x a s' x' := by
  obtain ⟨remote, arg⟩ := o
  have htotal : ∀ o s x, ∃ a s' x', fioEnv o s x a s' x' := fun o s x => ⟨_, _, _, fioEnv_fioReply o s x⟩
  obtain ⟨r, w, hrun⟩ := exists_exec htotal (runFio aContext arg) ⟨[], ⟨[], none⟩, []⟩
  cases arg with
  | name key =>
    obtain rfl := wp_post (raises_name aContext key _) hrun
    exact ⟨.error _, s, _, rfl, rfl, aContext, w, hrun⟩
  | dict config =>
    have hend := wp_post (returns_runFio aContext (h config rfl) _) hrun
    cases r with
    | ret u => exact ⟨.ok (), s, _, rfl, rfl, aContext, w, hrun⟩
    | exn | cut => exact hend.elim

theorem exists_run_two {config : TaskConfig} (hconfig : Complete config.entries)
    (hentries : config.entries ≠ []) (hbound : boundAll config = none) (host host' : Host × List String)
    (hosts : List (Host × List String)) : ∃ r w,
      Exec taskEnv (task config (host :: host' :: hosts)) ⟨none, [], []⟩ r w ∧
      r = .exn (.attributeError "get") ∧
      w.ext = hostStarts config host ++ [(host'.1, .name (config.entries.getLast hentries).1)] := by
  have hends : wp taskEnv (fun o _ _ => Answered o) (forEach (host :: host' :: hosts) (startHost config)) _
      ⟨boundAll config, [], []⟩ := ends_two hconfig hentries hbound
  obtain ⟨r, w, hrun⟩ := exists_exec_of_wp exists_answer hends
  exact ⟨r, w, .write hrun, wp_post hends hrun⟩

theorem name_notMem_wanted {config : TaskConfig} {hosts : List (Host × List String)} (remote : Host)
    (key : String) : (remote, .name key) ∉ wanted config hosts := by
  cases hall : config.lookup "all" with
  | none => simp [wanted, hall, hostStarts]
  | some all => simp [wanted, hall, allStarts]

theorem truthy_of_completes {config : FioConfig} (h : FioArg.completes (.dict config) = true) :
    config.truthy = true := by
  cases hengine : config.ioEngine with
  | none => simp [FioArg.completes, given, hengine] at h
  | some engine => simp [FioConfig.truthy, hengine]

theorem dispatches_of_starts {config : TaskConfig} {hosts : List (Host × List String)}
    (h : starts (forEach hosts (startHost config)) (fun _ => True) (wanted config hosts)
      ⟨boundAll config, [], []⟩) : Dispatches config hosts := by
  intro r w hrun
  have hend := wp_post (p := task config hosts) h hrun
  cases r with
  | ret u => rw [hend.2, nil_append]
  | exn | cut => exact hend.elim

def allClients : TaskConfig := ⟨[⟨"all", oneLayered none⟩], by simp [List.NodupKeys, List.keys]⟩

def twoClients : TaskConfig :=
  ⟨[⟨"client.0", oneLayered none⟩, ⟨"client.1", oneLayered none⟩], by simp [List.NodupKeys, List.keys]⟩

end ZbkcTasks.RbdFio
