import ZbkcTasks.DirTree
import ZbkcTasks.ProgWp
import ZbkcTasks.PyBase

/-! `create_apache_dirs` of `tasks/rgw.py` and the two nested uses that the `rgw` task makes of it. The
subtasks between set-up and clean-up succeed and may do what they like to the directories. -/

namespace ZbkcTasks.RgwApache

open DirTree Function List Prog

/-- A command on a host, with its `check_status`, or all that happens between set-up and clean-up. -/
inductive Op (Host : Type)
  | run (host : Host) (cmds : List (Cmd String)) (checkStatus : Bool)
  | body
  deriving DecidableEq

@[reducible] def Op.Ans {Host : Type} : Op Host → Type
  | .run _ _ _ => Bool
  | .body => Unit

abbrev sig (Host : Type) : Sig := ⟨Op Host, Op.Ans⟩

abbrev M (Host : Type) := Prog (sig Host) Unit PyError

variable {Host : Type}

def checkedStatus (checkStatus ok : Bool) : M Host Unit :=
  if ok = false ∧ checkStatus = true then .throw (.command (.failed 1)) else .ret ()

def runOn (cmds : List (Cmd String)) (checkStatus : Bool) (host : Host) : M Host Unit :=
  .op (.run host cmds checkStatus) (checkedStatus checkStatus)

structure Site (Host : Type) where
  testdir : List String
  only : String → List Host

namespace Site

variable (s : Site Host)

def apache : List String := s.testdir ++ ["apache"]

def htdocs (client : String) : List String := s.testdir ++ ["apache", "htdocs." ++ client]

def tmp (client : String) : List String := s.testdir ++ ["apache", "tmp." ++ client]

def fastcgiSock (client : String) : List String := s.testdir ++ ["apache", "tmp." ++ client, "fastcgi_sock"]

def archive (client : String) : List String := s.testdir ++ ["archive", "apache." ++ client]

def runOnly (client : String) (cmds : List (Cmd String)) (checkStatus : Bool) : M Host Unit :=
  forEach (s.only client) (runOn cmds checkStatus)

def setUpCmds (client : String) : List (Cmd String) :=
  [.mkdirs (s.htdocs client), .mkdirs (s.fastcgiSock client), .mkdir (s.archive client)]

def cleanUpCmds (client : String) : List (Cmd String) := [.remove (s.tmp client), .rmdir (s.htdocs client)]

def clientsToCreateAs (config : List String) : Option String → List String
  | none => config
  | some client => [client]

def setUp (clients : List String) (exceptClient : Option String) : M Host Unit :=
  forEach clients fun client =>
    if some client = exceptClient then .ret () else s.runOnly client (s.setUpCmds client) true

/-- The `finally` of `create_apache_dirs`, which has no look at `except_client`. -/
def cleanUp (clients : List String) : M Host Unit := do
  forEach clients fun client => s.runOnly client (s.cleanUpCmds client) true
  forEach clients fun client => s.runOnly client [.rmdir s.apache] false

def createApacheDirs (config : List String) (onClient exceptClient : Option String) (body : M Host Unit) :
    M Host Unit := do
  s.setUp (clientsToCreateAs config onClient) exceptClient
  finallyDo body (s.cleanUp (clientsToCreateAs config onClient))

/-- The first two subtasks of a multi-cluster run with `apache`, around the others. -/
def multiCluster (config : List String) (masterClient : String) : M Host Unit :=
  s.createApacheDirs config none (some masterClient) <|
    s.createApacheDirs config (some masterClient) none (.op .body .ret)

end Site

/-! ### Runs -/

abbrev Trees (Host : Type) := Host → DirTree String

abbrev W (Host : Type) := World (sig Host) Unit (Trees Host)

/-- The answer is the failure of a clean-up command whose status is checked. -/
def Op.FailsCleanUp : (o : Op Host) → o.Ans → Prop
  | .run _ cmds checkStatus, ok => (∃ c ∈ cmds, c.Removes) ∧ checkStatus = true ∧ ok = false
  | .body, _ => False

instance : (o : Op Host) → (ans : o.Ans) → Decidable (o.FailsCleanUp ans)
  | .run _ cmds checkStatus, ok =>
      inferInstanceAs (Decidable ((∃ c ∈ cmds, c.Removes) ∧ checkStatus = true ∧ ok = false))
  | .body, _ => inferInstanceAs (Decidable False)

def Failed (log : List (Event (sig Host) Unit (Trees Host))) : Prop :=
  ∃ e ∈ log, e.op.FailsCleanUp e.ans

def Reached (log : List (Event (sig Host) Unit (Trees Host))) : Prop := ∃ e ∈ log, e.op = .body

/-- A directory that set-up makes and clean-up is to remove. What is below `archive` is kept. -/
def Site.Made (s : Site Host) (config : List String) (p : List String) : Prop :=
  p = s.apache ∨ ∃ client ∈ config, p = s.htdocs client ∨ p = s.tmp client ∨ p = s.fastcgiSock client

/-- Every checked clean-up command has succeeded, and nothing is left of what was made since `x`. -/
structure Site.Balanced (s : Site Host) (config : List String) (x : Trees Host) (w : W Host) : Prop where
  succeeded : ¬ Failed w.log
  removed : ∀ host p, s.Made config p → p ∉ x host → p ∉ w.ext host

variable {checkStatus : Bool} {host : Host} {config : List String} {t : DirTree String}
  {client master : String}

section Commands

variable {s : Site Host} {w : W Host} {p : List String} {host₀ : Host}

theorem Failed.mono {log log' : List (Event (sig Host) Unit (Trees Host))} (h : Failed log)
    (hlog : log <:+ log') : Failed log' := by
  obtain ⟨e, he, hfails⟩ := h
  exact ⟨e, hlog.mem he, hfails⟩

theorem cleanUpCmds_remove (client : String) : ∀ c ∈ s.cleanUpCmds client, c.Removes := by
  intro c hc
  simp only [Site.cleanUpCmds, mem_cons, not_mem_nil, or_false] at hc
  rcases hc with rfl | rfl
  · trivial
  · trivial

theorem script_cleanUpCmds_of_gone (h : s.htdocs client ∉ t) :
    (t.script (s.cleanUpCmds client)).1 = false := by
  have hrmdir : ¬ (Cmd.rmdir (s.htdocs client)).Works (t.remove (s.tmp client)) :=
    fun hworks => h (mem_of_mem_remove hworks.1)
  rw [Site.cleanUpCmds, script_remove, script_cons_of_not_works hrmdir]

theorem script_cleanUpCmds_removes (h : (t.script (s.cleanUpCmds client)).1 = true) :
    s.htdocs client ∉ (t.script (s.cleanUpCmds client)).2 := by
  rw [Site.cleanUpCmds, script_remove] at h ⊢
  by_cases hworks : (Cmd.rmdir (s.htdocs client)).Works (t.remove (s.tmp client))
  · intro hmem
    rw [script_cons_of_works hworks] at hmem
    exact ((mem_remove hworks.2.1).mp hmem).2 prefix_rfl
  · rw [script_cons_of_not_works hworks] at h
    cases h

variable [DecidableEq Host] {cmds : List (Cmd String)} {c : Cmd String}

def env : Env (sig Host) Unit (Trees Host) := fun o _ x ans _ x' =>
  match o, ans with
  | .run host cmds _, ok => ok = ((x host).script cmds).1 ∧
      x' = update x host ((x host).script cmds).2
  | .body, _ => True

abbrev ends (q : M Host Unit) (Q : Outcome PyError Unit → W Host → Prop) (w : W Host) : Prop :=
  wp env (fun _ _ _ => True) q Q w

abbrev OrFailed (P : W Host → Prop) : Outcome PyError Unit → W Host → Prop :=
  gives (fun _ => P) fun w => Failed w.log

/-! ### One command -/

def commanded (w : W Host) (cmds : List (Cmd String)) (checkStatus : Bool) (host : Host) : W Host :=
  w.push (.run host cmds checkStatus) ((w.ext host).script cmds).1 ()
    (update w.ext host ((w.ext host).script cmds).2)

theorem ends_runOn {Q : Outcome PyError Unit → W Host → Prop}
    (hfails : ((w.ext host).script cmds).1 = false → checkStatus = true →
      Q (.exn (.command (.failed 1))) (commanded w cmds checkStatus host))
    (hgoes : (((w.ext host).script cmds).1 = false → checkStatus = false) →
      Q (.ret ()) (commanded w cmds checkStatus host)) : ends (runOn cmds checkStatus host) Q w := by
  refine ⟨trivial, ?_⟩
  rintro ok _ x ⟨rfl, rfl⟩
  unfold checkedStatus
  split
  · rename_i h
    exact hfails h.1 h.2
  · rename_i h
    exact hgoes fun hstatus => Bool.eq_false_of_not_eq_true fun hcheck => h ⟨hstatus, hcheck⟩

theorem failed_commanded (hc : c ∈ cmds) (hremoves : c.Removes)
    (hstatus : ((w.ext host).script cmds).1 = false) : Failed (commanded w cmds true host).log :=
  ⟨_, .head _, ⟨c, hc, hremoves⟩, rfl, hstatus⟩

abbrev Gone (p : List String) (host : Host) (w : W Host) : Prop := p ∉ w.ext host

theorem Gone.commanded (hcmds : ∀ c ∈ cmds, c.Removes) (h : Gone p host₀ w) :
    Gone p host₀ (commanded w cmds checkStatus host) := by
  show p ∉ update w.ext host _ host₀
  by_cases hhost : host₀ = host
  · subst hhost
    rw [update_self]
    exact fun hmem => h (mem_of_mem_script hcmds hmem)
  · rw [update_of_ne hhost]
    exact h

theorem keeps_gone (hcmds : ∀ d ∈ c :: cmds, d.Removes) (host : Host) (h : Gone p host₀ w) :
    ends (runOn (c :: cmds) checkStatus host) (OrFailed (Gone p host₀)) w := by
  apply ends_runOn
  · rintro hstatus rfl
    exact failed_commanded (.head _) (hcmds c (.head _)) hstatus
  · exact fun _ => h.commanded hcmds

theorem keeps_gone_runOnly (client : String) (hcmds : ∀ d ∈ c :: cmds, d.Removes) (h : Gone p host₀ w) :
    ends (s.runOnly client (c :: cmds) checkStatus) (OrFailed (Gone p host₀)) w :=
  wp_forEach_gives (fun _ => Gone p host₀) (fun host _ _ hw => keeps_gone hcmds host hw) _ w h

/-! ### The clean-up of a client -/

theorem cleans (client : String) (hhost : host₀ ∈ s.only client) :
    ends (s.runOnly client (s.cleanUpCmds client) true) (OrFailed (Gone (s.htdocs client) host₀)) w := by
  -- the directory is gone once the loop has been at its host
  have hloop := wp_forEach_gives (f := runOn (s.cleanUpCmds client) true) (E := env)
    (A := fun _ _ _ => True) (K := fun w : W Host => Failed w.log)
    (fun rest w => host₀ ∈ rest ∨ Gone (s.htdocs client) host₀ w) ?_ (s.only client) w (.inl hhost)
  · refine wp_result (fun _ w' h => ?_) hloop
    exact h.resolve_left not_mem_nil
  · intro host rest w' hw'
    apply ends_runOn
    · intro hstatus _
      exact failed_commanded (.head _) trivial hstatus
    · intro hstatus
      rcases hw' with hmem | hgone
      · rcases mem_cons.mp hmem with rfl | hrest
        · right
          have hok : ((w'.ext host₀).script (s.cleanUpCmds client)).1 = true :=
            Bool.eq_true_of_not_eq_false fun hfalse => (nomatch hstatus hfalse)
          show s.htdocs client ∉ update w'.ext host₀ _ host₀
          rw [update_self]
          exact script_cleanUpCmds_removes hok
        · exact .inl hrest
      · exact .inr (hgone.commanded (cleanUpCmds_remove client))

theorem refuses (client : String) (hhost : host₀ ∈ s.only client) (h : Gone (s.htdocs client) host₀ w) :
    ends (s.runOnly client (s.cleanUpCmds client) true) (OrFailed fun _ => False) w := by
  have hloop := wp_forEach_gives (f := runOn (s.cleanUpCmds client) true) (E := env)
    (A := fun _ _ _ => True) (K := fun w : W Host => Failed w.log)
    (fun rest w => host₀ ∈ rest ∧ Gone (s.htdocs client) host₀ w) ?_ (s.only client) w ⟨hhost, h⟩
  · exact wp_result (fun _ w' h => not_mem_nil h.1) hloop
  · rintro host rest w' ⟨hmem, hgone⟩
    apply ends_runOn
    · intro hstatus _
      exact failed_commanded (.head _) trivial hstatus
    · intro hstatus
      rcases mem_cons.mp hmem with rfl | hrest
      · exact (nomatch hstatus (script_cleanUpCmds_of_gone hgone))
      · exact ⟨hrest, hgone.commanded (cleanUpCmds_remove client)⟩

theorem ends_cleanUp_master (master : String) (hhost : host₀ ∈ s.only master) :
    ends (s.cleanUp [master]) (OrFailed (Gone (s.htdocs master) host₀)) w := by
  have hfirst : ends (forEach [master] fun client => s.runOnly client (s.cleanUpCmds client) true)
      (OrFailed (Gone (s.htdocs master) host₀)) w := wp_seq (cleans master hhost) fun _ _ h => h
  refine wp_seq hfirst fun _ w' hw' => ?_
  exact wp_seq (keeps_gone_runOnly master (by simp [Cmd.Removes]) hw') fun _ _ h => h

theorem ends_cleanUp_all (hmem : master ∈ config) (hhost : host₀ ∈ s.only master)
    (h : Gone (s.htdocs master) host₀ w) : ends (s.cleanUp config) (fun _ w' => Failed w'.log) w := by
  have hloop := wp_forEach_gives (f := fun client => s.runOnly client (s.cleanUpCmds client) true)
    (E := env) (A := fun _ _ _ => True) (K := fun w : W Host => Failed w.log)
    (fun rest w => master ∈ rest ∧ Gone (s.htdocs master) host₀ w) ?_ config w ⟨hmem, h⟩
  · refine wp_bind.mpr (wp_mono ?_ hloop)
    rintro (_ | e | _) w' h'
    · exact absurd h'.1 not_mem_nil
    · exact h'
    · exact h'
  · rintro client rest w' ⟨hmem, hgone⟩
    by_cases hclient : client = master
    · subst hclient
      exact wp_result (fun _ _ h => h.elim) (refuses client hhost hgone)
    · have hrest := (mem_cons.mp hmem).resolve_left (Ne.symm hclient)
      refine wp_result (fun _ _ h => ⟨hrest, h⟩) ?_
      exact keeps_gone_runOnly client (cleanUpCmds_remove client) hgone

/-! ### The whole run -/

theorem keeps_failed (q : M Host Unit) (h : Failed w.log) : ends q (fun _ w' => Failed w'.log) w :=
  wp_iff_exec.mpr fun _ _ hrun => h.mono hrun.log_suffix

theorem keeps_not_reached (host : Host) (h : ¬ Reached w.log) :
    ends (runOn cmds checkStatus host) (fun _ w' => ¬ Reached w'.log) w := by
  have hcommanded : ¬ Reached (commanded w cmds checkStatus host).log := by
    rintro ⟨e, he, hbody⟩
    rcases mem_cons.mp he with rfl | he
    · cases hbody
    · exact h ⟨e, he, hbody⟩
  exact ends_runOn (fun _ _ => hcommanded) fun _ => hcommanded

theorem keeps_not_reached_loop {ι : Type} {f : ι → M Host Unit}
    (hf : ∀ i (w : W Host), ¬ Reached w.log → ends (f i) (fun _ w' => ¬ Reached w'.log) w) (xs : List ι)
    (h : ¬ Reached w.log) : ends (forEach xs f) (fun _ w' => ¬ Reached w'.log) w := by
  refine wp_forEach (fun _ w' => ¬ Reached w'.log) (fun i _ w' hw' => ?_) (fun _ hw' => hw') xs w h
  refine wp_mono ?_ (hf i w' hw')
  rintro (_ | e | _) w'' h'' <;> exact h''

theorem keeps_not_reached_setUp (clients : List String) (exceptClient : Option String)
    (h : ¬ Reached w.log) : ends (s.setUp clients exceptClient) (fun _ w' => ¬ Reached w'.log) w := by
  refine keeps_not_reached_loop (fun client w' hw' => ?_) clients h
  split
  · exact hw'
  · exact keeps_not_reached_loop (fun host _ hw => keeps_not_reached host hw) _ hw'

theorem keeps_not_reached_cleanUp (clients : List String) (h : ¬ Reached w.log) :
    ends (s.cleanUp clients) (fun _ w' => ¬ Reached w'.log) w := by
  have hloop : ∀ (cmds : String → List (Cmd String)) (checkStatus : Bool) (w : W Host), ¬ Reached w.log →
      ends (forEach clients fun client => s.runOnly client (cmds client) checkStatus)
        (fun _ w' => ¬ Reached w'.log) w := by
    intro cmds checkStatus w hw
    refine keeps_not_reached_loop (fun client w' hw' => ?_) clients hw
    exact keeps_not_reached_loop (fun host _ hw => keeps_not_reached host hw) _ hw'
  refine wp_bind.mpr (wp_mono ?_ (hloop s.cleanUpCmds true w h))
  rintro (_ | e | _) w' h'
  · exact hloop _ false w' h'
  · exact h'
  · exact h'

abbrev Refuted (w : W Host) : Prop := Reached w.log → Failed w.log

theorem ends_inner (config : List String) (master : String) (hhost : host₀ ∈ s.only master)
    (h : ¬ Reached w.log) : ends (s.createApacheDirs config (some master) none (.op .body .ret))
      (gives (fun _ => Gone (s.htdocs master) host₀) Refuted) w := by
  refine wp_bind.mpr (wp_mono ?_ (keeps_not_reached_setUp _ _ h))
  rintro (_ | e | _) w1 h1
  · refine wp_finallyDo.mpr ⟨trivial, fun _ _ x _ => ?_⟩
    show ends (s.cleanUp [master]) _ _
    refine wp_mono ?_ (ends_cleanUp_master master hhost)
    rintro (_ | e | _) w2 h2
    · exact h2
    · exact fun _ => h2
    · exact fun _ => h2
  all_goals exact fun hreached => absurd hreached h1

theorem refuted_cleanUp (clients : List String) (h : Refuted w) :
    ends (s.cleanUp clients) (fun _ => Refuted) w := by
  by_cases hreached : Reached w.log
  · refine wp_mono ?_ (keeps_failed _ (h hreached))
    exact fun _ _ hfailed _ => hfailed
  · exact wp_mono (fun _ _ hnot hr => absurd hr hnot) (keeps_not_reached_cleanUp clients hreached)

theorem refuted_multiCluster (hmem : master ∈ config) (hhost : host₀ ∈ s.only master)
    (h : ¬ Reached w.log) :
    ends (s.multiCluster config master) (fun _ => Refuted) w := by
  refine wp_bind.mpr (wp_mono ?_ (keeps_not_reached_setUp _ _ h))
  rintro (_ | e | _) w1 h1
  · refine wp_finallyDo.mpr (wp_mono ?_ (ends_inner config master hhost h1))
    rintro (_ | e | _) w2 h2
    · refine wp_mono ?_ (ends_cleanUp_all hmem hhost h2)
      rintro (_ | e | _) w3 h3 <;> exact fun _ => h3
    · refine wp_mono ?_ (refuted_cleanUp config h2)
      rintro (_ | e | _) w3 h3 <;> exact h3
    · exact h2
  all_goals exact fun hreached => absurd hreached h1

/-- **Clean-up never balances set-up.** Once set-up has succeeded a clean-up command fails: the outer one
wants to remove the directories of the master, which the inner one has removed. -/
theorem apache_dirs_never_balance (s : Site Host) (config : List String) (master : String)
    (hmem : master ∈ config) (hplaced : s.only master ≠ []) (x : Trees Host) (r : Outcome PyError Unit)
    (w : W Host) (hrun : Exec env (s.multiCluster config master) ⟨(), x, []⟩ r w)
    (hreached : Reached w.log) : ¬ s.Balanced config x w := by
  obtain ⟨host₀, hhost⟩ := exists_mem_of_ne_nil _ hplaced
  have hstart : ¬ Reached (⟨(), x, []⟩ : W Host).log := by
    rintro ⟨e, he, -⟩
    exact not_mem_nil he
  have hrefuted := wp_post (refuted_multiCluster hmem hhost hstart) hrun
  exact fun hbalanced => hbalanced.succeeded (hrefuted hreached)

end Commands

/-! ### A run with two clients -/

def answer {Host : Type} [DecidableEq Host] :
    (o : Op Host) → Unit → Trees Host → o.Ans × Unit × Trees Host
  | .run host cmds _, _, x =>
      (((x host).script cmds).1, (), update x host ((x host).script cmds).2)
  | .body, _, x => ((), (), x)

theorem env_answer {Host : Type} [DecidableEq Host] (o : Op Host) (u : Unit) (x : Trees Host) :
    env o u x (answer o u x).1 (answer o u x).2.1 (answer o u x).2.2 := by
  cases o with
  | run host cmds checkStatus => exact ⟨rfl, rfl⟩
  | body => trivial

def twoHosts : Site (Fin 2) where
  testdir := ["t"]
  only
    | "client.0" => [0]
    | "client.1" => [1]
    | _ => []

def twoClients : List String := ["client.0", "client.1"]

def freshTrees : Trees (Fin 2) := fun _ => (DirTree.bare String).mkdirs ["t", "archive"]

def twoClientsRun : Outcome PyError Unit × W (Fin 2) :=
  runWith answer (twoHosts.multiCluster twoClients "client.0") ⟨(), freshTrees, []⟩

theorem twoClientsRun_reached : Reached twoClientsRun.2.log := by
  unfold Reached
  decide +kernel

theorem apache_dirs_never_balance_twoClients :
    Reached twoClientsRun.2.log ∧ ¬ twoHosts.Balanced twoClients freshTrees twoClientsRun.2 :=
  ⟨twoClientsRun_reached, apache_dirs_never_balance twoHosts twoClients "client.0" (.head _)
    (by decide) freshTrees twoClientsRun.1 twoClientsRun.2 (exec_runWith env_answer _ _)
    twoClientsRun_reached⟩

/-- Removing the directories of the master a second time fails, and the other client keeps its own. -/
theorem second_cleanUp_fails :
    ∃ w, Exec env (twoHosts.multiCluster twoClients "client.0") ⟨(), freshTrees, []⟩
        (.exn (.command (.failed 1))) w ∧
      Reached w.log ∧ Failed w.log ∧ twoHosts.htdocs "client.1" ∈ w.ext 1 := by
  have hrun := exec_runWith env_answer (twoHosts.multiCluster twoClients "client.0")
    (⟨(), freshTrees, []⟩ : W (Fin 2))
  have hraises : twoClientsRun.1 = .exn (.command (.failed 1)) := by decide +kernel
  refine ⟨twoClientsRun.2, hraises ▸ hrun, twoClientsRun_reached, ?_, by decide +kernel⟩
  unfold Failed
  decide +kernel

end ZbkcTasks.RgwApache
