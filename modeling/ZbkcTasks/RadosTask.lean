import ZbkcTasks.PyProg
import ZbkcTasks.PyText

/-! The thread of `tasks/rados.py`, which starts one test per client in each run. The list of pools is the
one in the configuration itself, so what a client takes from it is gone for the later runs. -/

namespace ZbkcTasks.RadosTask

open List Prog

/-- The entry `runs`: not given, a number, or a text. -/
inductive RunsArg
  | missing
  | num (n : Int)
  | text (s : List Char)
  deriving DecidableEq

def RunsArg.int : RunsArg → Except PyError Int
  | .missing => pyInt "1".toList
  | .num n => .ok n
  | .text s => pyInt s

/-- The configuration without its entry `pools`. -/
structure Config where
  pool : Option String
  runs : RunsArg
  clients : Option (List String)
  ecPool : Bool
  erasureCodeProfile : List (String × String)
  erasureCodeUseHackyOverwrites : Bool
  fastRead : Bool

abbrev Pools := Option (List String)

inductive Op (Host : Type)
  | logRun (i : Nat) (runs : RunsArg)
  | createErasureCodeProfile (name : String) (profile : List (String × String))
  | createPoolWithUniqueName (profileName : Option String) (overwrites : Bool)
  | poolSet (pool prop value : String)
  | run (remote : Host) (args : List String)
  | wait (ids : List String)
  | removePool (pool : String)

@[reducible] def Op.Ans {Host : Type} : Op Host → Type
  | .logRun _ _ => Unit
  | .createErasureCodeProfile _ _ => Except CommandError Unit
  | .createPoolWithUniqueName _ _ => Except CommandError String
  | .poolSet _ _ _ => Except CommandError Unit
  | .run _ _ => Except CommandError Unit
  | .wait _ => Except CommandError Unit
  | .removePool _ => Except CommandError Unit

@[reducible] def sig (Host : Type) : Sig where
  Op := Op Host
  Ans := Op.Ans

abbrev M (Host : Type) := Prog (sig Host) Pools PyError

/-- The clients of the cluster, the remotes that have a role, and the arguments of the test. -/
structure Context (Host : Type) where
  allClients : List String
  remotes : String → List Host
  args : List String

variable {Host : Type}

def truthy (pool : Option String) : Bool := pool.any (· ≠ "")

def roles (ctx : Context Host) (config : Config) : List String := config.clients.getD ctx.allClients

/-- `tests` and `created_pools`, the first as the ids of its clients. -/
structure Tests where
  ids : List String
  createdPools : List String

def createPool (config : Config) (profileName : Option String) (created : List String) :
    M Host (String × List String) := do
  let pool ← .op (.createPoolWithUniqueName profileName config.erasureCodeUseHackyOverwrites) ofCommand
  onlyIf (config.fastRead = true) (.op (.poolSet pool "fast_read" "true") ofCommand)
  return (pool, created ++ [pool])

def choosePool (config : Config) (profileName : Option String) (created : List String) :
    M Host (String × List String) :=
  .read fun pools =>
    if truthy config.pool = true then createPool config profileName created
    else (pools.getD []).getLast?.elim (createPool config profileName created) fun pool =>
      .write (some (pools.getD []).dropLast) (.ret (pool, created))

def isClient (role : String) : Bool := "client.".toList.isPrefixOf role.toList

def clientId (role : String) : String := String.ofList (role.toList.drop 7)

def testArgs (args : List String) (id pool : String) : List String :=
  ["ZBKC_CLIENT_ID=" ++ id] ++ args ++ ["--pool", pool]

def startTests (ctx : Context Host) (config : Config) (profileName : Option String) :
    List String → Tests → M Host Tests
  | [], tests => .ret tests
  | role :: roles, tests => do
      pyAssert (isClient role = true) ""
      let (pool, created) ← choosePool config profileName tests.createdPools
      let remote ← theOnly (ctx.remotes role)
      .op (.run remote (testArgs ctx.args (clientId role) pool)) ofCommand
      startTests ctx config profileName roles
        ⟨if tests.ids.contains (clientId role) then tests.ids else tests.ids ++ [clientId role], created⟩

def oneRun (ctx : Context Host) (config : Config) (profileName : Option String) (i : Nat) :
    M Host Unit := do
  .op (.logRun i config.runs) .ret
  let tests ← startTests ctx config profileName (roles ctx config) ⟨[], []⟩
  .op (.wait tests.ids) ofCommand
  forEach tests.createdPools fun pool => .op (.removePool pool) ofCommand

def makeProfile (config : Config) : M Host (Option String) :=
  if config.ecPool = true then do
    let name := (config.erasureCodeProfile.lookup "name").getD "teuthologyprofile"
    .op (.createErasureCodeProfile name config.erasureCodeProfile) ofCommand
    return some name
  else return none

/-- `thread()`. The state is the entry `pools` of the configuration. -/
def thread (ctx : Context Host) (config : Config) : M Host Unit := do
  let profileName ← makeProfile config
  let runs ← orThrow config.runs.int
  forEach (List.range runs.toNat) (oneRun ctx config profileName)

/-! ### What a run does -/

/-- The pools used in this run and the earlier ones, and the pools created and removed. -/
structure History where
  current : List String
  runs : List (List String)
  created : List String
  removed : List String

def History.empty : History := ⟨[], [], [], []⟩

/-- What the observer sees of an operation. A run is over when its tests were waited for. -/
def History.after (h : History) : (o : Op Host) → o.Ans → History
  | .createPoolWithUniqueName _ _, .ok pool => { h with created := h.created ++ [pool] }
  | .run _ args, .ok _ => { h with current := h.current ++ [args.getLastD ""] }
  | .wait _, .ok _ => { h with current := [], runs := h.runs ++ [h.current] }
  | .removePool pool, .ok _ => { h with removed := h.removed ++ [pool] }
  | _, _ => h

def Succeeds : (o : Op Host) → o.Ans → Prop
  | .logRun _ _, _ => True
  | .createErasureCodeProfile _ _, r => r.isOk = true
  | .createPoolWithUniqueName _ _, r => r.isOk = true
  | .poolSet _ _ _, r => r.isOk = true
  | .run _ _, r => r.isOk = true
  | .wait _, r => r.isOk = true
  | .removePool _, r => r.isOk = true

/-- Commands may fail unless `sound`. -/
def clusterEnv (sound : Bool) : Env (sig Host) Pools History := fun o s h a s' h' =>
  s' = s ∧ h' = h.after o a ∧ (sound = true → Succeeds o a)

section Run

variable {sound : Bool} {α β : Type} {w : World (sig Host) Pools History} {config : Config}
  {ctx : Context Host} {profileName : Option String}

abbrev does (sound : Bool) (p : M Host α) (P : α → World (sig Host) Pools History → Prop)
    (w : World (sig Host) Pools History) : Prop :=
  wp (clusterEnv sound) (fun _ _ _ => True) p (gives P fun _ => sound = false) w

theorem does_answer {P : β → World (sig Host) Pools History → Prop} {r : Except CommandError β}
    (hr : sound = true → r.isOk = true) (h : ∀ b, r = .ok b → P b w) : does sound (ofCommand r) P w := by
  cases r with
  | ok b => exact h b rfl
  | error e =>
    cases sound with
    | false => exact rfl
    | true => cases hr rfl

theorem does_op {o : Op Host} {k : o.Ans → M Host α} {P : α → World (sig Host) Pools History → Prop}
    (hk : ∀ a w', w'.st = w.st → w'.ext = w.ext.after o a → (sound = true → Succeeds o a) →
      does sound (k a) P w') : does sound (.op o k) P w :=
  ⟨trivial, fun a _ _ hstep => hk a _ hstep.1 hstep.2.1 hstep.2.2⟩

inductive Choice (config : Config) (s : Pools) (h : History) (created : List String) :
    String × List String → Pools → History → Prop
  | taken {ps : List String} {pool : String} : truthy config.pool = false → s.getD [] = ps ++ [pool] →
      Choice config s h created (pool, created) (some ps) h
  | created {pool : String} : truthy config.pool = true ∨ s.getD [] = [] →
      Choice config s h created (pool, created ++ [pool]) s { h with created := h.created ++ [pool] }

theorem does_createPool {created : List String} (hwhy : truthy config.pool = true ∨ w.st.getD [] = []) :
    does sound (createPool config profileName created)
      (fun r w' => Choice config w.st w.ext created r w'.st w'.ext) w := by
  have hcreate : does sound
      (.op (.createPoolWithUniqueName profileName config.erasureCodeUseHackyOverwrites) ofCommand)
      (fun pool w' => w'.st = w.st ∧ w'.ext = { w.ext with created := w.ext.created ++ [pool] }) w :=
    does_op fun a w1 hst hext hok => does_answer hok fun pool hpool => ⟨hst, by rw [hext, hpool]; rfl⟩
  apply wp_seq hcreate
  rintro pool w1 ⟨hst1, hext1⟩
  have hset : does sound
      (onlyIf (config.fastRead = true) (.op (.poolSet pool "fast_read" "true") ofCommand))
      (fun _ w' => w'.st = w1.st ∧ w'.ext = w1.ext) w1 := by
    rw [onlyIf]
    split
    · exact does_op fun b w2 hst2 hext2 hok => does_answer hok fun _ _ => ⟨hst2, hext2⟩
    · exact ⟨rfl, rfl⟩
  apply wp_seq hset
  rintro _ w2 ⟨hst2, hext2⟩
  show Choice _ _ _ _ _ w2.st w2.ext
  rw [hst2, hext2, hst1, hext1]
  exact .created hwhy

theorem does_choosePool (created : List String) : does sound (choosePool config profileName created)
      (fun r w' => Choice config w.st w.ext created r w'.st w'.ext) w := by
  show does sound (if truthy config.pool = true then _ else _) _ w
  split
  next hpool => exact does_createPool (.inl hpool)
  next hpool =>
    cases hlast : (w.st.getD []).getLast? with
    | none => exact does_createPool (.inr (getLast?_eq_none_iff.mp hlast))
    | some pool =>
      have hpools : w.st.getD [] = (w.st.getD []).dropLast ++ [pool] :=
        (dropLast_append_getLast? pool hlast).symm
      exact .taken (Bool.eq_false_iff.mpr hpool) hpools

def Untaken (config : Config) (n : Nat) (s : Pools) : Prop :=
  n = 0 ∨ truthy config.pool = true ∨ s.getD [] = []

/-- `n` clients take from the list while they may, and others are created. -/
structure Supplied (config : Config) (n : Nat) (s s' : Pools) (new : List String) : Prop where
  untaken : Untaken config n s → s' = s ∧ new.length = n
  taken : truthy config.pool = false → (s'.getD []).length = (s.getD []).length - n

/-- The clients have been started on the pools `used`, of which `new` were created. -/
structure Started (config : Config) (n : Nat) (s s' : Pools) (h h' : History)
    (created created' used new : List String) : Prop where
  length : used.length = n
  created : created' = created ++ new
  supplied : Supplied config n s s' new
  history : h' = { h with current := h.current ++ used, created := h.created ++ new }

def ValidRoles (ctx : Context Host) (roles : List String) : Prop :=
  ∀ role ∈ roles, isClient role = true ∧ ∃ remote, ctx.remotes role = [remote]

theorem Started.cons {n : Nat} {s s1 s' : Pools} {h h1 h' : History}
    {created created1 created' used new : List String} {pool : String}
    (hchoice : Choice config s h created (pool, created1) s1 h1)
    (hrest : Started config n s1 s' { h1 with current := h1.current ++ [pool] } h' created1 created'
      used new) :
    ∃ used new, Started config (n + 1) s s' h h' created created' used new := by
  obtain ⟨hlength, hcreated, ⟨huntaken, htaken⟩, hhistory⟩ := hrest
  have hused : (pool :: used).length = n + 1 := by rw [length_cons, hlength]
  cases hchoice with
  | @taken ps _ hpool hs =>
    refine ⟨pool :: used, new, hused, hcreated, ⟨?_, fun _ => ?_⟩, by rw [hhistory]; simp⟩
    · rintro (hzero | htrue | hnil)
      · cases hzero
      · cases hpool.symm.trans htrue
      · simp [hs] at hnil
    · have hps : (s'.getD []).length = ps.length - n := htaken hpool
      rw [hps, hs, length_append, length_singleton]
      omega
  | created hwhy =>
    obtain ⟨hpools, hnew⟩ := huntaken (.inr hwhy)
    refine ⟨pool :: used, pool :: new, hused, by rw [hcreated]; simp, ⟨fun _ => ⟨hpools, ?_⟩, ?_⟩,
      by rw [hhistory]; simp⟩
    · rw [length_cons, hnew]
    · intro hpool
      have hnil : s.getD [] = [] := hwhy.resolve_left (by rw [hpool]; nofun)
      rw [hpools, hnil, length_nil, Nat.zero_sub]

theorem getLastD_testArgs (args : List String) (id pool : String) :
    (testArgs args id pool).getLastD "" = pool := by
  have hsplit : testArgs args id pool = (["ZBKC_CLIENT_ID=" ++ id] ++ args ++ ["--pool"]) ++ [pool] := by
    simp [testArgs]
  rw [hsplit, getLastD_concat]

theorem does_startTests {roles : List String} (hroles : ValidRoles ctx roles) (tests : Tests) :
    does sound (startTests ctx config profileName roles tests) (fun tests' w' =>
      ∃ used new, Started config roles.length w.st w'.st w.ext w'.ext tests.createdPools
        tests'.createdPools used new) w := by
  induction roles generalizing tests w with
  | nil => exact ⟨[], [], rfl, (append_nil _).symm, ⟨fun _ => ⟨rfl, rfl⟩, fun _ => rfl⟩, by simp⟩
  | cons role roles ih =>
    obtain ⟨⟨hclient, remote, hremote⟩, hroles⟩ := forall_mem_cons.mp hroles
    have hassert : (pyAssert (isClient role = true) "" : M Host Unit) = .ret () := if_pos hclient
    rw [startTests, hassert, ret_bind]
    apply wp_seq (does_choosePool tests.createdPools)
    rintro ⟨pool, created⟩ w1 hchoice
    rw [hremote]
    have hrun : does sound (.op (.run remote (testArgs ctx.args (clientId role) pool)) ofCommand)
        (fun _ w' => w'.st = w1.st ∧
          w'.ext = { w1.ext with current := w1.ext.current ++ [pool] }) w1 := by
      refine does_op fun a w2 hst hext hok => does_answer hok fun b hb => ⟨hst, ?_⟩
      rw [hext, hb, History.after, getLastD_testArgs]
    apply wp_seq hrun
    rintro _ w2 ⟨hst2, hext2⟩
    apply wp_result _ (ih hroles _)
    rintro tests' w3 ⟨used, new, hstarted⟩
    rw [hst2, hext2] at hstarted
    exact hstarted.cons hchoice

/-- A run of `n` clients: those without a pool get a new one, which is removed at the end. -/
structure Ran (config : Config) (n : Nat) (s s' : Pools) (h h' : History) (used new : List String) :
    Prop where
  length : used.length = n
  supplied : Supplied config n s s' new
  current : h'.current = []
  runs : h'.runs = h.runs ++ [used]
  created : h'.created = h.created ++ new
  removed : h'.removed = h.removed ++ new

theorem does_removePools (pools : List String) :
    does sound (forEach pools fun pool => .op (.removePool pool) ofCommand) (fun _ w' =>
      w'.st = w.st ∧ w'.ext = { w.ext with removed := w.ext.removed ++ pools }) w := by
  induction pools generalizing w with
  | nil => exact ⟨rfl, by rw [append_nil]⟩
  | cons pool pools ih =>
    have hremove : does sound (.op (.removePool pool) ofCommand) (fun _ w' => w'.st = w.st ∧
        w'.ext = { w.ext with removed := w.ext.removed ++ [pool] }) w :=
      does_op fun a w1 hst hext hok => does_answer hok fun b hb => ⟨hst, by rw [hext, hb]; rfl⟩
    apply wp_seq hremove
    rintro _ w1 ⟨hst1, hext1⟩
    apply wp_result _ ih
    rintro _ w2 ⟨hst2, hext2⟩
    refine ⟨hst2.trans hst1, ?_⟩
    rw [hext2, hext1, append_assoc]
    rfl

theorem does_oneRun (hroles : ValidRoles ctx (roles ctx config)) (hcurrent : w.ext.current = []) (i : Nat) :
    does sound (oneRun ctx config profileName i) (fun _ w' => ∃ used new,
      Ran config (roles ctx config).length w.st w'.st w.ext w'.ext used new) w := by
  apply wp_seq (does_op fun _ _ hst hext _ => ⟨hst, hext⟩ :
    does sound (.op (.logRun i config.runs) .ret) (fun _ w' => w'.st = w.st ∧ w'.ext = w.ext) w)
  rintro _ w1 ⟨hst1, hext1⟩
  apply wp_seq (does_startTests hroles ⟨[], []⟩)
  rintro tests w2 ⟨used, new, hlength, hcreated, hsupplied, hhistory⟩
  have hwait : does sound (.op (.wait tests.ids) ofCommand) (fun _ w' => w'.st = w2.st ∧
      w'.ext = { w2.ext with current := [], runs := w2.ext.runs ++ [w2.ext.current] }) w2 :=
    does_op fun a w3 hst hext hok => does_answer hok fun b hb => ⟨hst, by rw [hext, hb]; rfl⟩
  apply wp_seq hwait
  rintro _ w3 ⟨hst3, hext3⟩
  apply wp_result _ (does_removePools tests.createdPools)
  rintro _ w4 ⟨hst4, hext4⟩
  rw [hst1] at hsupplied
  rw [hext1, hcurrent, nil_append] at hhistory
  have hnew : tests.createdPools = new := hcreated
  refine ⟨used, new, hlength, by rw [hst4, hst3]; exact hsupplied, ?_, ?_, ?_, ?_⟩
  · rw [hext4, hext3]
  · rw [hext4, hext3, hhistory]
  · rw [hext4, hext3, hhistory]
  · rw [hext4, hext3, hhistory, hnew]

inductive RanTimes (config : Config) (n : Nat) : Nat → Pools → Pools → History → History → Prop
  | zero (s : Pools) (h : History) : RanTimes config n 0 s s h h
  | succ {m : Nat} {s s₁ s' : Pools} {h h₁ h' : History} {used new : List String} :
      Ran config n s s₁ h h₁ used new → RanTimes config n m s₁ s' h₁ h' →
      RanTimes config n (m + 1) s s' h h'

theorem does_runs (hroles : ValidRoles ctx (roles ctx config)) (hcurrent : w.ext.current = [])
    (is : List Nat) : does sound (forEach is (oneRun ctx config profileName)) (fun _ w' =>
      RanTimes config (roles ctx config).length is.length w.st w'.st w.ext w'.ext) w := by
  induction is generalizing w with
  | nil => exact .zero _ _
  | cons i is ih =>
    apply wp_seq (does_oneRun hroles hcurrent i)
    rintro _ w1 ⟨used, new, hran⟩
    apply wp_result _ (ih hran.current)
    intro _ w2 hrest
    exact .succ hran hrest

theorem does_thread {runs : Int} (hruns : config.runs.int = .ok runs)
    (hroles : ValidRoles ctx (roles ctx config)) (hcurrent : w.ext.current = []) :
    does sound (thread ctx config) (fun _ w' =>
      RanTimes config (roles ctx config).length runs.toNat w.st w'.st w.ext w'.ext) w := by
  have hprofile : does sound (makeProfile config) (fun _ w' => w'.st = w.st ∧ w'.ext = w.ext) w := by
    rw [makeProfile]
    split
    · have hcreate : does sound (.op (.createErasureCodeProfile
          ((config.erasureCodeProfile.lookup "name").getD "teuthologyprofile") config.erasureCodeProfile)
          ofCommand) (fun _ w' => w'.st = w.st ∧ w'.ext = w.ext) w :=
        does_op fun _ _ hst hext hok => does_answer hok fun _ _ => ⟨hst, hext⟩
      exact wp_seq hcreate fun _ _ h => h
    · exact ⟨rfl, rfl⟩
  apply wp_seq hprofile
  rintro profileName w1 ⟨hst1, hext1⟩
  rw [hruns]
  apply wp_result _
    (does_runs hroles (by rw [hext1, hcurrent]) (List.range runs.toNat))
  intro _ w2 hran
  rwa [length_range, hst1, hext1] at hran

end Run

/-! ### All runs -/

section Times

variable {config : Config} {n m : Nat} {s s' : Pools} {h h' : History}

theorem RanTimes.complete (hran : RanTimes config n m s s' h h')
    (hbefore : ∀ run ∈ h.runs, run.length = n) :
    h'.runs.length = h.runs.length + m ∧ ∀ run ∈ h'.runs, run.length = n := by
  induction hran with
  | zero s h => exact ⟨rfl, hbefore⟩
  | @succ m s s1 s' h h1 h' used new hfirst hrest ih =>
    obtain ⟨hruns, hall⟩ := ih (by
      rw [hfirst.runs, forall_mem_append, forall_mem_singleton]
      exact ⟨hbefore, hfirst.length⟩)
    refine ⟨?_, hall⟩
    rw [hruns, hfirst.runs, length_append, length_singleton]
    omega

theorem RanTimes.removed (hran : RanTimes config n m s s' h h') (hbefore : h.removed = h.created) :
    h'.removed = h'.created := by
  induction hran with
  | zero s h => exact hbefore
  | succ hfirst _ ih => exact ih (by rw [hfirst.removed, hfirst.created, hbefore])

theorem RanTimes.untaken (hran : RanTimes config n m s s' h h') (huntaken : Untaken config n s) :
    s' = s ∧ h'.created.length = h.created.length + m * n := by
  induction hran with
  | zero s h => exact ⟨rfl, by rw [Nat.zero_mul, Nat.add_zero]⟩
  | succ hfirst hrest ih =>
    obtain ⟨rfl, hnew⟩ := hfirst.supplied.untaken huntaken
    obtain ⟨hpools, hcreated⟩ := ih huntaken
    refine ⟨hpools, ?_⟩
    rw [hcreated, hfirst.created, length_append, hnew, Nat.succ_mul]
    omega

theorem RanTimes.taken (hran : RanTimes config n m s s' h h') (hpool : truthy config.pool = false) :
    (s'.getD []).length = (s.getD []).length - m * n := by
  induction hran with
  | zero s h => rw [Nat.zero_mul, Nat.sub_zero]
  | succ hfirst hrest ih =>
    rw [ih, hfirst.supplied.taken hpool, Nat.succ_mul]
    omega

theorem RanTimes.idle (hran : RanTimes config n m s s' .empty h') (hidle : m = 0 ∨ n = 0) :
    s' = s ∧ h'.created = [] ∧ ∀ run ∈ h'.runs, run = [] := by
  rcases hidle with rfl | rfl
  · cases hran
    exact ⟨rfl, rfl, by simp [History.empty]⟩
  · obtain ⟨hpools, hcreated⟩ := hran.untaken (.inl rfl)
    obtain ⟨-, hall⟩ := hran.complete (by simp [History.empty])
    refine ⟨hpools, length_eq_zero_iff.mp hcreated, fun run hrun => ?_⟩
    exact length_eq_zero_iff.mp (hall run hrun)

end Times

def FromList (config : Config) (pools : Pools) (n : Nat) : Prop :=
  truthy config.pool = false ∧ pools.getD [] ≠ [] ∧ n ≤ (pools.getD []).length

/-- The `n` clients of each of the runs have used the pools that the configuration gives them. -/
structure UsesGiven (config : Config) (n runs : Nat) (pools pools' : Pools) (h : History) : Prop where
  complete : h.runs.length = runs ∧ ∀ run ∈ h.runs, run.length = n
  pool : ∀ pool, config.pool = some pool → pool ≠ "" → ∀ run ∈ h.runs, ∀ used ∈ run, used = pool
  listed : FromList config pools n → ∀ run ∈ h.runs, run.Nodup ∧ run ⊆ pools.getD []
  created : h.created ≠ [] → truthy config.pool = false ∧ ¬ FromList config pools n
  removed : h.removed.Perm h.created
  unchanged : pools' = pools

def firstAnswer : (o : Op Host) → o.Ans
  | .logRun _ _ => ()
  | .createErasureCodeProfile _ _ => .ok ()
  | .createPoolWithUniqueName _ _ => .ok "unique_pool_0"
  | .poolSet _ _ _ => .ok ()
  | .run _ _ => .ok ()
  | .wait _ => .ok ()
  | .removePool _ => .ok ()

def firstReply (o : Op Host) (s : Pools) (h : History) : o.Ans × Pools × History :=
  (firstAnswer o, s, h.after o (firstAnswer o))

theorem clusterEnv_firstReply (sound : Bool) (o : Op Host) (s : Pools) (h : History) :
    clusterEnv sound o s h (firstReply o s h).1 (firstReply o s h).2.1 (firstReply o s h).2.2 := by
  refine ⟨rfl, rfl, fun _ => ?_⟩
  cases o with
  | logRun i runs => exact trivial
  | _ => exact rfl

theorem clusterEnv_total (sound : Bool) (o : Op Host) (s : Pools) (h : History) :
    ∃ a s' h', clusterEnv sound o s h a s' h' :=
  ⟨_, _, _, clusterEnv_firstReply sound o s h⟩

theorem exists_run {ctx : Context Host} {config : Config} {runs : Int} (hruns : config.runs.int = .ok runs)
    (hroles : ValidRoles ctx (roles ctx config)) (pools : Pools) {Q : Pools → History → Prop}
    (hall : ∀ w, Exec (clusterEnv false) (thread ctx config) ⟨pools, .empty, []⟩ (.ret ()) w →
      Q w.st w.ext) :
    ∃ s h, RanTimes config (roles ctx config).length runs.toNat pools s .empty h ∧ Q s h := by
  have hwp : wp (clusterEnv true) (fun _ _ _ => True) (thread ctx config)
      (fun r w => r = .ret () → Q w.st w.ext) ⟨pools, .empty, []⟩ := by
    have hfalse : wp (clusterEnv false) (fun _ _ _ => True) (thread ctx config)
        (fun r w => r = .ret () → Q w.st w.ext) ⟨pools, .empty, []⟩ := by
      rw [wp_iff_exec]
      rintro r w hrun rfl
      exact hall w hrun
    exact wp_env_mono (fun o s x a s' x' hstep => ⟨hstep.1, hstep.2.1, nofun⟩) hfalse
  obtain ⟨r, w, hrun⟩ := exists_exec (clusterEnv_total true) (thread ctx config) ⟨pools, .empty, []⟩
  have hpost := wp_post (does_thread hruns hroles rfl) hrun
  cases r with
  | ret u => exact ⟨w.st, w.ext, hpost, wp_post hwp hrun rfl⟩
  | exn | cut => cases hpost

/-- **The pools of the configuration.** The clients use the pools they are given, in every run that returns,
exactly when there is nothing to run, or no pool is given at all. -/
theorem pools_used_iff (ctx : Context Host) (config : Config) (pools : Pools) (runs : Int)
    (hruns : config.runs.int = .ok runs) (hroles : ValidRoles ctx (roles ctx config)) :
    (∀ w, Exec (clusterEnv false) (thread ctx config) ⟨pools, .empty, []⟩ (.ret ()) w →
      UsesGiven config (roles ctx config).length runs.toNat pools w.st w.ext) ↔
    runs ≤ 0 ∨ roles ctx config = [] ∨ (truthy config.pool = false ∧ pools.getD [] = []) := by
  constructor
  · intro hall
    obtain ⟨s, h, hran, huses⟩ := exists_run hruns hroles pools hall
    by_contra hnot
    obtain ⟨hpos, hne, hgiven⟩ : 0 < runs ∧ roles ctx config ≠ [] ∧
        ¬ (truthy config.pool = false ∧ pools.getD [] = []) := by
      simpa only [not_or, not_le] using hnot
    have hmany : 0 < runs.toNat * (roles ctx config).length :=
      Nat.mul_pos (by omega) (length_pos_iff.mpr hne)
    by_cases hpool : truthy config.pool = true
    · obtain ⟨-, hcreated⟩ := hran.untaken (.inr (.inl hpool))
      have hsome : h.created ≠ [] := by
        intro hnil
        have hcreated : h.created.length = 0 + runs.toNat * (roles ctx config).length := hcreated
        rw [hnil, length_nil] at hcreated
        omega
      exact absurd hpool (by rw [(huses.created hsome).1]; nofun)
    · have hpool : truthy config.pool = false := Bool.eq_false_iff.mpr hpool
      have hlength := hran.taken hpool
      rw [huses.unchanged] at hlength
      have hsome : 0 < (pools.getD []).length :=
        length_pos_iff.mpr fun hnil => hgiven ⟨hpool, hnil⟩
      omega
  · intro hcond w hrun
    have hran : RanTimes config (roles ctx config).length runs.toNat pools w.st .empty w.ext :=
      wp_post (does_thread hruns hroles rfl) hrun
    have hcomplete := hran.complete (by simp [History.empty])
    rw [show History.empty.runs.length + runs.toNat = runs.toNat from Nat.zero_add _] at hcomplete
    have hremoved : w.ext.removed.Perm w.ext.created := .of_eq (hran.removed rfl)
    have hidle : runs.toNat = 0 ∨ (roles ctx config).length = 0 →
        UsesGiven config (roles ctx config).length runs.toNat pools w.st w.ext := by
      intro hidle
      obtain ⟨hpools, hcreated, hempty⟩ := hran.idle hidle
      refine ⟨hcomplete, ?_, ?_, fun hsome => absurd hcreated hsome, hremoved, hpools⟩
      · intro pool _ _ run hrun used hused
        rw [hempty run hrun] at hused
        cases hused
      · intro _ run hrun
        rw [hempty run hrun]
        exact ⟨nodup_nil, nil_subset _⟩
    rcases hcond with hzero | hnil | ⟨hpool, hpools⟩
    · exact hidle (.inl (Int.toNat_of_nonpos hzero))
    · exact hidle (.inr (length_eq_zero_iff.mpr hnil))
    · have hlist : ¬ FromList config pools (roles ctx config).length := fun hlist => hlist.2.1 hpools
      refine ⟨hcomplete, ?_, fun h => absurd h hlist, fun _ => ⟨hpool, hlist⟩, hremoved, ?_⟩
      · intro pool hsome hne
        rw [hsome] at hpool
        simp [truthy, hne] at hpool
      · exact (hran.untaken (.inr (.inr hpools))).1

def twoClients : Context Nat :=
  ⟨["client.0", "client.1"], fun role => if role = "client.0" then [0] else [1], []⟩

def plainConfig : Config := ⟨none, .num 3, none, false, [], false, false⟩

theorem validRoles_twoClients (config : Config) (h : config.clients = none) :
    ValidRoles twoClients (roles twoClients config) := by
  rw [roles, h]
  intro role hrole
  rcases mem_pair.mp hrole with rfl | rfl
  · exact ⟨by decide, 0, by decide⟩
  · exact ⟨by decide, 1, by decide⟩

theorem pools_used_iff_plain :
    plainConfig.runs.int = .ok 3 ∧ ValidRoles twoClients (roles twoClients plainConfig) ∧
      ∀ w, Exec (clusterEnv false) (thread twoClients plainConfig) ⟨none, .empty, []⟩ (.ret ()) w →
        UsesGiven plainConfig 2 3 none w.st w.ext :=
  have hroles := validRoles_twoClients plainConfig rfl
  ⟨rfl, hroles, (pools_used_iff twoClients plainConfig none 3 rfl hroles).mpr (.inr (.inr ⟨rfl, rfl⟩))⟩

def fooConfig : Config := ⟨some "foo", .num 1, some ["client.0"], false, [], false, false⟩

/-- The client does not use the pool that it is given. -/
theorem given_pool_not_used :
    ∃ w, Exec (clusterEnv false) (thread twoClients fooConfig) ⟨none, .empty, []⟩ (.ret ()) w ∧
      fooConfig.pool = some "foo" ∧ w.ext.runs = [["unique_pool_0"]] ∧ w.ext.created ≠ [] := by
  have hrun := exec_runWith (clusterEnv_firstReply false) (thread twoClients fooConfig) ⟨none, .empty, []⟩
  exact ⟨_, hrun, rfl, rfl, nofun⟩

end ZbkcTasks.RadosTask
