import ZbkcTasks.ManagerUnique
import ZbkcTasks.ProgRefine
import ZbkcTasks.PyFormat
import ZbkcTasks.PyText
import ZbkcTasks.RadosTask

/-! The task of `tasks/radosbench.py`, which runs `rados bench` on a pool for each client. The pools are
those of the manager. A pool is created for each client, but only that of the last one is removed. -/

namespace ZbkcTasks.RadosBench

open Finmap List Prog PyFormat RadosTask

/-- The configuration, with the defaults not yet filled in. -/
structure Config where
  clients : Option (List String)
  pool : Option String
  createPool : Option Bool
  ecPool : Bool
  erasureCodeProfile : List (String × String)
  cleanup : Option Bool
  size : Option Int
  time : Option Int

/-- The manager's commands, and those of the task itself. -/
inductive Op (Host : Type)
  | manager (o : MgrOp)
  | createErasureCodeProfile (name : String) (profile : List (String × String))
  | run (remote : Host) (args : List String)
  | wait (ids : List String) (timeout : Int)
  | yield

@[reducible] def Op.Ans {Host : Type} : Op Host → Type
  | .manager o => o.Ans
  | .createErasureCodeProfile _ _ => Except CommandError Unit
  | .run _ _ => Except CommandError Unit
  | .wait _ _ => Except CommandError Unit
  | .yield => Except PyError Unit

@[reducible] def sig (Host : Type) : Sig where
  Op := Op Host
  Ans := Op.Ans

abbrev M (Host : Type) := Prog (sig Host) Manager PyError

/-- The remotes of a role, the test directory, and what `str.format` makes of other fields. -/
structure Context (Host : Type) where
  remotes : String → List Host
  testdir : List Char
  part : List Char → Except PyError (List Char)

variable {Host : Type}

/-- A method of the manager. -/
def onManager {α : Type} (p : Mgr α) : M Host α := interp (fun o => .op (.manager o) .ret) p

def Config.roles (config : Config) : List String := config.clients.getD ["client.0"]

def Config.poolName (config : Config) : String := config.pool.getD "data"

def Config.creates (config : Config) : Bool := config.createPool.getD true

def Config.seconds (config : Config) : Int := config.time.getD 360

/-- The erasure code profile, if the pool is to have one. -/
def makeProfile (config : Config) : M Host (Option String) :=
  if config.ecPool = true then do
    let name := (config.erasureCodeProfile.lookup "name").getD "teuthologyprofile"
    .op (.createErasureCodeProfile name config.erasureCodeProfile) ofCommand
    return some name
  else return none

/-- The pool of a client: a new one, or the one that is named. -/
def choosePool (config : Config) (profileName : Option String) : M Host String :=
  if config.creates = true then
    if config.poolName ≠ "data" then
      onManager (createPool config.poolName 16 profileName none false) >>= fun _ => .ret config.poolName
    else onManager (createPoolWithUniqueName 16 profileName none false)
  else .ret config.poolName

/-- The command, with `{tdir}` still in it. -/
def benchWords (config : Config) (role pool : String) : List String :=
  ["adjust-ulimits", "zbkc-coverage", "\x7btdir\x7d/archive/coverage", "rados", "--no-log-to-stderr",
    "--name", role, "-b", toString (config.size.getD 4194304), "-p", pool, "bench",
    toString config.seconds, "write"] ++
      if config.cleanup.getD true = true then [] else ["--no-cleanup"]

def tdir : List Char := "tdir".toList

/-- `" ".join([...]).format(tdir=testdir)`. -/
@[irreducible] def benchText (ctx : Context Host) (config : Config) (role pool : String) :
    Except PyError (List Char) :=
  format tdir ctx.testdir ctx.part
    ([' '].intercalate ((benchWords config role pool).map String.toList))

def runBench (ctx : Context Host) (config : Config) (role : String) (remote : Host) (pool : String) :
    M Host String := do
  let text ← orThrow (benchText ctx config role pool)
  .op (.run remote ["/bin/sh", "-c", String.ofList text]) ofCommand
  return pool

def startBench (ctx : Context Host) (config : Config) (role : String) : M Host String := do
  pyAssert (isClient role = true) ""
  let remote ← theOnly (ctx.remotes role)
  let profileName ← makeProfile config
  let pool ← choosePool config profileName
  runBench ctx config role remote pool

/-- The ids of `radosbench`, and `pool`, which is not bound before the first client. -/
structure Benches where
  ids : List String
  pool : Option String

/-- The loop over the clients; `pool` keeps its last value. -/
def startBenches (ctx : Context Host) (config : Config) : List String → Benches → M Host Benches
  | [], benches => .ret benches
  | role :: roles, benches => do
      let pool ← startBench ctx config role
      startBenches ctx config roles
        ⟨if benches.ids.contains (clientId role) then benches.ids else benches.ids ++ [clientId role],
          some pool⟩

def setUp (ctx : Context Host) (config : Config) : M Host Benches :=
  startBenches ctx config config.roles ⟨[], none⟩

/-- The `finally` of the task. A pool that was created is not called `data`. -/
def tearDown (config : Config) (benches : Benches) : M Host Unit := do
  .op (.wait benches.ids (config.seconds * 5 + 180)) ofCommand
  benches.pool.elim (.throw (.exception "local variable 'pool' referenced before assignment")) fun pool =>
    onlyIf (pool ≠ "data" ∧ config.creates = true) (onManager (removePool pool))

def task (ctx : Context Host) (config : Config) : M Host Unit := do
  let benches ← setUp ctx config
  finallyDo (.op .yield orThrow) (tearDown config benches)

/-! ### The methods of the manager -/

/-- Commands that make sense are applied, and what is run in between leaves the pools alone. -/
def benchEnv : Env (sig Host) Manager PoolMap
  | .manager o, m, c, a, m', c' => acceptEnv o m c a m' c'
  | .createErasureCodeProfile _ _, m, c, a, m', c' => a = .ok () ∧ m' = m ∧ c' = c
  | .run _ _, m, c, a, m', c' => a = .ok () ∧ m' = m ∧ c' = c
  | .wait _ _, m, c, a, m', c' => a = .ok () ∧ m' = m ∧ c' = c
  | .yield, m, c, _, m', c' => m'.pools = m.pools ∧ c' = c

abbrev W (Host : Type) := World (sig Host) Manager PoolMap

/-- What the manager's spec sees of a world. -/
abbrev seen (w : W Host) : View := viewOf w.st w.ext

/-- However the program ends, `Q` holds of the outcome and of what is seen of the pools. -/
abbrev ends {α : Type} (p : M Host α) (Q : Outcome PyError α → View → Prop) (w : W Host) : Prop :=
  wp benchEnv (fun _ _ _ => True) p (fun r w' => Q r (seen w')) w

/-- What is known of the manager's methods carries over. -/
theorem ends_onManager {α : Type} {p : Mgr α} {Q : Outcome PyError α → View → Prop} {w : W Host}
    (h : wp acceptEnv (fun _ _ _ => True) p (fun r u => Q r (viewOf u.st u.ext)) ⟨w.st, w.ext, []⟩) :
    ends (onManager p) Q w := by
  apply wp_interp (Q := fun r m c => Q r (viewOf m c)) _ h
  intro o w _
  exact ⟨trivial, fun _ _ _ hstep => hstep⟩

/-! ### The texts of the commands -/

theorem plain_numeral (n : Nat) : Plain (toString n).toList := by
  intro c hc
  rw [toList_toString] at hc
  have hdigit := isDigit_of_mem_numeral hc
  constructor
  · rintro rfl
    cases hdigit
  · rintro rfl
    cases hdigit

theorem plain_toString (n : Int) : Plain (toString n).toList := by
  cases n with
  | ofNat n => exact plain_numeral n
  | negSucc n =>
    have hneg : (toString (Int.negSucc n)).toList = '-' :: (toString (n + 1)).toList := by
      change ("-" ++ toString (n + 1)).toList = _
      rw [String.toList_append]
      rfl
    rw [hneg]
    exact forall_mem_cons.mpr ⟨by decide, plain_numeral (n + 1)⟩

theorem plain_uniquePoolName (id : Nat) : Plain (uniquePoolName id).toList := by
  rw [uniquePoolName, String.toList_append]
  have hword : Plain "unique_pool_".toList := by decide
  exact forall_mem_append.mpr ⟨hword, plain_numeral id⟩

/-- The one field in the text is that of the test directory. -/
theorem exists_benchText (ctx : Context Host) (config : Config) {role pool : String}
    (hrole : Plain role.toList) (hpool : Plain pool.toList) :
    ∃ text, benchText ctx config role pool = .ok text := by
  obtain ⟨words, hwords, hplain⟩ : ∃ words, benchWords config role pool =
      "adjust-ulimits" :: "zbkc-coverage" :: "\x7btdir\x7d/archive/coverage" :: "rados" :: words ∧
        ∀ word ∈ words, Plain word.toList := by
    refine ⟨["--no-log-to-stderr", "--name", role, "-b", toString (config.size.getD 4194304), "-p", pool,
      "bench", toString config.seconds, "write"] ++
        if config.cleanup.getD true = true then [] else ["--no-cleanup"], rfl, ?_⟩
    simp only [forall_mem_append, forall_mem_cons]
    refine ⟨⟨by decide, by decide, hrole, by decide, plain_toString _, by decide, hpool, by decide,
      plain_toString _, by decide, forall_mem_nil _⟩, ?_⟩
    split <;> decide
  have hrest : Plain ([' '].intercalate ("/archive/coverage".toList :: "rados".toList ::
      words.map String.toList)) := by
    refine plain_intercalate (by decide) (by decide) (forall_mem_cons.mpr ⟨by decide, ?_⟩)
    exact forall_mem_cons.mpr ⟨by decide, forall_mem_map.mpr hplain⟩
  unfold benchText
  rw [hwords]
  have hbefore : Plain "adjust-ulimits zbkc-coverage ".toList := by decide
  exact ⟨_, format_field (by decide) (by decide) hbefore hrest _ _⟩

/-! ### The clients -/

/-- The role is that of a client with one host. It goes into a text to be formatted, so it has no brace. -/
structure ValidRole (ctx : Context Host) (role : String) : Prop where
  client : isClient role = true
  plain : Plain role.toList
  host : ∃ remote, ctx.remotes role = [remote]

/-- The roles that the task can start a benchmark for. -/
def ValidRoles (ctx : Context Host) (roles : List String) : Prop := ∀ role ∈ roles, ValidRole ctx role

/-- The cache is right, and no name that is to come is taken. -/
structure Consistent (m : Manager) (c : PoolMap) : Prop where
  same : m.pools = c
  free : ∀ id, m.nextPoolId ≤ id → uniquePoolName id ∉ c

/-- The name of the pool that is created next. -/
def newPool (config : Config) (v : View) : String :=
  if config.poolName ≠ "data" then config.poolName else uniquePoolName v.asked

/-- The pool has been created by the manager, which did not know of it. -/
structure Made (v : View) (pool : String) (v' : View) : Prop where
  unknown : pool ∉ v.known
  there : v'.there = insert pool v.there
  known : v'.known = insert pool v.known

/-- The next pool has been created, or its name is taken. -/
def Creates {α : Type} (config : Config) (v : View) (value : α) (r : Outcome PyError α) (v' : View) :
    Prop :=
  (r = .ret value ∧ Made v (newPool config v) v') ∨
    (∀ a, r ≠ .ret a) ∧ (newPool config v ∈ v.there ∨ newPool config v ∈ v.known)

variable {roles : List String} {c : PoolMap} {pool role : String} {ctx : Context Host} {config : Config}
  {w : W Host} {v v' : View}

/-- So `tearDown` removes it. -/
theorem newPool_ne_data (config : Config) (v : View) : newPool config v ≠ "data" := by
  rw [newPool]
  split
  next h => exact h
  next =>
    intro heq
    have hlength := congrArg String.length heq
    rw [uniquePoolName, String.length_append] at hlength
    have hlong : "unique_pool_".length = 12 := rfl
    have hshort : "data".length = 4 := rfl
    omega

theorem plain_newPool (hpool : Plain config.poolName.toList) (v : View) :
    Plain (newPool config v).toList := by
  rw [newPool]
  split
  next => exact hpool
  next => exact plain_uniquePoolName v.asked

theorem Made.same (h : Made v pool v') (hv : v.there = v.known) : v'.there = v'.known := by
  rw [h.there, h.known, hv]

theorem ends_makeProfile : ends (makeProfile config)
    (fun r v => (∃ a, r = .ret a) ∧ v = seen w) w := by
  rw [makeProfile]
  split
  · refine ⟨trivial, ?_⟩
    rintro _ m c ⟨rfl, rfl, rfl⟩
    exact ⟨⟨_, rfl⟩, rfl⟩
  · exact ⟨⟨_, rfl⟩, rfl⟩

/-- Creating the pool, from what is known of the manager. -/
theorem wp_newPool {u : MgrW PoolMap} (profileName : Option String) (hpools : u.st.pools = w.st.pools)
    (hext : u.ext = w.ext) (hpool : pool = newPool config (seen w)) :
    wp acceptEnv (fun _ _ _ => True) (createPool pool 16 profileName none false)
      (fun r u' => Creates config (seen w) () r (viewOf u'.st u'.ext)) u := by
  refine wp_mono ?_ (wp_createPool 16 profileName none false)
  rintro r u' ⟨hview, hunknown, hreturns⟩
  rw [Creates, ← hpool, hview]
  rw [hpools] at hunknown hreturns
  rw [hext] at hreturns
  cases r with
  | ret a =>
    have hnew := hunknown a rfl
    refine .inl ⟨rfl, hnew, ?_, ?_⟩
    · ext p
      simp [View.create, viewOf, hpools, hext, hnew, or_comm]
    · ext p
      simp [View.create, viewOf, hpools, Outcome.returned, or_comm]
  | exn | cut =>
    refine .inr ⟨fun _ h => (by cases h), ?_⟩
    by_contra hnot
    rw [not_or] at hnot
    cases hreturns hnot.1 hnot.2

theorem Creates.chain {S : Sig} {r : Outcome PyError Unit} {u : World S Manager PoolMap}
    (h : Creates config v () r (viewOf u.st u.ext)) :
    chain (fun _ u => Creates config v pool (.ret pool) (viewOf u.st u.ext))
      (fun r u => Creates config v pool r (viewOf u.st u.ext)) r u := by
  rcases r with a | e | _ <;> rcases h with ⟨hr, hmade⟩ | ⟨hr, htaken⟩
  · exact .inl ⟨rfl, hmade⟩
  · exact absurd rfl (hr a)
  · cases hr
  · exact .inr ⟨nofun, htaken⟩
  · cases hr
  · exact .inr ⟨nofun, htaken⟩

/-- Both ways of choosing create the same pool. -/
theorem ends_choosePool (hcreates : config.creates = true) (profileName : Option String)
    (hw : seen w = v) :
    ends (choosePool config profileName) (Creates config v (newPool config v)) w := by
  subst hw
  rw [choosePool, if_pos hcreates]
  split
  next hname =>
    have hnew : config.poolName = newPool config (seen w) := (if_pos hname).symm
    rw [ends, wp_bind, ← hnew]
    exact wp_mono (fun _ _ => Creates.chain) (ends_onManager (wp_newPool profileName rfl rfl hnew))
  next hname =>
    have hnew : uniquePoolName w.st.nextPoolId = newPool config (seen w) := (if_neg hname).symm
    apply ends_onManager
    change wp acceptEnv _
      (createPool (uniquePoolName w.st.nextPoolId) 16 profileName none false >>= fun _ =>
        .ret (uniquePoolName w.st.nextPoolId)) _ ⟨⟨w.st.pools, w.st.nextPoolId + 1⟩, w.ext, []⟩
    rw [wp_bind, ← hnew]
    exact wp_mono (fun _ _ => Creates.chain) (wp_newPool profileName rfl rfl hnew)

theorem ends_runBench (hrole : Plain role.toList) (hpool : Plain pool.toList) (remote : Host) :
    ends (runBench ctx config role remote pool) (fun r v => r = .ret pool ∧ v = seen w) w := by
  obtain ⟨text, htext⟩ := exists_benchText ctx config hrole hpool
  rw [runBench, htext]
  refine ⟨trivial, ?_⟩
  rintro _ m c ⟨rfl, rfl, rfl⟩
  exact ⟨rfl, rfl⟩

/-- One client, whichever way it gets its pool, and then the others. -/
theorem ends_first {benches : Benches} (hrole : ValidRole ctx role) (hpool : Plain pool.toList)
    {P : View → Prop} {refused : Prop} (hchoose : ∀ profileName (w' : W Host), seen w' = seen w →
      ends (choosePool config profileName)
        (fun r v => (r = .ret pool ∧ P v) ∨ (∀ a, r ≠ .ret a) ∧ refused) w')
    {Q : Outcome PyError Benches → View → Prop} (hrefused : refused → ∀ r v, (∀ b, r ≠ .ret b) → Q r v)
    (hgo : ∀ ids (w' : W Host), P (seen w') →
      ends (startBenches ctx config roles ⟨ids, some pool⟩) Q w') :
    ends (startBenches ctx config (role :: roles) benches) Q w := by
  obtain ⟨hclient, hplain, remote, hremote⟩ := hrole
  have hassert : (pyAssert (isClient role = true) "" : M Host Unit) = .ret () := if_pos hclient
  have honly : (theOnly [remote] : M Host Host) = .ret remote := rfl
  rw [startBenches, startBench, hassert, ret_bind, hremote, honly, ret_bind, ends, wp_bind, wp_bind]
  refine wp_mono ?_ ends_makeProfile
  rintro _ w1 ⟨⟨profileName, rfl⟩, hw1⟩
  refine wp_bind.mpr (wp_mono ?_ (hchoose profileName w1 hw1))
  rintro r w2 (⟨rfl, hP⟩ | ⟨hr, h⟩)
  · refine wp_mono ?_ (ends_runBench hplain hpool remote)
    rintro _ w3 ⟨rfl, hw3⟩
    exact hgo _ w3 (hw3 ▸ hP)
  · cases r with
    | ret a => exact absurd rfl (hr a)
    | exn | cut => exact hrefused h _ _ nofun

theorem ends_startBenches_given (hcreates : config.creates = false) (hpool : Plain config.poolName.toList)
    (hroles : ValidRoles ctx roles) (benches : Benches) :
    ends (startBenches ctx config roles benches) (fun r v => (∃ b, r = .ret b) ∧ v = seen w) w := by
  induction roles generalizing benches w with
  | nil => exact ⟨⟨_, rfl⟩, rfl⟩
  | cons role roles ih =>
    obtain ⟨hrole, hroles⟩ := forall_mem_cons.mp hroles
    apply ends_first (P := (· = seen w)) hrole hpool
    · intro profileName w' hw'
      rw [choosePool, if_neg (by rw [hcreates]; nofun)]
      exact .inl ⟨rfl, hw'⟩
    · exact False.elim
    · intro ids w' hw'
      rw [← hw']
      exact ih hroles _

theorem ends_startBenches_one (hcreates : config.creates = true) (hpool : Plain config.poolName.toList)
    (hrole : ValidRole ctx role) (hw : seen w = v)
    (hfresh : ¬ (newPool config v ∈ v.there ∨ newPool config v ∈ v.known)) (benches : Benches) :
    ends (startBenches ctx config [role] benches) (fun r v' =>
      (∃ ids, r = .ret ⟨ids, some (newPool config v)⟩) ∧ Made v (newPool config v) v') w := by
  apply ends_first hrole (plain_newPool hpool v) fun profileName w' hw' =>
    ends_choosePool hcreates profileName (hw'.trans hw)
  · exact fun htaken => absurd htaken hfresh
  · exact fun ids w' hmade => ⟨⟨ids, rfl⟩, hmade⟩

/-- The clients are started: the pools of the first and of the last are there, and were not before. -/
structure Started (roles : List String) (v v' : View) (first last : String) : Prop where
  same : v'.there = v'.known
  kept : v.there ⊆ v'.there
  first_mem : first ∈ v'.there
  first_new : first ∉ v.there
  last_mem : last ∈ v'.there
  last_new : last ∉ v.there
  created : last ≠ "data"
  two : 1 < roles.length → first ≠ last

/-- Each client has a new pool, so the first and the last differ if there are two. -/
theorem ends_startBenches_more (hcreates : config.creates = true) (hpool : Plain config.poolName.toList)
    (hw : seen w = v) (hsame : v.there = v.known) (hroles : ValidRoles ctx (role :: roles))
    (benches : Benches) :
    ends (startBenches ctx config (role :: roles) benches) (fun r v' => ∀ b, r = .ret b →
      ∃ first last, b.pool = some last ∧ Started (role :: roles) v v' first last) w := by
  induction roles generalizing role benches w v with
  | nil =>
    apply ends_first (hroles role (mem_singleton_self role)) (plain_newPool hpool v)
      fun profileName w' hw' => ends_choosePool hcreates profileName (hw'.trans hw)
    · exact fun _ r _ hr b hb => absurd hb (hr b)
    · rintro ids w' hmade b ⟨⟩
      have hmem : newPool config v ∈ (seen w').there := hmade.there ▸ Set.mem_insert _ _
      have hnew : newPool config v ∉ v.there := hsame ▸ hmade.unknown
      exact ⟨_, _, rfl, hmade.same hsame, hmade.there ▸ Set.subset_insert _ _, hmem, hnew, hmem, hnew,
        newPool_ne_data config v, fun h => absurd h (lt_irrefl 1)⟩
  | cons role' roles ih =>
    obtain ⟨hrole, hroles⟩ := forall_mem_cons.mp hroles
    apply ends_first hrole (plain_newPool hpool v) fun profileName w' hw' =>
      ends_choosePool hcreates profileName (hw'.trans hw)
    · exact fun _ r _ hr b hb => absurd hb (hr b)
    · intro ids w' hmade
      have hmem : newPool config v ∈ (seen w').there := hmade.there ▸ Set.mem_insert _ _
      have hkept : v.there ⊆ (seen w').there := hmade.there ▸ Set.subset_insert _ _
      refine wp_mono ?_ (ih rfl (hmade.same hsame) hroles ⟨ids, some (newPool config v)⟩)
      intro r w'' hrest b hb
      obtain ⟨first, last, hlast, h⟩ := hrest b hb
      exact ⟨_, last, hlast, h.same, hkept.trans h.kept, h.kept hmem, hsame ▸ hmade.unknown, h.last_mem,
        fun hlast => h.last_new (hkept hlast), h.created, fun _ => ne_of_mem_of_not_mem hmem h.last_new⟩

/-! ### The end of the task -/

section TearDown

variable {benches : Benches} {P : Set String → Prop}

/-- It removes the pool of the last client. -/
theorem ends_tearDown (hcreates : config.creates = true) (hpool : benches.pool = some pool)
    (hname : pool ≠ "data") (hknown : pool ∈ (seen w).known) :
    ends (tearDown config benches) (fun _ v => v.there = (seen w).there \ {pool}) w := by
  rw [tearDown, hpool]
  refine ⟨trivial, ?_⟩
  rintro _ m c ⟨rfl, rfl, rfl⟩
  show wp benchEnv _ (onlyIf (pool ≠ "data" ∧ config.creates = true) (onManager (removePool pool))) _ _
  rw [onlyIf, if_pos ⟨hname, hcreates⟩]
  refine ends_onManager (Q := fun _ v => v.there = (seen w).there \ {pool}) (wp_mono ?_ wp_removePool)
  intro _ u hview
  have hpools : pool ∈ w.st.pools := hknown
  rw [hview]
  ext p
  simp [View.remove, viewOf, hpools]

theorem ends_tearDown_quiet (hquiet : config.creates = false ∨ benches.pool = none) :
    ends (tearDown config benches) (fun _ v => v.there = (seen w).there) w := by
  rw [tearDown]
  refine ⟨trivial, ?_⟩
  rintro _ m c ⟨rfl, rfl, rfl⟩
  cases hpool : benches.pool with
  | none => exact rfl
  | some pool =>
    have hkeeps : ¬ (pool ≠ "data" ∧ config.creates = true) := by
      rcases hquiet with hcreates | hnone
      · rw [hcreates]
        exact fun h => nomatch h.2
      · rw [hpool] at hnone
        cases hnone
    rw [Option.elim_some, onlyIf, if_neg hkeeps]
    exact rfl

theorem ends_body (h : ∀ w' : W Host, (seen w').there = (seen w).there → (seen w').known = (seen w).known →
      ends (tearDown config benches) (fun _ v => P v.there) w') :
    ends (finallyDo (.op .yield orThrow) (tearDown config benches)) (fun _ v => P v.there) w := by
  rw [ends, wp_finallyDo]
  refine ⟨trivial, ?_⟩
  rintro a m c ⟨hm, rfl⟩
  have hclose : wp benchEnv (fun _ _ _ => True) (tearDown config benches)
      (chain (fun _ w' => P (seen w').there) fun (_ : Outcome PyError Unit) w' => P (seen w').there)
      (w.push .yield a m w.ext) := by
    refine wp_mono ?_
      (h (w.push .yield a m w.ext) rfl (congrArg (fun pools : PoolMap => {p | p ∈ pools}) hm))
    rintro (_ | e | _) w' hP
    · exact hP
    · exact hP
    · exact hP
  cases a with
  | ok | error => exact hclose

end TearDown

def benchReply : (o : Op Host) → Manager → PoolMap → o.Ans × Manager × PoolMap
  | .manager o, m, c => accepting o m c
  | .createErasureCodeProfile _ _, m, c => (.ok (), m, c)
  | .run _ _, m, c => (.ok (), m, c)
  | .wait _ _, m, c => (.ok (), m, c)
  | .yield, m, c => (.ok (), m, c)

theorem benchEnv_benchReply (o : Op Host) (m : Manager) (c : PoolMap) :
    benchEnv o m c (benchReply o m c).1 (benchReply o m c).2.1 (benchReply o m c).2.2 := by
  cases o with
  | manager o => exact acceptEnv_accepting o m c
  | createErasureCodeProfile | run | wait => exact ⟨rfl, rfl, rfl⟩
  | yield => exact ⟨rfl, rfl⟩

theorem benchEnv_total (o : Op Host) (m : Manager) (c : PoolMap) : ∃ a m' c', benchEnv o m c a m' c' :=
  ⟨_, _, _, benchEnv_benchReply o m c⟩

/-- Setting up the task raises nothing, and its end leaves the pools that there were before. -/
def Restores (ctx : Context Host) (config : Config) (m : Manager) (c : PoolMap) : Prop :=
  (∀ r w, Exec benchEnv (setUp ctx config) ⟨m, c, []⟩ r w → ∃ benches, r = .ret benches) ∧
    ∀ r w, Exec benchEnv (task ctx config) ⟨m, c, []⟩ r w → ∀ pool, pool ∈ w.ext ↔ pool ∈ c

section Restores

variable {m : Manager}

/-- From a set-up that returns and a matching clean-up. -/
theorem restores_of (h : ends (setUp ctx config) (fun r v => ∃ benches, r = .ret benches ∧
      ∀ w' : W Host, (seen w').there = v.there → (seen w').known = v.known →
        ends (tearDown config benches) (fun _ v' => v'.there = {pool | pool ∈ c}) w') ⟨m, c, []⟩) :
    Restores ctx config m c := by
  constructor
  · intro r w hrun
    obtain ⟨benches, hret, -⟩ := wp_post h hrun
    exact ⟨benches, hret⟩
  · intro r w hrun pool
    have htask : ends (task ctx config) (fun _ v => v.there = {pool | pool ∈ c}) ⟨m, c, []⟩ := by
      rw [ends, task, wp_bind]
      refine wp_mono ?_ h
      rintro r w' ⟨benches, rfl, hdown⟩
      exact ends_body (P := (· = {pool | pool ∈ c})) hdown
    exact Set.ext_iff.mp (wp_post htask hrun) pool

theorem restores_given (hcreates : config.creates = false) (hpool : Plain config.poolName.toList)
    (hroles : ValidRoles ctx config.roles) : Restores ctx config m c := by
  apply restores_of
  refine wp_mono ?_ (ends_startBenches_given hcreates hpool hroles ⟨[], none⟩)
  rintro r w ⟨⟨benches, rfl⟩, hw⟩
  refine ⟨benches, rfl, fun w' hthere _ => ?_⟩
  refine wp_mono (fun _ _ hafter => hafter.trans ?_) (ends_tearDown_quiet (.inl hcreates))
  rw [hthere, hw]
  rfl

theorem restores_none (hroles : config.roles = []) : Restores ctx config m c := by
  apply restores_of
  rw [setUp, hroles]
  refine ⟨_, rfl, fun w' hthere _ => ?_⟩
  exact wp_mono (fun _ _ hafter => hafter.trans hthere) (ends_tearDown_quiet (.inr rfl))

theorem restores_one (hcreates : config.creates = true) (hpool : Plain config.poolName.toList)
    (hcons : Consistent m c) (hfresh : config.poolName ≠ "data" → config.poolName ∉ c)
    (hroles : config.roles = [role]) (hvalid : ValidRoles ctx config.roles) : Restores ctx config m c := by
  have hrole := hvalid role (by rw [hroles]; exact mem_singleton_self role)
  have hnew : newPool config (viewOf m c) ∉ c := by
    rw [newPool]
    split
    next hname => exact hfresh hname
    next => exact hcons.free _ le_rfl
  have htaken : ¬ (newPool config (viewOf m c) ∈ c ∨ newPool config (viewOf m c) ∈ m.pools) := by
    rw [hcons.same, or_self]
    exact hnew
  have hone := ends_startBenches_one (w := ⟨m, c, []⟩) hcreates hpool hrole rfl htaken ⟨[], none⟩
  apply restores_of
  rw [setUp, hroles]
  refine wp_mono ?_ hone
  rintro r w1 ⟨⟨ids, rfl⟩, hmade⟩
  refine ⟨_, rfl, fun w2 hthere hknown => ?_⟩
  have hmem : newPool config (viewOf m c) ∈ (seen w2).known :=
    (hknown.trans hmade.known) ▸ Set.mem_insert _ _
  refine wp_mono (fun _ _ hafter => hafter.trans ?_)
    (ends_tearDown hcreates rfl (newPool_ne_data config _) hmem)
  rw [hthere, hmade.there]
  exact Set.insert_sdiff_self_of_notMem hnew

/-- With two clients or more something goes wrong: a name is taken, or the first pool is left. -/
theorem not_restores_two (hcreates : config.creates = true) (hpool : Plain config.poolName.toList)
    (hcons : Consistent m c) {role' : String} (hroles : config.roles = role :: role' :: roles)
    (hvalid : ValidRoles ctx config.roles) : ¬ Restores ctx config m c := by
  rintro ⟨hset, hsame⟩
  obtain ⟨r, w, hrun⟩ := exists_exec benchEnv_total (setUp ctx config) ⟨m, c, []⟩
  obtain ⟨benches, rfl⟩ := hset r w hrun
  rw [hroles] at hvalid
  have hview : (viewOf m c).there = (viewOf m c).known := by rw [viewOf, hcons.same]
  have hmore := ends_startBenches_more (w := ⟨m, c, []⟩) hcreates hpool rfl hview hvalid ⟨[], none⟩
  rw [← hroles] at hmore
  obtain ⟨first, last, hlast, h⟩ := wp_post hmore hrun benches rfl
  have hbody : ends (finallyDo (.op .yield orThrow) (tearDown config benches))
      (fun _ v => v.there = (seen w).there \ {last}) w := by
    apply ends_body (P := (· = (seen w).there \ {last}))
    intro w' hthere hknown
    have hmem : last ∈ (seen w').known := by
      rw [hknown, ← h.same]
      exact h.last_mem
    rw [← hthere]
    exact ends_tearDown hcreates hlast h.created hmem
  obtain ⟨r', w', hrest⟩ := exists_exec benchEnv_total
    (finallyDo (.op .yield orThrow) (tearDown config benches) : M Host Unit) w
  have hafter : (seen w').there = (seen w).there \ {last} := wp_post hbody hrest
  have hleft : first ∈ (seen w').there := by
    rw [hafter]
    exact ⟨h.first_mem, h.two (by rw [hroles, length_cons, length_cons]; omega)⟩
  exact h.first_new ((hsame r' w' (exec_bind hrun hrest) first).mp hleft)

end Restores

def oneHost : Context Unit := ⟨fun _ => [()], "/home/ubuntu/zbkctest".toList, fun _ => .error .valueError⟩

def byDefault : Config := ⟨none, none, none, false, [], none, none, none⟩

theorem consistent_empty : Consistent ⟨∅, 0⟩ ∅ := ⟨rfl, fun _ _ => notMem_empty⟩

def twoByDefault : Config := { byDefault with clients := some ["client.0", "client.1"] }

end ZbkcTasks.RadosBench
