import ZbkcTasks.PyProg

/-! The `ObjectStoreTool` of `tasks/zbkc_manager.py`, which kills an OSD, runs the tool on its disk and
revives it. The command is built after the kill and before the `try` whose `finally` revives. -/

namespace ZbkcTasks.ObjectTool

open List Option Prog

/-- The argument `osd`: not given, a number, or a text such as `"primary"`. -/
inductive OsdArg
  | missing
  | id (n : Int)
  | text (s : String)
  deriving DecidableEq

/-- What `if self.osd` takes for true. -/
def OsdArg.truthy : OsdArg → Bool
  | .missing => false
  | .id n => decide (n ≠ 0)
  | .text s => decide (s ≠ "")

def OsdArg.str : OsdArg → String
  | .missing => "None"
  | .id n => toString n
  | .text s => s

def given (text : Option String) : Option String := text.filter fun s => decide (s ≠ "")

structure ObjectMap where
  pgid : String
  acting : List Int
  actingPrimary : Int

structure ToolExit where
  status : Int
  stdout : String
  stderr : String

inductive Op (Host : Type)
  | osdDump
  | osdMap (pool name : String)
  | killOsd (osd : OsdArg)
  | reviveOsd (osd : OsdArg)
  | log (msg : String)
  | run (host : Host) (cmd : String)

@[reducible] def Op.Ans {Host : Type} : Op Host → Type
  | .osdDump => Except CommandError (List (String × Int))
  | .osdMap _ _ => Except CommandError ObjectMap
  | .killOsd _ => Except CommandError Unit
  | .reviveOsd _ => Except CommandError Unit
  | .log _ => Unit
  | .run _ _ => Except CommandError ToolExit

abbrev sig (Host : Type) : Sig := ⟨Op Host, Op.Ans⟩

abbrev M (Host α : Type) := Prog (sig Host) Unit PyError α

variable {Host : Type}

/-! ### The manager -/

def erasureCodedPool : Int := 3

def poolType (pools : List (String × Int)) (pool : Option String) : M Host (String × Int) :=
  (pools.find? fun entry => decide (some entry.1 = pool)).elim (.throw (.assertionError "False")) .ret

def getObjectMap (pool name : String) : M Host ObjectMap := .op (.osdMap pool name) ofCommand

def getObjectPrimary (pool name : String) : M Host Int := do
  let objectMap ← getObjectMap pool name
  return objectMap.actingPrimary

def shardOf (acting : List Int) : OsdArg → M Host Nat
  | .id n => if n ∈ acting then .ret (acting.idxOf n) else .throw .valueError
  | _ => .throw .valueError

def getObjectPgWithShard (pool : Option String) (name : String) (osd : OsdArg) : M Host String :=
  .op .osdDump fun ans => do
    let pools ← ofCommand ans
    let entry ← poolType pools pool
    let objectMap ← getObjectMap entry.1 name
    if entry.2 = erasureCodedPool then do
      let shard ← shardOf objectMap.acting osd
      return objectMap.pgid ++ "s" ++ toString shard
    else return objectMap.pgid

/-! ### The tool -/

structure Kwargs where
  osd : OsdArg
  objectName : Option String
  doRevive : Bool

structure Tool (Host : Type) where
  osd : OsdArg
  object : Option (String × String)
  doRevive : Bool
  remote : Host
  paths : String

def resolveOsd (pool : Option String) (kwargs : Kwargs) : M Host OsdArg :=
  (given pool).elim (.ret kwargs.osd) fun pool =>
    (given kwargs.objectName).elim (.ret kwargs.osd) fun name =>
      if kwargs.osd = .text "primary" then do
        let osd ← getObjectPrimary pool name
        return .id osd
      else .ret kwargs.osd

def findObject (pool : Option String) (kwargs : Kwargs) (osd : OsdArg) :
    M Host (Option (String × String)) :=
  (given kwargs.objectName).elim (.ret none) fun name => do
    let pgid ← getObjectPgWithShard pool name osd
    return some (name, pgid)

/-- `hosts` are the remotes with a role, and `cluster` is the name of the cluster. -/
def Tool.init (cluster : String) (hosts : String → List Host) (pool : Option String) (kwargs : Kwargs) :
    M Host (Tool Host) := do
  let osd ← resolveOsd pool kwargs
  pyAssert (osd.truthy = true) ""
  let object ← findObject pool kwargs osd
  let remote ← (hosts ("osd." ++ osd.str)).head?.elim (.throw .indexError) .ret
  let path := "/var/lib/zbkc/osd/" ++ cluster ++ "-" ++ osd.str
  return ⟨osd, object, kwargs.doRevive, remote,
    "--data-path " ++ path ++ " --journal-path " ++ path ++ "/journal"⟩

namespace Tool

variable (t : Tool Host)

def withObject (options args : String) : List String × String × String :=
  t.object.elim ([], args, options) fun object =>
    (["object=$(sudo adjust-ulimits zbkc-objectstore-tool " ++ t.paths ++ " --pgid " ++ object.2 ++
      " --op list |grep '\"oid\":\"" ++ object.1 ++ "\"')"],
      "\"$object\" " ++ args, options ++ " --pgid " ++ object.2)

/-- `base64.encode` takes two files, so it raises when it is given a text. -/
def withStdin (cmd : String) (stdin : Option String) : Except PyError String :=
  (given stdin).elim (.ok cmd) fun _ => .error .typeError

def buildCmd (options args : String) (stdin : Option String) : Except PyError String := do
  let parts := t.withObject options args
  let cmd ← withStdin ("sudo adjust-ulimits zbkc-objectstore-tool " ++ t.paths ++ " " ++ parts.2.2 ++ " " ++
    parts.2.1) stdin
  return "\n".intercalate (parts.1 ++ [cmd])

def checkExit (exit : ToolExit) : M Host Unit :=
  if exit.status ≠ 0 then
    .op (.log ("failed with " ++ toString exit.status)) fun _ =>
      .throw (.exception (exit.stdout ++ " " ++ exit.stderr))
  else .ret ()

def run (options args : String) (stdin : Option String) : M Host Unit := do
  .op (.killOsd t.osd) ofCommand
  let cmd ← orThrow (t.buildCmd options args stdin)
  .op (.log cmd) .ret
  finallyDo (.op (.run t.remote cmd) fun ans => ofCommand ans >>= checkExit)
    (onlyIf (t.doRevive = true) (.op (.reviveOsd t.osd) ofCommand))

end Tool

def objectstoreTool (cluster : String) (hosts : String → List Host) (pool : Option String) (kwargs : Kwargs)
    (options args : String) (stdin : Option String) : M Host Unit := do
  let tool ← Tool.init cluster hosts pool kwargs
  tool.run options args stdin

/-! ### Runs -/

/-- A cluster on which all commands succeed. -/
structure Cluster (Host : Type) where
  name : String
  hosts : String → List Host
  pools : List (String × Int)
  nodup : (pools.map Prod.fst).Nodup
  objectMap : String → String → ObjectMap

def Cluster.env (c : Cluster Host) (exit : ToolExit) : Env (sig Host) Unit Unit := fun o _ _ ans _ _ =>
  match o, ans with
  | .osdDump, ans => ans = .ok c.pools
  | .osdMap pool name, ans => ans = .ok (c.objectMap pool name)
  | .killOsd _, ans => ans = .ok ()
  | .reviveOsd _, ans => ans = .ok ()
  | .log _, _ => True
  | .run _ _, ans => ans = .ok exit

abbrev W (Host : Type) := World (sig Host) Unit Unit

def ops (w : W Host) : List (Op Host) := (w.log.map Event.op).reverse

/-- The OSD was revived after it was killed, and an exception was raised exactly when the tool failed. -/
structure PutsBack (n : Nat) (exit : ToolExit) (r : Outcome PyError Unit) (w : W Host) : Prop where
  revived : ∃ before between after,
    ops w = before ++ .killOsd (.id n) :: (between ++ .reviveOsd (.id n) :: after) ∧
      .killOsd (.id n) ∉ after
  raises : (∃ e, r = .exn e) ↔ exit.status ≠ 0

/-- The OSD that the arguments name: directly, or as the primary of an object. -/
def Cluster.Names (c : Cluster Host) (pool : Option String) (kwargs : Kwargs) (n : Nat) : Prop :=
  kwargs.osd = .id n ∨ kwargs.osd = .text "primary" ∧ ∃ p name, given pool = some p ∧
    given kwargs.objectName = some name ∧ (c.objectMap p name).actingPrimary = n

def Cluster.Knows (c : Cluster Host) (pool : Option String) (kwargs : Kwargs) : Prop :=
  ∀ name, given kwargs.objectName = some name → ∃ p type, pool = some p ∧ (p, type) ∈ c.pools

/-- The OSD has a shard of the object, where objects have shards. -/
def Cluster.Holds (c : Cluster Host) (pool : Option String) (kwargs : Kwargs) (n : Nat) : Prop :=
  ∀ p name, pool = some p → given kwargs.objectName = some name → (p, erasureCodedPool) ∈ c.pools →
    (n : Int) ∈ (c.objectMap p name).acting

section Runs

variable {c : Cluster Host} {exit : ToolExit} {pool : Option String} {kwargs : Kwargs} {n : Nat}
  {w : W Host}

abbrev Cluster.ends {α : Type} (c : Cluster Host) (exit : ToolExit) (p : M Host α)
    (Q : Outcome PyError α → W Host → Prop) (w : W Host) : Prop :=
  wp (c.env exit) (fun _ _ _ => True) p Q w

def Untouched (w : W Host) : Prop := ∀ osd, .killOsd osd ∉ ops w ∧ .reviveOsd osd ∉ ops w

theorem ops_push (w : W Host) (o : Op Host) (a : o.Ans) (u u' : Unit) :
    ops (World.push w o a u u') = ops w ++ [o] := by
  simp [ops, World.push]

theorem Untouched.push (h : Untouched w) {o : Op Host} (ho : ∀ osd, o ≠ .killOsd osd ∧ o ≠ .reviveOsd osd)
    (a : o.Ans) (u u' : Unit) : Untouched (World.push w o a u u') := by
  intro osd
  rw [ops_push, mem_append, mem_append, mem_singleton, mem_singleton]
  exact ⟨fun hmem => hmem.elim (h osd).1 fun heq => (ho osd).1 heq.symm,
    fun hmem => hmem.elim (h osd).2 fun heq => (ho osd).2 heq.symm⟩

/-- A lookup succeeds with a result that `P` describes, or raises, as `ok` says, and touches no OSD. -/
def looksUp {α : Type} (ok : Prop) (P : α → Prop) : Outcome PyError α → W Host → Prop
  | .ret a, w => ok ∧ P a ∧ Untouched w
  | .exn _, w => ¬ ok ∧ Untouched w
  | .cut, _ => False

theorem ends_resolveOsd (hnames : c.Names pool kwargs n) (hw : Untouched w) :
    c.ends exit (resolveOsd pool kwargs) (looksUp True fun osd => osd = .id n) w := by
  rcases hnames with hid | ⟨hprimary, p, name, hpool, hname, hosd⟩
  · have hret : (resolveOsd pool kwargs : M Host OsdArg) = .ret (.id n) := by
      unfold resolveOsd
      cases given pool with
      | none => rw [elim_none, hid]
      | some p =>
        cases given kwargs.objectName with
        | none => rw [elim_some, elim_none, hid]
        | some name => rw [elim_some, elim_some, if_neg (by simp [hid]), hid]
    rw [hret]
    exact ⟨trivial, rfl, hw⟩
  · rw [resolveOsd, hpool, hname, elim_some, elim_some, if_pos hprimary]
    refine ⟨trivial, ?_⟩
    rintro ans u u' rfl
    exact ⟨trivial, by rw [hosd], hw.push (by simp) _ _ _⟩

theorem find_pool {p : String} {type : Int} (hmem : (p, type) ∈ c.pools) :
    c.pools.find? (fun entry => decide (some entry.1 = some p)) = some (p, type) := by
  cases hfind : c.pools.find? fun entry => decide (some entry.1 = some p) with
  | none =>
    have hnone := find?_eq_none.mp hfind (p, type) hmem
    simp at hnone
  | some entry =>
    have hname : entry.1 = p := by simpa using find?_some hfind
    rw [inj_on_of_nodup_map c.nodup (mem_of_find?_eq_some hfind) hmem hname]

theorem ends_getObjectPgWithShard {p name : String} {type : Int} (hmem : (p, type) ∈ c.pools)
    (hw : Untouched w) : c.ends exit (getObjectPgWithShard (some p) name (.id n))
      (looksUp (type = erasureCodedPool → (n : Int) ∈ (c.objectMap p name).acting) fun _ => True) w := by
  refine ⟨trivial, ?_⟩
  rintro ans u u' rfl
  simp only [ofCommand, ret_bind, poolType, find_pool hmem, elim_some]
  refine ⟨trivial, ?_⟩
  rintro ans v v' rfl
  have hw' : Untouched _ := (hw.push (o := .osdDump) (by simp) (.ok c.pools) u u').push
    (o := .osdMap p name) (by simp) (.ok (c.objectMap p name)) v v'
  show c.ends exit (if type = erasureCodedPool then _ else _) _ _
  split
  next htype =>
    by_cases hacting : (n : Int) ∈ (c.objectMap p name).acting
    · rw [shardOf, if_pos hacting]
      exact ⟨fun _ => hacting, trivial, hw'⟩
    · rw [shardOf, if_neg hacting]
      exact ⟨fun h => hacting (h htype), hw'⟩
  next htype => exact ⟨fun h => absurd h htype, trivial, hw'⟩

theorem ends_findObject (hknows : c.Knows pool kwargs) (hw : Untouched w) :
    c.ends exit (findObject pool kwargs (.id n)) (looksUp (c.Holds pool kwargs n) fun _ => True) w := by
  unfold findObject
  cases hname : given kwargs.objectName with
  | none =>
    refine ⟨fun p name _ h => ?_, trivial, hw⟩
    rw [hname] at h
    cases h
  | some name =>
    obtain ⟨p, type, rfl, hmem⟩ := hknows name hname
    -- the pool is the only one of its name, so it is the one that is found
    have hholds : c.Holds (some p) kwargs n ↔
        (type = erasureCodedPool → (n : Int) ∈ (c.objectMap p name).acting) := by
      constructor
      · rintro h rfl
        exact h p name rfl hname hmem
      · intro h p' name' hp hname' hmem'
        cases hp
        rw [hname] at hname'
        cases hname'
        exact h (congrArg Prod.snd (inj_on_of_nodup_map c.nodup hmem hmem' rfl))
    refine wp_bind.mpr (wp_mono ?_ (ends_getObjectPgWithShard hmem hw))
    rintro (pgid | e | _) w' h
    · exact ⟨hholds.mpr h.1, trivial, h.2.2⟩
    · exact ⟨fun hold => h.1 (hholds.mp hold), h.2⟩
    · exact h

/-- **The constructor** gives a tool for the OSD, unless it is OSD 0 or has no shard of the object. -/
theorem ends_init (hnames : c.Names pool kwargs n) (hknows : c.Knows pool kwargs)
    (hhosts : c.hosts ("osd." ++ toString n) ≠ []) (hw : Untouched w) :
    c.ends exit (Tool.init c.name c.hosts pool kwargs) (looksUp (n ≠ 0 ∧ c.Holds pool kwargs n)
        fun t => t.osd = .id n ∧ t.doRevive = kwargs.doRevive) w := by
  refine wp_bind.mpr (wp_mono ?_ (ends_resolveOsd hnames hw))
  rintro (osd | e | _) w1 h1
  · obtain ⟨-, rfl, hw1⟩ := h1
    show c.ends exit (pyAssert _ _ >>= _) _ w1
    unfold pyAssert
    split
    next htruthy =>
      have hn : n ≠ 0 := by simpa [OsdArg.truthy] using htruthy
      show c.ends exit (findObject pool kwargs (.id n) >>= _) _ w1
      refine wp_bind.mpr (wp_mono ?_ (ends_findObject hknows hw1))
      rintro (object | e | _) w2 h2
      · obtain ⟨host, rest, hhost⟩ := exists_cons_of_ne_nil hhosts
        have hstr : OsdArg.str (.id n) = toString n := rfl
        simp only [chain_ret, hstr, hhost, head?_cons, elim_some]
        exact ⟨⟨hn, h2.1⟩, ⟨rfl, rfl⟩, h2.2.2⟩
      · exact ⟨fun h => h2.1 h.2, h2.2⟩
      · exact h2
    next htruthy =>
      refine ⟨fun h => htruthy ?_, hw1⟩
      simpa [OsdArg.truthy] using h.1
  · exact absurd trivial h1.1
  · exact h1

theorem buildCmd_eq (t : Tool Host) (options args : String) (stdin : Option String) :
    given stdin = none ∧ (∃ cmd, t.buildCmd options args stdin = .ok cmd) ∨
      given stdin ≠ none ∧ t.buildCmd options args stdin = .error .typeError := by
  cases hstdin : given stdin with
  | none =>
    refine .inl ⟨rfl, ?_⟩
    simp only [Tool.buildCmd, Tool.withStdin, hstdin, elim_none]
    exact ⟨_, rfl⟩
  | some text =>
    refine .inr ⟨by simp, ?_⟩
    simp only [Tool.buildCmd, Tool.withStdin, hstdin, elim_some]
    rfl

/-- **The run** kills the OSD, and revives it if there is no text for stdin. -/
theorem ends_run {t : Tool Host} (hosd : t.osd = .id n) (hrevive : t.doRevive = true) (hw : Untouched w)
    (options args : String) (stdin : Option String) :
    c.ends exit (t.run options args stdin) (fun r w' =>
      given stdin = none ∧ PutsBack n exit r w' ∨ given stdin ≠ none ∧ .reviveOsd (.id n) ∉ ops w') w := by
  refine ⟨trivial, ?_⟩
  rintro ans u u' rfl
  rcases buildCmd_eq t options args stdin with ⟨hstdin, cmd, hcmd⟩ | ⟨hstdin, hcmd⟩
  · rw [hcmd]
    refine ⟨trivial, fun _ v v' _ => ⟨trivial, ?_⟩⟩
    rintro ans x x' rfl
    show c.ends exit ((Tool.checkExit exit).finallyDo _) _ _
    rw [hrevive, onlyIf, if_pos rfl, hosd]
    unfold Tool.checkExit
    split
    next hfailed =>
      refine ⟨trivial, fun _ y y' _ => ⟨trivial, ?_⟩⟩
      rintro ans z z' rfl
      refine .inl ⟨hstdin, ⟨ops w, [.log cmd, .run t.remote cmd,
        .log ("failed with " ++ toString exit.status)], [], ?_, by simp⟩, fun _ => hfailed,
        fun _ => ⟨_, rfl⟩⟩
      simp only [ops_push, append_assoc]
      rfl
    next hok =>
      refine ⟨trivial, ?_⟩
      rintro ans z z' rfl
      refine .inl ⟨hstdin, ⟨ops w, [.log cmd, .run t.remote cmd], [], ?_, by simp⟩, ?_,
        fun h => absurd h hok⟩
      · simp only [ops_push, append_assoc]
        rfl
      · rintro ⟨e, he⟩
        cases he
  · rw [hcmd]
    refine .inr ⟨hstdin, ?_⟩
    rw [ops_push, mem_append, hosd]
    simp [(hw (.id n)).2]

theorem env_total (c : Cluster Host) (exit : ToolExit) (o : Op Host) (u u' : Unit) :
    ∃ a v v', c.env exit o u u' a v v' := by
  cases o with
  | osdDump | osdMap | killOsd | reviveOsd | run => exact ⟨_, (), (), rfl⟩
  | log msg => exact ⟨(), (), (), trivial⟩

theorem ends_objectstoreTool (hnames : c.Names pool kwargs n) (hknows : c.Knows pool kwargs)
    (hhosts : c.hosts ("osd." ++ toString n) ≠ []) (hrevive : kwargs.doRevive = true)
    (options args : String) (stdin : Option String) :
    c.ends exit (objectstoreTool c.name c.hosts pool kwargs options args stdin) (fun r w' =>
      (n ≠ 0 ∧ c.Holds pool kwargs n ∧ given stdin = none) ∧ PutsBack n exit r w' ∨
        ¬ (n ≠ 0 ∧ c.Holds pool kwargs n ∧ given stdin = none) ∧ .reviveOsd (.id n) ∉ ops w')
      ⟨(), (), []⟩ := by
  have hstart : Untouched (⟨(), (), []⟩ : W Host) := by simp [Untouched, ops]
  refine wp_bind.mpr (wp_mono ?_ (ends_init hnames hknows hhosts hstart))
  rintro (t | e | _) w1 h1
  · obtain ⟨hok, ⟨hosd, hdo⟩, hw1⟩ := h1
    refine wp_mono ?_ (ends_run hosd (hdo.trans hrevive) hw1 options args stdin)
    rintro r w2 (⟨hstdin, hback⟩ | ⟨hstdin, hnone⟩)
    · exact .inl ⟨⟨hok.1, hok.2, hstdin⟩, hback⟩
    · exact .inr ⟨fun h => hstdin h.2.2, hnone⟩
  · exact .inr ⟨fun h => h1.1 ⟨h.1, h.2.1⟩, (h1.2 (.id n)).2⟩
  · exact h1.elim

theorem exists_not_putsBack (hnames : c.Names pool kwargs n) (hknows : c.Knows pool kwargs)
    (hhosts : c.hosts ("osd." ++ toString n) ≠ []) (hrevive : kwargs.doRevive = true)
    (options args : String) (stdin : Option String) (exit : ToolExit)
    (hbad : ¬ (n ≠ 0 ∧ c.Holds pool kwargs n ∧ given stdin = none)) :
    ∃ r w, Exec (c.env exit) (objectstoreTool c.name c.hosts pool kwargs options args stdin)
      ⟨(), (), []⟩ r w ∧ ¬ PutsBack n exit r w := by
  obtain ⟨r, w, hrun⟩ := exists_exec (env_total c exit)
    (objectstoreTool c.name c.hosts pool kwargs options args stdin) ⟨(), (), []⟩
  refine ⟨r, w, hrun, fun hback => ?_⟩
  rcases wp_post (ends_objectstoreTool hnames hknows hhosts hrevive options args stdin) hrun
    with ⟨hok, -⟩ | ⟨-, hnone⟩
  · exact hbad hok
  · obtain ⟨before, between, after, hops, -⟩ := hback.revived
    exact absurd (by rw [hops]; simp) hnone

end Runs

/-- **When the OSD is put back.** The killed OSD is revived and only a failure of the tool raises, exactly
when it is not OSD 0, has a shard where there are shards, and there is no text for stdin. -/
theorem objectstore_tool_puts_back_iff {Host : Type} (c : Cluster Host) (pool : Option String)
    (kwargs : Kwargs) (hrevive : kwargs.doRevive = true) (n : Nat) (hnames : c.Names pool kwargs n)
    (hhosts : c.hosts ("osd." ++ toString n) ≠ []) (hknows : c.Knows pool kwargs) (options args : String)
    (stdin : Option String) (exit : ToolExit) :
    (∀ r w, Exec (c.env exit) (objectstoreTool c.name c.hosts pool kwargs options args stdin)
      ⟨(), (), []⟩ r w → PutsBack n exit r w) ↔ n ≠ 0 ∧ c.Holds pool kwargs n ∧ given stdin = none := by
  constructor
  · intro h
    by_contra hbad
    obtain ⟨r, w, hrun, hnot⟩ :=
      exists_not_putsBack hnames hknows hhosts hrevive options args stdin exit hbad
    exact hnot (h r w hrun)
  · intro hok r w hrun
    rcases wp_post (ends_objectstoreTool hnames hknows hhosts hrevive options args stdin) hrun
      with ⟨-, hback⟩ | ⟨hnot, -⟩
    · exact hback
    · exact absurd hok hnot

def loneCluster : Cluster Unit where
  name := "zbkc"
  hosts _ := [()]
  pools := []
  nodup := nodup_nil
  objectMap _ _ := ⟨"", [], -1⟩

def byId (n : Nat) : Kwargs := ⟨.id n, none, true⟩

theorem loneCluster_knows (n : Nat) : loneCluster.Knows none (byId n) := by
  simp [Cluster.Knows, byId, given]

theorem objectstore_tool_puts_back_osd1 : (byId 1).doRevive = true ∧ loneCluster.Names none (byId 1) 1 ∧
      ∀ r w, Exec (loneCluster.env ⟨0, "", ""⟩)
        (objectstoreTool loneCluster.name loneCluster.hosts none (byId 1) "--op list" "" none)
        ⟨(), (), []⟩ r w → PutsBack 1 ⟨0, "", ""⟩ r w := by
  refine ⟨rfl, .inl rfl, (objectstore_tool_puts_back_iff loneCluster none (byId 1) rfl 1 (.inl rfl)
    (cons_ne_nil _ _) (loneCluster_knows 1) "--op list" "" none ⟨0, "", ""⟩).mpr ⟨by decide, ?_, rfl⟩⟩
  simp [Cluster.Holds]

/-- OSD 1 stays dead when there is a text for stdin, and OSD 0 is refused. -/
theorem stdin_leaves_osd_dead : (∃ r w, Exec (loneCluster.env ⟨0, "", ""⟩)
      (objectstoreTool loneCluster.name loneCluster.hosts none (byId 1) "--op set-attr" "" (some "value"))
      ⟨(), (), []⟩ r w ∧ ¬ PutsBack 1 ⟨0, "", ""⟩ r w) ∧ ∃ r w, Exec (loneCluster.env ⟨0, "", ""⟩)
      (objectstoreTool loneCluster.name loneCluster.hosts none (byId 0) "--op list" "" none)
      ⟨(), (), []⟩ r w ∧ ¬ PutsBack 0 ⟨0, "", ""⟩ r w := by
  constructor
  · refine exists_not_putsBack (.inl rfl) (loneCluster_knows 1) (cons_ne_nil _ _) rfl _ _ _ _ ?_
    exact fun h => absurd h.2.2 (by decide)
  · refine exists_not_putsBack (.inl rfl) (loneCluster_knows 0) (cons_ne_nil _ _) rfl _ _ _ _ ?_
    exact fun h => h.1 rfl

end ZbkcTasks.ObjectTool
