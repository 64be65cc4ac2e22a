import ZbkcTasks.ThrasherActions

/-! The choice of an action and the greenlets of `Thrasher` (`tasks/zbkc_manager.py`, lines 102-182,
485-502 and 645-833), with the `Scrubber` that `do_thrash` may start (`tasks/scrub.py`). -/

namespace ZbkcTasks

open Prog

inductive PauseKey
  | heartbeatInjectFailure
  | filestoreInjectStall
  deriving DecidableEq

def PauseKey.name : PauseKey → String
  | .heartbeatInjectFailure => "heartbeat_inject_failure"
  | .filestoreInjectStall => "filestore_inject_stall"

def pauseKeys : List PauseKey := [.heartbeatInjectFailure, .filestoreInjectStall]

/-- The actions of `choose_action`; the pauses with the key they were added for. -/
inductive Action
  | outOsd | killOsd | rmPastIntervals | inOsd | reviveOsd | primaryAffinity | reweightOsdOrByUtil
  | growPool | fixPgpNum | testPoolMinSize | testBackfillFull
  | injectPauseShort (key : PauseKey)
  | injectPauseLong (key : PauseKey)
  deriving DecidableEq

def chanceDown (config : ThrasherConfig) : ℚ :=
  match config.chanceDown.getD (.float (4 / 10)) with
  | .int n => n / 100
  | .float q => q

def entry (c : Prop) [Decidable c] (a : Action) (weight : ℚ) : List (Action × ℚ) :=
  if c then [(a, weight)] else []

def actions (t : Thrasher) : List (Action × ℚ) :=
  entry (t.minin < t.inOsds.length) .outOsd 1 ++
  entry (t.config.minLive.getD 2 < t.liveOsds.length ∧ 0 < chanceDown t.config) .killOsd
    (chanceDown t.config) ++
  entry (1 < t.deadOsds.length) .rmPastIntervals 1 ++
  entry (t.config.minOut.getD 0 < t.outOsds.length) .inOsd (17 / 10) ++
  entry (t.config.minDead.getD 0 < t.deadOsds.length) .reviveOsd 1 ++
  entry (t.config.thrashPrimaryAffinity.getD true = true) .primaryAffinity 1 ++
  [(.reweightOsdOrByUtil, t.config.reweightOsd.getD (1 / 2)),
   (.growPool, t.config.chancePgnumGrow.getD 0),
   (.fixPgpNum, t.config.chancePgpnumFix.getD 0),
   (.testPoolMinSize, t.config.chanceTestMinSize.getD 0),
   (.testBackfillFull, t.config.chanceTestBackfillFull.getD 0)] ++
  pauseKeys.flatMap fun key =>
    [(.injectPauseShort key, t.config.chanceInjectPauseShort.getD 1),
     (.injectPauseLong key, t.config.chanceInjectPauseLong.getD 0)]

/-- The last loop of `choose_action`: the first action whose weight exceeds what is left of `val`. -/
def pick : List (Action × ℚ) → ℚ → Option Action
  | [], _ => none
  | (action, prob) :: rest, val => if val < prob then some action else pick rest (val - prob)

def total (actions : List (Action × ℚ)) : ℚ := (actions.map (·.2)).sum

def chooseAction : M (Option Action) := do
  attr .config fun _ => ()
  attr .minin fun _ => ()
  log
  attr .inOsds fun _ => ()
  attr .liveOsds fun _ => ()
  attr .deadOsds fun _ => ()
  let actions ← attr .outOsds fun t => actions t
  let val ← uniform 0 (total actions)
  .ret (pick actions val)

/-- The two pauses of one key are closures over the loop variable: both see its last value. -/
def Action.run (fuel : Nat) : Action → M Unit
  | .outOsd => ZbkcTasks.outOsd none
  | .killOsd => ZbkcTasks.killOsd none false false
  | .rmPastIntervals => ZbkcTasks.rmPastIntervals none
  | .inOsd => ZbkcTasks.inOsd none
  | .reviveOsd => ZbkcTasks.reviveOsd none false
  | .primaryAffinity => ZbkcTasks.primaryAffinity none
  | .reweightOsdOrByUtil => ZbkcTasks.reweightOsdOrByUtil none
  | .growPool => ZbkcTasks.growPool
  | .fixPgpNum => ZbkcTasks.fixPgpNum
  | .testPoolMinSize => ZbkcTasks.testPoolMinSize fuel
  | .testBackfillFull => ZbkcTasks.testBackfillFull
  | .injectPauseShort _ => do
      let config ← attr .config (·.config)
      injectPause PauseKey.filestoreInjectStall.name (config.pauseShort.getD 3) 0 false
  | .injectPauseLong _ => do
      let config ← attr .config (·.config)
      injectPause PauseKey.filestoreInjectStall.name (config.pauseLong.getD 80)
        (config.pauseCheckAfter.getD 70) true

/-- `self.choose_action()()`; `None` cannot be called. -/
def runChosen (fuel : Nat) : Option Action → M Unit
  | some action => action.run fuel
  | none => .throw .typeError

def addScrubber (up : List Osd) : M Unit := .read fun t =>
  .write { t with scrubbers := t.scrubbers ++ [⟨up, false⟩] }
    (issue (.spawn (.scrub t.scrubbers.length)))

/-- `Scrubber(self.zbkc_manager, self.config)`; the object is not kept. -/
def scrubber : M Unit := do
  attr .zbkcManager fun _ => ()
  attr .config fun _ => ()
  call (.waitForClean none)
  let status ← call .getOsdStatus
  addScrubber status.up

/-- The settings that `do_thrash` reads once, before its loop. -/
structure ThrashSettings where
  cleanint : ℚ
  scrubint : ℚ
  maxdead : Int
  delay : ℚ

def thrashSettings (config : ThrasherConfig) : ThrashSettings where
  cleanint := config.cleanInterval.getD 60
  scrubint := config.scrubInterval.getD (-1)
  maxdead := config.maxDead.getD 0
  delay := config.opDelay.getD 5

/-- The cleaning part of a round: revive down to `max_dead`, reweight, wait, perhaps scrub. -/
def clean (fuel : Nat) (c : ThrashSettings) : M Unit := do
  whileDo (do let xs ← osds .dead; .ret (decide (c.maxdead < xs.length)))
    (reviveOsd none false) fuel
  let inOsds ← osds .in_
  forEach inOsds fun osd => manager (.rawClusterCmd (.osdReweight osd 1))
  let u ← uniform 0 1
  let config ← attr .config (·.config)
  (if u < config.chanceTestMapDiscontinuity.getD 0 then testMapDiscontinuity fuel
    else manager (.waitForRecovery config.timeout) : M Unit)
  let cleanWait ← attr .cleanWait (·.cleanWait)
  sleep cleanWait
  when (0 < c.scrubint) do
    let u ← uniform 0 1
    let chance ← divide c.delay c.scrubint
    when (u < chance) do
      log
      scrubber

def thrashRound (fuel : Nat) (c : ThrashSettings) : M Unit := do
  attr .inOsds fun _ => ()
  attr .outOsds fun _ => ()
  attr .deadOsds fun _ => ()
  attr .liveOsds fun _ => ()
  log
  let u ← uniform 0 1
  let chance ← divide c.delay c.cleanint
  when (u < chance) (clean fuel c)
  let action ← chooseAction
  runChosen fuel action
  sleep c.delay

/-- The loop of `do_thrash`, for at most `n` rounds. The result says whether it goes on. -/
def thrashRounds (fuel : Nat) (c : ThrashSettings) : Nat → M Bool
  | 0 => .ret true
  | n + 1 => do
      let stopping ← attr .stopping (·.stopping)
      if stopping then .ret false
      else do
        thrashRound fuel c
        thrashRounds fuel c n

def logExc (m : M Unit) : M Unit := m.catching fun e => do
  log
  .throw e

def doThrash (fuel n : Nat) : M Unit := logExc do
  let config ← attr .config (·.config)
  log
  let goesOn ← thrashRounds fuel (thrashSettings config) n
  if goesOn then .cut else allUp fuel

/-! ### The other greenlets -/

/-- `while not self.stopping: body`, cut after `n` tests. -/
def untilStopping (body : M Unit) (n : Nat) : M Unit :=
  whileDo (do let stopping ← attr .stopping (·.stopping); .ret !stopping) body n

def doSighup (n : Nat) : M Unit := logExc do
  let delay ← attr .sighupDelay (·.sighupDelay.getD 0)
  log
  untilStopping (do
    let osd ← osds .live >>= choice
    manager (.signalOsd osd)
    sleep delay) n

def optrackLoop (delay : ℚ) : String → Nat → M Unit
  | _, 0 => .cut
  | osdState, n + 1 => do
      let stopping ← attr .stopping (·.stopping)
      if stopping then .ret ()
      else do
        let osdState := if osdState = "true" then "false" else "true"
        let _ ← manager (.rawClusterCmdResult (.enableOpTracker osdState))
        sleep delay
        optrackLoop delay osdState n

def doOptrackToggle (n : Nat) : M Unit := logExc do
  let delay ← attr .optrackToggleDelay (·.optrackToggleDelay.getD 0)
  log
  optrackLoop delay "true" n

/-- `for osd in self.live_osds`: the list is in flux, so the loop goes by position. -/
def dumpOpsFrom : Nat → Nat → M Unit
  | _, 0 => .cut
  | i, n + 1 => do
      let liveOsds ← osds .live
      match liveOsds[i]? with
      | none => .ret ()
      | some osd => do
          manager (.osdAdminSocket osd "dump_ops_in_flight")
          manager (.osdAdminSocket osd "dump_blocked_ops")
          manager (.osdAdminSocket osd "dump_historic_ops")
          dumpOpsFrom (i + 1) n

def doDumpOps (n : Nat) : M Unit := logExc do
  log
  untilStopping (do
    dumpOpsFrom 0 n
    sleep 0) n

inductive ScrubState
  | none | noscrub | both | nodeepScrub
  deriving DecidableEq

/-- One round of `do_noscrub_toggle`: the command it gives and the state it goes to. -/
def ScrubState.toggle : ScrubState → RawCmd × ScrubState
  | .none => (.osdSet "noscrub", .noscrub)
  | .noscrub => (.osdSet "nodeep-scrub", .both)
  | .both => (.osdUnset "noscrub", .nodeepScrub)
  | .nodeepScrub => (.osdUnset "nodeep-scrub", .none)

def noscrubLoop (delay : ℚ) : ScrubState → Nat → M Unit
  | _, 0 => .cut
  | scrubState, n + 1 => do
      let stopping ← attr .stopping (·.stopping)
      if stopping then do
        manager (.rawClusterCmd (.osdUnset "noscrub"))
        manager (.rawClusterCmd (.osdUnset "nodeep-scrub"))
      else do
        manager (.rawClusterCmd scrubState.toggle.1)
        sleep delay
        noscrubLoop delay scrubState.toggle.2 n

def doNoscrubToggle (n : Nat) : M Unit := logExc do
  let delay ← attr .noscrubToggleDelay (·.noscrubToggleDelay.getD 0)
  log
  noscrubLoop delay .none n

/-- `Scrubber.do_scrub` of the scrubber made at position `i`. Its `stopping` is its own. -/
def doScrub (i n : Nat) : M Unit := .read fun t =>
  let frequency := t.config.frequency.getD 30
  let deep := t.config.deep.getD false
  whileDo (.read fun t => .ret !((t.scrubbers[i]?).any (·.stopping)))
    (.read fun t => do
      let osd ← choice ((t.scrubbers[i]?).elim [] (·.osds))
      call (.rawClusterCmd (.osdScrub deep osd))
      sleep frequency) n

/-! ### Construction and joining -/

def assign (a : Attr) (f : Thrasher → Thrasher) : M Unit :=
  modify fun t => { f t with assigned := a :: t.assigned }

def truthy (x : Option ℚ) : Prop := x.getD 0 ≠ 0

instance (x : Option ℚ) : Decidable (truthy x) := inferInstanceAs (Decidable (_ ≠ _))

def repeatList (m : Int) (xs : List Osd) : List Osd := (List.replicate m.toNat xs).flatten

def cmdExistsOnOsds : List Remote → M Bool
  | [] => .ret true
  | remote :: remotes => do
      let status : Int ← call (.typeTool remote)
      if status ≠ 0 then .ret false else cmdExistsOnOsds remotes

def connect : M OsdStatus := do
  assign .zbkcManager id
  assign .cluster id
  manager (.waitForClean none)
  manager .getOsdStatus

def assignLists (osdStatus : OsdStatus) : M Unit := do
  assign .inOsds ({ · with inOsds := osdStatus.inOsds })
  assign .liveOsds ({ · with liveOsds := osdStatus.live })
  assign .outOsds ({ · with outOsds := osdStatus.outOsds })
  assign .deadOsds ({ · with deadOsds := osdStatus.dead })

def assignSettings (config : ThrasherConfig) : M Unit := do
  assign .stopping ({ · with stopping := false })
  assign .logger id
  assign .config ({ · with config := config })
  assign .reviveTimeout ({ · with
    reviveTimeout := config.reviveTimeout.getD 150 + if config.powercycle then 120 else 0 })
  assign .cleanWait ({ · with cleanWait := config.cleanWait.getD 0 })
  assign .minin ({ · with minin := config.minIn.getD 3 })
  assign .chanceMovePg ({ · with chanceMovePg := config.chanceMovePg.getD 1 })
  assign .sighupDelay ({ · with sighupDelay := config.sighupDelay })
  assign .optrackToggleDelay ({ · with optrackToggleDelay := config.optrackToggleDelay })
  assign .dumpOpsEnable ({ · with dumpOpsEnable := config.dumpOpsEnable })
  assign .noscrubToggleDelay ({ · with noscrubToggleDelay := config.noscrubToggleDelay })

/-- `num_osds` is the list of the OSDs, not their number. -/
def assignMaxPgs (config : ThrasherConfig) : M Unit := do
  let inOsds ← osds .in_
  let outOsds ← osds .out
  let numOsds := inOsds ++ outOsds
  assign .maxPgs ({ · with
    maxPgs := .list (repeatList (config.maxPgsPerPoolOsd.getD 1200) numOsds) })

def initAttributes (config : ThrasherConfig) : M Unit := do
  let osdStatus ← connect
  assignLists osdStatus
  assignSettings config
  assignMaxPgs config
  assign .log id

def start (a : Attr) (g : Greenlet) : M Unit := do
  issue (.spawn g)
  assign a id

/-- The greenlets that run beside the thrash loop, each on a setting of its own. -/
inductive Helper
  | sighup | optrackToggle | dumpOps | noscrubToggle
  deriving DecidableEq

def Helper.greenlet : Helper → Greenlet
  | .sighup => .sighup
  | .optrackToggle => .optrackToggle
  | .dumpOps => .dumpOps
  | .noscrubToggle => .noscrubToggle

def Helper.setting : Helper → Attr
  | .sighup => .sighupDelay
  | .optrackToggle => .optrackToggleDelay
  | .dumpOps => .dumpOpsEnable
  | .noscrubToggle => .noscrubToggleDelay

def Helper.thread : Helper → Attr
  | .sighup => .sighupThread
  | .optrackToggle => .optrackToggleThread
  | .dumpOps => .dumpOpsThread
  | .noscrubToggle => .noscrubToggleThread

def Helper.enabled (t : Thrasher) : Helper → Bool
  | .sighup => decide (truthy t.sighupDelay)
  | .optrackToggle => decide (truthy t.optrackToggleDelay)
  | .dumpOps => decide (t.dumpOpsEnable = some "true")
  | .noscrubToggle => decide (truthy t.noscrubToggleDelay)

def startHelper (h : Helper) : M Unit := do
  let enabled ← attr h.setting fun t => h.enabled t
  when (enabled = true) (start h.thread h.greenlet)

def startGreenlets : M Unit := do
  start .thread .thrash
  startHelper .sighup
  startHelper .optrackToggle
  startHelper .dumpOps
  startHelper .noscrubToggle

def tellMonitors : M Unit :=
  (call (.rawClusterCmd (.monDownOutInterval false))).catching fun _ =>
    call (.rawClusterCmd (.monDownOutInterval true))

/-- Whether the tests of the tool are left out; every host is asked only if powercycling is off. -/
def lacksTool (config : ThrasherConfig) (remotes : List Remote) : M Bool :=
  if config.powercycle then .ret true
  else do
    let found ← cmdExistsOnOsds remotes
    .ret (!found || config.disableObjectstoreToolTests.getD false)

def assignTool (config : ThrasherConfig) (lacking : Bool) : M Unit :=
  if lacking then do
    assign .zbkcObjectstoreTool ({ · with zbkcObjectstoreTool := false })
    assign .testRmPastIntervals ({ · with testRmPastIntervals := false })
    log
  else do
    assign .zbkcObjectstoreTool ({ · with
      zbkcObjectstoreTool := config.zbkcObjectstoreTool.getD true })
    assign .testRmPastIntervals ({ · with
      testRmPastIntervals := config.testRmPastIntervals.getD true })

def init (config : ThrasherConfig) (remotes : List Remote) : M Unit := do
  initAttributes config
  tellMonitors
  startGreenlets
  let lacking ← lacksTool config remotes
  assignTool config lacking

def getGreenlet (g : Greenlet) : M Unit := issue (.get g) >>= fun r => match r with
  | .ok _ => .ret ()
  | .error e => .throw e

/-- `do_sighup` is waited for with `get`, which raises what it raised, the others with `join`. -/
def Helper.join : Helper → M Unit
  | .sighup => getGreenlet .sighup
  | .optrackToggle => issue (.join .optrackToggle)
  | .dumpOps => issue (.join .dumpOps)
  | .noscrubToggle => issue (.join .noscrubToggle)

def joinHelper (h : Helper) : M Unit := do
  let enabled ← attr h.setting fun t => h.enabled t
  when (enabled = true) do
    log
    attr h.thread fun _ => ()
    h.join

def doJoin : M Unit := do
  modify ({ · with stopping := true })
  attr .thread fun _ => ()
  getGreenlet .thrash
  joinHelper .sighup
  joinHelper .optrackToggle
  joinHelper .dumpOps
  joinHelper .noscrubToggle

def allAttrs : List Attr :=
  [.zbkcManager, .cluster, .inOsds, .liveOsds, .outOsds, .deadOsds, .stopping, .logger, .config,
    .reviveTimeout, .cleanWait, .minin, .chanceMovePg, .sighupDelay, .optrackToggleDelay,
    .dumpOpsEnable, .noscrubToggleDelay, .maxPgs, .log, .thread, .sighupThread,
    .optrackToggleThread, .dumpOpsThread, .noscrubToggleThread, .zbkcObjectstoreTool,
    .testRmPastIntervals]

theorem mem_allAttrs (a : Attr) : a ∈ allAttrs := by
  cases a <;> decide

def Thrasher.ready (config : ThrasherConfig) (inOsds outOsds liveOsds deadOsds : List Osd)
    (tool : Bool) : Thrasher where
  assigned := allAttrs
  inOsds := inOsds
  liveOsds := liveOsds
  outOsds := outOsds
  deadOsds := deadOsds
  stopping := false
  config := config
  reviveTimeout := config.reviveTimeout.getD 150 + if config.powercycle then 120 else 0
  cleanWait := config.cleanWait.getD 0
  minin := config.minIn.getD 3
  chanceMovePg := config.chanceMovePg.getD 1
  sighupDelay := config.sighupDelay
  optrackToggleDelay := config.optrackToggleDelay
  dumpOpsEnable := config.dumpOpsEnable
  noscrubToggleDelay := config.noscrubToggleDelay
  maxPgs := .list (repeatList (config.maxPgsPerPoolOsd.getD 1200) (inOsds ++ outOsds))
  zbkcObjectstoreTool := tool
  testRmPastIntervals := tool
  scrubbers := []

end ZbkcTasks
