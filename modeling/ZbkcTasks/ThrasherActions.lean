import ZbkcTasks.ThrasherOps

/-! The methods of `Thrasher` that act on OSDs and pools (`tasks/zbkc_manager.py`, lines 184-643).
`fuel` bounds the rounds of every `while` loop. -/

namespace ZbkcTasks

open Prog

inductive OsdList
  | in_ | out | live | dead
  deriving DecidableEq

def OsdList.attr : OsdList → Attr
  | .in_ => .inOsds
  | .out => .outOsds
  | .live => .liveOsds
  | .dead => .deadOsds

def Thrasher.osds (t : Thrasher) : OsdList → List Osd
  | .in_ => t.inOsds
  | .out => t.outOsds
  | .live => t.liveOsds
  | .dead => t.deadOsds

def Thrasher.setOsds (t : Thrasher) (l : OsdList) (xs : List Osd) : Thrasher :=
  match l with
  | .in_ => { t with inOsds := xs }
  | .out => { t with outOsds := xs }
  | .live => { t with liveOsds := xs }
  | .dead => { t with deadOsds := xs }

def osds (l : OsdList) : M (List Osd) := attr l.attr (·.osds l)

def remove (l : OsdList) (osd : Osd) : M Unit := do
  let xs ← osds l
  if osd ∈ xs then modify (·.setOsds l (xs.erase osd)) else .throw .valueError

def append (l : OsdList) (osd : Osd) : M Unit := do
  let xs ← osds l
  modify (·.setOsds l (xs ++ [osd]))

def transfer (src dst : OsdList) (osd : Osd) : M Unit := do
  remove src osd
  append dst osd

/-- The places of the code that change one of the lists, each with the command it goes with. -/
inductive Mutator
  | kill
  | blackholeKill
  | revive (skipAdminCheck : Bool)
  | out
  | in_
  deriving DecidableEq

/-- Killing and marking in change the lists before the command, reviving and marking out after it. -/
def Mutator.run : Mutator → Osd → M Unit
  | .kill, osd => do
      transfer .live .dead osd
      manager (.killOsd osd)
  | .blackholeKill, osd => do
      transfer .live .dead osd
      manager (.blackholeKillOsd osd)
  | .revive skipAdminCheck, osd => do
      let timeout ← attr .reviveTimeout (·.reviveTimeout)
      manager (.reviveOsd osd timeout skipAdminCheck)
      transfer .dead .live osd
  | .out, osd => do
      manager (.markOutOsd osd)
      transfer .in_ .out osd
  | .in_, osd => do
      transfer .out .in_ osd
      manager (.markInOsd osd)

/-- The argument `osd`, or a random entry of the list when it is `None`. -/
def given (osd : Option Osd) (l : OsdList) : M Osd :=
  match osd with
  | some osd => .ret osd
  | none => osds l >>= choice

def outOsd (osd : Option Osd) : M Unit := do
  let osd ← given osd .in_
  log
  Mutator.out.run osd

def reviveOsd (osd : Option Osd) (skipAdminCheck : Bool) : M Unit := do
  let osd ← given osd .dead
  log
  (Mutator.revive skipAdminCheck).run osd

def inOsd (osd : Option Osd) : M Unit := do
  let osd ← given osd .out
  let deadOsds ← osds .dead
  if osd ∈ deadOsds then reviveOsd (some osd) false
  else do
    log
    Mutator.in_.run osd
    log

def blackholeKillOsd (osd : Option Osd) : M Unit := do
  let osd ← given osd .live
  log
  Mutator.blackholeKill.run osd

/-! ### The object store tool on a dead OSD -/

/-- `raise Exception` when a run of the tool ends with a status other than 0. -/
def checkStatus (tool step : String) (status : Int) : M Unit :=
  when (status ≠ 0)
    (.throw (.exception (tool ++ ": " ++ step ++ " failure with status " ++ toString status)))

def waitForTool (remote : Remote) : Nat → M Unit
  | 0 => .throw (.maxWhileTries "type zbkc-objectstore-tool")
  | tries + 1 => do
      let status : Int ← call (.typeTool remote)
      if status = 0 then .ret ()
      else do
        when (0 < tries) (sleep 15)
        waitForTool remote tries

/-- If an older dead OSD is available, a PG is taken from there. -/
def chooseExporter (osd : Osd) (remote : Remote) : M (Osd × Remote) := do
  let deadOsds ← osds .dead
  if 1 < deadOsds.length then do
    let u ← random
    let chanceMovePg ← attr .chanceMovePg (·.chanceMovePg)
    if u < chanceMovePg then do
      let deadOsds ← osds .dead
      let expOsd ← choice deadOsds.dropLast
      let expRemote ← manager (.findRemote expOsd)
      .ret (expOsd, expRemote)
    else .ret (osd, remote)
  else .ret (osd, remote)

/-- The PG of the file goes to the killed OSD unless that one already has it. -/
def chooseImporter (file : ExportPath) (osd : Osd) (remote expRemote : Remote) : M (Osd × Remote) :=
  if file.id ≠ osd then do
    let listed ← call (.tool remote osd .listPgs)
    checkStatus "zbkc-objectstore-tool" "imp list-pgs" listed.1
    if file.pg ∉ listed.2 then do
      log
      when (remote ≠ expRemote) do
        log
        call (.getFile expRemote file)
        call (.putFile remote file)
        call (.removeTmp file)
      .ret (osd, remote)
    else .ret (file.id, expRemote)
  else .ret (osd, remote)

def applyLayoutSettings (osd : Osd) (remote : Remote) : M Unit := do
  let pools ← manager .listPools
  forEach pools fun pool => do
    let result ← call (.tool remote osd (.applyLayoutSettings pool))
    when (¬ result.2 ∧ result.1 ≠ 0) (.throw (.exception
      ("zbkc-objectstore-tool apply-layout-settings failed with " ++ toString result.1)))

/-- Status 10 is a pool that went away, 11 an incompatible export; both are ignored. -/
def checkImport (status : Int) : M Unit :=
  if status = 10 ∨ status = 11 then log else checkStatus "zbkc-objectstore-tool" "import" status

def movePgBy (file : ExportPath) (osd : Osd) (remote expRemote : Remote) : M Unit := do
  let status : Int ← call (.tool expRemote file.id (.export file.pg file))
  checkStatus "zbkc-objectstore-tool" "export" status
  let status : Int ← call (.tool expRemote file.id (.remove file.pg))
  checkStatus "zbkc-objectstore-tool" "remove" status
  let importer ← chooseImporter file osd remote expRemote
  let status : Int ← call (.tool importer.2 importer.1 (.import file))
  checkImport status
  call (.rmFile expRemote file)
  when (importer.2 ≠ expRemote) (call (.rmFile importer.2 file))
  applyLayoutSettings osd remote

def movePg (osd : Osd) (remote : Remote) (expOsd : Osd) (expRemote : Remote) (pgs : List Pgid) :
    M Unit := do
  let pg ← choice pgs
  attr .cluster fun _ => ()
  movePgBy ⟨pg, expOsd⟩ osd remote expRemote

def testObjectstoreTool (osd : Osd) : M Unit := do
  log
  let remote ← manager (.findRemote osd)
  let exporter ← chooseExporter osd remote
  attr .cluster fun _ => ()
  waitForTool exporter.2 40
  let listed ← call (.tool exporter.2 exporter.1 .listPgs)
  checkStatus "zbkc-objectstore-tool" "exp list-pgs" listed.1
  if listed.2.length = 0 then log
  else movePg osd remote exporter.1 exporter.2 listed.2

def killOsd (osd : Option Osd) (markDown markOut : Bool) : M Unit := do
  let osd ← given osd .live
  log
  Mutator.kill.run osd
  when (markDown = true) (manager (.markDownOsd osd))
  when (markOut = true) do
    let inOsds ← osds .in_
    when (osd ∈ inOsds) (outOsd (some osd))
  let zbkcObjectstoreTool ← attr .zbkcObjectstoreTool (·.zbkcObjectstoreTool)
  when (zbkcObjectstoreTool = true) (testObjectstoreTool osd)

def rmPastIntervals (osd : Option Osd) : M Unit := do
  let testRmPastIntervals ← attr .testRmPastIntervals (·.testRmPastIntervals)
  when (testRmPastIntervals = true) do
    let osd ← given osd .dead
    log
    let remote ← manager (.findRemote osd)
    let listed ← call (.tool remote osd .listPgs)
    checkStatus "zbkc_objectstore_tool" "exp list-pgs" listed.1
    if listed.2.length = 0 then log
    else do
      let pg ← choice listed.2
      let status : Int ← call (.tool remote osd (.rmPastIntervals pg))
      checkStatus "zbkc_objectstore_tool" "rm-past-intervals" status

/-! ### The other actions -/

def givenOrFlip : Option Osd → M Bool
  | some _ => .ret true
  | none => choice [true, false]

def reweightOsdOrByUtil (osd : Option Osd) : M Unit := do
  let one ← givenOrFlip osd
  if one then do
    let osd ← given osd .in_
    let val ← uniform (1 / 10) 1
    log
    manager (.rawClusterCmd (.osdReweight osd val))
  else
    -- several times, the option space is large
    forEach (List.range 5) fun _ => do
      let maxChange ← choice ["0.05", "1.0", "3.0"]
      let overage ← choice ["110", "1000"]
      let type ← choice ["reweight-by-utilization", "test-reweight-by-utilization"]
      log
      manager (.rawClusterCmd (.osdReweightBy type overage maxChange))

def drawAffinity : M ℚ := do
  let first ← random
  if (1 / 2 : ℚ) ≤ first then random
  else do
    let second ← random
    if (1 / 2 : ℚ) ≤ second then .ret 1 else .ret 0

def primaryAffinity (osd : Option Osd) : M Unit := do
  let osd ← given osd .in_
  let pa ← drawAffinity
  log
  manager (.rawClusterCmd (.osdPrimaryAffinity osd pa))

def allUp (fuel : Nat) : M Unit := do
  whileDo (do let xs ← osds .dead; .ret (decide (0 < xs.length)))
    (do log; reviveOsd none false) fuel
  whileDo (do let xs ← osds .out; .ret (decide (0 < xs.length)))
    (do log; inOsd none) fuel

def growPool : M Unit := do
  let pool ← manager .getPool
  log
  let config ← attr .config (·.config)
  let maxPgs ← attr .maxPgs (·.maxPgs)
  manager (.expandPool pool (config.poolGrowBy.getD 10) maxPgs)

def fixPgpNum : M Unit := do
  let pool ← manager .getPool
  log
  manager (.setPoolPgpnum pool)

/-- What `__init__` installs as `self.log`: the logger, or `print`. Both take one argument. -/
inductive LogFunction
  | loggerInfo
  | printing
  deriving DecidableEq

def LogFunction.body : LogFunction → M Unit
  | .loggerInfo => attr .logger fun _ => ()
  | .printing => .ret ()

def LogFunction.call (f : LogFunction) (args : Nat) : M Unit := do
  attr .log fun _ => ()
  if args = 1 then f.body else .throw .typeError

def killAllBut (theOne : Osd) : M Unit := do
  let inOsds ← osds .in_
  let toKill := inOsds.filter (· ≠ theOne)
  forEach toKill fun i => killOsd (some i) false false
  forEach toKill fun i => outOsd (some i)
  let config ← attr .config (·.config)
  sleep (config.testPoolMinSizeTime.getD 10)
  log
  killOsd (some theOne) false false
  outOsd (some theOne)
  log
  forEach toKill fun i => reviveOsd (some i) false
  forEach toKill fun i => inOsd (some i)
  log
  log
  let config ← attr .config (·.config)
  manager (.waitForRecovery config.timeout)

def testPoolMinSizeBy (f : LogFunction) (fuel : Nat) : M Unit := do
  f.call 1
  allUp fuel
  let config ← attr .config (·.config)
  manager (.waitForRecovery config.timeout)
  let theOne ← osds .in_ >>= choice
  -- `self.log("Killing everyone but %s", the_one)`
  f.call 2
  killAllBut theOne

/-- The method as the thrasher calls it, whose log goes to a logger. -/
def testPoolMinSize (fuel : Nat) : M Unit := testPoolMinSizeBy .loggerInfo fuel

def injectPause (confKey : String) (duration checkAfter : ℚ) (shouldBeDown : Bool) : M Unit := do
  let theOne ← osds .live >>= choice
  log
  log
  log
  manager (.setConfig theOne [(confKey, .num duration)])
  when (shouldBeDown = true) do
    sleep checkAfter
    let status ← manager .getOsdStatus
    when (theOne ∉ status.down) (.throw (.assertionError ""))
    sleep (duration - checkAfter + 20)
    let status ← manager .getOsdStatus
    when (theOne ∈ status.down) (.throw (.assertionError ""))

/-- `for i in range(30)` of `test_backfill_full`, left early when no PG is backfilling. -/
def waitForBackfills : Nat → M Unit
  | 0 => .ret ()
  | tries + 1 => do
      let status ← manager .compilePgStatus
      if "backfill" ∉ status.map (·.1) then .ret ()
      else do
        log
        sleep 1
        waitForBackfills tries

def testBackfillFull : M Unit := do
  log
  let liveOsds ← osds .live
  forEach liveOsds fun i => do
    let skip ← choice ["false", "true"]
    manager (.setConfig i [("osd_debug_skip_full_check_in_backfill_reservation", .text skip),
      ("osd_backfill_full_ratio", .num 0)])
  waitForBackfills 30
  let status ← manager .compilePgStatus
  when ("backfill" ∈ status.map (·.1)) (.throw (.assertionError ""))
  let liveOsds ← osds .live
  forEach liveOsds fun i =>
    manager (.setConfig i [("osd_debug_skip_full_check_in_backfill_reservation", .text "false"),
      ("osd_backfill_full_ratio", .num (85 / 100))])

/-- `test_map_discontinuity` once enough OSDs are in: kill one, wait, and revive one. -/
def skipMaps : M Unit := do
  log
  let config ← attr .config (·.config)
  manager (.waitForAllUp config.timeout)
  sleep 20
  manager (.waitForClean config.timeout)
  sleep 20
  log
  killOsd none true true
  log
  let config ← attr .config (·.config)
  manager (.waitForClean config.timeout)
  log
  sleep (config.mapDiscontinuitySleepTime.getD 40)
  reviveOsd none false

/-- The loop of `test_map_discontinuity`: mark OSDs in until one more than `min_in` is in. -/
def fillIn (fuel : Nat) : M Unit :=
  whileDo (do
      let inOsds ← osds .in_
      let minin ← attr .minin (·.minin)
      .ret (decide ((inOsds.length : Int) < minin + 1)))
    (inOsd none) fuel

def testMapDiscontinuity (fuel : Nat) : M Unit := do
  fillIn fuel
  skipMaps

end ZbkcTasks
