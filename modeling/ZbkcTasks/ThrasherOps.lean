import Mathlib.Algebra.Order.Ring.Rat
import ZbkcTasks.ProgUses
import ZbkcTasks.PyBase

/-! The `Thrasher` of `tasks/zbkc_manager.py` and what its methods act on. A command may raise at any
call; a draw may be any value that `random` documents. The texts of log lines and commands are left out.
-/

namespace ZbkcTasks

abbrev Remote := Nat

/-- The configuration dictionary of the `thrashosds` task; a missing key is `none`. -/
structure ThrasherConfig where
  reviveTimeout : Option ℚ := none
  powercycle : Bool := false
  cleanWait : Option ℚ := none
  minIn : Option Int := none
  minOut : Option Int := none
  minLive : Option Int := none
  minDead : Option Int := none
  maxDead : Option Int := none
  chanceMovePg : Option ℚ := none
  sighupDelay : Option ℚ := none
  optrackToggleDelay : Option ℚ := none
  dumpOpsEnable : Option String := none
  noscrubToggleDelay : Option ℚ := none
  maxPgsPerPoolOsd : Option Int := none
  poolGrowBy : Option Int := none
  disableObjectstoreToolTests : Option Bool := none
  zbkcObjectstoreTool : Option Bool := none
  testRmPastIntervals : Option Bool := none
  timeout : Option ℚ := none
  testPoolMinSizeTime : Option ℚ := none
  mapDiscontinuitySleepTime : Option Int := none
  chanceDown : Option PyNum := none
  chanceTestMinSize : Option ℚ := none
  chanceTestBackfillFull : Option ℚ := none
  chanceTestMapDiscontinuity : Option ℚ := none
  chancePgnumGrow : Option ℚ := none
  chancePgpnumFix : Option ℚ := none
  chanceInjectPauseShort : Option ℚ := none
  chanceInjectPauseLong : Option ℚ := none
  thrashPrimaryAffinity : Option Bool := none
  reweightOsd : Option ℚ := none
  pauseShort : Option ℚ := none
  pauseLong : Option ℚ := none
  pauseCheckAfter : Option ℚ := none
  cleanInterval : Option ℚ := none
  scrubInterval : Option ℚ := none
  opDelay : Option ℚ := none
  frequency : Option ℚ := none
  deep : Option Bool := none

/-- The attributes of a `Thrasher`, in the order in which `__init__` sets them. -/
inductive Attr
  | zbkcManager | cluster | inOsds | liveOsds | outOsds | deadOsds | stopping | logger | config
  | reviveTimeout | cleanWait | minin | chanceMovePg | sighupDelay | optrackToggleDelay
  | dumpOpsEnable | noscrubToggleDelay | maxPgs | log
  | thread | sighupThread | optrackToggleThread | dumpOpsThread | noscrubToggleThread
  | zbkcObjectstoreTool | testRmPastIntervals
  deriving DecidableEq

def Attr.name : Attr → String
  | .zbkcManager => "zbkc_manager"
  | .cluster => "cluster"
  | .inOsds => "in_osds"
  | .liveOsds => "live_osds"
  | .outOsds => "out_osds"
  | .deadOsds => "dead_osds"
  | .stopping => "stopping"
  | .logger => "logger"
  | .config => "config"
  | .reviveTimeout => "revive_timeout"
  | .cleanWait => "clean_wait"
  | .minin => "minin"
  | .chanceMovePg => "chance_move_pg"
  | .sighupDelay => "sighup_delay"
  | .optrackToggleDelay => "optrack_toggle_delay"
  | .dumpOpsEnable => "dump_ops_enable"
  | .noscrubToggleDelay => "noscrub_toggle_delay"
  | .maxPgs => "max_pgs"
  | .log => "log"
  | .thread => "thread"
  | .sighupThread => "sighup_thread"
  | .optrackToggleThread => "optrack_toggle_thread"
  | .dumpOpsThread => "dump_ops_thread"
  | .noscrubToggleThread => "noscrub_toggle_thread"
  | .zbkcObjectstoreTool => "zbkc_objectstore_tool"
  | .testRmPastIntervals => "test_rm_past_intervals"

/-- The two attributes that `__init__` sets after it has started the greenlets. -/
def Attr.late : Attr → Bool
  | .zbkcObjectstoreTool => true
  | .testRmPastIntervals => true
  | _ => false

/-- The attributes that hold the handles of the greenlets; only `do_join` reads them. -/
def Attr.handle : Attr → Bool
  | .thread => true
  | .sighupThread => true
  | .optrackToggleThread => true
  | .dumpOpsThread => true
  | .noscrubToggleThread => true
  | _ => false

/-- A `Scrubber` object (`tasks/scrub.py`): the OSDs that were up when it was made. -/
structure Scrubber where
  osds : List Osd
  stopping : Bool
  deriving DecidableEq

/-- The object `self`. An attribute not in `assigned` does not exist yet, whatever its field holds. -/
structure Thrasher where
  assigned : List Attr
  inOsds : List Osd
  liveOsds : List Osd
  outOsds : List Osd
  deadOsds : List Osd
  stopping : Bool
  config : ThrasherConfig
  reviveTimeout : ℚ
  cleanWait : ℚ
  minin : Int
  chanceMovePg : ℚ
  sighupDelay : Option ℚ
  optrackToggleDelay : Option ℚ
  dumpOpsEnable : Option String
  noscrubToggleDelay : Option ℚ
  maxPgs : MaxPgs
  zbkcObjectstoreTool : Bool
  testRmPastIntervals : Bool
  scrubbers : List Scrubber

/-- The greenlets of a thrashing run; `main` runs `__init__` and `do_join`. -/
inductive Greenlet
  | main | thrash | sighup | optrackToggle | dumpOps | noscrubToggle
  | scrub (i : Nat)
  deriving DecidableEq

/-- The file that `kill_osd` exports a PG to, in the test directory of a remote. -/
structure ExportPath where
  pg : Pgid
  id : Osd
  deriving DecidableEq

inductive ToolOp
  | listPgs
  | export (pg : Pgid) (file : ExportPath)
  | remove (pg : Pgid)
  | import (file : ExportPath)
  | rmPastIntervals (pg : Pgid)
  | applyLayoutSettings (pool : String)
  deriving DecidableEq

inductive RawCmd
  | osdReweight (osd : Osd) (val : ℚ)
  | osdReweightBy (type overage maxChange : String)
  | osdPrimaryAffinity (osd : Osd) (pa : ℚ)
  /-- `tell mon.* injectargs`, or `mon tell *` in the old syntax. -/
  | monDownOutInterval (oldSyntax : Bool)
  | osdScrub (deep : Bool) (osd : Osd)
  | osdSet (flag : String)
  | osdUnset (flag : String)
  | enableOpTracker (state : String)
  deriving DecidableEq

inductive ConfVal
  | text (s : String)
  | num (q : ℚ)
  deriving DecidableEq

structure OsdStatus where
  inOsds : List Osd
  outOsds : List Osd
  up : List Osd
  down : List Osd
  dead : List Osd
  live : List Osd

inductive Cmd
  | waitForClean (timeout : Option ℚ)
  | waitForRecovery (timeout : Option ℚ)
  | waitForAllUp (timeout : Option ℚ)
  | getOsdStatus
  | compilePgStatus
  | killOsd (osd : Osd)
  | blackholeKillOsd (osd : Osd)
  | reviveOsd (osd : Osd) (timeout : ℚ) (skipAdminCheck : Bool)
  | markDownOsd (osd : Osd)
  | markOutOsd (osd : Osd)
  | markInOsd (osd : Osd)
  | signalOsd (osd : Osd)
  | osdAdminSocket (osd : Osd) (command : String)
  | setConfig (osd : Osd) (args : List (String × ConfVal))
  | rawClusterCmd (c : RawCmd)
  | rawClusterCmdResult (c : RawCmd)
  | getPool
  | expandPool (pool : String) (growBy : Int) (maxPgs : MaxPgs)
  | setPoolPgpnum (pool : String)
  | listPools
  | findRemote (osd : Osd)
  | typeTool (remote : Remote)
  | tool (remote : Remote) (osd : Osd) (op : ToolOp)
  /-- `Remote.get_file` to a local temporary file, `Remote.put_file` of it, and its removal. -/
  | getFile (remote : Remote) (file : ExportPath)
  | putFile (remote : Remote) (file : ExportPath)
  | removeTmp (file : ExportPath)
  | rmFile (remote : Remote) (file : ExportPath)
  deriving DecidableEq

/-- `list-pgs` prints lines; `apply-layout-settings` may say `Couldn't find pool`. -/
@[reducible] def ToolOp.Ret : ToolOp → Type
  | .listPgs => Int × List Pgid
  | .applyLayoutSettings _ => Int × Bool
  | _ => Int

@[reducible] def Cmd.Ret : Cmd → Type
  | .getOsdStatus => OsdStatus
  | .compilePgStatus => List (String × Nat)
  | .rawClusterCmdResult _ => Int
  | .getPool => String
  | .listPools => List String
  | .findRemote _ => Remote
  | .typeTool _ => Int
  | .tool _ _ op => op.Ret
  | _ => Unit

inductive Op
  | cmd (c : Cmd)
  | sleep (t : ℚ)
  | randIndex (n : Nat)
  | random
  | uniform (a b : ℚ)
  | spawn (g : Greenlet)
  | join (g : Greenlet)
  | get (g : Greenlet)
  | testBody
  deriving DecidableEq

@[reducible] def Op.Ans : Op → Type
  | .cmd c => Except CommandError c.Ret
  | .sleep _ => Except CommandError Unit
  | .randIndex n => Fin (n + 1)
  | .random => { q : ℚ // 0 ≤ q ∧ q < 1 }
  | .uniform a b => { q : ℚ // min a b ≤ q ∧ q ≤ max a b }
  | .spawn _ => Unit
  | .join _ => Unit
  | .get _ => Except PyError Unit
  | .testBody => Unit

abbrev taskSig : Sig := ⟨Op, Op.Ans⟩

abbrev M (α : Type) := Prog taskSig Thrasher PyError α

abbrev W (η : Type) := World taskSig Thrasher η

def attr {β : Type} (a : Attr) (f : Thrasher → β) : M β :=
  .read fun s => if a ∈ s.assigned then .ret (f s) else .throw (.attributeError a.name)

def modify (f : Thrasher → Thrasher) : M Unit := .read fun s => .write (f s) (.ret ())

def issue (o : Op) : M o.Ans := .op (S := taskSig) o .ret

def raising {β : Type} : Except CommandError β → M β
  | .ok a => .ret a
  | .error e => .throw (.command e)

def call (c : Cmd) : M c.Ret := issue (.cmd c) >>= raising

def manager (c : Cmd) : M c.Ret := attr .zbkcManager (fun _ => ()) >>= fun _ => call c

def log : M Unit := attr .log (fun _ => ()) >>= fun _ => attr .logger fun _ => ()

def sleep (t : ℚ) : M Unit := issue (.sleep t) >>= raising

def choice {β : Type} : List β → M β
  | [] => .throw .indexError
  | x :: xs => issue (.randIndex xs.length) >>= fun i => .ret ((x :: xs).get i)

def uniform (a b : ℚ) : M ℚ := issue (.uniform a b) >>= fun u => .ret u.val

def random : M ℚ := issue .random >>= fun u => .ret u.val

def divide (a b : ℚ) : M ℚ := if b = 0 then .throw .zeroDivisionError else .ret (a / b)

def when (c : Prop) [Decidable c] (m : M Unit) : M Unit := if c then m else .ret ()

end ZbkcTasks
