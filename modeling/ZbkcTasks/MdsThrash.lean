import Mathlib.Data.Finmap
import ZbkcTasks.PyProg

/-! The `MDSThrasher` of `tasks/mds_thrash.py` and the `FSStatus` and `Filesystem` that it uses. A command
may raise at any call. Left out are log lines, counters that are only logged, the seed and `is_clean`. -/

namespace ZbkcTasks.MdsThrash

open Prog

/-! ### `FSStatus` -/

inductive MdsState
  | active
  | standby
  | standbyReplay
  | other (name : String)
  deriving DecidableEq

/-- The entry of an MDS; `laggy` says that it has the key `laggy_since`. -/
structure MdsInfo where
  name : String
  rank : Int
  gid : Nat
  state : MdsState
  laggy : Bool
  deriving DecidableEq

inductive FailedEntry
  | rank (n : Int)
  | name (s : String)
  deriving DecidableEq

structure FsMap where
  id : Nat
  maxMds : Int
  info : List MdsInfo
  failed : List FailedEntry

structure FSStatus where
  standbys : List MdsInfo
  filesystems : List FsMap

namespace FSStatus

variable (status : FSStatus)

def getFsmap (fscid : Nat) : Except PyError FsMap :=
  match status.filesystems.find? fun fs => fs.id == fscid with
  | some fs => .ok fs
  | none => .error (.runtimeError ("FSCID " ++ toString fscid ++ " not in map"))

def getRanks (fscid : Nat) : Except PyError (List MdsInfo) :=
  (status.getFsmap fscid).map fun fs => fs.info.filter fun info => 0 ≤ info.rank

def getRank (fscid : Nat) (rank : Int) : Except PyError MdsInfo := do
  let ranks ← status.getRanks fscid
  match ranks.find? fun info => info.rank == rank with
  | some info => .ok info
  | none => .error (.runtimeError ("FSCID " ++ toString fscid ++ " has no rank " ++ toString rank))

def getAll : List MdsInfo := status.standbys ++ status.filesystems.flatMap (·.info)

def getMds (name : String) : Option MdsInfo := status.getAll.find? fun info => info.name == name

end FSStatus

/-! ### The thrasher -/

abbrev Weights := Finmap fun _ : String => ℚ

structure Config where
  randomize : Option Bool := none
  thrashMaxMds : Option PyNum := none
  maxThrash : Option PyNum := none
  thrashDelay : Option PyNum := none
  thrashInReplay : Option PyNum := none
  maxReviveDelay : Option PyNum := none
  thrashWeights : Option Weights := none
  powercycle : Option Bool := none

structure MDSThrasher where
  fsId : Nat
  maxMds : Int
  randomize : Bool
  thrashMaxMds : ℚ
  maxThrash : Int
  maxThrashDelay : ℚ
  thrashInReplay : ℚ
  maxReviveDelay : ℚ
  thrashWeights : Option Weights
  powercycle : Bool

def MDSThrasher.ofConfig (fsId : Nat) (maxMds : Int) (config : Config) : MDSThrasher where
  fsId := fsId
  maxMds := maxMds
  randomize := config.randomize.getD true
  thrashMaxMds := (config.thrashMaxMds.getD (.float (1 / 4))).toFloat
  maxThrash := (config.maxThrash.getD (.int 1)).toInt
  maxThrashDelay := (config.thrashDelay.getD (.float 120)).toFloat
  thrashInReplay := (config.thrashInReplay.getD (.int 0)).toFloat
  maxReviveDelay := (config.maxReviveDelay.getD (.float 10)).toFloat
  thrashWeights := config.thrashWeights
  powercycle := config.powercycle.getD false

/-- `__init__`; the text of the message shows the value as a fraction. -/
def MDSThrasher.init (fsId : Nat) (maxMds : Int) (config : Config) : Except PyError MDSThrasher :=
  let t := ofConfig fsId maxMds config
  if 0 ≤ t.thrashInReplay ∧ t.thrashInReplay ≤ 1 then .ok t
  else .error (.assertionError
    ("thrash_in_replay (" ++ toString t.thrashInReplay ++ ") must be between [0.0, 1.0]"))

inductive Op
  | isSet
  | stoppingWait (delay : ℚ)
  | status
  | setMaxMds (n : Int)
  | deactivate (rank : Int)
  | stopDaemon (mds : String)
  | restartDaemon (mds : String)
  | hasIpmi (mds : String)
  | powerOff (mds : String)
  | powerOn (mds : String)
  | sleep (t : ℚ)
  | below (n : Nat)
  | sample (n k : Nat)
  deriving DecidableEq

@[reducible] def Op.Ans : Op → Type
  | .isSet => Bool
  | .stoppingWait _ => Unit
  | .status => Except CommandError FSStatus
  | .setMaxMds _ => Except CommandError Unit
  | .deactivate _ => Except CommandError Unit
  | .stopDaemon _ => Except CommandError Unit
  | .restartDaemon _ => Except CommandError Unit
  | .hasIpmi _ => Bool
  | .powerOff _ => Except CommandError Unit
  | .powerOn _ => Except CommandError Unit
  | .sleep _ => Except CommandError Unit
  | .below n => Fin (n + 1)
  | .sample n k => Draw n k

abbrev mdsSig : Sig := ⟨Op, Op.Ans⟩

/-- Code that runs as a method of the thrasher. No attribute is assigned after `__init__`. -/
abbrev M (α : Type) := Prog mdsSig Unit PyError α

def issue (o : Op) : M o.Ans := .op (S := mdsSig) o .ret

def below (n : Nat) : M (Fin (n + 1)) := issue (.below n)

def samplePositions (n k : Nat) : M (Draw n k) := issue (.sample n k)

def sleep (t : ℚ) : M Unit := issue (.sleep t) >>= ofCommand

/-! ### `Filesystem` -/

def fsStatus : M FSStatus := issue .status >>= ofCommand

def setMaxMds (n : Int) : M Unit := issue (.setMaxMds n) >>= ofCommand

def deactivate (rank : Int) : M Unit :=
  if rank < 0 then .throw (.runtimeError "invalid rank")
  else if rank = 0 then .throw (.runtimeError "cannot deactivate rank 0")
  else issue (.deactivate rank) >>= ofCommand

/-! ### The methods of the thrasher -/

variable (t : MDSThrasher)

def assertIpmi (mds : String) : M Unit := do
  let credentials ← issue (.hasIpmi mds)
  pyAssert (credentials = true)
    "powercycling requested but RemoteConsole is not initialized.  Check ipmi config."

def killMds (mds : String) : M Unit :=
  if t.powercycle then do
    assertIpmi mds
    issue (.powerOff mds) >>= ofCommand
  else issue (.stopDaemon mds) >>= ofCommand

/-- `revive_mds` without a rank to stand by for. `make_admin_daemon_dir` takes one argument and is called
with two. -/
def reviveMds (mds : String) : M Unit :=
  if t.powercycle then do
    assertIpmi mds
    issue (.powerOn mds) >>= ofCommand
    .throw .typeError
  else issue (.restartDaemon mds) >>= ofCommand

/-- The name of the MDS that holds a rank with another `gid`; any exception is ignored. -/
def takenOver (status : FSStatus) (rank : Int) (gid : Nat) : Option String :=
  match status.getRank t.fsId rank with
  | .ok info => if info.gid ≠ gid then some info.name else none
  | .error _ => none

def stableIn (status : FSStatus) (fs : FsMap) : Option (Int × Nat) → Option (Option String)
  | some (rank, gid) => (takenOver t status rank gid).map some
  | none =>
      let ranks := fs.info.filter fun info => 0 ≤ info.rank
      let count := ranks.countP fun info => info.state = .active ∧ ¬ info.laggy
      if fs.maxMds ≤ count then some none else none

/-- The loop of `wait_for_stable`; after ten looks each further one asks for the map once more. -/
def awaitStable (want : Option (Int × Nat)) : (fuel itercount : Nat) → FSStatus →
    M (FSStatus × Option String)
  | 0, _, _ => .cut
  | fuel + 1, itercount, status => do
      let fs ← orThrow (status.getFsmap t.fsId)
      (stableIn t status fs want).elim
        (do
          onlyIf (itercount + 1 > 10) (fsStatus >>= fun _ => .ret ())
          sleep 2
          let status ← fsStatus
          awaitStable want fuel (itercount + 1) status)
        fun name => .ret (status, name)

def waitForStable (fuel : Nat) (want : Option (Int × Nat)) : M (FSStatus × Option String) := do
  let status ← fsStatus
  awaitStable t want fuel 0 status

def options (maxMds : Int) : List Int := pyRange 1 maxMds ++ pyRange (maxMds + 1) (t.maxMds + 1)

def changeMaxMds (fuel : Nat) (maxMds : Int) : M FSStatus := do
  let drawn ← sample samplePositions (options t maxMds) 1
  let newMaxMds := drawn.headD 0
  setMaxMds newMaxMds
  let ranks ← sample samplePositions (pyRange 1 maxMds) (max 0 (maxMds - newMaxMds))
  forEach ranks deactivate
  let stable ← waitForStable t fuel none
  .ret stable.1

def thrashMaxMds (fuel : Nat) (status : FSStatus) : M FSStatus := do
  let n ← randrange below 0 1
  if (n : ℚ) ≤ t.thrashMaxMds then do
    let fs ← orThrow (status.getFsmap t.fsId)
    if options t fs.maxMds ≠ [] then changeMaxMds t fuel fs.maxMds else .ret status
  else .ret status

/-- A weight is a number, or the string `'0.0'` for a label that has none. -/
inductive Weight
  | num (q : ℚ)
  | text (s : String)
  deriving DecidableEq

/-- `weight <= skip`. In Python 2 a number is less than any string. -/
def Weight.le (skip : Int) : Weight → Bool
  | .num q => decide (q ≤ skip)
  | .text _ => false

def label (name : String) : String := "mds." ++ name

def weightOf (name : String) : Weight :=
  t.thrashWeights.elim (.num 1) fun weights => ((weights.lookup (label name)).map .num).getD (.text "0.0")

def seenDown (name : String) (status : FSStatus) : M Bool :=
  (status.getMds name).elim (.ret true) fun info =>
    if info.laggy then .ret true
    else do
      let fs ← orThrow (status.getFsmap t.fsId)
      .ret (fs.failed.any (· == .name name))

def seenStandby (name : String) (status : FSStatus) : Bool :=
  (status.getMds name).elim false fun info => info.state = .standby ∨ info.state = .standbyReplay

def drawDelay (delay : ℚ) : M ℚ :=
  if t.randomize then do
    let n ← randrange below 0 delay
    .ret n
  else .ret delay

def thrashMds (fuel : Nat) (info : MdsInfo) : M Unit := do
  killMds t info.name
  whileDo (do let status ← fsStatus; let down ← seenDown t info.name status; .ret (!down)) (sleep 2) fuel
  let _ ← waitForStable t fuel (some (info.rank, info.gid))
  let delay ← drawDelay t t.maxReviveDelay
  sleep delay
  reviveMds t info.name
  whileDo (do let status ← fsStatus; .ret (!seenStandby info.name status)) (sleep 2) fuel

def thrashRanks (fuel : Nat) : (count : Int) → List MdsInfo → M Unit
  | _, [] => .ret ()
  | count, info :: infos =>
      if t.thrashWeights.isNone ∧ count + 1 > t.maxThrash then .ret ()
      else do
        let skip ← randrange below 0 1
        if (weightOf t info.name).le skip then thrashRanks fuel (count + 1) infos
        else do
          thrashMds t fuel info
          thrashRanks fuel (count + 1) infos

def thrashFs (fuel : Nat) : M Unit := do
  let status ← fsStatus
  let status ← thrashMaxMds t fuel status
  let infos ← orThrow (status.getRanks t.fsId)
  thrashRanks t fuel 0 infos

def thrashRound (fuel : Nat) : M Unit := do
  let delay ← drawDelay t t.maxThrashDelay
  if delay > 0 then do
    issue (.stoppingWait delay)
    let stopped ← issue .isSet
    if stopped then .ret () else thrashFs t fuel
  else thrashFs t fuel

/-- `do_thrash`, for at most `n` tests of the event; each wait takes at most `fuel` looks. -/
def doThrash (fuel n : Nat) : M Unit :=
  whileDo (do let stopped ← issue .isSet; .ret (!stopped)) (thrashRound t fuel) n

end ZbkcTasks.MdsThrash
