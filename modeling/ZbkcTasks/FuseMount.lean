import ZbkcTasks.PyProg
import ZbkcTasks.PyText
import ZbkcTasks.TextLines

/-! A mount of `tasks/zbkcfs/fuse_mount.py`, with `teardown` of `tasks/zbkcfs/mount.py`. What the commands
do to the mount point and to the connections is said by the environments of the modules that follow. -/

namespace ZbkcTasks.FuseMount

open Prog

abbrev Text := List Char

/-- What `proc.wait()` of a command with a captured `stderr` comes to. -/
inductive StatResult
  | printed (stdout : Text)
  | failed (status : Int) (stderr : Text)
  | other (msg : String)

structure BackgroundProc where
  id : Nat
  hasStdin : Bool
  deriving DecidableEq

inductive Command
  | mkdir
  | mountFusectl
  | startDaemon
  | waitDaemon
  | fusermount
  | abort (conn : Int)
  | umountForce
  | removeAll
  | waitBackground (p : BackgroundProc)
  deriving DecidableEq

inductive Op
  | command (c : Command)
  /-- `ls /sys/fs/fuse/connections`: the exit status, which is not checked, and what is printed. -/
  | lsConnections
  | finished
  | closeStdin
  | closeBackground (p : BackgroundProc)
  | sleep (seconds : Int)
  | stat
  deriving DecidableEq

abbrev Ans : Op → Type
  | .command _ => Except CommandError Unit
  | .lsConnections => Except CommandError (Int × Text)
  | .finished => Bool
  | .closeStdin => Unit
  | .closeBackground _ => Unit
  | .sleep _ => Unit
  | .stat => StatResult

abbrev sig : Sig := ⟨Op, Ans⟩

structure Self where
  fuseDaemon : Bool
  fuseConn : Option Int
  backgroundProcs : List BackgroundProc

abbrev M := Prog sig Self PyError

def run (c : Command) : M Unit := .op (.command c) ofCommand

/-- `try: p except CommandFailedError: handler`. -/
def exceptFailed (p : M Unit) (handler : PyError → M Unit) : M Unit := p.catching fun e => match e with
  | .command (.failed status) => handler (.command (.failed status))
  | e => .throw e

/-! ### Mounting -/

def parseConns (stdout : Text) : Except PyError (List Int) :=
  if strip stdout = [] then .ok [] else ((strip stdout).splitOn '\n').mapM pyInt

def connsOf : Int × Text → Except PyError (List Int)
  | (status, stdout) => if status ≠ 0 then .ok [] else parseConns stdout

def ignoreStatus : Except CommandError Unit → Except CommandError Unit
  | .error (.failed _) => .ok ()
  | ans => ans

def listConnections : M (List Int) := do
  .op (.command .mountFusectl) fun ans => ofCommand (ignoreStatus ans)
  let out ← .op .lsConnections ofCommand
  orThrow (connsOf out)

structure ClientConfig where
  mountWait : Int
  mountTimeout : Int

def daemonFinished : M Bool := .op .finished .ret

/-- A turn of the loop that waits for a connection, up to the count: it raises if the daemon failed. -/
def pause : M Unit := do
  let finished ← daemonFinished
  onlyIf (finished = true) (run .waitDaemon)
  .op (.sleep 1) .ret

/-- The loop that waits for a connection. `left` is the number of listings until the timeout. -/
def awaitConns (seconds : Int) (pre : List Int) : Nat → List Int → M (List Int)
  | left, post =>
      if pre.length < post.length then .ret post
      else do
        pause
        match left with
        | 0 => .throw (.runtimeError s!"Fuse mount failed to populate /sys/ after {seconds} seconds")
        | left + 1 => listConnections >>= awaitConns seconds pre left

/-- `list(set(post) - set(pre))`, which must have one element. -/
def newConn (pre post : List Int) : Except PyError Int :=
  match (post.filter fun id => !pre.contains id).dedup with
  | [] => .error (.runtimeError "New fuse connection directory not found ([])")
  | [conn] => .ok conn
  | conns => .error (.runtimeError s!"Unexpectedly numerous fuse connections {conns}")

def recordDaemon : M Unit := .read fun s => .write { s with fuseDaemon := true } (.ret ())

def recordConn (conn : Int) : M Unit := .read fun s => .write { s with fuseConn := some conn } (.ret ())

def mount (config : ClientConfig) : M Unit := do
  run .mkdir
  let pre ← listConnections
  run .startDaemon
  recordDaemon
  onlyIf (0 < config.mountWait) (.op (.sleep config.mountWait) .ret)
  let post ← listConnections >>= awaitConns (max config.mountTimeout 0 + 1) pre config.mountTimeout.toNat
  let conn ← orThrow (newConn pre post)
  recordConn conn

/-! ### Unmounting -/

def notConnected : Text := "endpoint is not connected".toList

def connectionAbort : Text := "Software caused connection abort".toList

def tellsStale (stderr : Text) : Bool :=
  decide (notConnected <:+: stderr) || decide (connectionAbort <:+: stderr)

def isMounted : M Bool := .op .stat fun
  | .printed stdout => .ret (decide (TextLines.rstripNewlines stdout = "fuseblk".toList))
  | .failed _ stderr => .ret (tellsStale stderr)
  | .other msg => .throw (.command (.other msg))

def forgetConn : M Unit := .read fun s => .write { s with fuseConn := none } (.ret ())

def abortConn : M Unit := .read fun s => s.fuseConn.elim (.ret ()) fun conn => onlyIf (conn ≠ 0) do
  run (.abort conn)
  forgetConn

def forceUmount : M Unit := do
  abortConn
  exceptFailed (run .umountForce) fun e => do
    let mounted ← isMounted
    if mounted = true then .throw e else .ret ()

def umount : M Unit := do
  exceptFailed (run .fusermount) fun _ => forceUmount
  let mounted ← isMounted
  pyAssert (mounted = false) ""
  forgetConn

def connectionLost : CommandError := .other "ConnectionLostError"

def killBackground (p : BackgroundProc) : M Unit :=
  onlyIf (p.hasStdin = true) do
    .op (.closeBackground p) .ret
    (run (.waitBackground p)).catching fun e => match e with
      | .command (.failed _) => .ret ()
      | e => if e = .command connectionLost then .ret () else .throw e

def baseTeardown : M Unit := do
  .read fun s => forEach s.backgroundProcs killBackground
  .read fun s => .write { s with backgroundProcs := [] } (.ret ())

def stopDaemon : M Unit := .read fun s =>
  onlyIf (s.fuseDaemon = true) do
    let finished ← daemonFinished
    onlyIf (finished = false) do
      .op .closeStdin .ret
      exceptFailed (run .waitDaemon) fun _ => .ret ()

def teardown : M Unit := do
  baseTeardown
  umount
  stopDaemon
  run .removeAll

end ZbkcTasks.FuseMount
