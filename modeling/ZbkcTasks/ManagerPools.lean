import ZbkcTasks.ManagerOps

/-! The methods of `ZbkcManager` that keep the cache `self.pools` (`tasks/zbkc_manager.py`, lines
914-940, 1323-1384, 1404-1510 and 1667-1676). -/

namespace ZbkcTasks

open Prog

def listPools : Mgr (List String) := ask .osdDump >>= ofCommand

def getPoolProperty (pool prop : String) : Mgr Int := ask (.poolGet pool prop) >>= ofCommand

/-- One round of the loop of `__init__`: only a failed command is ignored. -/
def cachePool (pool : String) : Mgr Unit := Prog.catching
  (do
    let pgNum ← getPoolProperty pool "pg_num"
    updatePools (·.insert pool pgNum))
  fun e => match e with
    | .command (.failed _) => .ret ()
    | e => .throw e

def initManager : Mgr Unit := do
  Prog.read fun m => .write { m with nextPoolId := 0 } (.ret ())
  let pools ← listPools
  updatePools fun _ => ∅
  forEach pools cachePool

def setMinSize (pool : String) : Option Int → Mgr Unit
  | none => .ret ()
  | some n => ask (.poolSet pool "min_size" (.int n)) >>= ofCommand

def setOverwrites (pool : String) : Bool → Mgr Unit
  | false => .ret ()
  | true => ask (.poolSet pool "debug_white_box_testing_ec_overwrites" (.text "true")) >>= ofCommand

def createPool (pool : String) (pgNum : Int) (profile : Option String) (minSize : Option Int)
    (overwrites : Bool) : Mgr Unit := do
  Prog.read fun m => pyAssert (pool ∉ m.pools) ""
  ask (.poolCreate pool pgNum (profile.filter (· ≠ ""))) >>= ofCommand
  setMinSize pool minSize
  setOverwrites pool overwrites
  updatePools (·.insert pool pgNum)
  ask (.sleep 1)

def uniquePoolName (id : Nat) : String := "unique_pool_" ++ toString id

def takePoolId : Mgr Nat :=
  .read fun m => .write { m with nextPoolId := m.nextPoolId + 1 } (.ret m.nextPoolId)

def createPoolWithUniqueName (pgNum : Int) (profile : Option String) (minSize : Option Int)
    (overwrites : Bool) : Mgr String := do
  let id ← takePoolId
  createPool (uniquePoolName id) pgNum profile minSize overwrites
  .ret (uniquePoolName id)

def removePool (pool : String) : Mgr Unit := do
  Prog.read fun m => pyAssert (pool ∈ m.pools) ""
  updatePools (·.erase pool)
  ask (.rmpool pool) >>= ofCommand

def pickOne : List String → Mgr String
  | [] => .throw .indexError
  | x :: xs => ask (.randIndex xs.length) >>= fun i => .ret ((x :: xs).get i)

/-- The keys of a dictionary come in no order that matters to a draw; here they are sorted. -/
def getPool : Mgr String := .read fun m => pickOne (sorted m.pools.keys)

/-- The loop of `set_pool_property`. Any status but 11 (`EAGAIN`) ends it. -/
def setPoolPropertyLoop (pool prop : String) (val : Int) (retries : Nat) : Mgr Unit := do
  let r ← ask (.poolSetResult pool prop val) >>= ofCommand
  if r ≠ 11 then .ret ()
  else match retries with
    | 0 => .throw (.exception ("timed out getting EAGAIN when setting pool property " ++
        pool ++ " " ++ prop ++ " = " ++ toString val))
    | retries + 1 => do
        ask (.sleep 2)
        setPoolPropertyLoop pool prop val retries

def setPoolProperty (pool prop : String) (val : Int) : Mgr Unit :=
  setPoolPropertyLoop pool prop val 50

def getNumCreating : Mgr Nat := countPgs fun pg => contains pg.state "creating"

def expandPool (pool : String) (growBy : Int) (maxPgs : MaxPgs) : Mgr Unit := do
  Prog.read fun m => pyAssert (pool ∈ m.pools) ""
  let creating ← getNumCreating
  if 0 < creating then .ret ()
  else do
    let pgNum ← poolPgNum pool
    if maxPgs.exceededBy (pgNum + growBy) then .ret ()
    else do
      let pgNum ← poolPgNum pool
      setPoolProperty pool "pg_num" (pgNum + growBy)
      updatePools (·.insert pool (pgNum + growBy))

def setPoolPgpnum (pool : String) : Mgr Unit := do
  Prog.read fun m => pyAssert (pool ∈ m.pools) ""
  let creating ← getNumCreating
  if 0 < creating then .ret ()
  else do
    let pgNum ← poolPgNum pool
    setPoolProperty pool "pgp_num" pgNum

inductive PoolCall
  | createPool (pool : String) (pgNum : Int) (profile : Option String) (minSize : Option Int)
      (overwrites : Bool)
  | createPoolWithUniqueName (pgNum : Int) (profile : Option String) (minSize : Option Int)
      (overwrites : Bool)
  | removePool (pool : String)
  | expandPool (pool : String) (growBy : Int) (maxPgs : MaxPgs)
  | setPoolPgpnum (pool : String)

def PoolCall.run : PoolCall → Mgr (Option String)
  | .createPool pool pgNum profile minSize overwrites => do
      ZbkcTasks.createPool pool pgNum profile minSize overwrites
      .ret none
  | .createPoolWithUniqueName pgNum profile minSize overwrites => do
      let name ← ZbkcTasks.createPoolWithUniqueName pgNum profile minSize overwrites
      .ret (some name)
  | .removePool pool => do
      ZbkcTasks.removePool pool
      .ret none
  | .expandPool pool growBy maxPgs => do
      ZbkcTasks.expandPool pool growBy maxPgs
      .ret none
  | .setPoolPgpnum pool => do
      ZbkcTasks.setPoolPgpnum pool
      .ret none

end ZbkcTasks
