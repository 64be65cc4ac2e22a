import Mathlib.Data.Finmap
import ZbkcTasks.PyProg

/-! The `ZbkcManager` of `tasks/zbkc_manager.py`, as far as its pools and PG counts go. A command is one
operation, answered with what is read from its output. The lock is left out: one caller at a time. -/

namespace ZbkcTasks

open Prog

abbrev PoolMap := Finmap fun _ : String => Int

structure Manager where
  pools : PoolMap
  nextPoolId : Nat

structure PgStat where
  pgid : Pgid
  state : String

/-- The entries of `pgmap` in `status`; a missing key is `none`. -/
structure PgMap where
  numPgs : Nat
  recoveringKeysPerSec : Option Int
  recoveringBytesPerSec : Option Int
  recoveringObjectsPerSec : Option Int

inductive SetVal
  | int (n : Int)
  | text (s : String)
  deriving DecidableEq

inductive MgrOp
  | osdDump
  | poolGet (pool prop : String)
  | poolCreate (pool : String) (pgNum : Int) (profile : Option String)
  /-- `osd pool set` through `raw_cluster_cmd`, which raises when the command fails. -/
  | poolSet (pool prop : String) (val : SetVal)
  /-- `osd pool set` through `raw_cluster_cmd_result`, which returns the exit status. -/
  | poolSetResult (pool prop : String) (val : Int)
  | rmpool (pool : String)
  | pgDump
  | status
  | randIndex (n : Nat)
  | time
  | sleep (t : ℚ)

@[reducible] def MgrOp.Ans : MgrOp → Type
  | .osdDump => Except CommandError (List String)
  | .poolGet _ _ => Except CommandError Int
  | .poolCreate _ _ _ => Except CommandError Unit
  | .poolSet _ _ _ => Except CommandError Unit
  | .poolSetResult _ _ _ => Except CommandError Int
  | .rmpool _ => Except CommandError Unit
  | .pgDump => Except CommandError (List PgStat)
  | .status => Except CommandError PgMap
  | .randIndex n => Fin (n + 1)
  | .time => ℚ
  | .sleep _ => Unit

abbrev mgrSig : Sig := ⟨MgrOp, MgrOp.Ans⟩

abbrev Mgr (α : Type) := Prog mgrSig Manager PyError α

abbrev MgrW (η : Type) := World mgrSig Manager η

def ask (o : MgrOp) : Mgr o.Ans := .op (S := mgrSig) o .ret

def getPgStats : Mgr (List PgStat) := ask .pgDump >>= ofCommand

def countPgs (test : PgStat → Bool) : Mgr Nat := do
  let pgs ← getPgStats
  .ret (pgs.countP test)

def updatePools (f : PoolMap → PoolMap) : Mgr Unit :=
  .read fun m => .write { m with pools := f m.pools } (.ret ())

def orKeyError (key : String) : Option Int → Mgr Int
  | some n => .ret n
  | none => .throw (.keyError key)

def poolPgNum (pool : String) : Mgr Int := .read fun m => orKeyError pool (m.pools.lookup pool)

theorem wp_poolPgNum {η : Type} {E : Env mgrSig Manager η} {A : MgrOp → Manager → η → Prop}
    {w : MgrW η} {pool : String} {Q : Outcome PyError Int → MgrW η → Prop}
    (hsome : ∀ n, w.st.pools.lookup pool = some n → Q (.ret n) w)
    (hnone : Q (.exn (.keyError pool)) w) : wp E A (poolPgNum pool) Q w := by
  change wp E A (orKeyError pool (w.st.pools.lookup pool)) Q w
  cases hpool : w.st.pools.lookup pool with
  | none => exact hnone
  | some n => exact hsome n hpool

/-- `sub in s`, which is also when `s.count(sub)` is not zero. -/
def contains (s sub : String) : Bool := decide (sub.toList <:+: s.toList)

/-- `n > max_pgs`. In Python 2 a number is less than any list. -/
def MaxPgs.exceededBy (n : Int) : MaxPgs → Bool
  | .int m => decide (m < n)
  | .list _ => false

end ZbkcTasks
