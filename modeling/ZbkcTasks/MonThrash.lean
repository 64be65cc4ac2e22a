import Mathlib.Data.Rat.Floor
import ZbkcTasks.PyProg

/-! The `MonitorThrasher` of `tasks/mon_thrash.py`. A command may raise at any call. Left out are log
lines, the seed and the first `wait_for_clean`. The manager has no configuration, so it never power
cycles. -/

namespace ZbkcTasks.MonThrash

open Prog

abbrev Mon := String

/-- The monitors of the cluster, as `_get_mons` lists them. -/
structure Monitors where
  names : List Mon
  nodup : names.Nodup

structure Config where
  reviveDelay : Option PyNum := none
  thrashDelay : Option PyNum := none
  thrashMany : Option Bool := none
  maintainQuorum : Option Bool := none
  scrub : Option Bool := none
  freezeMonProbability : Option PyNum := none
  freezeMonDuration : Option PyNum := none
  storeThrash : Option Bool := none
  storeThrashProbability : Option PyNum := none

structure MonitorThrasher where
  mons : Monitors
  reviveDelay : ℚ
  thrashDelay : ℚ
  thrashMany : Bool
  maintainQuorum : Bool
  scrub : Bool
  freezeMonProbability : ℚ
  freezeMonDuration : ℚ
  storeThrash : Bool
  storeThrashProbability : Int

def MonitorThrasher.maxKillable (t : MonitorThrasher) : Int :=
  if t.maintainQuorum then max (⌈(t.mons.names.length : ℚ) / 2⌉ - 1) 0 else t.mons.names.length

/-- The defaults are filled in. -/
def MonitorThrasher.ofConfig (mons : Monitors) (config : Config) : MonitorThrasher where
  mons := mons
  reviveDelay := (config.reviveDelay.getD (.float 10)).toFloat
  thrashDelay := (config.thrashDelay.getD (.float 0)).toFloat
  thrashMany := config.thrashMany.getD false
  maintainQuorum := config.maintainQuorum.getD true
  scrub := config.scrub.getD true
  freezeMonProbability := (config.freezeMonProbability.getD (.int 10)).toFloat
  freezeMonDuration := (config.freezeMonDuration.getD (.float 15)).toFloat
  storeThrash := config.storeThrash.getD false
  storeThrashProbability := (config.storeThrashProbability.getD (.int 50)).toInt

/-- It asserts that a monitor can be killed. -/
def MonitorThrasher.init (mons : Monitors) (config : Config) : Except PyError MonitorThrasher :=
  let t := ofConfig mons config
  if ¬ t.maxKillable > 0 then
    .error (.assertionError "Unable to kill at least one monitor with the current config.")
  else if t.storeThrash ∧ ¬ t.storeThrashProbability > 0 then
    .error (.assertionError "store_thrash is set, probability must be > 0")
  else if t.storeThrash ∧ ¬ t.maintainQuorum then
    .error (.assertionError "store_thrash = true must imply maintain_quorum = true")
  else .ok t

theorem MonitorThrasher.init_eq_ok_iff {mons : Monitors} {config : Config} {t : MonitorThrasher} :
    init mons config = .ok t ↔ ofConfig mons config = t ∧ t.maxKillable > 0 ∧
      (t.storeThrash = true → t.storeThrashProbability > 0 ∧ t.maintainQuorum = true) := by
  unfold init
  constructor
  · intro h
    simp only at h
    split_ifs at h with hkill hprob hquorum
    cases h
    refine ⟨rfl, hkill, fun hstore => ⟨?_, ?_⟩⟩
    · exact not_not.mp fun hle => hprob ⟨hstore, hle⟩
    · exact not_not.mp fun hne => hquorum ⟨hstore, hne⟩
  · rintro ⟨rfl, hkill, hstore⟩
    rw [if_neg (not_not.mpr hkill), if_neg fun h => h.2 (hstore h.1).1,
      if_neg fun h => h.2 (hstore h.1).2]

inductive MonState
  | leader
  | peon
  | other (name : String)
  deriving DecidableEq

structure MonStatus where
  state : MonState
  quorum : List Nat

structure SyncReply where
  out : String
  ret : Int

inductive DaemonCmd
  | signal (sig : Nat)
  | stop
  | restart
  deriving DecidableEq

inductive Op
  | quorumStatus
  | monStatus (mon : Mon)
  | syncForce (mon : Mon)
  | daemon (mon : Mon) (cmd : DaemonCmd)
  | scrub
  | time
  | sleep (t : ℚ)
  | below (n : Nat)
  | sample (n k : Nat)
  | stopping

@[reducible] def Op.Ans : Op → Type
  | .quorumStatus => Except CommandError (List Nat)
  | .monStatus _ => Except CommandError MonStatus
  | .syncForce _ => Except CommandError SyncReply
  | .daemon _ _ => Except CommandError Unit
  | .scrub => Except CommandError Unit
  | .time => ℚ
  | .sleep _ => Except CommandError Unit
  | .below n => Fin (n + 1)
  | .sample n k => Draw n k
  | .stopping => Bool

abbrev monSig : Sig := ⟨Op, Op.Ans⟩

abbrev M (α : Type) := Prog monSig Unit PyError α

def issue (o : Op) : M o.Ans := .op (S := monSig) o .ret

def below (n : Nat) : M (Fin (n + 1)) := issue (.below n)

def samplePositions (n k : Nat) : M (Draw n k) := issue (.sample n k)

def sleep (t : ℚ) : M Unit := issue (.sleep t) >>= ofCommand

/-! ### The manager -/

def daemon (mon : Mon) (cmd : DaemonCmd) : M Unit := issue (.daemon mon cmd) >>= ofCommand

def getMonQuorum : M (List Nat) := issue .quorumStatus >>= ofCommand

def getMonStatus (mon : Mon) : M MonStatus := issue (.monStatus mon) >>= ofCommand

/-- `wait_for_mon_quorum_size` with its `timeout` of 300 seconds. -/
def waitForMonQuorumSize (fuel : Nat) (size : Int) : M Unit := do
  let start ← issue .time
  whileDo (do let quorum ← getMonQuorum; .ret (decide (¬ (quorum.length : Int) = size)))
    (do
      let now ← issue .time
      pyAssert (now - start < 300)
        ("failed to reach quorum size " ++ toString size ++ " before timeout expired")
      sleep 3)
    fuel

/-! ### The methods of the thrasher -/

variable (t : MonitorThrasher)

def shouldThrashStore : M Bool :=
  if t.storeThrash then do
    let n ← randrange below 0 101
    .ret (decide (n < t.storeThrashProbability))
  else .ret false

def thrashStore (mon : Mon) : M Unit := do
  let reply ← issue (.syncForce mon) >>= ofCommand
  pyAssert (reply.ret = 0) ("error forcing store sync on mon." ++ mon ++ ":\n" ++ reply.out)

def shouldFreezeMon : M Bool := do
  let n ← randrange below 0 101
  .ret (decide ((n : ℚ) < t.freezeMonProbability))

def freezeMon (mon : Mon) : M Unit := daemon mon (.signal 19)

def unfreezeMon (mon : Mon) : M Unit := daemon mon (.signal 18)

def killMon (mon : Mon) : M Unit := daemon mon .stop

def reviveMon (mon : Mon) : M Unit := daemon mon .restart

/-- Each is leader or peon in a quorum of that size. -/
def checkQuorum (mons : List Mon) (size : Int) : M Unit :=
  forEach mons fun m => do
    let s ← getMonStatus m
    pyAssert (s.state = .leader ∨ s.state = .peon) ""
    pyAssert ((s.quorum.length : Int) = size) ""

def chooseMonsToKill : M (List Mon) := do
  let killUpTo ← randrange below 1 (t.maxKillable + 1)
  sample samplePositions t.mons.names killUpTo

/-- Each monitor that is not killed may be stopped. -/
def chooseMonsToFreeze (monsToKill : List Mon) : List Mon → M (List Mon)
  | [] => .ret []
  | mon :: mons =>
      if mon ∈ monsToKill then chooseMonsToFreeze monsToKill mons
      else do
        let freeze ← shouldFreezeMon t
        let rest ← chooseMonsToFreeze monsToKill mons
        .ret (if freeze then mon :: rest else rest)

/-- Perhaps with a store sync forced before. -/
def killAll (monsToKill : List Mon) : M Unit :=
  forEach monsToKill fun mon => do
    let thrash ← shouldThrashStore t
    onlyIf (thrash ∧ t.maintainQuorum) (thrashStore mon)
    killMon mon

def freezeAll (monsToFreeze : List Mon) : M Unit :=
  onlyIf (monsToFreeze ≠ []) do
    forEach monsToFreeze freezeMon
    sleep t.freezeMonDuration
    forEach monsToFreeze unfreezeMon

/-- Only if quorum is to be maintained. -/
def awaitSurvivors (fuel : Nat) (monsToKill : List Mon) : M Unit :=
  onlyIf (t.maintainQuorum = true) do
    let size : Int := t.mons.names.length - monsToKill.length
    waitForMonQuorumSize fuel size
    checkQuorum (t.mons.names.filter (· ∉ monsToKill)) size

/-- `self.manager.raw_cluster_cmd('scrub')`; what it raises is only logged. -/
def triggerScrub : M Unit :=
  onlyIf (t.scrub = true) ((issue .scrub >>= ofCommand).catching fun _ => .ret ())

def awaitAll (fuel : Nat) : M Unit := do
  waitForMonQuorumSize fuel t.mons.names.length
  checkQuorum t.mons.names t.mons.names.length

def thrash (fuel : Nat) (monsToKill monsToFreeze : List Mon) : M Unit := do
  killAll t monsToKill
  freezeAll t monsToFreeze
  awaitSurvivors t fuel monsToKill
  sleep t.reviveDelay
  forEach monsToKill reviveMon
  -- do more freezes
  freezeAll t monsToFreeze
  awaitAll t fuel
  triggerScrub t
  onlyIf (t.thrashDelay > 0) (sleep t.thrashDelay)

def thrashRound (fuel : Nat) : M Unit := do
  awaitAll t fuel
  let monsToKill ← chooseMonsToKill t
  let monsToFreeze ← chooseMonsToFreeze t monsToKill t.mons.names
  thrash t fuel monsToKill monsToFreeze

/-- `do_thrash`, for at most `n` tests of `self.stopping`; each wait takes at most `fuel` looks. -/
def doThrash (fuel n : Nat) : M Unit :=
  whileDo (do let stopping ← issue .stopping; .ret (!stopping)) (thrashRound t fuel) n

end ZbkcTasks.MonThrash
