import Mathlib.Data.List.ProdSigma
import ZbkcTasks.ProgRefine
import ZbkcTasks.ProgScript
import ZbkcTasks.PyProg

/-! The task `radosbenchsweep` of `tasks/radosbenchsweep.py`: a benchmark for every point of a grid, with
OSDs taken out on the way. A call of `run_radosbench` is one operation; `commands` says what it is made
of. -/

namespace ZbkcTasks.BenchSweep

open List Prog

/-! ### The configuration -/

inductive Column
  | rep
  | numOsd
  | numReplica
  | avgThroughput
  | avgLatency
  | stdevThroughput
  | stdevLatency
  deriving DecidableEq

def Column.name : Column → String
  | .rep => "rep"
  | .numOsd => "num_osd"
  | .numReplica => "num_replica"
  | .avgThroughput => "avg_throughput"
  | .avgLatency => "avg_latency"
  | .stdevThroughput => "stdev_throughput"
  | .stdevLatency => "stdev_latency"

def allColumns : List Column :=
  [.rep, .numOsd, .numReplica, .avgThroughput, .avgLatency, .stdevThroughput, .stdevLatency]

structure Config where
  clients : Option (List String) := none
  mode : Option String := none
  time : Option Int := none
  size : Option (List Int) := none
  repetitions : Option Int := none
  minNumReplicas : Option Int := none
  maxNumReplicas : Option Int := none
  minNumOsds : Option Int := none
  maxNumOsds : Option Int := none
  file : Option String := none
  columns : Option (List String) := none

/-- A name that is not known raises. -/
def columnOf (name : String) : Except PyError Column :=
  (allColumns.find? fun c => c.name = name).elim (.error (.exception ("Unknown column " ++ name))) .ok

def getCsvHeader (config : Config) : Except PyError (List Column) :=
  if config.columns.getD [] = [] then .ok allColumns else (config.columns.getD []).mapM columnOf

def header (columns : List Column) : String := ",".intercalate (columns.map Column.name)

/-- What the sweep goes through, within the bounds that the task checks. -/
structure Grid (total : Nat) where
  minNumOsds : Int
  maxNumOsds : Int
  minNumReplicas : Int
  maxNumReplicas : Int
  sizes : List Int
  repetitions : Int
  max_osds_le : maxNumOsds ≤ total
  one_le_min_osds : 1 ≤ minNumOsds
  min_osds_le : minNumOsds ≤ maxNumOsds
  one_le_min_replicas : 1 ≤ minNumReplicas
  min_replicas_le : minNumReplicas ≤ maxNumReplicas
  max_replicas_le : maxNumReplicas ≤ maxNumOsds

/-- The values that are taken from the configuration, and the checks that they have to pass. -/
def validate (config : Config) (total : Nat) : Except PyError (Grid total) :=
  if (config.clients.getD []).length ≠ 1 then .error (.exception "Only one client can be specified")
  else if config.mode.getD "write" ≠ "write" then
    .error (.exception "Only 'write' mode supported for now.")
  else if h₁ : config.maxNumOsds.getD total > total then
    .error (.exception "max_num_osds cannot be greater than total in cluster")
  else if h₂ : config.minNumOsds.getD total < 1 then
    .error (.exception "min_num_osds cannot be less than 1")
  else if h₃ : config.minNumOsds.getD total > config.maxNumOsds.getD total then
    .error (.exception "min_num_osds cannot be greater than max_num_osd")
  else if h₄ : config.minNumReplicas.getD 3 < 1 then
    .error (.exception "min_num_replicas cannot be less than 1")
  else if h₅ : config.minNumReplicas.getD 3 > config.maxNumReplicas.getD 3 then
    .error (.exception "min_num_replicas cannot be greater than max_replicas")
  else if h₆ : config.maxNumReplicas.getD 3 > config.maxNumOsds.getD total then
    .error (.exception "max_num_replicas cannot be greater than max_num_osds")
  else .ok {
    minNumOsds := config.minNumOsds.getD total
    maxNumOsds := config.maxNumOsds.getD total
    minNumReplicas := config.minNumReplicas.getD 3
    maxNumReplicas := config.maxNumReplicas.getD 3
    sizes := config.size.getD [4194304]
    repetitions := config.repetitions.getD 1
    max_osds_le := not_lt.mp h₁
    one_le_min_osds := not_lt.mp h₂
    min_osds_le := not_lt.mp h₃
    one_le_min_replicas := not_lt.mp h₄
    min_replicas_le := not_lt.mp h₅
    max_replicas_le := not_lt.mp h₆ }

/-! ### The commands -/

/-- A command, or a write to the file. -/
inductive Cmd
  | openFile (name : String)
  | write (text : String)
  | closeFile
  | setPoolProperty (pool prop : String) (val : Int)
  | reweight (osd : Int) (weight : String)
  | waitUntilHealthy
  | createPoolWithUniqueName
  | removePool (pool : String)
  | radosBench (role : String) (size : Int) (pool : String) (time : Int)

@[reducible] def Cmd.Result : Cmd → Type
  | .createPoolWithUniqueName => String
  | .radosBench _ _ _ _ => List Char
  | _ => Unit

abbrev cmdSig : Sig := ⟨Cmd, fun c => Except CommandError c.Result⟩

abbrev C := Prog cmdSig Unit PyError

def cmd (c : Cmd) : C c.Result := .op (S := cmdSig) c ofCommand

/-! ### One benchmark -/

/-- From the first occurrence to the end of its line. -/
def search (label : List Char) : List Char → Option (List Char)
  | [] => none
  | c :: text =>
      if label.isPrefixOf (c :: text) then some ((c :: text).takeWhile (· ≠ '\n')) else search label text

/-- The text without the places where `word` stands; `skip` characters of the present one are left. -/
def erase (word : List Char) : Nat → List Char → List Char
  | _, [] => []
  | skip + 1, _ :: text => erase word skip text
  | 0, c :: text =>
      if word.isPrefixOf (c :: text) then erase word (word.length - 1) text else c :: erase word 0 text

def summary (out : List Char) (label : String) : Except PyError String :=
  (search label.toList out).elim (.error (.attributeError "group")) fun line =>
    .ok (String.ofList (erase (label ++ " ").toList 0 line))

/-- The arguments of `run_radosbench`. -/
structure Call where
  numOsds : Int
  size : Int
  replica : Int
  rep : Nat
  deriving DecidableEq

/-- What the columns show of a run. -/
def allValues (call : Call) (out : List Char) : Except PyError (Column → String) := do
  let stdevThroughput ← summary out "Stddev Bandwidth:"
  let stdevLatency ← summary out "Stddev Latency:"
  let avgThroughput ← summary out "Bandwidth (MB/sec):"
  let avgLatency ← summary out "Average Latency:"
  return fun
    | .rep => toString call.rep
    | .numOsd => toString call.numOsds
    | .numReplica => toString call.replica
    | .avgThroughput => avgThroughput
    | .avgLatency => avgLatency
    | .stdevThroughput => stdevThroughput
    | .stdevLatency => stdevLatency

def benchClient (config : Config) (columns : List Column) (call : Call) (pool role : String) : C Unit := do
  pyAssert ("client.".toList.isPrefixOf role.toList) ""
  let out ← cmd (.radosBench role call.size pool (config.time.getD 120))
  let values ← orThrow (allValues call out)
  cmd (.write (",".intercalate (columns.map values) ++ "\n"))

def runRadosbench (config : Config) (columns : List Column) (call : Call) : C Unit := do
  let pool ← cmd .createPoolWithUniqueName
  cmd (.setPoolProperty pool "size" call.replica)
  cmd .waitUntilHealthy
  forEach (config.clients.getD ["client.0"]) (benchClient config columns call pool)
  cmd (.removePool pool)

/-! ### The sweep -/

inductive Op
  | command (c : Cmd)
  | runRadosbench (call : Call)

@[reducible] def Op.Ans : Op → Type
  | .command c => Except CommandError c.Result
  | .runRadosbench _ => Except PyError Unit

abbrev sig : Sig := ⟨Op, Op.Ans⟩

abbrev M := Prog sig Unit PyError

def command (c : Cmd) : M c.Result := .op (S := sig) (.command c) ofCommand

def bench (call : Call) : M Unit := .op (S := sig) (.runRadosbench call) orThrow

/-- An entry of the product of the four lists: OSDs to be out, size, replicas and repetition. -/
abbrev Entry := Nat × Int × Int × Nat

section Sweep

variable {total : Nat} (grid : Grid total)

def Grid.settings : List (Int × Int × Nat) :=
  grid.sizes ×ˢ (pyRange grid.minNumReplicas (grid.maxNumReplicas + 1) ×ˢ List.range grid.repetitions.toNat)

def Grid.product : List Entry := List.range (total + 1) ×ˢ grid.settings

def callOf (total : Nat) (e : Entry) : Call := ⟨total - e.1, e.2.1, e.2.2.1, e.2.2.2⟩

/-- The two `if`s of the loop. -/
def Grid.Wants (call : Call) : Prop :=
  (grid.minNumOsds ≤ call.numOsds ∧ call.numOsds < grid.maxNumOsds + 1) ∧ ¬ call.numOsds < call.replica

instance (call : Call) : Decidable (grid.Wants call) := inferInstanceAs (Decidable (_ ∧ _))

def takeOut (osdsOut : Nat) : M Unit := do
  command (.reweight (osdsOut - 1) "0.0")
  command .waitUntilHealthy

/-- The loop, with the number of OSDs out so far. -/
def sweep : List Entry → Nat → M Unit
  | [], _ => .ret ()
  | e :: entries, currentOsdsOut =>
      -- we're done
      if (callOf total e).numOsds = 0 then .ret ()
      else do
        onlyIf (currentOsdsOut ≠ e.1) (takeOut e.1)
        onlyIf (grid.Wants (callOf total e)) (bench (callOf total e))
        sweep entries e.1

end Sweep

def sweepAll {total : Nat} (config : Config) (grid : Grid total) : M Unit := do
  command (.openFile (config.file.getD "radosbench.csv"))
  let columns ← orThrow (getCsvHeader config)
  command (.write (header columns ++ "\n"))
  command (.setPoolProperty "data" "size" 1)
  command (.setPoolProperty "metadata" "size" 1)
  command (.setPoolProperty "rbd" "size" 1)
  sweep grid grid.product 0
  command .closeFile

def task (config : Config) (total : Nat) : M Unit := do
  let grid ← orThrow (validate config total)
  sweepAll config grid

def commands (config : Config) (columns : List Column) : (o : Op) → Prog cmdSig Unit PyError o.Ans
  | .command c => .op (S := cmdSig) c .ret
  | .runRadosbench call => settle (runRadosbench config columns call)

/-! ### The operations of a sweep -/

def fails : (o : Op) → o.Ans → Prop
  | .command _, a => ∃ e, a = .error e
  | .runRadosbench _, a => ∃ e, a = .error e

theorem scripted_command (c : Cmd) : Scripted fails (command c) [.command c] := by
  constructor
  · intro a ha
    cases a with
    | ok b => exact .ret b
    | error e => exact absurd ⟨e, rfl⟩ ha
  · rintro a ⟨e, rfl⟩
    exact ⟨_, rfl⟩

theorem scripted_bench (call : Call) : Scripted fails (bench call) [.runRadosbench call] := by
  constructor
  · intro a ha
    cases a with
    | ok b => exact .ret b
    | error e => exact absurd ⟨e, rfl⟩ ha
  · rintro a ⟨e, rfl⟩
    exact ⟨_, rfl⟩

theorem scripted_onlyIf {c : Prop} [Decidable c] {p : M Unit} {script : List Op}
    (hp : Scripted fails p script) : Scripted fails (onlyIf c p) (if c then script else []) := by
  unfold onlyIf
  split
  · exact hp
  · exact .ret ()

def takeOutScript (osdsOut : Nat) : List Op :=
  [.command (.reweight (osdsOut - 1) "0.0"), .command .waitUntilHealthy]

variable {osdsOut total : Nat} {before : List (Int × String)} {ops : List Op}

section Script

variable (grid : Grid total)

/-- What the loop does when nothing raises. -/
def script : List Entry → Nat → List Op
  | [], _ => []
  | e :: entries, currentOsdsOut =>
      if (callOf total e).numOsds = 0 then []
      else (if currentOsdsOut ≠ e.1 then takeOutScript e.1 else []) ++
        ((if grid.Wants (callOf total e) then [.runRadosbench (callOf total e)] else []) ++
          script entries e.1)

theorem scripted_sweep (entries : List Entry) (currentOsdsOut : Nat) :
    Scripted fails (sweep grid entries currentOsdsOut) (script grid entries currentOsdsOut) := by
  induction entries generalizing currentOsdsOut with
  | nil => exact .ret ()
  | cons e entries ih =>
    rw [sweep, script]
    split
    · exact .ret ()
    · have htake : Scripted fails (takeOut e.1) (takeOutScript e.1) :=
        (scripted_command _).bind fun _ => scripted_command _
      exact (scripted_onlyIf htake).bind fun _ => (scripted_onlyIf (scripted_bench _)).bind fun _ => ih _

def benches (osdsOut : Nat) (settings : List (Int × Int × Nat)) : List Op :=
  ((settings.map fun s => callOf total (osdsOut, s)).filter (grid.Wants ·)).map .runRadosbench

/-- All that is done with so many OSDs out. -/
def stage (osdsOut : Nat) : List Op :=
  (if osdsOut = 0 then [] else takeOutScript osdsOut) ++ benches grid osdsOut grid.settings

variable {grid}

theorem benches_cons (osdsOut : Nat) (s : Int × Int × Nat) (settings : List (Int × Int × Nat)) :
    benches grid osdsOut (s :: settings) =
      (if grid.Wants (callOf total (osdsOut, s)) then [.runRadosbench (callOf total (osdsOut, s))]
        else []) ++ benches grid osdsOut settings := by
  rw [benches, map_cons, filter_cons]
  simp only [decide_eq_true_eq]
  split
  · rfl
  · rfl

theorem script_same (hlt : osdsOut < total) (settings : List (Int × Int × Nat)) (rest : List Entry) :
    script grid (settings.map (Prod.mk osdsOut) ++ rest) osdsOut =
      benches grid osdsOut settings ++ script grid rest osdsOut := by
  induction settings with
  | nil => rfl
  | cons s settings ih =>
    have hin : (callOf total (osdsOut, s)).numOsds ≠ 0 := by
      simp only [callOf]
      omega
    rw [map_cons, cons_append, script, if_neg hin, if_neg (by simp), nil_append, ih,
      benches_cons, append_assoc]

theorem script_next {currentOsdsOut : Nat} (hlt : osdsOut < total) (hne : currentOsdsOut ≠ osdsOut)
    {settings : List (Int × Int × Nat)} (hsettings : settings ≠ []) (rest : List Entry) :
    script grid (settings.map (Prod.mk osdsOut) ++ rest) currentOsdsOut =
      takeOutScript osdsOut ++ (benches grid osdsOut settings ++ script grid rest osdsOut) := by
  cases settings with
  | nil => exact absurd rfl hsettings
  | cons s settings =>
    have hin : (callOf total (osdsOut, s)).numOsds ≠ 0 := by
      simp only [callOf]
      omega
    rw [map_cons, cons_append, script, if_neg hin, if_pos hne, script_same hlt, benches_cons,
      append_assoc]

theorem script_stages (hsettings : grid.settings ≠ []) (first n : Nat) (hle : first + 1 + n ≤ total)
    (rest : List Entry) : script grid (List.range' (first + 1) n ×ˢ grid.settings ++ rest) first =
      (List.range' (first + 1) n).flatMap (stage grid) ++ script grid rest (first + n) := by
  induction n generalizing first with
  | zero => rfl
  | succ n ih =>
    have hlt : first + 1 < total := by omega
    have hne : first ≠ first + 1 := by omega
    have hlast : first + 1 + n = first + (n + 1) := by omega
    rw [range'_succ, product_cons, append_assoc, script_next hlt hne hsettings,
      ih (first + 1) (by omega), flatMap_cons, stage, if_neg (Nat.succ_ne_zero first), hlast]
    simp only [append_assoc]

theorem total_pos (grid : Grid total) : 0 < total := by
  have h1 := grid.max_osds_le
  have h2 := grid.min_osds_le
  have h3 := grid.one_le_min_osds
  omega

theorem script_total (settings : List (Int × Int × Nat)) (currentOsdsOut : Nat) :
    script grid (settings.map (Prod.mk total)) currentOsdsOut = [] := by
  cases settings with
  | nil => rfl
  | cons s settings => rw [map_cons, script, if_pos (by simp [callOf])]

/-- **The sweep goes through its stages** until no OSD is left. -/
theorem script_product (hsettings : grid.settings ≠ []) :
    script grid grid.product 0 = (List.range total).flatMap (stage grid) := by
  obtain ⟨n, hn⟩ := Nat.exists_eq_add_of_lt (total_pos grid)
  have hall : List.range (total + 1) = 0 :: (List.range' 1 n ++ [total]) := by
    rw [range_eq_range', range'_succ, hn, Nat.zero_add, Nat.zero_add, range'_concat]
    simp [Nat.add_comm]
  have hmost : List.range total = 0 :: List.range' 1 n := by
    rw [range_eq_range', hn, Nat.zero_add, range'_succ]
  have hlast : (List.range' 1 n ++ [total]) ×ˢ grid.settings =
      List.range' 1 n ×ˢ grid.settings ++ grid.settings.map (Prod.mk total) := by
    simp [SProd.sprod, List.product]
  have hstages := script_stages hsettings 0 n (by omega) (grid.settings.map (Prod.mk total))
  rw [Grid.product, hall, product_cons, script_same (total_pos grid), hlast]
  simp only [Nat.zero_add] at hstages
  rw [hstages, script_total, append_nil, hmost, flatMap_cons, stage, if_pos rfl, nil_append]

end Script

/-! ### What was run, and with which OSDs -/

def Op.call? : Op → Option Call
  | .command _ => none
  | .runRadosbench call => some call

def Op.reweight? : Op → Option (Int × String)
  | .command (.reweight osd weight) => some (osd, weight)
  | _ => none

/-- The benchmarks among the operations. -/
def calls (ops : List Op) : List Call := ops.filterMap Op.call?

/-- The OSDs reweighted, in order. -/
def reweighted (ops : List Op) : List (Int × String) := ops.filterMap Op.reweight?

def outBelow (n : Nat) : List (Int × String) := (List.range n).map fun i : Nat => ((i : Int), "0.0")

/-- Before a benchmark, the OSDs out are those that its number of OSDs leaves out; `before` were out at the
start. -/
def Timed (total : Nat) (before : List (Int × String)) (ops : List Op) : Prop :=
  ∀ done call rest, ops = done ++ .runRadosbench call :: rest →
    before ++ reweighted done = outBelow ((total : Int) - call.numOsds).toNat

theorem reweighted_append (ops ops' : List Op) :
    reweighted (ops ++ ops') = reweighted ops ++ reweighted ops' :=
  filterMap_append

theorem calls_append (ops ops' : List Op) : calls (ops ++ ops') = calls ops ++ calls ops' :=
  filterMap_append

theorem outBelow_succ (n : Nat) : outBelow (n + 1) = outBelow n ++ [((n : Int), "0.0")] := by
  rw [outBelow, range_succ, map_append, outBelow]
  rfl

theorem Timed.append {ops' : List Op} (h : Timed total before ops)
    (h' : Timed total (before ++ reweighted ops) ops') : Timed total before (ops ++ ops') := by
  intro done call rest heq
  rcases append_eq_append_iff.mp heq with ⟨mid, hdone, hrest⟩ | ⟨mid, hdone, hrest⟩
  · rw [hdone, reweighted_append, ← append_assoc]
    exact h' mid call rest hrest
  · cases mid with
    | nil =>
      rw [append_nil] at hdone
      rw [← hdone]
      simpa [reweighted] using h' [] call rest hrest.symm
    | cons o mid =>
      rw [cons_append, List.cons.injEq] at hrest
      exact h done call mid (by rw [hdone, ← hrest.1])

theorem timed_of_calls_nil (h : calls ops = []) : Timed total before ops := by
  intro done call rest heq
  rw [heq, calls_append] at h
  simp [calls, Op.call?] at h

theorem Timed.of_prefix {ops' : List Op} (h : Timed total before ops') (hpre : ops <+: ops') :
    Timed total before ops := by
  obtain ⟨more, rfl⟩ := hpre
  intro done call rest heq
  exact h done call (rest ++ more) (by rw [heq, append_assoc, cons_append])

section Stages

variable {grid : Grid total}

theorem calls_takeOutScript (osdsOut : Nat) : calls (takeOutScript osdsOut) = [] := rfl

theorem reweighted_takeOutScript (osdsOut : Nat) :
    reweighted (takeOutScript (osdsOut + 1)) = [((osdsOut : Int), "0.0")] := by
  simp [reweighted, takeOutScript, Op.reweight?]

theorem calls_benches (osdsOut : Nat) (settings : List (Int × Int × Nat)) :
    calls (benches grid osdsOut settings) =
      (settings.map fun s => callOf total (osdsOut, s)).filter (grid.Wants ·) := by
  rw [calls, benches, filterMap_map]
  exact filterMap_some

theorem reweighted_benches (osdsOut : Nat) (settings : List (Int × Int × Nat)) :
    reweighted (benches grid osdsOut settings) = [] := by
  rw [reweighted, benches, filterMap_map]
  exact filterMap_none _

theorem timed_benches (settings : List (Int × Int × Nat)) :
    Timed total (outBelow osdsOut) (benches grid osdsOut settings) := by
  intro done call rest heq
  have hnone : reweighted done = [] := by
    have hall : reweighted (benches grid osdsOut settings) = [] := reweighted_benches osdsOut settings
    rw [heq, reweighted_append, append_eq_nil_iff] at hall
    exact hall.1
  have hmem : call ∈ calls (benches grid osdsOut settings) := by
    rw [heq, calls_append]
    simp [calls, Op.call?]
  rw [calls_benches] at hmem
  obtain ⟨s, -, rfl⟩ := mem_map.mp (mem_filter.mp hmem).1
  have hout : ((total : Int) - (callOf total (osdsOut, s)).numOsds).toNat = osdsOut := by
    simp only [callOf]
    omega
  rw [hnone, append_nil, hout]

theorem timed_stage (osdsOut : Nat) : Timed total (outBelow (osdsOut - 1)) (stage grid osdsOut) := by
  cases osdsOut with
  | zero => exact timed_benches grid.settings
  | succ osdsOut =>
    rw [stage, if_neg (Nat.succ_ne_zero osdsOut)]
    apply Timed.append (timed_of_calls_nil (calls_takeOutScript _))
    rw [reweighted_takeOutScript, Nat.add_sub_cancel, ← outBelow_succ]
    exact timed_benches grid.settings

theorem reweighted_stage (osdsOut : Nat) :
    outBelow (osdsOut - 1) ++ reweighted (stage grid osdsOut) = outBelow osdsOut := by
  rw [stage, reweighted_append, reweighted_benches, append_nil]
  cases osdsOut with
  | zero => rfl
  | succ osdsOut =>
    rw [if_neg (Nat.succ_ne_zero osdsOut), reweighted_takeOutScript, Nat.add_sub_cancel, ← outBelow_succ]

theorem timed_stages (n : Nat) : Timed total [] ((List.range n).flatMap (stage grid)) ∧
      reweighted ((List.range n).flatMap (stage grid)) = outBelow (n - 1) := by
  induction n with
  | zero => exact ⟨timed_of_calls_nil rfl, rfl⟩
  | succ n ih =>
    rw [range_succ, flatMap_append, flatMap_singleton]
    constructor
    · apply ih.1.append
      rw [nil_append, ih.2]
      exact timed_stage n
    · rw [reweighted_append, ih.2, reweighted_stage, Nat.add_sub_cancel]

end Stages

/-! ### The grid -/

section Grid

variable (grid : Grid total)

/-- A point of the grid, by its place in the list of sizes. -/
abbrev Combination := Int × Fin grid.sizes.length × Int × Nat

def Grid.Requested (c : Combination grid) : Prop :=
  (grid.minNumOsds ≤ c.1 ∧ c.1 ≤ grid.maxNumOsds) ∧
    (grid.minNumReplicas ≤ c.2.2.1 ∧ c.2.2.1 ≤ grid.maxNumReplicas) ∧ c.2.2.1 ≤ c.1 ∧
    (c.2.2.2 : Int) < grid.repetitions

def Grid.callAt (c : Combination grid) : Call := ⟨c.1, grid.sizes.get c.2.1, c.2.2.1, c.2.2.2⟩

def Grid.places : List (Fin grid.sizes.length × Int × Nat) :=
  List.finRange grid.sizes.length ×ˢ
    (pyRange grid.minNumReplicas (grid.maxNumReplicas + 1) ×ˢ List.range grid.repetitions.toNat)

/-- The requested points as the loop meets them. -/
def Grid.order : List (Combination grid) :=
  ((List.range total ×ˢ grid.places).map fun c => ((total : Int) - c.1, c.2)).filter
    fun c => grid.Wants (grid.callAt c)

variable {grid}

theorem mem_order {c : Combination grid} : c ∈ grid.order ↔ grid.Requested c := by
  obtain ⟨n, i, replica, rep⟩ := c
  have hmax := grid.max_osds_le
  have hmin := grid.one_le_min_osds
  simp only [Grid.order, mem_filter, decide_eq_true_eq, mem_map, Prod.exists, Prod.mk.injEq]
  simp only [Grid.places, Grid.Requested, Grid.Wants, Grid.callAt, mem_product, mem_range,
    mem_finRange, mem_pyRange, true_and]
  constructor
  · rintro ⟨⟨osdsOut, i', replica', rep', ⟨_, _, _⟩, _, rfl, rfl, rfl⟩, _, _⟩
    omega
  · rintro ⟨⟨_, _⟩, ⟨_, _⟩, _, _⟩
    refine ⟨⟨(total - n).toNat, i, replica, rep, ⟨?_, ⟨?_, ?_⟩, ?_⟩, ?_, rfl, rfl, rfl⟩, ⟨?_, ?_⟩, ?_⟩
    all_goals omega

theorem nodup_order : grid.order.Nodup := by
  have hplaces : grid.places.Nodup :=
    (nodup_finRange _).product ((nodup_pyRange _ _).product nodup_range)
  refine ((nodup_range.product hplaces).map ?_).filter _
  rintro ⟨a, c⟩ ⟨a', c'⟩ heq
  simp only [Prod.mk.injEq] at heq ⊢
  exact ⟨by omega, heq.2⟩

theorem settings_eq : grid.settings = grid.places.map fun p => (grid.sizes.get p.1, p.2) := by
  have hsizes : grid.sizes = (List.finRange grid.sizes.length).map grid.sizes.get :=
    (map_get_finRange _).symm
  rw [Grid.settings, Grid.places]
  conv_lhs => rw [hsizes]
  simp only [SProd.sprod, List.product, flatMap_map, map_flatMap, map_map, Function.comp_def]

theorem calls_stages : calls ((List.range total).flatMap (stage grid)) = grid.order.map grid.callAt := by
  have hstage : ∀ osdsOut, calls (stage grid osdsOut) =
      (grid.places.map fun p => grid.callAt ((total : Int) - osdsOut, p)).filter (grid.Wants ·) := by
    intro osdsOut
    have hout : calls (if osdsOut = 0 then [] else takeOutScript osdsOut) = [] := by
      split
      · rfl
      · exact calls_takeOutScript osdsOut
    rw [stage, calls_append, hout, nil_append, calls_benches, settings_eq, map_map]
    rfl
  have hflat : calls ((List.range total).flatMap (stage grid)) =
      (List.range total).flatMap fun osdsOut => calls (stage grid osdsOut) := filterMap_flatMap
  have horder : grid.order.map grid.callAt = (((List.range total ×ˢ grid.places).map
      fun c => ((total : Int) - c.1, c.2)).map grid.callAt).filter (grid.Wants ·) := by
    rw [filter_map, Grid.order]
    rfl
  rw [hflat, horder]
  simp only [hstage, SProd.sprod, List.product, map_flatMap, filter_flatMap, map_map,
    Function.comp_def]

end Grid

/-! ### Every run of the task -/

section Runs

variable {grid : Grid total} {config : Config} {columns : List Column} {η : Type}

def opening (config : Config) (columns : List Column) : List Op :=
  [.command (.openFile (config.file.getD "radosbench.csv")), .command (.write (header columns ++ "\n")),
    .command (.setPoolProperty "data" "size" 1), .command (.setPoolProperty "metadata" "size" 1),
    .command (.setPoolProperty "rbd" "size" 1)]

def taskScript (config : Config) (columns : List Column) (grid : Grid total) : List Op :=
  opening config columns ++ (script grid grid.product 0 ++ [.command .closeFile])

theorem scripted_task (hgrid : validate config total = .ok grid)
    (hcolumns : getCsvHeader config = .ok columns) :
    Scripted fails (task config total) (taskScript config columns grid) := by
  have hcommand := scripted_command
  rw [task, hgrid, orThrow, ret_bind, sweepAll]
  refine (hcommand _).bind fun _ => ?_
  rw [hcolumns, orThrow, ret_bind]
  refine (hcommand _).bind fun _ => (hcommand _).bind fun _ => (hcommand _).bind fun _ =>
    (hcommand _).bind fun _ => ?_
  exact (scripted_sweep grid grid.product 0).bind fun _ => hcommand _

theorem order_eq_nil (h : grid.settings = []) : grid.order = [] := by
  have hplaces : grid.places = [] := by
    rw [settings_eq] at h
    exact map_eq_nil_iff.mp h
  rw [Grid.order, hplaces, product_nil]
  rfl

theorem script_calls : calls (script grid grid.product 0) = grid.order.map grid.callAt := by
  by_cases hsettings : grid.settings = []
  · rw [order_eq_nil hsettings, Grid.product, hsettings, product_nil]
    rfl
  · rw [script_product hsettings, calls_stages]

theorem script_timed : Timed total [] (script grid grid.product 0) := by
  by_cases hsettings : grid.settings = []
  · rw [Grid.product, hsettings, product_nil]
    exact timed_of_calls_nil rfl
  · rw [script_product hsettings]
    exact (timed_stages total).1

theorem taskScript_calls : calls (taskScript config columns grid) = grid.order.map grid.callAt := by
  rw [taskScript, calls_append, calls_append, script_calls]
  exact append_nil _

theorem taskScript_timed : Timed total [] (taskScript config columns grid) :=
  (timed_of_calls_nil rfl).append (script_timed.append (timed_of_calls_nil rfl))

def Cmd.done : (c : Cmd) → c.Result
  | .createPoolWithUniqueName => "unique_pool_0"
  | .radosBench _ _ _ _ => []
  | .openFile _ | .write _ | .closeFile | .setPoolProperty _ _ _ | .reweight _ _ | .waitUntilHealthy
  | .removePool _ => ()

def allWell : (o : Op) → o.Ans
  | .command c => .ok c.done
  | .runRadosbench _ => .ok ()

def Smooth : Env sig Unit Unit := fun o _ _ a _ _ => a = allWell o

def threeOsds : Config :=
  { clients := some ["client.0"], minNumOsds := some 2, minNumReplicas := some 1, maxNumReplicas := some 3 }

end Runs

/-! ### The commands of a benchmark -/

section Commands

variable {config : Config} {columns : List Column} {η : Type}

def KeepsWeights (c : Cmd) : Prop := (Op.command c).reweight? = none

theorem within_cmd (c : Cmd) (hc : KeepsWeights c := by rfl) : Within KeepsWeights (cmd c) := by
  apply Within.op hc
  intro a
  cases a with
  | ok b => exact .ret b
  | error e => exact .throw _

theorem within_benchClient (call : Call) (pool role : String) :
    Within KeepsWeights (benchClient config columns call pool role) := by
  unfold benchClient pyAssert
  split
  · refine (within_cmd _).bind fun out => ?_
    cases allValues call out with
    | ok values => exact within_cmd _
    | error e => exact .throw e
  · exact .throw _

theorem within_runRadosbench (call : Call) : Within KeepsWeights (runRadosbench config columns call) :=
  (within_cmd _).bind fun pool => (within_cmd _).bind fun _ => (within_cmd _).bind fun _ =>
    (Within.forEach (within_benchClient call pool) _).bind fun _ => within_cmd _

theorem exec_task {E : Env cmdSig Unit η} {x : η} {r : Outcome PyError Unit} {w : World cmdSig Unit η}
    (hrun : Exec E (interp (commands config columns) (task config total)) ⟨(), x, []⟩ r w) :
    ∃ log, Exec (above E (commands config columns)) (task config total) ⟨(), (x, []), []⟩ r
      ⟨(), (w.ext, w.log), log⟩ := by
  apply exec_above ?_ hrun []
  intro o w r w' h
  cases o with
  | command c =>
    cases h with
    | op _ h =>
      cases h
      exact ⟨_, rfl⟩
  | runRadosbench call => exact (within_runRadosbench call).settle_returns h

end Commands

end ZbkcTasks.BenchSweep
