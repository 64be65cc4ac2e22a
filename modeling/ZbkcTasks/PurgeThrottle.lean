import ZbkcTasks.PyProg
import ZbkcTasks.PyText

/-! The test of the purge throttles polls the statistics of a metadata server against the limit that is
tested. Both branches of the check compare the number of files. -/

namespace ZbkcTasks.PurgeThrottle

open List Prog

inductive ThrottleType
  | ops
  | files
  deriving DecidableEq

structure MdcStats where
  numStrays : Nat
  numStraysPurging : Nat
  numStraysDelayed : Nat
  numPurgeOps : Nat
  straysCreated : Nat
  straysPurged : Nat
  deriving DecidableEq

inductive Op
  | setConf (option : String) (value : PyNum)
  | getPgNum
  | mdsFailRestart
  | waitForDaemons
  | runPython (sizeUnit fileMultiplier sizeRange : Nat)
  | spawn
  | getConfig (option : String)
  | perfDump
  | sleep (seconds : Nat)
  | join

@[reducible] def Op.Ans : Op → Type
  | .setConf _ _ => Except CommandError Unit
  | .getPgNum => Except CommandError Int
  | .mdsFailRestart => Except CommandError Unit
  | .waitForDaemons => Except CommandError Unit
  | .runPython _ _ _ => Except CommandError Unit
  | .spawn => Unit
  | .getConfig _ => Except CommandError (List Char)
  | .perfDump => Except CommandError MdcStats
  | .sleep _ => Unit
  | .join => Unit

@[reducible] def sig : Sig where
  Op := Op
  Ans := Op.Ans

abbrev M := Prog sig Unit PyError

def setConf (option : String) (value : PyNum) : M Unit := .op (.setConf option value) ofCommand

def setThrottles (files ops : Int) : M Unit := do
  setConf "mds_max_purge_files" (.int files)
  setConf "mds_max_purge_ops" (.int ops)
  let pgs ← .op .getPgNum ofCommand
  if pgs = 0 then .throw .zeroDivisionError
  else setConf "mds_max_purge_ops_per_pg" (.float (ops / pgs))

def exercise : ThrottleType → M (Nat × Nat)
  | .ops => setThrottles 100000000 16 >>= fun _ => .ret (1024 * 1024, 100)
  | .files => setThrottles 6 100000000 >>= fun _ => .ret (1024, 200)

def throttleWorkloadSizeRange : Nat := 16

def getLimit (option : String) : M Int :=
  .op (.getConfig option) fun r => ofCommand r >>= fun text => orThrow (pyInt text)

def perfDump : M MdcStats := .op .perfDump ofCommand

/-- The limits, as far as a poll looks at them. The number of files is compared for either type. -/
def checkLimit (throttleType : ThrottleType) (maxPurgeOps maxPurgeFiles : Int) (stats : MdcStats) :
    M Unit :=
  match throttleType with
  | .ops =>
      onlyIf (maxPurgeFiles < stats.numStraysPurging) (.throw (.runtimeError
        ("num_purge_ops violates threshold " ++ toString stats.numPurgeOps ++ "/" ++ toString maxPurgeOps)))
  | .files =>
      onlyIf (maxPurgeFiles < stats.numStraysPurging) (.throw (.runtimeError
        ("num_strays_purging violates threshold " ++ toString stats.numStraysPurging ++ "/" ++
          toString maxPurgeFiles)))

def purgeTimeout : Nat := 600

/-- The loop of the polls, with `purge_timeout - elapsed` and the two high water marks. -/
def pollLoop (throttleType : ThrottleType) (totalInodes : Nat) (maxPurgeOps maxPurgeFiles : Int) :
    Nat → Nat → Nat → M (Nat × Nat)
  | 0, _, _ => perfDump >>= fun _ => .throw (.runtimeError
      ("Timeout waiting for " ++ toString totalInodes ++ " inodes to purge"))
  | left + 1, filesHighWater, opsHighWater => do
      let stats ← perfDump
      let filesHighWater := max filesHighWater stats.numStraysPurging
      let opsHighWater := max opsHighWater stats.numPurgeOps
      if stats.straysPurged = totalInodes then .ret (filesHighWater, opsHighWater)
      else if totalInodes < stats.straysPurged then
        .throw (.runtimeError "Saw more strays than expected")
      else do
        checkLimit throttleType maxPurgeOps maxPurgeFiles stats
        .op (.sleep 1) .ret
        pollLoop throttleType totalInodes maxPurgeOps maxPurgeFiles left filesHighWater opsHighWater

def checkHighWater (throttleType : ThrottleType) (maxPurgeOps maxPurgeFiles : Int)
    (filesHighWater opsHighWater : Nat) : M Unit :=
  match throttleType with
  | .ops =>
      onlyIf ((opsHighWater : Int) < maxPurgeOps / 2) (.throw (.runtimeError
        ("Ops in flight high water is unexpectedly low (" ++ toString opsHighWater ++ " / " ++
          toString maxPurgeOps ++ ")")))
  | .files =>
      onlyIf ((filesHighWater : Int) < maxPurgeFiles / 2) (.throw (.runtimeError
        ("Files in flight high water is unexpectedly low (" ++ toString opsHighWater ++ " / " ++
          toString maxPurgeFiles ++ ")")))

def assertEqual (a b : Nat) : M Unit :=
  if a = b then .ret () else .throw (.assertionError (toString a ++ " != " ++ toString b))

def sanityCheck (totalInodes : Nat) : M Unit := do
  let stats ← perfDump
  assertEqual stats.numStrays 0
  assertEqual stats.numStraysPurging 0
  assertEqual stats.numStraysDelayed 0
  assertEqual stats.numPurgeOps 0
  assertEqual stats.straysCreated totalInodes
  assertEqual stats.straysPurged totalInodes

def testThrottling (throttleType : ThrottleType) : M Unit := do
  let (sizeUnit, fileMultiplier) ← exercise throttleType
  .op .mdsFailRestart ofCommand
  .op .waitForDaemons ofCommand
  .op (.runPython sizeUnit fileMultiplier throttleWorkloadSizeRange) ofCommand
  .op .spawn .ret
  let totalInodes := fileMultiplier * throttleWorkloadSizeRange + 1
  let maxPurgeOps ← getLimit "mds_max_purge_ops"
  let maxPurgeFiles ← getLimit "mds_max_purge_files"
  let (filesHighWater, opsHighWater) ←
    pollLoop throttleType totalInodes maxPurgeOps maxPurgeFiles purgeTimeout 0 0
  .op .join .ret
  checkHighWater throttleType maxPurgeOps maxPurgeFiles filesHighWater opsHighWater
  sanityCheck totalInodes

/-! ### Runs -/

def dumped : (o : Op) → o.Ans → List MdcStats
  | .perfDump, .ok stats => [stats]
  | _, _ => []

def Reads (maxOps maxFiles : Int) : (o : Op) → o.Ans → Prop
  | .getConfig option, .ok text => (option = "mds_max_purge_ops" → pyInt text = .ok maxOps) ∧
      (option = "mds_max_purge_files" → pyInt text = .ok maxFiles)
  | _, _ => True

/-- Anything may happen, but the limits are these. The statistics are kept, the newest last. -/
def mdsEnv (maxOps maxFiles : Int) : Env sig Unit (List MdcStats) := fun o _ x a _ x' =>
  x' = x ++ dumped o a ∧ Reads maxOps maxFiles o a

variable {o : Op} {polls : List MdcStats} {option : String}

section Polls

variable {maxOps maxFiles : Int} {α β : Type} {w : World sig Unit (List MdcStats)}

abbrev does (maxOps maxFiles : Int) (p : M α) (P : α → World sig Unit (List MdcStats) → Prop)
    (w : World sig Unit (List MdcStats)) : Prop :=
  wp (mdsEnv maxOps maxFiles) (fun _ _ _ => True) p (gives P fun _ => True) w

theorem does_ofCommand {P : β → World sig Unit (List MdcStats) → Prop} {r : Except CommandError β}
    (h : ∀ b, r = .ok b → P b w) : does maxOps maxFiles (ofCommand r) P w := by
  cases r with
  | ok b => exact h b rfl
  | error e => exact trivial

theorem does_op {k : o.Ans → M α} {P : α → World sig Unit (List MdcStats) → Prop}
    (ho : ∀ a, dumped o a = [])
    (hk : ∀ a w', w'.ext = w.ext → Reads maxOps maxFiles o a → does maxOps maxFiles (k a) P w') :
    does maxOps maxFiles (.op o k) P w := by
  refine ⟨trivial, fun a s x hstep => hk a _ ?_ hstep.2⟩
  show x = w.ext
  rw [hstep.1, ho a, append_nil]

theorem does_command {k : o.Ans → M β} (ho : ∀ a, dumped o a = [])
    (hk : ∀ a w', does maxOps maxFiles (k a) (fun _ w'' => w''.ext = w'.ext) w') :
    does maxOps maxFiles (.op o k) (fun _ w' => w'.ext = w.ext) w := by
  apply does_op ho
  intro a w' hext _
  rw [← hext]
  exact hk a w'

theorem does_step (ho : ∀ a, dumped o a = []) :
    does maxOps maxFiles (.op o .ret) (fun _ w' => w'.ext = w.ext) w :=
  does_op ho fun _ _ hext _ => hext

theorem does_setConf (option : String) (value : PyNum) :
    does maxOps maxFiles (setConf option value) (fun _ w' => w'.ext = w.ext) w :=
  does_command (fun _ => rfl) fun _ _ => does_ofCommand fun _ _ => rfl

theorem does_setThrottles (files ops : Int) :
    does maxOps maxFiles (setThrottles files ops) (fun _ w' => w'.ext = w.ext) w := by
  apply wp_seq (does_setConf _ _)
  intro _ w1 hext1
  apply wp_seq (does_setConf _ _)
  intro _ w2 hext2
  apply wp_seq (does_command (fun _ => rfl) fun _ _ => does_ofCommand fun _ _ => rfl)
  intro pgs w3 hext3
  split
  · exact trivial
  · apply wp_result _ (does_setConf _ _)
    intro _ w4 hext4
    rw [hext4, hext3, hext2, hext1]

def fileMultiplier : ThrottleType → Nat
  | .ops => 100
  | .files => 200

def totalInodes (throttleType : ThrottleType) : Nat :=
  fileMultiplier throttleType * throttleWorkloadSizeRange + 1

theorem does_exercise (throttleType : ThrottleType) : does maxOps maxFiles (exercise throttleType)
      (fun r w' => w'.ext = w.ext ∧ r.2 = fileMultiplier throttleType) w := by
  cases throttleType with
  | ops | files => exact wp_seq (does_setThrottles _ _) fun _ _ hext => ⟨hext, rfl⟩

theorem does_getLimit (limit : Int)
    (hlimit : ∀ text, Reads maxOps maxFiles (.getConfig option) (.ok text) → pyInt text = .ok limit) :
    does maxOps maxFiles (getLimit option) (fun n w' => w'.ext = w.ext ∧ n = limit) w := by
  apply does_op
  · intro a
    rfl
  · intro a w' hext hreads
    cases a with
    | error e => exact trivial
    | ok text =>
      show does maxOps maxFiles (orThrow (pyInt text)) _ w'
      rw [hlimit text hreads]
      exact ⟨hext, rfl⟩

theorem does_perfDump :
    does maxOps maxFiles perfDump (fun stats w' => w'.ext = w.ext ++ [stats]) w := by
  refine ⟨trivial, fun a s x hstep => ?_⟩
  cases a with
  | error e => exact trivial
  | ok stats => exact hstep.1

def highWater (f : MdcStats → Nat) (h : Nat) (polls : List MdcStats) : Nat :=
  polls.foldl (fun h stats => max h (f stats)) h

theorem le_highWater {f : MdcStats → Nat} {h : Nat} {n : Int} (hn : n ≤ highWater f h polls) :
    n ≤ h ∨ ∃ stats ∈ polls, n ≤ f stats := by
  induction polls generalizing h with
  | nil => exact .inl hn
  | cons stats polls ih =>
    rcases ih hn with hmax | ⟨stats', hmem, hn⟩
    · have hmax : n ≤ (max h (f stats) : Nat) := hmax
      by_cases hstats : n ≤ f stats
      · exact .inr ⟨stats, .head _, hstats⟩
      · exact .inl (by omega)
    · exact .inr ⟨stats', .tail _ hmem, hn⟩

/-- Polls that saw too few inodes purged, and not too many files, and then one that saw all. -/
structure Watched (throttleType : ThrottleType) (maxFiles : Int) (x x' before : List MdcStats)
    (last : MdcStats) : Prop where
  ext : x' = x ++ (before ++ [last])
  complete : last.straysPurged = totalInodes throttleType
  incomplete : ∀ stats ∈ before, stats.straysPurged < totalInodes throttleType
  files : ∀ stats ∈ before, (stats.numStraysPurging : Int) ≤ maxFiles

theorem does_checkLimit (throttleType : ThrottleType) (stats : MdcStats) :
    does maxOps maxFiles (checkLimit throttleType maxOps maxFiles stats)
      (fun _ w' => w'.ext = w.ext ∧ (stats.numStraysPurging : Int) ≤ maxFiles) w := by
  cases throttleType with
  | ops | files =>
    rw [checkLimit, onlyIf]
    split
    next => exact trivial
    next h => exact ⟨rfl, not_lt.mp h⟩

/-- **Polls.** What the loop has seen when it ends, and the high water marks. -/
theorem does_pollLoop (throttleType : ThrottleType) (left filesHigh opsHigh : Nat) :
    does maxOps maxFiles
      (pollLoop throttleType (totalInodes throttleType) maxOps maxFiles left filesHigh opsHigh)
      (fun r w' => ∃ before last, Watched throttleType maxFiles w.ext w'.ext before last ∧
        r.1 = highWater MdcStats.numStraysPurging filesHigh (before ++ [last]) ∧
        r.2 = highWater MdcStats.numPurgeOps opsHigh (before ++ [last])) w := by
  induction left generalizing filesHigh opsHigh w with
  | zero => exact wp_seq does_perfDump fun _ _ _ => trivial
  | succ left ih =>
    apply wp_seq does_perfDump
    intro stats w1 hext1
    split
    next hdone =>
      refine ⟨[], stats, ⟨hext1, hdone, by simp, by simp⟩, rfl, rfl⟩
    next hundone =>
      split
      next => exact trivial
      next hnot =>
        apply wp_seq (does_checkLimit throttleType stats)
        rintro _ w2 ⟨hext2, hfiles⟩
        apply does_op (fun _ => rfl)
        intro _ w3 hext3 _
        apply wp_result _ (ih _ _)
        rintro r w4 ⟨before, last, hwatched, hr⟩
        have hlt : stats.straysPurged < totalInodes throttleType :=
          lt_of_le_of_ne (not_lt.mp hnot) hundone
        refine ⟨stats :: before, last, ⟨?_, hwatched.complete, ?_, ?_⟩, hr⟩
        · rw [hwatched.ext, hext3, hext2, hext1, append_assoc]
          rfl
        · exact forall_mem_cons.mpr ⟨hlt, hwatched.incomplete⟩
        · exact forall_mem_cons.mpr ⟨hfiles, hwatched.files⟩

theorem always_assertEqual {I : World sig Unit (List MdcStats) → Prop} (a b : Nat) :
    Always (mdsEnv maxOps maxFiles) (fun _ _ _ => True) I (assertEqual a b) :=
  .ite (.ret ()) (.throw _)

theorem does_sanityCheck (total : Nat) :
    does maxOps maxFiles (sanityCheck total) (fun _ w' => ∃ stats, w'.ext = w.ext ++ [stats]) w := by
  apply wp_seq does_perfDump
  intro stats w1 hext1
  have hchecks : Always (mdsEnv maxOps maxFiles) (fun _ _ _ => True)
      (fun w' => ∃ stats, w'.ext = w.ext ++ [stats]) (do
        assertEqual stats.numStrays 0
        assertEqual stats.numStraysPurging 0
        assertEqual stats.numStraysDelayed 0
        assertEqual stats.numPurgeOps 0
        assertEqual stats.straysCreated total
        assertEqual stats.straysPurged total) :=
    (always_assertEqual _ _).bind fun _ => (always_assertEqual _ _).bind fun _ =>
      (always_assertEqual _ _).bind fun _ => (always_assertEqual _ _).bind fun _ =>
      (always_assertEqual _ _).bind fun _ => always_assertEqual _ _
  exact hchecks.gives ⟨stats, hext1⟩

def inFlight : ThrottleType → MdcStats → Nat
  | .ops => MdcStats.numPurgeOps
  | .files => MdcStats.numStraysPurging

def limit (throttleType : ThrottleType) (maxOps maxFiles : Int) : Int :=
  match throttleType with
  | .ops => maxOps
  | .files => maxFiles

theorem does_checkHighWater (throttleType : ThrottleType) (hne : polls ≠ []) :
    does maxOps maxFiles (checkHighWater throttleType maxOps maxFiles
        (highWater MdcStats.numStraysPurging 0 polls) (highWater MdcStats.numPurgeOps 0 polls))
      (fun _ w' => w'.ext = w.ext ∧
        ∃ stats ∈ polls, limit throttleType maxOps maxFiles / 2 ≤ inFlight throttleType stats) w := by
  have hreached : ∀ (f : MdcStats → Nat) (n : Int), ¬ (highWater f 0 polls : Int) < n →
      ∃ stats ∈ polls, n ≤ f stats := by
    intro f n hn
    rcases le_highWater (not_lt.mp hn) with hzero | hpoll
    · obtain ⟨stats, hstats⟩ := exists_mem_of_ne_nil polls hne
      exact ⟨stats, hstats, hzero.trans (Int.natCast_nonneg (f stats))⟩
    · exact hpoll
  cases throttleType with
  | ops | files =>
    rw [checkHighWater, onlyIf]
    split
    next => exact trivial
    next h => exact ⟨rfl, hreached _ _ h⟩

/-- Before the last poll the number in flight was within the limit, and once at least half of it. -/
structure Enforced (throttleType : ThrottleType) (maxOps maxFiles : Int) (before : List MdcStats)
    (last : MdcStats) : Prop where
  within : ∀ stats ∈ before, (inFlight throttleType stats : Int) ≤ limit throttleType maxOps maxFiles
  reached : ∃ stats ∈ before ++ [last],
    limit throttleType maxOps maxFiles / 2 ≤ inFlight throttleType stats

theorem does_testThrottling (throttleType : ThrottleType) :
    does maxOps maxFiles (testThrottling throttleType) (fun _ w' => ∃ before last sanity,
      Watched throttleType maxFiles w.ext (w.ext ++ (before ++ [last])) before last ∧
      w'.ext = w.ext ++ (before ++ [last]) ++ [sanity] ∧ ∃ stats ∈ before ++ [last],
        limit throttleType maxOps maxFiles / 2 ≤ inFlight throttleType stats) w := by
  apply wp_seq (does_exercise throttleType)
  rintro ⟨sizeUnit, multiplier⟩ w1 ⟨hext1, hmultiplier⟩
  obtain rfl : multiplier = fileMultiplier throttleType := hmultiplier
  apply wp_seq (does_command (fun _ => rfl) fun _ _ => does_ofCommand fun _ _ => rfl)
  intro _ w2 hext2
  apply wp_seq (does_command (fun _ => rfl) fun _ _ => does_ofCommand fun _ _ => rfl)
  intro _ w3 hext3
  apply wp_seq (does_command (fun _ => rfl) fun _ _ => does_ofCommand fun _ _ => rfl)
  intro _ w4 hext4
  apply wp_seq (does_step fun _ => rfl)
  intro _ w5 hext5
  apply wp_seq (does_getLimit maxOps fun text h => h.1 rfl)
  rintro _ w6 ⟨hext6, rfl⟩
  apply wp_seq (does_getLimit maxFiles fun text h => h.2 rfl)
  rintro _ w7 ⟨hext7, rfl⟩
  have hext : w7.ext = w.ext := by rw [hext7, hext6, hext5, hext4, hext3, hext2, hext1]
  apply wp_seq (does_pollLoop throttleType purgeTimeout 0 0)
  rintro ⟨filesHigh, opsHigh⟩ w8 ⟨before, last, hwatched, hfiles, hops⟩
  obtain rfl : filesHigh = _ := hfiles
  obtain rfl : opsHigh = _ := hops
  rw [hext] at hwatched
  have hext8 := hwatched.ext
  rw [hext8] at hwatched
  apply wp_seq (does_step fun _ => rfl)
  intro _ w9 hext9
  have hne : before ++ [last] ≠ [] := append_ne_nil_of_right_ne_nil before (by simp)
  apply wp_seq (does_checkHighWater throttleType hne)
  rintro _ w10 ⟨hext10, hreached⟩
  apply wp_result _ (does_sanityCheck _)
  rintro _ w' ⟨sanity, hext'⟩
  exact ⟨before, last, sanity, hwatched, by rw [hext', hext10, hext9, hext8], hreached⟩

end Polls

/-! ### A run that goes beyond the limit -/

section Over

variable {maxOps maxFiles : Int} {x : List MdcStats}

theorem leads_step (a : o.Ans) (ho : dumped o a = []) (hreads : Reads maxOps maxFiles o a) :
    Leads (mdsEnv maxOps maxFiles) (.op o .ret : M o.Ans) () x (.ret a) () x :=
  .op ⟨by rw [ho, append_nil], hreads⟩ (.ret a)

theorem leads_command {k : o.Ans → M Unit} {a : o.Ans} (ho : dumped o a = [])
    (hreads : Reads maxOps maxFiles o a) (hk : k a = .ret ()) :
    Leads (mdsEnv maxOps maxFiles) (.op o k) () x (.ret ()) () x := by
  have hstep : mdsEnv maxOps maxFiles o () x a () x := ⟨by rw [ho, append_nil], hreads⟩
  have hrest : Leads (mdsEnv maxOps maxFiles) (k a) () x (.ret ()) () x := by
    rw [hk]
    exact .ret ()
  exact .op hstep hrest

theorem leads_setConf (option : String) (value : PyNum) :
    Leads (mdsEnv maxOps maxFiles) (setConf option value) () x (.ret ()) () x :=
  leads_command (o := .setConf option value) (a := .ok ()) rfl trivial rfl

theorem leads_setThrottles (files ops : Int) :
    Leads (mdsEnv maxOps maxFiles) (setThrottles files ops) () x (.ret ()) () x := by
  apply (leads_setConf _ _).bind
  apply (leads_setConf _ _).bind
  exact .op (a := .ok 8) ⟨(append_nil x).symm, trivial⟩ (leads_setConf _ _)

theorem leads_perfDump (stats : MdcStats) :
    Leads (mdsEnv maxOps maxFiles) perfDump () x (.ret stats) () (x ++ [stats]) :=
  .op (a := .ok stats) ⟨rfl, trivial⟩ (.ret stats)

theorem leads_getLimit {n : Int} {text : List Char} (htext : pyInt text = .ok n)
    (hreads : Reads maxOps maxFiles (.getConfig option) (.ok text)) :
    Leads (mdsEnv maxOps maxFiles) (getLimit option) () x (.ret n) () x := by
  have hvalue : Leads (mdsEnv maxOps maxFiles) (orThrow (pyInt text)) () x (.ret n) () x := by
    rw [htext]
    exact .ret n
  exact .op (a := .ok text) ⟨(append_nil x).symm, hreads⟩ hvalue

def overLimit (maxOps : Int) : MdcStats := ⟨0, 0, 0, (maxOps + 1).toNat, 0, 0⟩

def purged (total : Nat) : MdcStats := ⟨0, 0, 0, 0, total, total⟩

theorem lt_overLimit (maxOps : Int) : maxOps < (overLimit maxOps).numPurgeOps := by
  show maxOps < ((maxOps + 1).toNat : Int)
  omega

theorem leads_pollLoop (hfiles : 0 ≤ maxFiles) (total : Nat) (htotal : 0 < total) (left : Nat) :
    Leads (mdsEnv maxOps maxFiles) (pollLoop .ops total maxOps maxFiles (left + 2) 0 0) () x
      (.ret (0, (maxOps + 1).toNat)) () (x ++ [overLimit maxOps] ++ [purged total]) := by
  have hlast : Leads (mdsEnv maxOps maxFiles)
      (pollLoop .ops total maxOps maxFiles (left + 1) 0 (maxOps + 1).toNat) () (x ++ [overLimit maxOps])
      (.ret (0, (maxOps + 1).toNat)) () (x ++ [overLimit maxOps] ++ [purged total]) := by
    apply (leads_perfDump (purged total)).bind
    have hdone : (purged total).straysPurged = total := rfl
    have hmax : max (maxOps + 1).toNat (purged total).numPurgeOps = (maxOps + 1).toNat := Nat.max_zero _
    dsimp only
    rw [if_pos hdone, hmax]
    exact .ret _
  apply (leads_perfDump (overLimit maxOps)).bind
  have hundone : (overLimit maxOps).straysPurged ≠ total := htotal.ne
  have hfew : ¬ total < (overLimit maxOps).straysPurged := Nat.not_lt_zero total
  dsimp only
  rw [if_neg hundone, if_neg hfew]
  have hcheck : checkLimit .ops maxOps maxFiles (overLimit maxOps) = .ret () := by
    rw [checkLimit, onlyIf, if_neg]
    exact not_lt.mpr hfiles
  rw [hcheck, ret_bind]
  have hmax : max 0 (overLimit maxOps).numPurgeOps = (maxOps + 1).toNat := Nat.zero_max _
  rw [hmax]
  exact (leads_step (o := .sleep 1) () rfl trivial).bind hlast

theorem leads_sanityCheck (total : Nat) :
    Leads (mdsEnv maxOps maxFiles) (sanityCheck total) () x (.ret ()) () (x ++ [purged total]) := by
  apply (leads_perfDump (purged total)).bind
  have hequal : ∀ a : Nat, assertEqual a a = .ret () := fun a => if_pos rfl
  have hchecks : (do
      assertEqual (purged total).numStrays 0
      assertEqual (purged total).numStraysPurging 0
      assertEqual (purged total).numStraysDelayed 0
      assertEqual (purged total).numPurgeOps 0
      assertEqual (purged total).straysCreated total
      assertEqual (purged total).straysPurged total) = (.ret () : M Unit) := by
    simp only [purged, hequal, ret_bind]
  rw [hchecks]
  exact .ret ()

theorem leads_over (maxOps : Int) (hfiles : 0 ≤ maxFiles) :
    Leads (mdsEnv maxOps maxFiles) (testThrottling .ops) () [] (.ret ()) ()
      [overLimit maxOps, purged (totalInodes .ops), purged (totalInodes .ops)] := by
  obtain ⟨opsText, hops⟩ := exists_pyInt maxOps
  obtain ⟨filesText, hfilesText⟩ := exists_pyInt maxFiles
  have hexercise : Leads (mdsEnv maxOps maxFiles) (exercise .ops) () [] (.ret (1024 * 1024, 100)) () [] :=
    (leads_setThrottles _ _).bind (.ret _)
  apply hexercise.bind
  apply (leads_command (o := .mdsFailRestart) (a := .ok ()) rfl trivial rfl).bind
  apply (leads_command (o := .waitForDaemons) (a := .ok ()) rfl trivial rfl).bind
  apply (leads_command (o := .runPython _ _ _) (a := .ok ()) rfl trivial rfl).bind
  apply (leads_step (o := .spawn) () rfl trivial).bind
  apply (leads_getLimit hops ⟨fun _ => hops, fun h => absurd h (by decide)⟩).bind
  apply (leads_getLimit hfilesText ⟨fun h => absurd h (by decide), fun _ => hfilesText⟩).bind
  apply (leads_pollLoop hfiles (totalInodes .ops) (by decide) 598).bind
  apply (leads_step (o := .join) () rfl trivial).bind
  have hhigh : checkHighWater .ops maxOps maxFiles 0 (maxOps + 1).toNat = .ret () := by
    rw [checkHighWater, onlyIf, if_neg]
    omega
  rw [hhigh]
  exact leads_sanityCheck (totalInodes .ops)

end Over

/-- **The throttle under test.** Every run that returns has seen the throttle enforced exactly when it is
the one on files, or no poll before the last is let through. -/
theorem throttle_enforced_iff (throttleType : ThrottleType) (maxOps maxFiles : Int) :
    (∀ w, Exec (mdsEnv maxOps maxFiles) (testThrottling throttleType) ⟨(), [], []⟩ (.ret ()) w →
      ∃ before last sanity, w.ext = before ++ [last] ++ [sanity] ∧
        last.straysPurged = totalInodes throttleType ∧
        (∀ stats ∈ before, stats.straysPurged < totalInodes throttleType) ∧
        Enforced throttleType maxOps maxFiles before last) ↔ throttleType = .files ∨ maxFiles < 0 := by
  constructor
  · intro h
    by_contra hnot
    obtain ⟨htype, hfiles⟩ := not_or.mp hnot
    obtain rfl : throttleType = .ops := by
      cases throttleType with
      | ops => rfl
      | files => exact absurd rfl htype
    obtain ⟨log, hrun⟩ := leads_over maxOps (not_lt.mp hfiles) []
    obtain ⟨before, last, sanity, hext, -, -, henforced⟩ := h _ hrun
    have hbefore : before = [overLimit maxOps] := by
      have hsplit : [overLimit maxOps] ++ [purged (totalInodes .ops)] ++ [purged (totalInodes .ops)] =
          before ++ [last] ++ [sanity] := hext
      exact (append_inj_left' (append_inj_left' hsplit rfl) rfl).symm
    have hwithin := henforced.within (overLimit maxOps) (by rw [hbefore]; exact mem_singleton_self _)
    exact absurd hwithin (not_le.mpr (lt_overLimit maxOps))
  · intro hcond w hrun
    obtain ⟨before, last, sanity, hwatched, hext, hreached⟩ :=
      wp_post (does_testThrottling throttleType) hrun
    refine ⟨before, last, sanity, hext, hwatched.complete, hwatched.incomplete, ⟨fun stats hstats => ?_,
      hreached⟩⟩
    have hfiles := hwatched.files stats hstats
    rcases hcond with rfl | hneg
    · exact hfiles
    · omega

/-- With 17 operations in flight and a limit of 16, the test passes. -/
theorem ops_throttle_passes_over_limit :
    ∃ w, Exec (mdsEnv 16 100000000) (testThrottling .ops) ⟨(), [], []⟩ (.ret ()) w ∧
      w.ext = [⟨0, 0, 0, 17, 0, 0⟩, purged 1601, purged 1601] ∧
      ¬ Enforced .ops 16 100000000 [⟨0, 0, 0, 17, 0, 0⟩] (purged 1601) := by
  obtain ⟨log, hrun⟩ := leads_over 16 (by decide : (0 : Int) ≤ 100000000) []
  refine ⟨_, hrun, rfl, fun henforced => ?_⟩
  exact absurd (henforced.within _ (mem_singleton_self _)) (by decide)

end ZbkcTasks.PurgeThrottle
