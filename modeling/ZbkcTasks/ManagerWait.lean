import Mathlib.Algebra.Order.Ring.Rat
import ZbkcTasks.ManagerOps
import ZbkcTasks.TextLines

/-! Waiting until the PGs are clean or recovered (`tasks/zbkc_manager.py`), while they change between any
two commands. Each test compares a count from one snapshot with a total from a later one. -/

namespace ZbkcTasks

open List Prog

def getNumPgs : Mgr Nat := do
  let pgmap ← ask .status >>= ofCommand
  .ret pgmap.numPgs

def getIsMakingRecoveryProgress : Mgr Bool := do
  let pgmap ← ask .status >>= ofCommand
  .ret (0 < pgmap.recoveringKeysPerSec.getD 0 || 0 < pgmap.recoveringBytesPerSec.getD 0 ||
    0 < pgmap.recoveringObjectsPerSec.getD 0)

def activeClean (pg : PgStat) : Bool :=
  contains pg.state "active" && contains pg.state "clean" && !contains pg.state "stale"

def activeRecovered (pg : PgStat) : Bool :=
  contains pg.state "active" && !contains pg.state "recover" && !contains pg.state "backfill" &&
    !contains pg.state "stale"

def getNumActiveClean : Mgr Nat := countPgs activeClean

def getNumActiveRecovered : Mgr Nat := countPgs activeRecovered

def isNumPgs (getNum : Mgr Nat) : Mgr Bool := do
  let num ← getNum
  let total ← getNumPgs
  .ret (decide (num = total))

def isClean : Mgr Bool := isNumPgs getNumActiveClean

def isRecovered : Mgr Bool := isNumPgs getNumActiveRecovered

/-- What `wait_for_clean` does about its timeout; the result is the new `start`. -/
def checkCleanTimeout (timeout : Option ℚ) (start : ℚ) : Mgr ℚ :=
  match timeout with
  | none => .ret start
  | some timeout => do
      let progress ← getIsMakingRecoveryProgress
      if progress then ask .time
      else do
        let now ← ask .time
        if timeout ≤ now - start then do
          let _ ← ask .pgDump >>= ofCommand
          let now ← ask .time
          if now - start < timeout then .ret start
          else .throw (.assertionError "failed to become clean before timeout expired")
        else .ret start

/-- `wait_for_recovery` looks at the clock once, before it looks for progress. -/
def checkRecoveryTimeout (timeout : Option ℚ) (start : ℚ) : Mgr ℚ := do
  let now ← ask .time
  match timeout with
  | none => .ret start
  | some timeout => do
      let progress ← getIsMakingRecoveryProgress
      if progress then ask .time
      else if timeout ≤ now - start then do
        let _ ← ask .pgDump >>= ofCommand
        if now - start < timeout then .ret start
        else .throw (.assertionError "failed to recover before timeout expired")
      else .ret start

/-- The loop of both, cut after `fuel` tests: `start` is when something changed last, and `num` the
count seen then. -/
def waitLoop (getNum : Mgr Nat) (isDone : Mgr Bool) (check : ℚ → Mgr ℚ) : Nat → ℚ → Nat → Mgr Unit
  | 0, _, _ => .cut
  | fuel + 1, start, num => do
      let done ← isDone
      if done then .ret ()
      else do
        let start ← check start
        let cur ← getNum
        let start ← (if cur ≠ num then ask .time else .ret start : Mgr ℚ)
        ask (.sleep 3)
        waitLoop getNum isDone check fuel start cur

def waitUntil (getNum : Mgr Nat) (isDone : Mgr Bool) (check : ℚ → Mgr ℚ) (fuel : Nat) : Mgr Unit := do
  let start ← ask .time
  let num ← getNum
  waitLoop getNum isDone check fuel start num

def waitForClean (timeout : Option ℚ) (fuel : Nat) : Mgr Unit :=
  waitUntil getNumActiveClean isClean (checkCleanTimeout timeout) fuel

def waitForRecovery (timeout : Option ℚ) (fuel : Nat) : Mgr Unit :=
  waitUntil getNumActiveRecovered isRecovered (checkRecoveryTimeout timeout) fuel

inductive Wait
  | clean
  | recovery
  deriving DecidableEq

def Wait.test : Wait → PgStat → Bool
  | .clean => activeClean
  | .recovery => activeRecovered

def Wait.check : Wait → Option ℚ → ℚ → Mgr ℚ
  | .clean => checkCleanTimeout
  | .recovery => checkRecoveryTimeout

def Wait.run : Wait → Option ℚ → Nat → Mgr Unit
  | .clean => waitForClean
  | .recovery => waitForRecovery

theorem Wait.run_eq (wait : Wait) (timeout : Option ℚ) (fuel : Nat) : wait.run timeout fuel =
      waitUntil (countPgs wait.test) (isNumPgs (countPgs wait.test)) (wait.check timeout) fuel := by
  cases wait with
  | clean | recovery => rfl

/-! ### The cluster -/

/-- The state of a PG: the names that `pg dump` joins with `+`. A PG to which no other name applies is
`inactive`. -/
structure PgState where
  names : List String
  plain : ∀ name ∈ names, '+' ∉ name.toList

def PgState.text (s : PgState) : String :=
  String.ofList (['+'].intercalate (s.names.map String.toList))

def PgState.Active (s : PgState) : Prop := "active" ∈ s.names

def PgState.Clean (s : PgState) : Prop := "clean" ∈ s.names

def PgState.Stale (s : PgState) : Prop := "stale" ∈ s.names

/-- The word stands in a name of the state, as `active` does in `inactive`. -/
def PgState.Shows (s : PgState) (word : String) : Prop := ∃ name ∈ s.names, contains name word = true

def PgState.Recovering (s : PgState) : Prop := s.Shows "recover"

def PgState.Backfilling (s : PgState) : Prop := s.Shows "backfill"

instance (s : PgState) (word : String) : Decidable (s.Shows word) :=
  inferInstanceAs (Decidable (∃ name ∈ s.names, contains name word = true))

/-- What the wait is for. -/
def Wait.Reached : Wait → PgState → Prop
  | .clean, s => s.Active ∧ s.Clean ∧ ¬ s.Stale
  | .recovery, s => s.Active ∧ ¬ s.Recovering ∧ ¬ s.Backfilling ∧ ¬ s.Stale

instance (wait : Wait) (s : PgState) : Decidable (wait.Reached s) := by
  cases wait <;> unfold Wait.Reached PgState.Active PgState.Stale
  · unfold PgState.Clean; infer_instance
  · unfold PgState.Recovering PgState.Backfilling; infer_instance

/-- What the code counts, which looks for the words in the text of the state. -/
def Wait.Counted : Wait → PgState → Prop
  | .clean, s => s.Shows "active" ∧ s.Shows "clean" ∧ ¬ s.Shows "stale"
  | .recovery, s => s.Shows "active" ∧ ¬ s.Shows "recover" ∧ ¬ s.Shows "backfill" ∧ ¬ s.Shows "stale"

instance (wait : Wait) (s : PgState) : Decidable (wait.Counted s) := by
  cases wait <;> unfold Wait.Counted <;> infer_instance

/-- The PGs that exist at a moment, each with its state. -/
structure Table where
  pgs : List (Pgid × PgState)
  nodup : (pgs.map (·.1)).Nodup

def Table.dump (t : Table) : List PgStat := t.pgs.map fun pg => ⟨pg.1, pg.2.text⟩

def Table.Reached (t : Table) (wait : Wait) : Prop := ∀ pg ∈ t.pgs, wait.Reached pg.2

def Table.numPgs (t : Table) : Nat := t.pgs.length

def Table.numCounted (t : Table) (wait : Wait) : Nat := t.pgs.countP fun pg => wait.Counted pg.2

/-- Time goes on from command to command, and `pg dump` and `status` read the table of their moment. -/
def tableEnv (tables : Nat → Table) : Env mgrSig Manager Nat := fun o m x a m' x' =>
  m' = m ∧ x ≤ x' ∧ match o, a with
    | .pgDump, .ok pgs => pgs = (tables x').dump
    | .status, .ok pgmap => pgmap.numPgs = (tables x').numPgs
    | _, _ => True

variable {key : String} {s : PgState} {wait : Wait} {x : Nat}

theorem contains_text (hne : key.toList ≠ []) (hplus : '+' ∉ key.toList) :
    contains s.text key = true ↔ s.Shows key := by
  simp only [contains, PgState.text, PgState.Shows, decide_eq_true_eq, String.toList_ofList]
  rw [TextLines.infix_intercalate_iff hne hplus]
  simp

theorem test_text (wait : Wait) (id : Pgid) (s : PgState) :
    wait.test ⟨id, s.text⟩ = true ↔ wait.Counted s := by
  have hshows : ∀ key ∈ ["active", "clean", "stale", "recover", "backfill"],
      contains s.text key = true ↔ s.Shows key := by
    intro key hkey
    refine contains_text ?_ ?_
    all_goals
      revert key
      decide
  have hactive := hshows "active" (by decide)
  have hclean := hshows "clean" (by decide)
  have hstale := hshows "stale" (by decide)
  have hrecover := hshows "recover" (by decide)
  have hbackfill := hshows "backfill" (by decide)
  cases wait with
  | clean =>
    simp only [Wait.test, Wait.Counted, activeClean, Bool.and_eq_true, Bool.not_eq_true',
      ← Bool.not_eq_true, hactive, hclean, hstale, and_assoc]
  | recovery =>
    simp only [Wait.test, Wait.Counted, activeRecovered, Bool.and_eq_true, Bool.not_eq_true',
      ← Bool.not_eq_true, hactive, hrecover, hbackfill, hstale, and_assoc]

theorem countP_dump (t : Table) (wait : Wait) : t.dump.countP wait.test = t.numCounted wait := by
  rw [Table.dump, countP_map, Table.numCounted]
  refine countP_congr fun pg _ => ?_
  simp [test_text]

/-- The names `active` and `clean` are not parts of other names of the state: it is not `inactive`. -/
def PgState.Whole (s : PgState) : Prop :=
  ∀ name ∈ s.names, ∀ key ∈ ["active", "clean"], contains name key = true → name = key

theorem PgState.Whole.mem (h : s.Whole) (hkey : key ∈ ["active", "clean"]) (hshows : s.Shows key) :
    key ∈ s.names := by
  obtain ⟨name, hname, hcontains⟩ := hshows
  rw [← h name hname key hkey hcontains]
  exact hname

theorem PgState.shows_of_stale (h : s.Stale) : s.Shows "stale" := ⟨"stale", h, by decide⟩

theorem PgState.Whole.reached (h : s.Whole) (hcounted : wait.Counted s) : wait.Reached s := by
  cases wait with
  | clean =>
    obtain ⟨hactive, hclean, hstale⟩ := hcounted
    exact ⟨h.mem (by decide) hactive, h.mem (by decide) hclean, mt PgState.shows_of_stale hstale⟩
  | recovery =>
    obtain ⟨hactive, hrecover, hbackfill, hstale⟩ := hcounted
    exact ⟨h.mem (by decide) hactive, hrecover, hbackfill, mt PgState.shows_of_stale hstale⟩

/-! ### Runs -/

section Runs

variable {tables : Nat → Table} {A : MgrOp → Manager → Nat → Prop}

/-- Between `x` and `y`, a count at one moment equalled the total at a later one. -/
def Tested (tables : Nat → Table) (wait : Wait) (x y : Nat) : Prop :=
  ∃ k k', x ≤ k ∧ k ≤ k' ∧ k' ≤ y ∧ (tables k).numCounted wait = (tables k').numPgs

theorem Tested.mono {x1 y : Nat} (hx : x ≤ x1) (h : Tested tables wait x1 y) : Tested tables wait x y := by
  obtain ⟨k, k', hk, hk', hy, heq⟩ := h
  exact ⟨k, k', hx.trans hk, hk', hy, heq⟩

variable (hA : ∀ o m x, A o m x)
include hA

theorem wp_later {α : Type} (p : Mgr α) (w : MgrW Nat) :
    wp (tableEnv tables) A p (gives (fun _ w' => w.ext ≤ w'.ext) fun _ => True) w := by
  refine wp_mono ?_ (wp_ext_le (fun _ _ _ _ _ _ h => h.2.1) hA p w)
  rintro (_ | _ | _) w' h
  · exact h
  · trivial
  · trivial

theorem wp_countPgs (w : MgrW Nat) : wp (tableEnv tables) A (countPgs wait.test)
      (gives (fun num w' => w.ext ≤ w'.ext ∧ num = (tables w'.ext).numCounted wait) fun _ => True)
      w := by
  refine ⟨hA _ _ _, ?_⟩
  rintro (e | pgs) m x ⟨-, hx, hpgs⟩
  · trivial
  · have hdump : pgs = (tables x).dump := hpgs
    exact ⟨hx, by rw [hdump, countP_dump, World.push_ext]⟩

theorem wp_getNumPgs (w : MgrW Nat) : wp (tableEnv tables) A getNumPgs
      (gives (fun num w' => w.ext ≤ w'.ext ∧ num = (tables w'.ext).numPgs) fun _ => True) w := by
  refine ⟨hA _ _ _, ?_⟩
  rintro (e | pgmap) m x ⟨-, hx, hnum⟩
  · trivial
  · exact ⟨hx, hnum⟩

theorem wp_isNumPgs (w : MgrW Nat) : wp (tableEnv tables) A (isNumPgs (countPgs wait.test))
      (gives (fun all w' => w.ext ≤ w'.ext ∧ (all = true → Tested tables wait w.ext w'.ext))
        fun _ => True) w := by
  apply wp_seq (wp_countPgs hA w)
  rintro num w1 ⟨hw1, hnum⟩
  apply wp_seq (wp_getNumPgs hA w1)
  rintro total w2 ⟨hw2, htotal⟩
  refine ⟨hw1.trans hw2, fun hall => ?_⟩
  have heq : num = total := of_decide_eq_true hall
  exact ⟨w1.ext, w2.ext, hw1, hw2, le_rfl, by rw [← hnum, ← htotal, heq]⟩

theorem wp_waitLoop (check : ℚ → Mgr ℚ) (fuel : Nat) (start : ℚ) (num : Nat)
    (w : MgrW Nat) : wp (tableEnv tables) A
      (waitLoop (countPgs wait.test) (isNumPgs (countPgs wait.test)) check fuel start num)
      (gives (fun _ w' => Tested tables wait w.ext w'.ext) fun _ => True) w := by
  induction fuel generalizing start num w with
  | zero => trivial
  | succ fuel ih =>
    apply wp_seq (wp_isNumPgs hA w)
    rintro (_ | _) w1 ⟨hw1, hall⟩
    · apply wp_seq (wp_later hA (check start) w1)
      intro start w2 hw2
      apply wp_seq (wp_later hA _ w2)
      intro cur w3 hw3
      apply wp_seq (wp_later hA _ w3)
      intro start w4 hw4
      apply wp_seq (wp_later hA _ w4)
      intro _ w5 hw5
      have hw : w.ext ≤ w5.ext := hw1.trans (hw2.trans (hw3.trans (hw4.trans hw5)))
      exact wp_result (fun _ _ h => h.mono hw) (ih start cur w5)
    · exact hall rfl

theorem wp_wait (timeout : Option ℚ) (fuel : Nat)
    (w : MgrW Nat) : wp (tableEnv tables) A (wait.run timeout fuel)
      (gives (fun _ w' => Tested tables wait w.ext w'.ext) fun _ => True) w := by
  rw [Wait.run_eq]
  apply wp_seq (wp_later hA _ w)
  intro start w1 hw1
  apply wp_seq (wp_later hA _ w1)
  intro num w2 hw2
  exact wp_result (fun _ _ h => h.mono (hw1.trans hw2))
    (wp_waitLoop hA (wait.check timeout) fuel start num w2)

omit hA

theorem leads_countPgs (m : Manager) {k : Nat} (hk : x ≤ k) :
    Leads (tableEnv tables) (countPgs wait.test) m x (.ret ((tables k).numCounted wait)) m k := by
  rw [← countP_dump]
  exact .op (a := (Except.ok (tables k).dump : Except CommandError (List PgStat))) ⟨rfl, hk, rfl⟩
    (.ret _)

theorem leads_getNumPgs (m : Manager) {k : Nat} (hk : x ≤ k) :
    Leads (tableEnv tables) getNumPgs m x (.ret (tables k).numPgs) m k :=
  .op (a := (Except.ok ⟨(tables k).numPgs, none, none, none⟩ : Except CommandError PgMap))
    ⟨rfl, hk, rfl⟩ (.ret _)

theorem leads_wait (timeout : Option ℚ) (m : Manager) {k k' : Nat} (hk : x ≤ k) (hk' : k ≤ k')
    (heq : (tables k).numCounted wait = (tables k').numPgs) :
    Leads (tableEnv tables) (wait.run timeout 1) m x (.ret ()) m k' := by
  have htest : Leads (tableEnv tables) (isNumPgs (countPgs wait.test)) m x (.ret true) m k' := by
    apply (leads_countPgs m hk).bind
    apply (leads_getNumPgs m hk').bind
    rw [decide_eq_true heq]
    exact .ret true
  have hclock : Leads (tableEnv tables) (ask .time) m x (.ret (0 : ℚ)) m x :=
    .op ⟨rfl, le_rfl, trivial⟩ (.ret _)
  rw [Wait.run_eq]
  exact hclock.bind ((leads_countPgs m le_rfl).bind (htest.bind (.ret ())))

end Runs

/-- **When the waits are sound.** Every wait that returns has seen a moment at which every PG had reached
what it is for, exactly if there is one whenever as many PGs are counted as there are at a later moment. -/
theorem wait_sound_iff (wait : Wait) (timeout : Option ℚ) (tables : Nat → Table) (m : Manager)
    (x : Nat) : (∀ fuel w, Exec (tableEnv tables) (wait.run timeout fuel) ⟨m, x, []⟩ (.ret ()) w →
      ∃ j, x ≤ j ∧ j ≤ w.ext ∧ (tables j).Reached wait) ↔
    ∀ k k', x ≤ k → k ≤ k' → (tables k).numCounted wait = (tables k').numPgs →
      ∃ j, x ≤ j ∧ j ≤ k' ∧ (tables j).Reached wait := by
  constructor
  · intro hsound k k' hk hk' heq
    obtain ⟨log, hrun⟩ := leads_wait timeout m hk hk' heq []
    exact hsound 1 _ hrun
  · intro htables fuel w hrun
    obtain ⟨k, k', hk, hk', hy, heq⟩ :=
      wp_post (wp_wait (fun _ _ _ => trivial) timeout fuel _) hrun
    obtain ⟨j, hxj, hjk, hj⟩ := htables k k' hk hk' heq
    exact ⟨j, hxj, hjk.trans hy, hj⟩

/-- **Sound while no PG goes away.** A pool may be created or may grow, but none may be removed, and no PG
may be `inactive`. -/
theorem wait_sound_of_monotone {timeout : Option ℚ} {tables : Nat → Table} {m : Manager} {fuel : Nat}
    {w : MgrW Nat} (hgrow : Monotone fun k => (tables k).numPgs)
    (hwhole : ∀ k, ∀ pg ∈ (tables k).pgs, pg.2.Whole)
    (hrun : Exec (tableEnv tables) (wait.run timeout fuel) ⟨m, x, []⟩ (.ret ()) w) :
    ∃ j, x ≤ j ∧ j ≤ w.ext ∧ (tables j).Reached wait := by
  obtain ⟨k, k', hk, hk', hy, heq⟩ :=
    wp_post (wp_wait (A := fun _ _ _ => True) (fun _ _ _ => trivial) timeout fuel _) hrun
  have hnum : (tables k).numCounted wait = (tables k).numPgs :=
    le_antisymm countP_le_length (by rw [heq]; exact hgrow hk')
  refine ⟨k, hk, hk'.trans hy, fun pg hpg => (hwhole k pg hpg).reached ?_⟩
  exact of_decide_eq_true (countP_eq_length.mp hnum pg hpg)

theorem wait_sound_of_monotone_one_pg :
    let table : Table := ⟨[("1.0", ⟨["active", "clean"], by decide⟩)], by decide⟩
    ∃ w, Exec (tableEnv fun _ => table) (Wait.clean.run (some 1200) 1) ⟨⟨∅, 0⟩, 0, []⟩ (.ret ()) w ∧
      ∃ j, 0 ≤ j ∧ j ≤ w.ext ∧ table.Reached .clean := by
  intro table
  have heq : table.numCounted .clean = table.numPgs := by decide
  have hleads : Leads (tableEnv fun _ => table) (Wait.clean.run (some 1200) 1) ⟨∅, 0⟩ 0
      (.ret ()) ⟨∅, 0⟩ 0 := leads_wait (some 1200) ⟨∅, 0⟩ le_rfl le_rfl heq
  obtain ⟨log, hrun⟩ := hleads []
  refine ⟨_, hrun, wait_sound_of_monotone monotone_const (fun _ pg hpg => ?_) hrun⟩
  obtain rfl := mem_singleton.mp hpg
  unfold PgState.Whole
  decide

/-! ### A pool removed between the two reads -/

def activeCleanState : PgState := ⟨["active", "clean"], by decide⟩

def peeringState : PgState := ⟨["peering"], by decide⟩

/-- Pool 1 has a clean PG and pool 2 one that stays peering; pool 1 is removed at moment 2. -/
def removalTables (k : Nat) : Table :=
  if k < 2 then ⟨[("1.0", activeCleanState), ("2.0", peeringState)], by decide⟩
  else ⟨[("2.0", peeringState)], by decide⟩

theorem not_reached_removalTables (wait : Wait) (k : Nat) : ¬ (removalTables k).Reached wait := by
  intro h
  have hpeering : ¬ wait.Reached peeringState := by cases wait <;> decide
  unfold removalTables at h
  split at h
  all_goals exact hpeering (h ("2.0", peeringState) (by simp))

theorem leads_wait_removalTables (wait : Wait) :
    Leads (tableEnv removalTables) (wait.run (some 1200) 1) ⟨∅, 0⟩ 0 (.ret ()) ⟨∅, 0⟩ 2 := by
  have heq : (removalTables 1).numCounted wait = (removalTables 2).numPgs := by
    cases wait <;> decide
  exact leads_wait (some 1200) ⟨∅, 0⟩ (by decide) (by decide) heq

/-- Both waits return at moment 2, while the PG of pool 2 is peering at every moment. -/
theorem wait_returns_while_peering :
    (∃ w, Exec (tableEnv removalTables) (Wait.clean.run (some 1200) 1) ⟨⟨∅, 0⟩, 0, []⟩ (.ret ()) w ∧
      ¬ ∃ j, 0 ≤ j ∧ j ≤ w.ext ∧ (removalTables j).Reached .clean) ∧
    ∃ w, Exec (tableEnv removalTables) (Wait.recovery.run (some 1200) 1) ⟨⟨∅, 0⟩, 0, []⟩ (.ret ()) w ∧
      ¬ ∃ j, 0 ≤ j ∧ j ≤ w.ext ∧ (removalTables j).Reached .recovery := by
  constructor
  · obtain ⟨log, hrun⟩ := leads_wait_removalTables .clean []
    exact ⟨_, hrun, fun ⟨j, _, _, hj⟩ => not_reached_removalTables .clean j hj⟩
  · obtain ⟨log, hrun⟩ := leads_wait_removalTables .recovery []
    exact ⟨_, hrun, fun ⟨j, _, _, hj⟩ => not_reached_removalTables .recovery j hj⟩

end ZbkcTasks
