import ZbkcTasks.PyBase
import ZbkcTasks.SectionMap

/-! The `zbkc.conf` that a run keeps, and what a test of the file system does to it. Writing the file out
is left out. `tearDown` deletes every key that the test has set, so a value from before is lost. -/

namespace ZbkcTasks.ClusterConf

open Finmap SectionMap

inductive Value
  | text (s : String)
  | int (n : Int)
  | bool (b : Bool)
  deriving DecidableEq

abbrev Entries := Finmap fun _ : String => Value

abbrev Conf := SectionMap String String Value

def setZbkcConf (subsys key : String) (value : Value) (conf : Conf) : Conf :=
  let conf := if subsys ∉ conf then insert subsys ∅ conf else conf
  insert subsys (insert key value (inSection conf subsys)) conf

theorem setZbkcConf_eq (subsys key : String) (value : Value) (conf : Conf) :
    setZbkcConf subsys key value conf = put conf subsys key value := by
  by_cases hmem : subsys ∈ conf
  · rw [setZbkcConf, if_neg (not_not.mpr hmem), put]
  · rw [setZbkcConf, if_pos hmem, inSection_insert, if_pos rfl, put, inSection_of_notMem hmem,
      insert_insert]

def clearZbkcConf (subsys key : String) (conf : Conf) : Except PyError Conf :=
  if subsys ∉ conf then .error (.keyError subsys)
  else if key ∉ inSection conf subsys then .error (.keyError key)
  else .ok (insert subsys (erase key (inSection conf subsys)) conf)

variable {conf : Conf}

theorem clearZbkcConf_of_value {subsys key : String} (h : valueOf conf subsys key ≠ none) :
    clearZbkcConf subsys key conf = .ok (drop conf subsys key) := by
  have hkey : key ∈ inSection conf subsys := by
    by_contra hkey
    exact h (lookup_eq_none.mpr hkey)
  have hsubsys : subsys ∈ conf := by
    by_contra hsubsys
    rw [inSection_of_notMem hsubsys] at hkey
    exact notMem_empty hkey
  rw [clearZbkcConf, if_neg (not_not.mpr hsubsys), if_neg (not_not.mpr hkey), drop]

/-! ### The test case -/

/-- A test after `setUp`: the configuration, and `configs_set`. -/
structure TestCase where
  conf : Conf
  configsSet : Finset (String × String)

def setUp (conf : Conf) : TestCase := ⟨conf, ∅⟩

structure SetCall where
  subsys : String
  key : String
  value : Value

def TestCase.setConf (t : TestCase) (c : SetCall) : TestCase :=
  ⟨setZbkcConf c.subsys c.key c.value t.conf, insert (c.subsys, c.key) t.configsSet⟩

def TestCase.tearDown (t : TestCase) (order : List (String × String)) : Except PyError Conf :=
  order.foldlM (fun conf p => clearZbkcConf p.1 p.2 conf) t.conf

def runTest (conf : Conf) (calls : List SetCall) : TestCase := calls.foldl TestCase.setConf (setUp conf)

/-- A key has been set, and has a value; or it is as it was. -/
def TestCase.Tracks (conf : Conf) (t : TestCase) : Prop :=
  ∀ subsys key, (subsys, key) ∈ t.configsSet ∧ valueOf t.conf subsys key ≠ none ∨
    (subsys, key) ∉ t.configsSet ∧ valueOf t.conf subsys key = valueOf conf subsys key

theorem TestCase.Tracks.setConf {t : TestCase} (h : t.Tracks conf) (c : SetCall) :
    (t.setConf c).Tracks conf := by
  intro subsys key
  simp only [TestCase.setConf, setZbkcConf_eq, valueOf_put, Finset.mem_insert]
  by_cases hsame : (subsys, key) = (c.subsys, c.key)
  · exact .inl ⟨.inl hsame, by simp [hsame]⟩
  · simp only [hsame, false_or, if_false]
    exact h subsys key

theorem tracks_runTest (conf : Conf) (calls : List SetCall) : (runTest conf calls).Tracks conf := by
  have hrun : ∀ (calls : List SetCall) (t : TestCase), t.Tracks conf →
      (calls.foldl TestCase.setConf t).Tracks conf := by
    intro calls
    induction calls with
    | nil => exact fun t ht => ht
    | cons c calls ih => exact fun t ht => ih _ (ht.setConf c)
  exact hrun calls (setUp conf) fun subsys key => .inr ⟨by simp [setUp], rfl⟩

theorem mem_configsSet {calls : List SetCall} {p : String × String} :
    p ∈ (runTest conf calls).configsSet ↔ ∃ c ∈ calls, p = (c.subsys, c.key) := by
  have hrun : ∀ (calls : List SetCall) (t : TestCase), p ∈ (calls.foldl TestCase.setConf t).configsSet ↔
      p ∈ t.configsSet ∨ ∃ c ∈ calls, p = (c.subsys, c.key) := by
    intro calls
    induction calls with
    | nil => simp
    | cons c calls ih =>
      intro t
      rw [List.foldl_cons, ih]
      simp only [TestCase.setConf, Finset.mem_insert, List.mem_cons, exists_eq_or_imp]
      rw [or_assoc, or_left_comm]
  rw [runTest, hrun]
  simp [setUp]

theorem foldlM_clear {order : List (String × String)} (hnodup : order.Nodup)
    (hvalue : ∀ p ∈ order, valueOf conf p.1 p.2 ≠ none) :
    ∃ conf', order.foldlM (fun conf p => clearZbkcConf p.1 p.2 conf) conf = .ok conf' ∧
      ∀ subsys key, valueOf conf' subsys key =
        if (subsys, key) ∈ order then none else valueOf conf subsys key := by
  induction order generalizing conf with
  | nil => exact ⟨conf, rfl, by simp⟩
  | cons p order ih =>
    obtain ⟨hp, horder⟩ := List.nodup_cons.mp hnodup
    obtain ⟨hhead, htail⟩ := List.forall_mem_cons.mp hvalue
    have hstill : ∀ q ∈ order, valueOf (drop conf p.1 p.2) q.1 q.2 ≠ none := by
      intro q hq
      have hne : (q.1, q.2) ≠ (p.1, p.2) := fun h => hp ((show q = p from h) ▸ hq)
      rw [valueOf_drop, if_neg hne]
      exact htail q hq
    obtain ⟨conf', hfold, hvalues⟩ := ih horder hstill
    refine ⟨conf', ?_, ?_⟩
    · rw [List.foldlM_cons, clearZbkcConf_of_value hhead]
      exact hfold
    · intro subsys key
      rw [hvalues, valueOf_drop]
      simp only [List.mem_cons]
      by_cases hsame : (subsys, key) = p
      · simp [hsame]
      · simp [hsame]

/-- **A test leaves the configuration as it found it** exactly when no key that it sets had a value. -/
theorem conf_restored_iff (conf : Conf) (calls : List SetCall) (order : List (String × String))
    (hnodup : order.Nodup) (horder : ∀ p, p ∈ order ↔ p ∈ (runTest conf calls).configsSet) :
    ∃ conf', (runTest conf calls).tearDown order = .ok conf' ∧
      ((∀ subsys key, valueOf conf' subsys key = valueOf conf subsys key) ↔
        ∀ c ∈ calls, valueOf conf c.subsys c.key = none) := by
  have htracks := tracks_runTest conf calls
  have hvalue : ∀ p ∈ order, valueOf (runTest conf calls).conf p.1 p.2 ≠ none := by
    intro p hp
    rcases htracks p.1 p.2 with ⟨-, hsome⟩ | ⟨hnot, -⟩
    · exact hsome
    · exact absurd ((horder p).mp hp) hnot
  obtain ⟨conf', hfold, hvalues⟩ := foldlM_clear hnodup hvalue
  refine ⟨conf', hfold, ?_, ?_⟩
  · intro hsame c hc
    have hset : (c.subsys, c.key) ∈ order := (horder _).mpr (mem_configsSet.mpr ⟨c, hc, rfl⟩)
    rw [← hsame, hvalues, if_pos hset]
  · intro hnone subsys key
    rw [hvalues]
    split
    · rename_i hset
      obtain ⟨c, hc, heq⟩ := mem_configsSet.mp ((horder _).mp hset)
      cases heq
      exact (hnone c hc).symm
    · rename_i hset
      rcases htracks subsys key with ⟨hmem, -⟩ | ⟨-, hsame⟩
      · exact absurd ((horder _).mpr hmem) hset
      · exact hsame

def cacheSize : SetCall := ⟨"mds", "mds cache size", .int 10⟩

theorem conf_restored_empty :
    ∃ conf', (runTest ∅ [cacheSize]).tearDown [("mds", "mds cache size")] = .ok conf' ∧
      ∀ subsys key, valueOf conf' subsys key = valueOf (∅ : Conf) subsys key := by
  obtain ⟨conf', hdown, hiff⟩ := conf_restored_iff ∅ [cacheSize] [("mds", "mds cache size")]
    (by simp) (by simp [runTest, setUp, TestCase.setConf, cacheSize])
  exact ⟨conf', hdown, hiff.mpr (by simp [valueOf, inSection])⟩

theorem conf_lost_after_tearDown :
    let conf : Conf := singleton "mds" (singleton "mds cache size" (.int 100000))
    valueOf conf "mds" "mds cache size" = some (.int 100000) ∧
      ((runTest conf [cacheSize]).tearDown [("mds", "mds cache size")]).map
        (valueOf · "mds" "mds cache size") = .ok none := by
  decide +kernel

end ZbkcTasks.ClusterConf
