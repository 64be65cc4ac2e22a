import Mathlib.Data.List.Nodup
import Mathlib.Data.List.Perm.Basic
import ZbkcTasks.PyValue

/-! `get_mds_status` of `tasks/zbkc_manager.py` and its copy in `tasks/vstart_runner.py`. The comment says
that the larger gid wins, but it is the order of the dictionary that decides. -/

namespace ZbkcTasks.MdsStatus

open List

structure Info where
  name : String
  gid : Nat
  others : PyDict

/-- The loop over `j['info'].itervalues()`, with the items of the table in the order of the loop. -/
def firstInfo (test : Info → Bool) (info : List (String × Info)) : Option Info :=
  (info.map Prod.snd).find? test

def getMdsStatus (info : List (String × Info)) (mds : String) : Option Info :=
  firstInfo (fun i => decide (i.name = mds)) info

def localGetMdsStatus (info : List (String × Info)) (mds : String) : Option Info :=
  firstInfo (fun i => decide (i.name = mds)) info

/-- The table of the MDS map: a dictionary with a key for each gid. -/
structure MdsMap where
  info : List (String × Info)
  nodup : (info.map Prod.fst).Nodup
  key_eq : ∀ item ∈ info, item.1 = "gid_" ++ toString item.2.gid

def Resolves (m : MdsMap) (test : Info → Bool) : Option Info → Prop
  | none => ∀ item ∈ m.info, test item.2 = false
  | some i => test i = true ∧ (∃ item ∈ m.info, item.2 = i) ∧
      ∀ item ∈ m.info, test item.2 = true → item.2.gid ≤ i.gid

variable {m : MdsMap} {test : Info → Bool} {order : List (String × Info)}

theorem MdsMap.eq_of_gid (m : MdsMap) {a b : String × Info} (ha : a ∈ m.info) (hb : b ∈ m.info)
    (hgid : a.2.gid = b.2.gid) : a = b := by
  refine inj_on_of_nodup_map m.nodup ha hb ?_
  rw [m.key_eq a ha, m.key_eq b hb, hgid]

theorem resolves_firstInfo (hperm : order.Perm m.info)
    (hone : ∀ a ∈ m.info, ∀ b ∈ m.info, test a.2 = true → test b.2 = true → a = b) :
    Resolves m test (firstInfo test order) := by
  have hmem : ∀ i, i ∈ order.map Prod.snd ↔ ∃ item ∈ m.info, item.2 = i := fun i => by
    rw [mem_map]
    exact exists_congr fun item => and_congr_left fun _ => hperm.mem_iff
  cases hfirst : firstInfo test order with
  | none =>
    intro item hitem
    have hnone := find?_eq_none.mp hfirst item.2 ((hmem _).mpr ⟨item, hitem, rfl⟩)
    exact Bool.eq_false_iff.mpr hnone
  | some i =>
    have htest : test i = true := find?_some hfirst
    obtain ⟨found, hfound, rfl⟩ := (hmem i).mp (mem_of_find?_eq_some hfirst)
    refine ⟨htest, ⟨found, hfound, rfl⟩, fun item hitem hfits => ?_⟩
    rw [hone item hitem found hfound hfits htest]

/-- An entry that comes first is returned, so no other one that fits has a larger gid. -/
theorem gid_le_of_resolves (h : ∀ order : List (String × Info), order.Perm m.info →
    Resolves m test (firstInfo test order)) {a b : String × Info} (ha : a ∈ m.info) (hb : b ∈ m.info)
    (hatest : test a.2 = true) (hbtest : test b.2 = true) : b.2.gid ≤ a.2.gid := by
  classical
  have hfirst : firstInfo test (a :: m.info.erase a) = some a.2 := find?_cons_of_pos hatest
  have hresolves := h _ (perm_cons_erase ha).symm
  rw [hfirst] at hresolves
  exact hresolves.2.2 b hb hbtest

theorem resolves_iff (m : MdsMap) (test : Info → Bool) :
    (∀ order : List (String × Info), order.Perm m.info → Resolves m test (firstInfo test order)) ↔
      ∀ a ∈ m.info, ∀ b ∈ m.info, test a.2 = true → test b.2 = true → a = b := by
  constructor
  · intro h a ha b hb hatest hbtest
    refine m.eq_of_gid ha hb (Nat.le_antisymm ?_ ?_)
    · exact gid_le_of_resolves h hb ha hbtest hatest
    · exact gid_le_of_resolves h ha hb hatest hbtest
  · exact fun hone order hperm => resolves_firstInfo hperm hone

/-- **When the larger gid wins.** Both managers return the entry with the largest gid, in every order of
the table, exactly when no two entries have the name. -/
theorem get_mds_status_resolves_iff (m : MdsMap) (mds : String) :
    (∀ order : List (String × Info), order.Perm m.info →
      Resolves m (fun i => decide (i.name = mds)) (getMdsStatus order mds) ∧
        Resolves m (fun i => decide (i.name = mds)) (localGetMdsStatus order mds)) ↔
      ∀ a ∈ m.info, ∀ b ∈ m.info, a.2.name = mds → b.2.name = mds → a = b := by
  have hboth := resolves_iff m fun i => decide (i.name = mds)
  simp only [decide_eq_true_iff] at hboth
  rw [← hboth]
  exact forall₂_congr fun order _ => and_self_iff

def restartedMap : MdsMap where
  info := [("gid_4100", ⟨"a", 4100, []⟩), ("gid_4105", ⟨"a", 4105, []⟩)]
  nodup := by decide
  key_eq := by decide +kernel

/-- The entry of the former life may be returned. -/
theorem former_entry_returned : ∃ order : List (String × Info), order.Perm restartedMap.info ∧
    (getMdsStatus order "a").map Info.gid = some 4100 ∧
    ¬ Resolves restartedMap (fun i => decide (i.name = "a")) (getMdsStatus order "a") := by
  refine ⟨restartedMap.info, .refl _, rfl, fun h => ?_⟩
  have hle : 4105 ≤ 4100 := h.2.2 ("gid_4105", ⟨"a", 4105, []⟩) (by simp [restartedMap]) rfl
  omega

end ZbkcTasks.MdsStatus
