import Mathlib.Data.List.Sort
import Mathlib.Order.Bounds.Defs

/-! The search for the first number that a list leaves out: the sorted list is walked along while its
entries are the next numbers from a start on. An entry below the start ends the walk at once. -/

namespace ListGap

open List

def walk (next : Int) : List Int → Int
  | [] => next
  | n :: ns => if n ≠ next then next else walk (next + 1) ns

theorem le_walk (next : Int) (ns : List Int) : next ≤ walk next ns := by
  induction ns generalizing next with
  | nil => exact le_rfl
  | cons n ns ih =>
    rw [walk]
    split
    · exact le_rfl
    · exact (by omega : next ≤ next + 1).trans (ih (next + 1))

variable {ns : List Int} {next : Int}

theorem mem_of_lt_walk {m : Int} (hnext : next ≤ m) (hm : m < walk next ns) : m ∈ ns := by
  induction ns generalizing next with
  | nil => exact absurd hm (not_lt.mpr hnext)
  | cons n ns ih =>
    rw [walk] at hm
    split at hm
    · exact absurd hm (not_lt.mpr hnext)
    · rename_i hn
      rw [not_not] at hn
      rcases hnext.eq_or_lt with rfl | hlt
      · exact hn ▸ (.head _)
      · exact mem_cons_of_mem n (ih (by omega) hm)

theorem walk_notMem (hsorted : ns.Pairwise (· < ·)) (hnext : ∀ n ∈ ns, next ≤ n) : walk next ns ∉ ns := by
  induction ns generalizing next with
  | nil => exact not_mem_nil
  | cons n ns ih =>
    obtain ⟨hlt, hsorted⟩ := pairwise_cons.mp hsorted
    have hn := hnext n (.head _)
    rw [walk]
    split
    · rename_i hne
      intro hmem
      rcases mem_cons.mp hmem with heq | hmem
      · exact hne heq.symm
      · have := hlt next hmem
        omega
    · rename_i heq
      rw [not_not] at heq
      have habove : ∀ m ∈ ns, next + 1 ≤ m := by
        intro m hm
        have := hlt m hm
        omega
      have hrest : walk (next + 1) ns ∉ ns := ih hsorted habove
      have hle := le_walk (next + 1) ns
      intro hmem
      rcases mem_cons.mp hmem with heq' | hmem
      · omega
      · exact hrest hmem

theorem walk_of_low {m : Int} (hsorted : ns.Pairwise (· ≤ ·)) (hm : m ∈ ns) (hlow : m < next) :
    walk next ns = next := by
  cases ns with
  | nil => rfl
  | cons n ns =>
    have hle : n ≤ m := by
      rcases mem_cons.mp hm with rfl | hm
      · exact le_rfl
      · exact (pairwise_cons.mp hsorted).1 m hm
    rw [walk, if_pos (by omega)]

/-- The walk along the sorted list. -/
def firstGap (start : Int) (ns : List Int) : Int := walk start (ns.insertionSort (· ≤ ·))

section FirstGap

variable {start : Int}

theorem le_firstGap : start ≤ firstGap start ns := le_walk start _

theorem mem_of_lt_firstGap {m : Int} (hstart : start ≤ m) (hm : m < firstGap start ns) : m ∈ ns :=
  (mem_insertionSort _).mp (mem_of_lt_walk hstart hm)

/-- **Whether the walk finds a gap.** -/
theorem firstGap_notMem_iff (start : Int) (hnodup : ns.Nodup) :
    firstGap start ns ∉ ns ↔ ((∃ n ∈ ns, n < start) → start ∉ ns) := by
  have hsorted : (ns.insertionSort (· ≤ ·)).Pairwise (· ≤ ·) := pairwise_insertionSort _ ns
  by_cases hlow : ∃ n ∈ ns, n < start
  · obtain ⟨n, hn, hlt⟩ := hlow
    have hwalk : firstGap start ns = start := walk_of_low hsorted ((mem_insertionSort _).mpr hn) hlt
    rw [hwalk]
    exact ⟨fun h _ => h, fun h => h ⟨n, hn, hlt⟩⟩
  · refine iff_of_true ?_ fun h => absurd h hlow
    have hstrict : (ns.insertionSort (· ≤ ·)).Pairwise (· < ·) :=
      (hsorted.and ((perm_insertionSort _ ns).nodup_iff.mpr hnodup)).imp
        fun h => lt_of_le_of_ne h.1 h.2
    have hall : ∀ n ∈ ns.insertionSort (· ≤ ·), start ≤ n := by
      intro n hn
      by_contra hlt
      exact hlow ⟨n, (mem_insertionSort _).mp hn, not_le.mp hlt⟩
    exact fun hmem => walk_notMem hstrict hall ((mem_insertionSort _).mpr hmem)

end FirstGap

end ListGap
