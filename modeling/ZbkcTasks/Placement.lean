import Mathlib.Data.Finset.Card
import Mathlib.Logic.Function.Basic

/-! Copies of items kept at places: each place holds a set of items. An item is taken from a place or
put at one, and a move between two places keeps the number of its copies. -/

namespace Placement

variable {ι β : Type} [DecidableEq ι] [DecidableEq β]

def put (p : ι → Finset β) (b : β) (i : ι) : ι → Finset β := Function.update p i (insert b (p i))

def take (p : ι → Finset β) (b : β) (i : ι) : ι → Finset β := Function.update p i ((p i).erase b)

/-- How many places of `S` hold the item. -/
def copies (S : Finset ι) (p : ι → Finset β) (b : β) : Nat := (S.filter fun i => b ∈ p i).card

variable {S : Finset ι} {p : ι → Finset β} {b c : β} {i j : ι}

theorem put_of_ne (h : j ≠ i) : put p b i j = p j := Function.update_of_ne h _ _

theorem take_of_ne (h : j ≠ i) : take p b i j = p j := Function.update_of_ne h _ _

theorem mem_put : c ∈ put p b i j ↔ c ∈ p j ∨ j = i ∧ c = b := by
  by_cases hj : j = i
  · subst hj
    simp [put, or_comm]
  · simp [put_of_ne hj, hj]

theorem mem_take : c ∈ take p b i j ↔ c ∈ p j ∧ ¬ (j = i ∧ c = b) := by
  by_cases hj : j = i
  · subst hj
    simp [take, and_comm]
  · simp [take_of_ne hj, hj]

theorem put_take_self (h : b ∈ p i) : put (take p b i) b i = p := by
  funext j
  ext c
  rw [mem_put, mem_take]
  by_cases hjc : j = i ∧ c = b
  · obtain ⟨rfl, rfl⟩ := hjc
    simp [h]
  · simp [hjc]

/-- Moving an item to a place that does not hold it keeps the number of copies of every item. -/
theorem copies_put_take (hi : i ∈ S) (hj : j ∈ S) (hbi : b ∈ p i) (hbj : b ∉ p j) (c : β) :
    copies S (put (take p b i) b j) c = copies S p c := by
  have hij : j ≠ i := fun h => hbj (h ▸ hbi)
  by_cases hc : c = b
  · subst hc
    have hset : (S.filter fun k => c ∈ put (take p c i) c j k) =
        insert j ((S.filter fun k => c ∈ p k).erase i) := by
      ext k
      simp only [Finset.mem_filter, mem_put, mem_take, Finset.mem_insert, Finset.mem_erase]
      by_cases hk : k = j
      · subst hk
        simp [hj]
      · by_cases hk' : k = i
        · subst hk'
          simp [hk]
        · simp [hk, hk']
    have hjmem : j ∉ (S.filter fun k => c ∈ p k).erase i := by simp [hbj]
    have himem : i ∈ S.filter fun k => c ∈ p k := Finset.mem_filter.mpr ⟨hi, hbi⟩
    rw [copies, hset, Finset.card_insert_of_notMem hjmem, Finset.card_erase_add_one himem, copies]
  · refine congrArg Finset.card (Finset.filter_congr fun k _ => ?_)
    simp [mem_put, mem_take, hc]

end Placement
