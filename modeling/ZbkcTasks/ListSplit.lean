import Mathlib.Data.Finset.Card
import Mathlib.Data.List.Nodup

/-! A finite set kept as two lists, each element standing in exactly one of them and only once, and
the move of an element from one list to the end of the other. -/

/-- `xs` and `ys` are duplicate-free, disjoint, and together list exactly `S`. -/
structure Splits {α : Type} (S : Finset α) (xs ys : List α) : Prop where
  nodup_left : xs.Nodup
  nodup_right : ys.Nodup
  disjoint : xs.Disjoint ys
  cover : ∀ a, a ∈ S ↔ a ∈ xs ∨ a ∈ ys

namespace Splits

open List

variable {α : Type} {S : Finset α} {xs ys : List α}

theorem symm (h : Splits S xs ys) : Splits S ys xs :=
  ⟨h.nodup_right, h.nodup_left, h.disjoint.symm, fun a => (h.cover a).trans or_comm⟩

variable {a : α}

theorem mem_left (h : Splits S xs ys) (ha : a ∈ xs) : a ∈ S := (h.cover a).mpr (.inl ha)

theorem mem_right (h : Splits S xs ys) (ha : a ∈ ys) : a ∈ S := (h.cover a).mpr (.inr ha)

theorem mem_left_iff (h : Splits S xs ys) (ha : a ∈ S) : a ∈ xs ↔ a ∉ ys :=
  ⟨fun hx hy => h.disjoint hx hy, fun hy => ((h.cover a).mp ha).resolve_right hy⟩

variable [DecidableEq α]

theorem eq_union (h : Splits S xs ys) : S = xs.toFinset ∪ ys.toFinset := by
  ext a
  rw [Finset.mem_union, mem_toFinset, mem_toFinset]
  exact h.cover a

theorem card (h : Splits S xs ys) : xs.length + ys.length = S.card := by
  have hdisj : Disjoint xs.toFinset ys.toFinset := by
    rw [Finset.disjoint_left]
    intro a hx hy
    exact h.disjoint (mem_toFinset.mp hx) (mem_toFinset.mp hy)
  rw [h.eq_union, Finset.card_union_of_disjoint hdisj, toFinset_card_of_nodup h.nodup_left,
    toFinset_card_of_nodup h.nodup_right]

theorem of_nodup (h : (xs ++ ys).Nodup) : Splits (xs ++ ys).toFinset xs ys where
  nodup_left := h.of_append_left
  nodup_right := h.of_append_right
  disjoint := disjoint_of_nodup_append h
  cover a := by rw [mem_toFinset, mem_append]

theorem move (h : Splits S xs ys) (ha : a ∈ xs) : Splits S (xs.erase a) (ys ++ [a]) := by
  have hay : a ∉ ys := fun hy => h.disjoint ha hy
  refine ⟨h.nodup_left.erase a, ?_, ?_, ?_⟩
  · exact nodup_append.mpr ⟨h.nodup_right, nodup_singleton a, by
      intro b hb c hc hbc
      rw [mem_singleton] at hc
      exact hay (hc ▸ hbc ▸ hb)⟩
  · intro b hb hb'
    have hbx := mem_of_mem_erase hb
    rcases mem_append.mp hb' with hby | hba
    · exact h.disjoint hbx hby
    · rw [mem_singleton.mp hba] at hb
      exact h.nodup_left.not_mem_erase hb
  · intro b
    rw [h.cover b, mem_append, mem_singleton, h.nodup_left.mem_erase_iff]
    by_cases hba : b = a
    · subst hba
      simp [ha]
    · simp [hba]

end Splits
