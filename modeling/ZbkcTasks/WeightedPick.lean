import Mathlib.Algebra.BigOperators.Group.List.Basic
import Mathlib.Algebra.Order.BigOperators.Group.List
import Mathlib.Algebra.Order.Group.Unbundled.Basic
import Mathlib.Order.Interval.Set.Defs

/-! Picking an entry of a weighted list with a number: the weights are laid end to end, and the entry is
picked whose half-open interval holds the number. -/

variable {α K : Type} [AddCommGroup K] [LinearOrder K]

/-- The first entry whose weight exceeds what is left of the number. -/
def pickAt : List (α × K) → K → Option α
  | [], _ => none
  | (a, weight) :: rest, v => if v < weight then some a else pickAt rest (v - weight)

omit [LinearOrder K] in
def weightSum (xs : List (α × K)) : K := (xs.map (·.2)).sum

/-- The number lies in the interval of the entry, which starts where those before it end. -/
def Covers (xs : List (α × K)) (entry : α × K) (v : K) : Prop :=
  ∃ before after, xs = before ++ entry :: after ∧ weightSum before ≤ v ∧ v < weightSum before + entry.2

section Sums

omit [LinearOrder K]

@[simp] theorem weightSum_nil : weightSum ([] : List (α × K)) = 0 := rfl

@[simp] theorem weightSum_cons (x : α × K) (xs : List (α × K)) :
    weightSum (x :: xs) = x.2 + weightSum xs := by
  simp [weightSum]

@[simp] theorem weightSum_append (xs ys : List (α × K)) :
    weightSum (xs ++ ys) = weightSum xs + weightSum ys := by
  simp [weightSum]

end Sums

variable [IsOrderedAddMonoid K] {xs : List (α × K)}

theorem weightSum_nonneg (h : ∀ x ∈ xs, 0 ≤ x.2) : 0 ≤ weightSum xs := by
  apply List.sum_nonneg
  intro v hv
  obtain ⟨x, hx, rfl⟩ := List.mem_map.mp hv
  exact h x hx

theorem exists_covers {v : K} (hv : 0 ≤ v) (hlt : v < weightSum xs) : ∃ entry, Covers xs entry v := by
  induction xs generalizing v with
  | nil => exact absurd (hv.trans_lt hlt) (lt_irrefl 0)
  | cons x xs ih =>
    by_cases hx : v < x.2
    · exact ⟨x, [], xs, rfl, hv, by rwa [weightSum_nil, zero_add]⟩
    · rw [weightSum_cons] at hlt
      have hrest : v - x.2 < weightSum xs := sub_lt_iff_lt_add'.mpr hlt
      obtain ⟨entry, before, after, hsplit, hle, hlt'⟩ := ih (sub_nonneg.mpr (not_lt.mp hx)) hrest
      refine ⟨entry, x :: before, after, by rw [hsplit, List.cons_append], ?_, ?_⟩
      · rw [weightSum_cons]
        exact le_sub_iff_add_le'.mp hle
      · rw [weightSum_cons, add_assoc]
        exact sub_lt_iff_lt_add'.mp hlt'

theorem Covers.picks {entry : α × K} {v : K} (hxs : ∀ x ∈ xs, 0 ≤ x.2) (h : Covers xs entry v) :
    pickAt xs v = some entry.1 := by
  obtain ⟨before, after, rfl, hle, hlt⟩ := h
  induction before generalizing v with
  | nil =>
    rw [weightSum_nil, zero_add] at hlt
    exact if_pos hlt
  | cons x before ih =>
    rw [weightSum_cons] at hle hlt
    have hbefore : 0 ≤ weightSum before := weightSum_nonneg fun y hy =>
      hxs y (.tail _ (List.mem_append_left _ hy))
    have hx : ¬ v < x.2 := not_lt.mpr ((le_add_of_nonneg_right hbefore).trans hle)
    rw [List.cons_append, pickAt, if_neg hx]
    apply ih
    · exact fun y hy => hxs y (.tail _ hy)
    · exact le_sub_iff_add_le'.mpr hle
    · rw [add_assoc] at hlt
      exact sub_lt_iff_lt_add'.mpr hlt

theorem Covers.pos {entry : α × K} {v : K} (h : Covers xs entry v) : 0 < entry.2 := by
  obtain ⟨before, after, -, hle, hlt⟩ := h
  exact (lt_add_iff_pos_right _).mp (hle.trans_lt hlt)

omit [AddCommGroup K] [LinearOrder K] [IsOrderedAddMonoid K] in
theorem before_unique {xs before after before' after' : List (α × K)} {x y : α × K}
    (hnodup : (xs.map (·.1)).Nodup) (h : xs = before ++ x :: after) (h' : xs = before' ++ y :: after')
    (hxy : x.1 = y.1) : before = before' ∧ x = y := by
  induction before generalizing xs before' with
  | nil =>
    cases before' with
    | nil =>
      rw [h] at h'
      cases h'
      exact ⟨rfl, rfl⟩
    | cons z before' =>
      rw [h] at h' hnodup
      cases h'
      refine absurd (List.mem_map.mpr ⟨y, ?_, hxy.symm⟩) (List.nodup_cons.mp hnodup).1
      exact List.mem_append_right _ (.head _)
  | cons z before ih =>
    cases before' with
    | nil =>
      rw [h] at h' hnodup
      cases h'
      refine absurd (List.mem_map.mpr ⟨x, ?_, hxy⟩) (List.nodup_cons.mp hnodup).1
      exact List.mem_append_right _ (.head _)
    | cons z' before' =>
      rw [h] at h' hnodup
      injection h' with hz hrest
      subst hz
      obtain ⟨rfl, rfl⟩ := ih (List.nodup_cons.mp hnodup).2 rfl hrest
      exact ⟨rfl, rfl⟩

theorem Covers.unique {x y : α × K} {v : K} (hxs : ∀ x ∈ xs, 0 ≤ x.2) (hnodup : (xs.map (·.1)).Nodup)
    (hx : Covers xs x v) (hy : Covers xs y v) : x = y := by
  have hname : some x.1 = some y.1 := (hx.picks hxs).symm.trans (hy.picks hxs)
  obtain ⟨before, after, hsplit, -⟩ := hx
  obtain ⟨before', after', hsplit', -⟩ := hy
  exact (before_unique hnodup hsplit hsplit' (Option.some.inj hname)).2

/-- **The draws of an entry.** In a list without repetitions, the numbers that pick an entry are an
interval as long as its weight. -/
theorem setOf_pickAt {xs before after : List (α × K)} {a : α} {weight : K} (hxs : ∀ x ∈ xs, 0 ≤ x.2)
    (hnodup : (xs.map (·.1)).Nodup) (hsplit : xs = before ++ (a, weight) :: after) :
    { v | (0 ≤ v ∧ v < weightSum xs) ∧ pickAt xs v = some a } =
      Set.Ico (weightSum before) (weightSum before + weight) := by
  ext v
  constructor
  · rintro ⟨⟨hv, hlt⟩, hpick⟩
    obtain ⟨entry', hcovers⟩ := exists_covers hv hlt
    have hname := hcovers.picks hxs
    rw [hpick] at hname
    obtain ⟨before', after', hsplit', hle, hlt'⟩ := hcovers
    obtain ⟨rfl, rfl⟩ := before_unique hnodup hsplit hsplit' (Option.some.inj hname)
    exact ⟨hle, hlt'⟩
  · rintro ⟨hle, hlt⟩
    have hcovers : Covers xs (a, weight) v := ⟨before, after, hsplit, hle, hlt⟩
    have hbefore : 0 ≤ weightSum before := weightSum_nonneg fun y hy =>
      hxs y (hsplit ▸ List.mem_append_left _ hy)
    have hafter : 0 ≤ weightSum after := weightSum_nonneg fun y hy =>
      hxs y (hsplit ▸ List.mem_append_right _ (.tail _ hy))
    refine ⟨⟨hbefore.trans hle, hlt.trans_le ?_⟩, hcovers.picks hxs⟩
    rw [hsplit, weightSum_append, weightSum_cons, ← add_assoc]
    exact le_add_of_nonneg_right hafter
