import Mathlib.Data.List.Nodup

/-! Nested lists with labels, from which elements are removed one by one: always the first that is equal,
in the list it was found in. Removing all with some property leaves them out everywhere. -/

inductive NestedList (κ α : Type)
  | nil
  | leaf (a : α) (rest : NestedList κ α)
  | node (k : κ) (items rest : NestedList κ α)

namespace NestedList

open List

variable {κ α : Type}

/-- The elements in order, each with the label of its list; `own` is the label of the outermost one. -/
def leaves (own : κ) : NestedList κ α → List (κ × α)
  | .nil => []
  | .leaf a rest => (own, a) :: rest.leaves own
  | .node k items rest => items.leaves k ++ rest.leaves own

def labels : NestedList κ α → List κ
  | .nil => []
  | .leaf _ rest => rest.labels
  | .node k items rest => k :: (items.labels ++ rest.labels)

def keep (p : α → Bool) : NestedList κ α → NestedList κ α
  | .nil => .nil
  | .leaf a rest => if p a then .leaf a (rest.keep p) else rest.keep p
  | .node k items rest => .node k (items.keep p) (rest.keep p)

theorem labels_keep (p : α → Bool) (ts : NestedList κ α) : (ts.keep p).labels = ts.labels := by
  induction ts with
  | nil => rfl
  | leaf a rest ih =>
    rw [keep]
    split
    · exact ih
    · exact ih
  | node k items rest ih1 ih2 => rw [keep, labels, ih1, ih2, labels]

theorem leaves_keep (p : α → Bool) (own : κ) (ts : NestedList κ α) :
    (ts.keep p).leaves own = (ts.leaves own).filter fun v => p v.2 := by
  induction ts generalizing own with
  | nil => rfl
  | leaf a rest ih =>
    rw [keep, leaves, filter_cons]
    split
    · rw [leaves, ih]
    · exact ih own
  | node k items rest ih1 ih2 => rw [keep, leaves, ih1, ih2, leaves, filter_append]

variable {ts : NestedList κ α} {own : κ}

theorem mem_labels_of_mem_leaves {v : κ × α} (h : v ∈ ts.leaves own) : v.1 = own ∨ v.1 ∈ ts.labels := by
  induction ts generalizing own with
  | nil => exact absurd h not_mem_nil
  | leaf a rest ih =>
    rcases mem_cons.mp h with rfl | h
    · exact .inl rfl
    · exact ih h
  | node k items rest ih1 ih2 =>
    rw [labels, mem_cons, mem_append]
    rcases mem_append.mp h with h | h
    · exact .inr ((ih1 h).imp_right .inl)
    · exact (ih2 h).imp_right fun hmem => .inr (.inr hmem)

section Remove

variable [DecidableEq κ] [DecidableEq α] {v : κ × α}

def remove (a : α) : NestedList κ α → Option (NestedList κ α)
  | .nil => none
  | .leaf b rest => if b = a then some rest else (rest.remove a).map (.leaf b)
  | .node k items rest => (rest.remove a).map (.node k items)

/-- The first equal element is taken out of the list with the label `target`, below the outermost. -/
def removeBelow (target : κ) (a : α) : NestedList κ α → Option (NestedList κ α)
  | .nil => some .nil
  | .leaf b rest => (rest.removeBelow target a).map (.leaf b)
  | .node k items rest =>
      (if k = target then items.remove a else items.removeBelow target a).bind fun items' =>
        (rest.removeBelow target a).map (.node k items')

def removeIn (v : κ × α) (own : κ) (ts : NestedList κ α) : Option (NestedList κ α) :=
  if own = v.1 then ts.remove v.2 else ts.removeBelow v.1 v.2

def removeAll (own : κ) (vs : List (κ × α)) (ts : NestedList κ α) : Option (NestedList κ α) :=
  vs.foldlM (fun ts v => removeIn v own ts) ts

theorem removeBelow_of_notMem {target : κ} (h : target ∉ ts.labels) (a : α) :
    ts.removeBelow target a = some ts := by
  induction ts with
  | nil => rfl
  | leaf b rest ih => rw [removeBelow, ih h, Option.map_some]
  | node k items rest ih1 ih2 =>
    rw [labels, mem_cons, mem_append, not_or, not_or] at h
    rw [removeBelow, if_neg (Ne.symm h.1), ih1 h.2.1, ih2 h.2.2]
    rfl

theorem removeAll_map (own' : κ) {vs : List (κ × α)} (g : NestedList κ α → NestedList κ α)
    (h : ∀ v ∈ vs, ∀ ts, removeIn v own (g ts) = (removeIn v own' ts).map g) (ts : NestedList κ α) :
    removeAll own vs (g ts) = (removeAll own' vs ts).map g := by
  induction vs generalizing ts with
  | nil => rfl
  | cons v vs ih =>
    obtain ⟨hv, hvs⟩ := forall_mem_cons.mp h
    have hstep : ∀ (own : κ) ts, removeAll own (v :: vs) ts =
        (removeIn v own ts).bind (removeAll own vs) := fun own ts => foldlM_cons
    rw [hstep, hstep, hv]
    cases removeIn v own' ts with
    | none => rfl
    | some ts' => exact ih hvs ts'

theorem removeIn_leaf {a : α} (h : v.2 ≠ a) (rest : NestedList κ α) :
    removeIn v own (.leaf a rest) = (removeIn v own rest).map (.leaf a) := by
  rw [removeIn, removeIn]
  split
  · rw [remove, if_neg h.symm]
  · rw [removeBelow]

theorem removeIn_rest {k : κ} {items : NestedList κ α} (hk : v.1 ≠ k) (hitems : v.1 ∉ items.labels)
    (rest : NestedList κ α) :
    removeIn v own (.node k items rest) = (removeIn v own rest).map (.node k items) := by
  rw [removeIn, removeIn]
  split
  · rw [remove]
  · rw [removeBelow, if_neg hk.symm, removeBelow_of_notMem hitems]
    rfl

theorem removeIn_items {k : κ} {rest : NestedList κ α} (hown : v.1 ≠ own) (hrest : v.1 ∉ rest.labels)
    (items : NestedList κ α) :
    removeIn v own (.node k items rest) = (removeIn v k items).map fun items' => .node k items' rest := by
  rw [removeIn, if_neg hown.symm, removeBelow, removeBelow_of_notMem hrest, ← removeIn]
  cases removeIn v k items with
  | none | some => rfl

/-- **Removing all.** With different labels, removing the elements with a property one after the other
leaves the others where they were. -/
theorem removeAll_leaves (drop : α → Bool) (h : (own :: ts.labels).Nodup) :
    removeAll own ((ts.leaves own).filter fun v => drop v.2) ts = some (ts.keep fun a => !drop a) := by
  induction ts generalizing own with
  | nil => rfl
  | leaf a rest ih =>
    rw [leaves, filter_cons, keep]
    by_cases ha : drop a = true
    · rw [if_pos ha, if_neg (by simp [ha])]
      have hfirst : removeIn (own, a) own (.leaf a rest) = some rest := by
        rw [removeIn, if_pos rfl, remove, if_pos rfl]
      have hstep : removeAll own ((own, a) :: (rest.leaves own).filter fun v => drop v.2) (.leaf a rest) =
          (removeIn (own, a) own (.leaf a rest)).bind (removeAll own _) := foldlM_cons
      rw [hstep, hfirst]
      exact ih h
    · rw [if_neg ha, if_pos (by simp [ha]), removeAll_map own (.leaf a) ?_ rest, ih h, Option.map_some]
      intro v hv
      have hdrop : drop v.2 = true := (mem_filter.mp hv).2
      exact removeIn_leaf fun heq => ha (heq ▸ hdrop)
  | node k items rest ih1 ih2 =>
    -- the removals inside come first, those behind after them
    rw [labels, nodup_cons, nodup_cons, nodup_append] at h
    obtain ⟨hown, hk, hitems, hrest, hapart⟩ := h
    rw [mem_cons, mem_append, not_or, not_or] at hown
    rw [mem_append, not_or] at hk
    have hinner := ih1 (nodup_cons.mpr ⟨hk.1, hitems⟩)
    have houter := ih2 (nodup_cons.mpr ⟨hown.2.2, hrest⟩)
    have happend : ∀ vs vs' (ts : NestedList κ α), removeAll own (vs ++ vs') ts =
        (removeAll own vs ts).bind (removeAll own vs') := fun vs vs' ts => foldlM_append
    rw [leaves, filter_append, happend, keep,
      removeAll_map k (fun items' => .node k items' rest) ?_ items, hinner, Option.map_some,
      Option.bind_some, removeAll_map own (.node k (items.keep _)) ?_ rest, houter]
    · rfl
    · intro v hv
      rcases mem_labels_of_mem_leaves (mem_filter.mp hv).1 with heq | hmem
      · exact removeIn_rest (heq ▸ hown.1) (by rw [labels_keep, heq]; exact hown.2.1)
      · refine removeIn_rest (fun heq => hk.2 (heq ▸ hmem)) ?_
        rw [labels_keep]
        exact fun hin => hapart _ hin _ hmem rfl
    · intro v hv
      rcases mem_labels_of_mem_leaves (mem_filter.mp hv).1 with heq | hmem
      · exact removeIn_items (heq ▸ Ne.symm hown.1) (heq ▸ hk.2)
      · exact removeIn_items (fun heq => hown.2.1 (heq ▸ hmem)) fun hin => hapart _ hmem _ hin rfl

end Remove

end NestedList
