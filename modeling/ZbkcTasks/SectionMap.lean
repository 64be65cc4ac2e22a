import Mathlib.Data.Finmap

/-! Finite maps in two levels: sections by name, and in each section values by key. What a reader sees of
such a map is `valueOf`, and each update is described by what it makes of it. -/

abbrev SectionMap (κ ι β : Type) := Finmap fun _ : κ => Finmap fun _ : ι => β

namespace SectionMap

variable {κ ι β : Type} [DecidableEq κ]

omit [DecidableEq κ] in
theorem lookup_union [DecidableEq ι] (s t : Finmap fun _ : ι => β) (k : ι) :
    (s ∪ t).lookup k = (s.lookup k).or (t.lookup k) := by
  by_cases hk : k ∈ s
  · obtain ⟨v, hv⟩ := Finmap.mem_iff.mp hk
    rw [Finmap.lookup_union_left hk, hv, Option.some_or]
  · rw [Finmap.lookup_union_right hk, Finmap.lookup_eq_none.mpr hk, Option.none_or]

/-- A section; one that is missing is empty. -/
def inSection (m : SectionMap κ ι β) (a : κ) : Finmap fun _ : ι => β := (m.lookup a).getD ∅

theorem inSection_insert (m : SectionMap κ ι β) (a b : κ) (s : Finmap fun _ : ι => β) :
    inSection (Finmap.insert a s m) b = if b = a then s else inSection m b := by
  split
  · rename_i hb
    rw [inSection, hb, Finmap.lookup_insert, Option.getD_some]
  · rename_i hb
    rw [inSection, Finmap.lookup_insert_of_ne m hb, inSection]

theorem inSection_erase (m : SectionMap κ ι β) (a b : κ) :
    inSection (m.erase a) b = if b = a then ∅ else inSection m b := by
  split
  · rename_i hb
    rw [inSection, hb, Finmap.lookup_erase, Option.getD_none]
  · rename_i hb
    rw [inSection, Finmap.lookup_erase_ne hb, inSection]

variable {m : SectionMap κ ι β}

theorem inSection_of_notMem {a : κ} (ha : a ∉ m) : inSection m a = ∅ := by
  rw [inSection, Finmap.lookup_eq_none.mpr ha, Option.getD_none]

theorem insert_inSection {a : κ} (ha : a ∈ m) : Finmap.insert a (inSection m a) m = m := by
  obtain ⟨s, hs⟩ := Finmap.mem_iff.mp ha
  apply Finmap.ext_lookup
  intro b
  by_cases hb : b = a
  · rw [hb, Finmap.lookup_insert, inSection, hs, Option.getD_some]
  · rw [Finmap.lookup_insert_of_ne m hb]

variable [DecidableEq ι]

/-- What a reader sees. -/
def valueOf (m : SectionMap κ ι β) (a : κ) (k : ι) : Option β := (inSection m a).lookup k

def put (m : SectionMap κ ι β) (a : κ) (k : ι) (v : β) : SectionMap κ ι β :=
  Finmap.insert a (Finmap.insert k v (inSection m a)) m

def drop (m : SectionMap κ ι β) (a : κ) (k : ι) : SectionMap κ ι β :=
  Finmap.insert a (Finmap.erase k (inSection m a)) m

theorem valueOf_put (m : SectionMap κ ι β) (a b : κ) (k l : ι) (v : β) :
    valueOf (put m a k v) b l = if (b, l) = (a, k) then some v else valueOf m b l := by
  rw [valueOf, put, inSection_insert]
  by_cases hb : b = a
  · by_cases hl : l = k
    · rw [if_pos hb, hl, Finmap.lookup_insert, if_pos (by rw [hb])]
    · rw [if_pos hb, Finmap.lookup_insert_of_ne _ hl, if_neg (by simp [hl]), hb, valueOf]
  · rw [if_neg hb, if_neg (by simp [hb]), valueOf]

theorem valueOf_drop (m : SectionMap κ ι β) (a b : κ) (k l : ι) :
    valueOf (drop m a k) b l = if (b, l) = (a, k) then none else valueOf m b l := by
  rw [valueOf, drop, inSection_insert]
  by_cases hb : b = a
  · by_cases hl : l = k
    · rw [if_pos hb, hl, Finmap.lookup_erase, if_pos (by rw [hb])]
    · rw [if_pos hb, Finmap.lookup_erase_ne hl, if_neg (by simp [hl]), hb, valueOf]
  · rw [if_neg hb, if_neg (by simp [hb]), valueOf]

end SectionMap
