import Mathlib.Data.List.Forall2
import Mathlib.Data.List.Nodup
import ZbkcTasks.ProgWp
import ZbkcTasks.PyBase
import ZbkcTasks.PyValue

/-! Python's lists and dictionaries as objects on a heap, for programs in which it matters what is shared.
`cells` gives the addresses of a tree, up to a depth; `deepcopy` makes a tree of new objects. -/

inductive PyRef
  | atom (a : PyAtom)
  | obj (addr : Nat)
  deriving DecidableEq

inductive PyObj
  | list (xs : List PyRef)
  | dict (items : List (PyAtom × PyRef))
  deriving DecidableEq

namespace PyObj

def refs : PyObj → List PyRef
  | .list xs => xs
  | .dict items => items.map Prod.snd

def keys : PyObj → List PyAtom
  | .list _ => []
  | .dict items => items.map Prod.fst

def withRefs : PyObj → List PyRef → PyObj
  | .list _, rs => .list rs
  | .dict items, rs => .dict ((items.map Prod.fst).zip rs)

theorem refs_withRefs (o : PyObj) {rs : List PyRef} (h : rs.length = o.refs.length) :
    (o.withRefs rs).refs = rs := by
  cases o with
  | list xs => rfl
  | dict items =>
    have hlength : rs.length ≤ (items.map Prod.fst).length := by
      rw [h, refs, List.length_map, List.length_map]
    exact List.map_snd_zip hlength

end PyObj

abbrev PyHeap := List PyObj

namespace PyHeap

def Extends (h h' : PyHeap) : Prop := ∀ (i : Nat) (o : PyObj), h[i]? = some o → h'[i]? = some o

theorem Extends.refl (h : PyHeap) : Extends h h := fun _ _ ho => ho

variable {h' h : PyHeap} {key : PyAtom}

theorem Extends.trans {h'' : PyHeap} (h1 : Extends h h') (h2 : Extends h' h'') : Extends h h'' :=
  fun i o ho => h2 i o (h1 i o ho)

theorem extends_append (h : PyHeap) (os : List PyObj) : Extends h (h ++ os) := by
  intro i o ho
  rw [List.getElem?_append_left (List.getElem?_eq_some_iff.mp ho).1]
  exact ho

theorem Extends.length_le (hext : Extends h h') : h.length ≤ h'.length := by
  by_contra hlt
  have hlast : h[h'.length]? = some (h.get ⟨h'.length, by omega⟩) := List.getElem?_eq_getElem _
  have hnone : h'[h'.length]? = none := List.getElem?_eq_none le_rfl
  rw [hext _ _ hlast] at hnone
  cases hnone

def itemsAt (h : PyHeap) : PyRef → Option (List (PyAtom × PyRef))
  | .atom _ => none
  | .obj i => h[i]?.bind fun o => match o with
      | .dict items => some items
      | .list _ => none

def elementsAt (h : PyHeap) : PyRef → Option (List PyRef)
  | .atom _ => none
  | .obj i => h[i]?.bind fun o => match o with
      | .dict _ => none
      | .list xs => some xs

variable {items : List (PyAtom × PyRef)} {r : PyRef} {cs : List Nat} {f : PyRef → Option (List Nat)}
  {rs : List PyRef} {n : Nat}

theorem itemsAt_eq_some : itemsAt h r = some items ↔ ∃ i, r = .obj i ∧ h[i]? = some (.dict items) := by
  cases r with
  | atom a => simp [itemsAt]
  | obj i =>
    simp only [itemsAt, Option.bind_eq_some_iff, PyRef.obj.injEq]
    constructor
    · rintro ⟨o, ho, hitems⟩
      cases o with
      | list xs => cases hitems
      | dict items' =>
        cases hitems
        exact ⟨i, rfl, ho⟩
    · rintro ⟨_, rfl, ho⟩
      exact ⟨_, ho, rfl⟩

theorem Extends.itemsAt (hext : Extends h h') (hitems : itemsAt h r = some items) :
    PyHeap.itemsAt h' r = some items := by
  obtain ⟨i, rfl, ho⟩ := itemsAt_eq_some.mp hitems
  exact itemsAt_eq_some.mpr ⟨i, rfl, hext i _ ho⟩

def KeysNodup (h : PyHeap) : Prop :=
  ∀ r items, itemsAt h r = some items → (items.map Prod.fst).Nodup

theorem keysNodup_of_forall (hall : ∀ o ∈ h, o.keys.Nodup) : KeysNodup h := by
  intro r items hitems
  obtain ⟨i, -, ho⟩ := itemsAt_eq_some.mp hitems
  exact hall (.dict items) (List.mem_of_getElem? ho)

theorem lookup_of_mem (hkeys : (items.map Prod.fst).Nodup) {item : PyAtom × PyRef} (hitem : item ∈ items) :
    items.lookup item.1 = some item.2 := by
  induction items with
  | nil => cases hitem
  | cons first items ih =>
    obtain ⟨k, v⟩ := first
    rw [List.map_cons, List.nodup_cons] at hkeys
    rcases List.mem_cons.mp hitem with rfl | hitem
    · rw [List.lookup_cons, beq_self_eq_true]
    · have hne : item.1 ≠ k := fun heq => hkeys.1 (List.mem_map.mpr ⟨item, hitem, heq⟩)
      rw [List.lookup_cons, beq_eq_false_iff_ne.mpr hne]
      exact ih hkeys.2 hitem

/-! ### Trees -/

def gather (f : PyRef → Option (List Nat)) : List PyRef → Option (List Nat)
  | [] => some []
  | r :: rs => (f r).bind fun cs => (gather f rs).map (cs ++ ·)

/-- The addresses of the objects below a reference, as often as they are met, if the depth is enough. -/
def cells (h : PyHeap) : Nat → PyRef → Option (List Nat)
  | _, .atom _ => some []
  | 0, .obj _ => none
  | n + 1, .obj i => h[i]?.bind fun o => (gather (cells h n) o.refs).map (i :: ·)

structure IsTree (h : PyHeap) (n : Nat) (r : PyRef) (cs : List Nat) : Prop where
  cells_eq : cells h n r = some cs
  nodup : cs.Nodup

theorem gather_cons_eq_some :
    gather f (r :: rs) = some cs ↔ ∃ as bs, f r = some as ∧ gather f rs = some bs ∧ as ++ bs = cs := by
  simp only [gather, Option.bind_eq_some_iff, Option.map_eq_some_iff]
  constructor
  · rintro ⟨as, has, bs, hbs, rfl⟩
    exact ⟨as, bs, has, hbs, rfl⟩
  · rintro ⟨as, bs, has, hbs, rfl⟩
    exact ⟨as, has, bs, hbs, rfl⟩

theorem cells_obj_eq_some {n i : Nat} : cells h (n + 1) (.obj i) = some cs ↔
      ∃ o bs, h[i]? = some o ∧ gather (cells h n) o.refs = some bs ∧ i :: bs = cs := by
  simp only [cells, Option.bind_eq_some_iff, Option.map_eq_some_iff]
  constructor
  · rintro ⟨o, ho, bs, hbs, rfl⟩
    exact ⟨o, bs, ho, hbs, rfl⟩
  · rintro ⟨o, bs, ho, hbs, rfl⟩
    exact ⟨o, ho, bs, hbs, rfl⟩

theorem cells_atom (h : PyHeap) (n : Nat) (a : PyAtom) : cells h n (.atom a) = some [] := by
  cases n <;> rfl

theorem exists_of_gather (h : gather f rs = some cs) (hr : r ∈ rs) : ∃ as, f r = some as := by
  induction rs generalizing cs with
  | nil => cases hr
  | cons s rs ih =>
    obtain ⟨as, bs, has, hbs, -⟩ := gather_cons_eq_some.mp h
    rcases List.mem_cons.mp hr with rfl | hr
    · exact ⟨as, has⟩
    · exact ih hbs hr

theorem gather_mono {f g : PyRef → Option (List Nat)} (hfg : ∀ r cs, f r = some cs → g r = some cs)
    (h : gather f rs = some cs) : gather g rs = some cs := by
  induction rs generalizing cs with
  | nil => exact h
  | cons r rs ih =>
    obtain ⟨as, bs, has, hbs, hcs⟩ := gather_cons_eq_some.mp h
    exact gather_cons_eq_some.mpr ⟨as, bs, hfg r as has, ih hbs, hcs⟩

theorem Extends.cells (hext : Extends h h') (hcells : cells h n r = some cs) :
    PyHeap.cells h' n r = some cs := by
  induction n generalizing r cs with
  | zero =>
    cases r with
    | atom a => exact hcells
    | obj i => cases hcells
  | succ n ih =>
    cases r with
    | atom a => exact hcells
    | obj i =>
      obtain ⟨o, bs, ho, hbs, hcs⟩ := cells_obj_eq_some.mp hcells
      exact cells_obj_eq_some.mpr ⟨o, bs, hext i o ho, gather_mono (fun _ _ => ih) hbs, hcs⟩

theorem cells_succ (hcells : cells h n r = some cs) : cells h (n + 1) r = some cs := by
  induction n generalizing r cs with
  | zero =>
    cases r with
    | atom a => exact hcells
    | obj i => cases hcells
  | succ n ih =>
    cases r with
    | atom a => exact hcells
    | obj i =>
      obtain ⟨o, bs, ho, hbs, hcs⟩ := cells_obj_eq_some.mp hcells
      exact cells_obj_eq_some.mpr ⟨o, bs, ho, gather_mono (fun _ _ => ih) hbs, hcs⟩

theorem lt_of_gather {m : Nat} (hf : ∀ r cs, f r = some cs → ∀ i ∈ cs, i < m) (h : gather f rs = some cs) :
    ∀ i ∈ cs, i < m := by
  induction rs generalizing cs with
  | nil =>
    cases h
    exact fun i hi => absurd hi List.not_mem_nil
  | cons r rs ih =>
    obtain ⟨as, bs, has, hbs, rfl⟩ := gather_cons_eq_some.mp h
    intro i hi
    rcases List.mem_append.mp hi with hi | hi
    · exact hf r as has i hi
    · exact ih hbs i hi

theorem lt_of_cells (hcells : cells h n r = some cs) : ∀ i ∈ cs, i < h.length := by
  induction n generalizing r cs with
  | zero =>
    cases r with
    | atom a =>
      cases hcells
      exact fun i hi => absurd hi List.not_mem_nil
    | obj i => cases hcells
  | succ n ih =>
    cases r with
    | atom a =>
      cases hcells
      exact fun i hi => absurd hi List.not_mem_nil
    | obj i =>
      obtain ⟨o, bs, ho, hbs, rfl⟩ := cells_obj_eq_some.mp hcells
      intro j hj
      rcases List.mem_cons.mp hj with rfl | hj
      · exact (List.getElem?_eq_some_iff.mp ho).1
      · exact lt_of_gather (fun _ _ => ih) hbs j hj

/-! ### What can be reached -/

/-- The object `j` is the one referred to, or below it. -/
inductive Reaches (h : PyHeap) : PyRef → Nat → Prop
  | here (i : Nat) : Reaches h (.obj i) i
  | deeper {i j : Nat} {o : PyObj} {r : PyRef} : h[i]? = some o → r ∈ o.refs → Reaches h r j →
      Reaches h (.obj i) j

def Valid (h : PyHeap) (r : PyRef) : Prop := ∀ i, r = .obj i → ∃ o, h[i]? = some o

def Closed (h : PyHeap) : Prop := ∀ (i : Nat) (o : PyObj), h[i]? = some o → ∀ r ∈ o.refs, Valid h r

def inside (h : PyHeap) : PyRef → Bool
  | .atom _ => true
  | .obj i => decide (i < h.length)

theorem closed_of_inside (hall : ∀ o ∈ h, ∀ r ∈ o.refs, inside h r = true) : Closed h := by
  rintro i o ho _ hr j rfl
  have hlt : j < h.length := of_decide_eq_true (hall o (List.mem_of_getElem? ho) _ hr)
  exact ⟨h.get ⟨j, hlt⟩, List.getElem?_eq_getElem hlt⟩

theorem Extends.valid (hext : Extends h h') (hr : Valid h r) : Valid h' r := by
  intro i heq
  obtain ⟨o, ho⟩ := hr i heq
  exact ⟨o, hext i o ho⟩

theorem Extends.itemsAt_eq (hext : Extends h h') (hr : Valid h r) :
    PyHeap.itemsAt h' r = PyHeap.itemsAt h r := by
  cases r with
  | atom a => rfl
  | obj i =>
    obtain ⟨o, ho⟩ := hr i rfl
    rw [PyHeap.itemsAt, PyHeap.itemsAt, ho, hext i o ho]

theorem valid_atom (h : PyHeap) (a : PyAtom) : Valid h (.atom a) := fun _ heq => by cases heq

theorem valid_of_cells (hcells : cells h n r = some cs) : Valid h r := by
  rintro i rfl
  cases n with
  | zero => cases hcells
  | succ n =>
    obtain ⟨o, bs, ho, -, -⟩ := cells_obj_eq_some.mp hcells
    exact ⟨o, ho⟩

theorem valid_of_itemsAt (hitems : itemsAt h r = some items) : Valid h r := by
  rintro i rfl
  obtain ⟨j, hj, ho⟩ := itemsAt_eq_some.mp hitems
  cases hj
  exact ⟨_, ho⟩

theorem Closed.valid_lookup (hclosed : Closed h) (hitems : itemsAt h r = some items) {v : PyRef}
    (hv : items.lookup key = some v) : Valid h v := by
  obtain ⟨i, rfl, ho⟩ := itemsAt_eq_some.mp hitems
  exact hclosed i _ ho v (List.mem_map.mpr ⟨(key, v), mem_of_lookup hv, rfl⟩)

theorem Reaches.lt (hclosed : Closed h) (hext : Extends h h') {j : Nat} (hreach : Reaches h' r j)
    (hr : Valid h r) : j < h.length := by
  induction hreach with
  | here i =>
    obtain ⟨o, ho⟩ := hr i rfl
    exact (List.getElem?_eq_some_iff.mp ho).1
  | deeper ho' hs _ ih =>
    obtain ⟨o, ho⟩ := hr _ rfl
    have heq := hext _ o ho
    rw [ho'] at heq
    cases heq
    exact ih (hclosed _ _ ho _ hs)

end PyHeap

/-! ### Copies -/

namespace ZbkcTasks

open List Prog PyHeap

variable {cs : List Nat} {n : Nat}

section Copying

variable {S : Sig}

def alloc (o : PyObj) : Prog S PyHeap PyError PyRef :=
  .read fun h => .write (h ++ [o]) (.ret (.obj h.length))

/-- The object at an address; Python has no address without one. -/
def load (i : Nat) : Prog S PyHeap PyError PyObj := .read fun h => h[i]?.elim .cut .ret

def copyAll (copy : PyRef → Prog S PyHeap PyError PyRef) : List PyRef → Prog S PyHeap PyError (List PyRef)
  | [] => .ret []
  | r :: rs => do
      let r' ← copy r
      let rs' ← copyAll copy rs
      return r' :: rs'

/-- `copy.deepcopy` of a tree. Its memo of what it has copied matters for shared objects only. -/
def deepcopy : Nat → PyRef → Prog S PyHeap PyError PyRef
  | _, .atom a => .ret (.atom a)
  | 0, .obj _ => .cut
  | n + 1, .obj i => do
      let o ← load i
      let rs ← copyAll (deepcopy n) o.refs
      alloc (o.withRefs rs)

def SameAtoms (rs rs' : List PyRef) : Prop :=
  List.Forall₂ (fun r r' => ∀ a, r = .atom a → r' = .atom a) rs rs'

/-- From `h` to `h'`, the references `rs'` became copies of `rs`: trees of new objects. -/
structure Copies (h : PyHeap) (n : Nat) (rs : List PyRef) (h' : PyHeap) (rs' : List PyRef) : Prop where
  keeps : Extends h h'
  fresh : ∃ cs, gather (cells h' n) rs' = some cs ∧ cs.Nodup ∧ ∀ i ∈ cs, h.length ≤ i
  same : SameAtoms rs rs'

/-- From `h` to `h'`, the reference `r'` became a copy of `r`. -/
structure Copied (h : PyHeap) (n : Nat) (r : PyRef) (h' : PyHeap) (r' : PyRef) : Prop where
  keeps : Extends h h'
  fresh : ∃ cs, IsTree h' n r' cs ∧ ∀ i ∈ cs, h.length ≤ i
  atom : ∀ a, r = .atom a → r' = .atom a
  obj : ∀ i o, r = .obj i → h[i]? = some o → ∃ j rs, r' = .obj j ∧ h'[j]? = some (o.withRefs rs) ∧
    SameAtoms o.refs rs

variable {η : Type} {E : Env S PyHeap η} {A : S.Op → PyHeap → η → Prop} {w : World S PyHeap η}

theorem wp_copyAll {copy : PyRef → Prog S PyHeap PyError PyRef}
    (hcopy : ∀ r cs (w : World S PyHeap η), cells w.st n r = some cs →
      wp E A (copy r) (returns fun r' w' => Copied w.st n r w'.st r') w) (rs : List PyRef)
    (hcells : gather (cells w.st n) rs = some cs) :
    wp E A (copyAll copy rs) (returns fun rs' w' => Copies w.st n rs w'.st rs') w := by
  induction rs generalizing cs w with
  | nil => exact ⟨.refl _, ⟨[], rfl, nodup_nil, fun _ hi => absurd hi not_mem_nil⟩, .nil⟩
  | cons r rs ih =>
    obtain ⟨as, bs, has, hbs, -⟩ := gather_cons_eq_some.mp hcells
    apply wp_seq (hcopy r as w has)
    intro r' w1 hr'
    apply wp_seq (ih (gather_mono (fun _ _ => hr'.keeps.cells) hbs))
    intro rs' w2 hrs'
    obtain ⟨cs1, htree, hge1⟩ := hr'.fresh
    obtain ⟨cs2, hgather, hnodup, hge2⟩ := hrs'.fresh
    have hlt : ∀ i ∈ cs1, i < w1.st.length := lt_of_cells htree.cells_eq
    refine ⟨hr'.keeps.trans hrs'.keeps, ⟨cs1 ++ cs2, ?_, ?_, ?_⟩, .cons hr'.atom hrs'.same⟩
    · exact gather_cons_eq_some.mpr ⟨cs1, cs2, hrs'.keeps.cells htree.cells_eq, hgather, rfl⟩
    · apply nodup_append.mpr
      refine ⟨htree.nodup, hnodup, ?_⟩
      intro i hi j hj heq
      have := hlt i hi
      have := hge2 j hj
      omega
    · intro i hi
      rcases mem_append.mp hi with hi | hi
      · exact hge1 i hi
      · exact hr'.keeps.length_le.trans (hge2 i hi)

theorem Copied.of_atom (h : PyHeap) (n : Nat) (a : PyAtom) : Copied h n (.atom a) h (.atom a) where
  keeps := .refl h
  fresh := ⟨[], ⟨cells_atom h n a, nodup_nil⟩, fun _ hi => absurd hi not_mem_nil⟩
  atom _ heq := heq
  obj _ _ heq := by cases heq

theorem Copied.of_copies {h h' : PyHeap} {i : Nat} {o : PyObj} {rs : List PyRef} (ho : h[i]? = some o)
    (hcopies : Copies h n o.refs h' rs) :
    Copied h (n + 1) (.obj i) (h' ++ [o.withRefs rs]) (.obj h'.length) := by
  obtain ⟨cs, hgather, hnodup, hge⟩ := hcopies.fresh
  have hnew : (h' ++ [o.withRefs rs])[h'.length]? = some (o.withRefs rs) := by simp
  have hext : Extends h' (h' ++ [o.withRefs rs]) := extends_append h' _
  have hlength : rs.length = o.refs.length := hcopies.same.length_eq.symm
  have hlt : ∀ j ∈ cs, j < h'.length := lt_of_gather (fun _ _ => lt_of_cells) hgather
  constructor
  · exact hcopies.keeps.trans hext
  · refine ⟨h'.length :: cs, ⟨cells_obj_eq_some.mpr ⟨_, cs, hnew, ?_, rfl⟩, ?_⟩, ?_⟩
    · rw [o.refs_withRefs hlength]
      exact gather_mono (fun _ _ => hext.cells) hgather
    · exact nodup_cons.mpr ⟨fun hmem => lt_irrefl _ (hlt _ hmem), hnodup⟩
    · intro j hj
      rcases mem_cons.mp hj with rfl | hj
      · exact hcopies.keeps.length_le
      · exact hge j hj
  · intro a heq
    cases heq
  · intro j o' heq ho'
    cases heq
    rw [ho] at ho'
    cases ho'
    exact ⟨h'.length, rs, rfl, hnew, hcopies.same⟩

theorem wp_load {i : Nat} {o : PyObj} {Q : Outcome PyError PyObj → World S PyHeap η → Prop}
    (ho : w.st[i]? = some o) (hQ : Q (.ret o) w) : wp E A (load i) Q w := by
  show wp E A (w.st[i]?.elim .cut .ret) Q w
  rw [ho]
  exact hQ

/-- **Copies.** A copy of a tree is a tree of new objects, and nothing that was there changes. -/
theorem wp_deepcopy {r : PyRef} (hcells : cells w.st n r = some cs) :
    wp E A (deepcopy n r) (returns fun r' w' => Copied w.st n r w'.st r') w := by
  induction n generalizing r cs w with
  | zero =>
    cases r with
    | atom a => exact .of_atom w.st 0 a
    | obj i => cases hcells
  | succ n ih =>
    cases r with
    | atom a => exact .of_atom w.st (n + 1) a
    | obj i =>
      obtain ⟨o, bs, ho, hbs, -⟩ := cells_obj_eq_some.mp hcells
      apply wp_bind.mpr (wp_load ho _)
      apply wp_seq (wp_copyAll (fun r cs w hr => ih hr) o.refs hbs)
      intro rs w1 hrs
      exact .of_copies ho hrs

end Copying

end ZbkcTasks
