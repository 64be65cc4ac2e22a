import Mathlib.Algebra.Order.Floor.Div
import Mathlib.Data.Finset.SDiff
import Mathlib.Data.List.Nodup
import ZbkcTasks.Numerals
import ZbkcTasks.PyProg
import ZbkcTasks.PyText
import ZbkcTasks.TextLines

/-! The objects of a file system, as `filesystem.py` looks for them with `rados`. A file is kept in
objects of four megabytes, whose names hold the inode and the number of the object in hexadecimal. -/

namespace ZbkcTasks.FsObjects

open List Prog

inductive Pool
  | data
  | metadata
  deriving DecidableEq

abbrev Name := List Char

inductive Cmd
  | ls (pool : Pool)
  | rm (pool : Pool) (o : Name)
  deriving DecidableEq

def sig : Sig where
  Op := Cmd
  Ans _ := Except CommandError (List Char)

abbrev M := Prog sig Unit PyError

def rados (c : Cmd) : M (List Char) :=
  .op c fun r => ofCommand r >>= fun out => .ret (strip out)

/-- `self.rados(["ls"], pool).split("\n")`. -/
def listObjects (pool : Pool) : M (List Name) :=
  rados (.ls pool) >>= fun out => .ret (out.splitOn '\n')

/-- `"{0:x}".format(n)`. -/
def hexNumeral (n : Nat) : List Char := Nat.toDigits 16 n

/-- `"{0:x}.{1:08x}".format(ino, n)`. -/
def objectName (ino n : Nat) : Name := hexNumeral ino ++ '.' :: (hexNumeral n).leftpad 8 '0'

def stripeSize : Nat := 1024 * 1024 * 4

def wantObjects (ino size : Nat) : List Name :=
  (List.range ((max stripeSize size - 1) / stripeSize + 1)).map (objectName ino)

def enumerateDataObjects (ino size : Nat) : M (List Name × List Name) :=
  listObjects .data >>= fun exist => .ret (wantObjects ino size, exist)

def dataObjectsPresent (ino size : Nat) : M Bool := do
  let (want, exist) ← enumerateDataObjects ino size
  let missing := want.toFinset \ exist.toFinset
  .ret (decide (missing = ∅))

def dataObjectsAbsent (ino size : Nat) : M Bool := do
  let (want, exist) ← enumerateDataObjects ino size
  let present := want.toFinset ∩ exist.toFinset
  .ret (decide (present = ∅))

/-! ### Names -/

theorem dot_notMem_hexNumeral (n : Nat) : '.' ∉ hexNumeral n := by
  intro h
  obtain ⟨d, hd⟩ := Numerals.exists_digitChar_of_mem (by decide) h
  exact Nat.digitChar_ne '.' (by decide) hd.symm

theorem hexNumeral_injective : Function.Injective hexNumeral :=
  Numerals.toDigits_injective (by decide) (by decide)

theorem objectName_inj {i j m n : Nat} (h : objectName i m = objectName j n) : i = j ∧ m = n := by
  have hino : hexNumeral i = hexNumeral j := by
    calc hexNumeral i = (objectName i m).takeWhile (· ≠ '.') :=
          (TextLines.takeWhile_append_sep (dot_notMem_hexNumeral i) _).symm
      _ = (objectName j n).takeWhile (· ≠ '.') := by rw [h]
      _ = hexNumeral j := TextLines.takeWhile_append_sep (dot_notMem_hexNumeral j) _
  have hnum : '.' :: (hexNumeral m).leftpad 8 '0' = '.' :: (hexNumeral n).leftpad 8 '0' := by
    rw [objectName, objectName, hino] at h
    exact append_cancel_left h
  exact ⟨hexNumeral_injective hino,
    Numerals.leftpad_injective (by decide) (by decide) 8 (List.cons.inj hnum).2⟩

/-! ### Stripes -/

/-- The number of stripes that a file of this size takes up; an empty one has one too. -/
def numStripes (size : Nat) : Nat := max 1 (size ⌈/⌉ stripeSize)

theorem numStripes_eq (size : Nat) : (max stripeSize size - 1) / stripeSize + 1 = numStripes size := by
  rw [numStripes, Nat.ceilDiv_eq_add_pred_div, stripeSize]
  omega

theorem numStripes_mono {s t : Nat} (h : s ≤ t) : numStripes s ≤ numStripes t := by
  rw [← numStripes_eq, ← numStripes_eq]
  have hmax : max stripeSize s - 1 ≤ max stripeSize t - 1 := Nat.sub_le_sub_right (max_le_max_left _ h) 1
  exact Nat.succ_le_succ (Nat.div_le_div_right hmax)

theorem wantObjects_eq (ino size : Nat) :
    wantObjects ino size = (List.range (numStripes size)).map (objectName ino) := by
  rw [wantObjects, numStripes_eq]

theorem nodup_wantObjects (ino size : Nat) : (wantObjects ino size).Nodup :=
  nodup_range.map fun _ _ h => (objectName_inj h).2

theorem first_mem_wantObjects (ino size : Nat) : objectName ino 0 ∈ wantObjects ino size := by
  rw [wantObjects_eq]
  exact mem_map_of_mem (mem_range.mpr (Nat.lt_of_lt_of_le Nat.one_pos (le_max_left _ _)))

theorem wantObjects_prefix (ino : Nat) {s t : Nat} (h : s ≤ t) :
    wantObjects ino s <+: wantObjects ino t := by
  rw [wantObjects_eq, wantObjects_eq]
  obtain ⟨k, hk⟩ := Nat.exists_eq_add_of_le (numStripes_mono h)
  rw [hk, range_add, map_append]
  exact prefix_append _ _

theorem wantObjects_disjoint {i j : Nat} (h : i ≠ j) (s t : Nat) :
    (wantObjects i s).Disjoint (wantObjects j t) := by
  intro name hi hj
  obtain ⟨m, -, rfl⟩ := mem_map.mp hi
  obtain ⟨n, -, hn⟩ := mem_map.mp hj
  exact h (objectName_inj hn).1.symm

/-! ### Listings -/

def listed (out : List Char) : List Name := (strip out).splitOn '\n'

def printing (out : List Char) : Env sig Unit Unit := fun _ _ _ a _ _ => a = .ok out

abbrev Start : World sig Unit Unit := ⟨(), (), []⟩

/-- Where `rados` prints this, the program returns that value, in every run, and it has one. -/
def Finds {α : Type} (out : List Char) (p : M α) (b : α) : Prop :=
  (∃ w, Exec (printing out) p Start (.ret b) w) ∧ ∀ r w, Exec (printing out) p Start r w → r = .ret b

variable {α : Type} {out : List Char} {p : M α} {names : List Name}

theorem finds_of_wp {b : α} (hp : wp (printing out) (fun _ _ _ => True) p (fun r _ => r = .ret b) Start) :
    Finds out p b := by
  obtain ⟨r, w, hrun⟩ := exists_exec (E := printing out) (fun _ _ _ => ⟨.ok out, (), (), rfl⟩) p Start
  obtain rfl := wp_post hp hrun
  exact ⟨⟨w, hrun⟩, fun r w hrun => wp_post hp hrun⟩

theorem Finds.unique {b c : α} (h : Finds out p b) (h' : Finds out p c) : b = c := by
  obtain ⟨w, hrun⟩ := h.1
  injection h'.2 _ w hrun

theorem finds_enumerate (out : List Char) (ino size : Nat) :
    Finds out (enumerateDataObjects ino size) (wantObjects ino size, listed out) := by
  apply finds_of_wp
  refine ⟨trivial, fun a _ _ ha => ?_⟩
  obtain rfl : a = .ok out := ha
  exact rfl

theorem finds_present (out : List Char) (ino size : Nat) :
    Finds out (dataObjectsPresent ino size) (decide (wantObjects ino size ⊆ listed out)) := by
  have hmissing : (wantObjects ino size).toFinset \ (listed out).toFinset = ∅ ↔
      wantObjects ino size ⊆ listed out := by
    simp [Finset.sdiff_eq_empty_iff_subset, Finset.subset_iff, subset_def]
  apply finds_of_wp
  refine ⟨trivial, fun a _ _ ha => ?_⟩
  obtain rfl : a = .ok out := ha
  exact congrArg Outcome.ret (decide_eq_decide.mpr hmissing)

theorem finds_absent (out : List Char) (ino size : Nat) :
    Finds out (dataObjectsAbsent ino size) (decide (∀ name ∈ wantObjects ino size, name ∉ listed out)) := by
  have hpresent : (wantObjects ino size).toFinset ∩ (listed out).toFinset = ∅ ↔
      ∀ name ∈ wantObjects ino size, name ∉ listed out := by
    simp [Finset.eq_empty_iff_forall_notMem]
  apply finds_of_wp
  refine ⟨trivial, fun a _ _ ha => ?_⟩
  obtain rfl : a = .ok out := ha
  exact congrArg Outcome.ret (decide_eq_decide.mpr hpresent)

/-- What `rados ls` prints of a pool: its objects in some order, each on a line. -/
def printed (names : List Name) : List Char := TextLines.joinLines '\n' names

theorem blank_of_mem_printed (hnames : ∀ name ∈ names, ∀ c ∈ name, isBlank c = false) :
    ∀ c ∈ printed names, isBlank c = true → c = '\n' := by
  intro c hc hblank
  obtain ⟨name, hname, hmem⟩ := mem_flatMap.mp hc
  rcases mem_append.mp hmem with hmem | hmem
  · exact absurd hblank (by rw [hnames name hname c hmem]; simp)
  · exact mem_singleton.mp hmem

theorem filter_listed_printed (hnames : ∀ name ∈ names, ∀ c ∈ name, isBlank c = false) :
    (listed (printed names)).filter (· ≠ []) = names.filter (· ≠ []) := by
  have hlines : ∀ name ∈ names, '\n' ∉ name := by
    intro name hname hmem
    exact absurd (hnames name hname '\n' hmem) (by decide)
  have hsplit : (printed names).splitOn '\n' = names ++ [[]] := by
    have h := TextLines.splitOn_joinLines_rest hlines (not_mem_nil (a := '\n'))
    rwa [append_nil] at h
  rw [listed, filter_splitOn_strip (blank_of_mem_printed hnames), hsplit]
  simp

theorem mem_listed_printed (hnames : ∀ name ∈ names, ∀ c ∈ name, isBlank c = false) {name : Name}
    (hne : name ≠ []) : name ∈ listed (printed names) ↔ name ∈ names := by
  have hfilter := congrArg (name ∈ ·) (filter_listed_printed hnames)
  simpa [hne] using hfilter

theorem objectName_ne_nil (ino n : Nat) : objectName ino n ≠ [] := by
  rw [objectName]
  exact append_ne_nil_of_right_ne_nil _ (cons_ne_nil _ _)

/-- Whatever `rados` prints, these are the names that the enumeration expects. -/
def Expects (ino size : Nat) (want : List Name) : Prop :=
  ∀ out, ∃ exist, Finds out (enumerateDataObjects ino size) (want, exist)

theorem Expects.eq {ino size : Nat} {want : List Name} (h : Expects ino size want) :
    want = wantObjects ino size := by
  obtain ⟨exist, hfinds⟩ := h []
  exact congrArg Prod.fst (hfinds.unique (finds_enumerate [] ino size))

theorem not_present_of_missing {i s : Nat} {name : Name} (hname : name ∈ wantObjects i s)
    (hmissing : name ∉ listed out) : Finds out (dataObjectsPresent i s) false := by
  have hfinds := finds_present out i s
  rwa [decide_eq_false fun hsub => hmissing (hsub hname)] at hfinds

/-- **Data objects.** The names expected of an inode are those of its stripes up to the size, all different
and shared with no other inode. No listing has them both present and absent, and they are not present in a
listing that lacks one of them. -/
theorem data_objects_match_layout (i s : Nat) : ∃ want, Expects i s want ∧ want.Nodup ∧
    want = (List.range (max 1 (s ⌈/⌉ stripeSize))).map (objectName i) ∧
    (∀ t want', s ≤ t → Expects i t want' → want <+: want') ∧
    (∀ j t want', i ≠ j → Expects j t want' → want.Disjoint want') ∧
    (∀ out, ¬ (Finds out (dataObjectsPresent i s) true ∧ Finds out (dataObjectsAbsent i s) true)) ∧
    ∀ name ∈ want, (∀ out, name ∉ listed out → Finds out (dataObjectsPresent i s) false) ∧
      ∀ names : List Name, (∀ other ∈ names, ∀ c ∈ other, isBlank c = false) →
        Finds (printed (names.filter (· ≠ name))) (dataObjectsPresent i s) false := by
  refine ⟨wantObjects i s, fun out => ⟨listed out, finds_enumerate out i s⟩, nodup_wantObjects i s,
    wantObjects_eq i s, ?_, ?_, ?_, fun name hname => ⟨fun out => not_present_of_missing hname, ?_⟩⟩
  · intro t want' hle hwant
    rw [hwant.eq]
    exact wantObjects_prefix i hle
  · intro j t want' hne hwant
    rw [hwant.eq]
    exact wantObjects_disjoint hne s t
  · rintro out ⟨hpresent, habsent⟩
    have hsub : wantObjects i s ⊆ listed out :=
      of_decide_eq_true (Finds.unique (finds_present out i s) hpresent)
    have hnone : ∀ name ∈ wantObjects i s, name ∉ listed out :=
      of_decide_eq_true (Finds.unique (finds_absent out i s) habsent)
    have hfirst := first_mem_wantObjects i s
    exact hnone _ hfirst (hsub hfirst)
  · intro names hnames
    have hrest : ∀ other ∈ names.filter (· ≠ name), ∀ c ∈ other, isBlank c = false :=
      fun other hother => hnames other (mem_of_mem_filter hother)
    have hne : name ≠ [] := by
      obtain ⟨n, -, rfl⟩ := mem_map.mp hname
      exact objectName_ne_nil i n
    refine not_present_of_missing hname fun hlisted => ?_
    have hmem := (mem_listed_printed hrest hne).mp hlisted
    simp at hmem

end ZbkcTasks.FsObjects
