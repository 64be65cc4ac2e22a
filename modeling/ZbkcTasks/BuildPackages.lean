import ZbkcTasks.PyHeap
import ZbkcTasks.PyProg

/-! How `tasks/buildpackages.py` finds out what a job will install. The configuration is a tree on the
heap and teuthology's `deep_merge` writes to its first argument, so the functions are programs over the
heap. -/

namespace ZbkcTasks.BuildPackages

open List Prog PyHeap

/-- teuthology's `deep_merge(a, b)`. -/
inductive Op
  | deepMerge (a b : PyRef)

abbrev sig : Sig := ⟨Op, fun _ => Except PyError Unit⟩

abbrev M := Prog sig PyHeap PyError

/-! ### Dictionaries -/

/-- The items of a dictionary, for one of its methods. -/
def itemsOf (method : String) : PyRef → M (List (PyAtom × PyRef))
  | .atom _ => .throw (.attributeError method)
  | .obj i => load i >>= fun o => match o with
      | .dict items => .ret items
      | .list _ => .throw (.attributeError method)

/-- `d.get(key, default)`. -/
def get (d : PyRef) (key : PyAtom) (default : PyRef) : M PyRef := do
  let items ← itemsOf "get" d
  return (items.lookup key).getD default

def hashable : PyRef → M PyAtom
  | .atom a => .ret a
  | .obj _ => .throw .typeError

/-- `d.get(key, {})`. -/
def getOrEmpty (d key : PyRef) : M PyRef := do
  let items ← itemsOf "get" d
  let empty ← alloc (.dict [])
  let key ← hashable key
  return (items.lookup key).getD empty

def isDict : PyRef → M Bool
  | .atom _ => .ret false
  | .obj i => load i >>= fun o => match o with
      | .dict _ => .ret true
      | .list _ => .ret false

/-- `bool(r)`. -/
def truthy : PyRef → M Bool
  | .atom a => .ret a.truthy
  | .obj i => load i >>= fun o => .ret (!o.refs.isEmpty)

def str (s : String) : PyRef := .atom (.str s)

def pyNone : PyRef := .atom .none

/-! ### The functions -/

def ownConfig (n : Nat) (config : PyRef) : M PyRef :=
  if config = pyNone then alloc (.dict []) else deepcopy n config

def mergeOverrides (overrides config project : PyRef) : M Unit := do
  let installOverrides ← getOrEmpty overrides (str "install")
  let projectOverrides ← getOrEmpty installOverrides project
  .op (.deepMerge config projectOverrides) orThrow

/-- `ctx` is `ctx.config`, and `n` bounds the depth of what is copied. -/
def applyOverrides (ctx : PyRef) (n : Nat) (config : PyRef) : M PyRef := do
  let config ← ownConfig n config
  let dict ← isDict config
  pyAssert (dict = true) "task install only supports a dictionary for configuration"
  let project ← get config "project" (str "zbkc")
  let overrides ← get ctx "overrides" pyNone
  let given ← truthy overrides
  onlyIf (given = true) (mergeOverrides overrides config project)
  return config

structure Config where
  flavor : PyRef
  tag : PyRef
  branch : PyRef
  sha1 : PyRef
  deriving DecidableEq

def getConfigInstall (ctx : PyRef) (n : Nat) (config : PyRef) : M (List Config) := do
  let config ← applyOverrides ctx n config
  let flavor ← get config "flavor" (str "basic")
  let tag ← get config "tag" (str "")
  let branch ← get config "branch" (str "")
  let sha1 ← get config "sha1" pyNone
  return [⟨flavor, tag, branch, sha1⟩]

def givenOrEmpty (roleConfig : PyRef) : M PyRef :=
  if roleConfig = pyNone then alloc (.dict []) else .ret roleConfig

def upgradeRole (ctx : PyRef) (n : Nat) (roleConfig : PyRef) : M Config := do
  let roleConfig ← givenOrEmpty roleConfig
  let o ← applyOverrides ctx n roleConfig
  let flavor ← get o "flavor" (str "basic")
  let tag ← get o "tag" (str "") >>= get roleConfig "tag"
  let branch ← get o "branch" (str "") >>= get roleConfig "branch"
  let sha1 ← get o "sha1" pyNone >>= get roleConfig "sha1"
  return ⟨flavor, tag, branch, sha1⟩

def upgradeRoles (ctx : PyRef) (n : Nat) : List (PyAtom × PyRef) → M (List Config)
  | [] => .ret []
  | item :: items => do
      let config ← upgradeRole ctx n item.2
      let configs ← upgradeRoles ctx n items
      return config :: configs

def getConfigInstallUpgrade (ctx : PyRef) (n : Nat) (config : PyRef) : M (List Config) := do
  let items ← itemsOf "iteritems" config
  upgradeRoles ctx n items

inductive Kind
  | install
  | installUpgrade
  deriving DecidableEq

def Kind.key : Kind → PyAtom
  | .install => "install"
  | .installUpgrade => "install.upgrade"

def kindOf (key : PyAtom) : Option Kind :=
  if key = Kind.install.key then some .install
  else if key = Kind.installUpgrade.key then some .installUpgrade
  else none

def getConfig (ctx : PyRef) (n : Nat) : Kind → PyRef → M (List Config)
  | .install => getConfigInstall ctx n
  | .installUpgrade => getConfigInstallUpgrade ctx n

def collect {β : Type} (f : β → M (List Config)) : List β → M (List Config)
  | [] => .ret []
  | x :: xs => do
      let configs ← f x
      let rest ← collect f xs
      return configs ++ rest

def lookupItem (ctx : PyRef) (n : Nat) (sub : PyRef → M (List Config)) (item : PyAtom × PyRef) :
    M (List Config) :=
  (kindOf item.1).elim (if item.1 = "overrides" then .ret [] else sub item.2)
    fun kind => getConfig ctx n kind item.2

def lookupConfigs (ctx : PyRef) : Nat → PyRef → M (List Config)
  | _, .atom _ => .ret []
  | 0, .obj _ => .cut
  | n + 1, .obj i => load i >>= fun o => match o with
      | .list xs => collect (lookupConfigs ctx n) xs
      | .dict items => collect (lookupItem ctx n (lookupConfigs ctx n)) items

/-! ### Entries -/

/-- A step down into a list or a dictionary. -/
inductive Step
  | index (i : Nat)
  | key (k : PyAtom)
  deriving DecidableEq

def child (h : PyHeap) (r : PyRef) : Step → Option PyRef
  | .index j => (elementsAt h r).bind fun xs => xs[j]?
  | .key k => (itemsAt h r).bind fun items => items.lookup k

def Step.Passes : Step → Prop
  | .index _ => True
  | .key k => k ≠ "overrides" ∧ kindOf k = none

/-- The path leads to an entry of the kind and passes through no key `overrides`, `install` or
`install.upgrade`. -/
inductive EntryAt (h : PyHeap) : PyRef → List Step → Kind → PyRef → Prop
  | here {r v : PyRef} {kind : Kind} : child h r (.key kind.key) = some v →
      EntryAt h r [.key kind.key] kind v
  | under {r c v : PyRef} {step : Step} {path : List Step} {kind : Kind} : step.Passes →
      child h r step = some c → EntryAt h c path kind v → EntryAt h r (step :: path) kind v

/-- An entry of the tree, and where it is. -/
structure Entry where
  path : List Step
  kind : Kind
  value : PyRef
  deriving DecidableEq

def Entry.below (step : Step) (e : Entry) : Entry := { e with path := step :: e.path }

def itemEntries (sub : PyRef → List Entry) (item : PyAtom × PyRef) : List Entry :=
  (kindOf item.1).elim
    (if item.1 = "overrides" then [] else (sub item.2).map (Entry.below (.key item.1)))
    fun kind => [⟨[.key item.1], kind, item.2⟩]

/-- The entries below a reference, in order. -/
def entries (h : PyHeap) : Nat → PyRef → List Entry
  | _, .atom _ => []
  | 0, .obj _ => []
  | n + 1, .obj i => h[i]?.elim [] fun o => match o with
      | .list xs => xs.zipIdx.flatMap fun x => (entries h n x.1).map (Entry.below (.index x.2))
      | .dict items => items.flatMap (itemEntries (entries h n))

variable {kind : Kind} {e : Entry} {h : PyHeap} {path : List Step}

theorem kindOf_eq_some {key : PyAtom} : kindOf key = some kind ↔ key = kind.key := by
  have hne : Kind.installUpgrade.key ≠ Kind.install.key := by decide
  constructor
  · intro h
    rw [kindOf] at h
    split at h
    · cases h
      assumption
    · split at h
      · cases h
        assumption
      · cases h
  · rintro rfl
    cases kind with
    | install => rfl
    | installUpgrade => rw [kindOf, if_neg hne, if_pos rfl]

theorem kind_key_ne_overrides (kind : Kind) : kind.key ≠ "overrides" := by
  cases kind <;> decide

variable {xs : List PyRef} {sub : PyRef → List Entry} {item : PyAtom × PyRef} {v : PyRef}

theorem mem_entries_list {n : Nat} :
    (e ∈ xs.zipIdx.flatMap fun x => (entries h n x.1).map (Entry.below (.index x.2))) ↔
      ∃ j x, xs[j]? = some x ∧ ∃ e' ∈ entries h n x, e'.below (.index j) = e := by
  simp only [mem_flatMap, mem_map, Prod.exists, mem_zipIdx_iff_getElem?]
  exact ⟨fun ⟨x, j, hx, he⟩ => ⟨j, x, hx, he⟩, fun ⟨j, x, hx, he⟩ => ⟨x, j, hx, he⟩⟩

theorem mem_itemEntries : e ∈ itemEntries sub item ↔
      (∃ kind, item.1 = kind.key ∧ e = ⟨[.key item.1], kind, item.2⟩) ∨
        (Step.key item.1).Passes ∧ ∃ e' ∈ sub item.2, e'.below (.key item.1) = e := by
  cases hkind : kindOf item.1 with
  | some kind =>
    rw [itemEntries, hkind, Option.elim_some, mem_singleton]
    constructor
    · intro he
      exact .inl ⟨kind, kindOf_eq_some.mp hkind, he⟩
    · rintro (⟨kind', hkey, he⟩ | ⟨hpasses, -⟩)
      · have hsame := kindOf_eq_some.mpr hkey
        rw [hkind] at hsame
        cases hsame
        exact he
      · have hnone := hpasses.2
        rw [hkind] at hnone
        cases hnone
  | none =>
    have hnot : ∀ kind, item.1 ≠ Kind.key kind := by
      intro kind hkey
      have hsome := kindOf_eq_some.mpr hkey
      rw [hkind] at hsome
      cases hsome
    rw [itemEntries, hkind, Option.elim_none]
    by_cases hoverrides : item.1 = "overrides"
    · simp [hoverrides, Step.Passes, fun kind => Ne.symm (kind_key_ne_overrides kind)]
    · simp [hoverrides, hnot, Step.Passes, hkind]

theorem entryAt_iff {r : PyRef} : EntryAt h r path kind v ↔
      (path = [.key kind.key] ∧ child h r (.key kind.key) = some v) ∨
        ∃ step c rest, path = step :: rest ∧ step.Passes ∧ child h r step = some c ∧
          EntryAt h c rest kind v := by
  constructor
  · intro hentry
    cases hentry with
    | here hchild => exact .inl ⟨rfl, hchild⟩
    | under hpasses hchild hrest => exact .inr ⟨_, _, _, rfl, hpasses, hchild, hrest⟩
  · rintro (⟨rfl, hchild⟩ | ⟨step, c, rest, rfl, hpasses, hchild, hrest⟩)
    · exact .here hchild
    · exact .under hpasses hchild hrest

theorem entryAt_list_iff {i : Nat} (ho : h[i]? = some (.list xs)) : EntryAt h (.obj i) path kind v ↔
      ∃ j x rest, xs[j]? = some x ∧ path = .index j :: rest ∧ EntryAt h x rest kind v := by
  have hkey : ∀ k, child h (.obj i) (.key k) = none := by
    intro k
    simp [child, itemsAt, ho]
  have hindex : ∀ j, child h (.obj i) (.index j) = xs[j]? := by
    intro j
    simp [child, elementsAt, ho]
  rw [entryAt_iff, hkey]
  constructor
  · rintro (⟨-, hchild⟩ | ⟨step, c, rest, rfl, -, hchild, hrest⟩)
    · cases hchild
    · cases step with
      | index j =>
        rw [hindex] at hchild
        exact ⟨j, c, rest, hchild, rfl, hrest⟩
      | key k =>
        rw [hkey] at hchild
        cases hchild
  · rintro ⟨j, x, rest, hx, rfl, hrest⟩
    exact .inr ⟨.index j, x, rest, rfl, trivial, (hindex j).trans hx, hrest⟩

theorem entryAt_dict_iff {i : Nat} {items : List (PyAtom × PyRef)} (ho : h[i]? = some (.dict items))
    (hkeys : (items.map Prod.fst).Nodup) : EntryAt h (.obj i) path kind v ↔
      ∃ item ∈ items, (item.1 = kind.key ∧ path = [.key item.1] ∧ item.2 = v) ∨
        (Step.key item.1).Passes ∧ ∃ rest, path = .key item.1 :: rest ∧ EntryAt h item.2 rest kind v := by
  have hkey : ∀ k, child h (.obj i) (.key k) = items.lookup k := by
    intro k
    simp [child, itemsAt, ho]
  have hindex : ∀ j, child h (.obj i) (.index j) = none := by
    intro j
    simp [child, elementsAt, ho]
  rw [entryAt_iff, hkey]
  constructor
  · rintro (⟨rfl, hchild⟩ | ⟨step, c, rest, rfl, hpasses, hchild, hrest⟩)
    · exact ⟨(kind.key, v), mem_of_lookup hchild, .inl ⟨rfl, rfl, rfl⟩⟩
    · cases step with
      | index j =>
        rw [hindex] at hchild
        cases hchild
      | key k =>
        rw [hkey] at hchild
        exact ⟨(k, c), mem_of_lookup hchild, .inr ⟨hpasses, rest, rfl, hrest⟩⟩
  · rintro ⟨item, hitem, ⟨hkind, rfl, rfl⟩ | ⟨hpasses, rest, rfl, hrest⟩⟩
    · have hlookup := lookup_of_mem hkeys hitem
      rw [hkind] at hlookup
      exact .inl ⟨by rw [hkind], hlookup⟩
    · have hlookup := (hkey item.1).trans (lookup_of_mem hkeys hitem)
      exact .inr ⟨.key item.1, item.2, rest, rfl, hpasses, hlookup, hrest⟩

theorem not_entryAt_atom {a : PyAtom} : ¬ EntryAt h (.atom a) path kind v := by
  intro hentry
  have hnone : ∀ step, child h (.atom a) step = none := by
    intro step
    cases step <;> rfl
  cases hentry with
  | here hchild | under _ hchild _ =>
    rw [hnone] at hchild
    cases hchild

/-- **The entries.** Those that are listed are those that paths lead to. -/
theorem mem_entries (hkeys : KeysNodup h) {n : Nat} {r : PyRef} {cs : List Nat}
    (hcells : cells h n r = some cs) : e ∈ entries h n r ↔ EntryAt h r e.path e.kind e.value := by
  induction n generalizing r cs e with
  | zero =>
    cases r with
    | atom a => exact ⟨fun hmem => absurd hmem not_mem_nil, fun h => absurd h not_entryAt_atom⟩
    | obj i => cases hcells
  | succ n ih =>
    cases r with
    | atom a => exact ⟨fun hmem => absurd hmem not_mem_nil, fun h => absurd h not_entryAt_atom⟩
    | obj i =>
      obtain ⟨o, bs, ho, hbs, -⟩ := cells_obj_eq_some.mp hcells
      rw [entries, ho, Option.elim_some]
      cases o with
      | list xs =>
        rw [mem_entries_list, entryAt_list_iff ho]
        constructor
        · rintro ⟨j, x, hx, e', he', rfl⟩
          obtain ⟨as, has⟩ := exists_of_gather hbs (mem_of_getElem? hx)
          exact ⟨j, x, e'.path, hx, rfl, (ih has).mp he'⟩
        · rintro ⟨j, x, rest, hx, hpath, hrest⟩
          obtain ⟨as, has⟩ := exists_of_gather hbs (mem_of_getElem? hx)
          refine ⟨j, x, hx, ⟨rest, e.kind, e.value⟩, (ih has).mpr hrest, ?_⟩
          rw [Entry.below, ← hpath]
      | dict items =>
        have hnodup := hkeys (.obj i) items (itemsAt_eq_some.mpr ⟨i, rfl, ho⟩)
        rw [mem_flatMap, entryAt_dict_iff ho hnodup]
        apply exists_congr
        intro item
        apply and_congr_right
        intro hitem
        obtain ⟨as, has⟩ := exists_of_gather hbs (mem_map_of_mem hitem)
        rw [mem_itemEntries]
        constructor
        · rintro (⟨kind, hkind, rfl⟩ | ⟨hpasses, e', he', rfl⟩)
          · exact .inl ⟨hkind, rfl, rfl⟩
          · exact .inr ⟨hpasses, e'.path, rfl, (ih has).mp he'⟩
        · rintro (⟨hkind, hpath, hvalue⟩ | ⟨hpasses, rest, hpath, hrest⟩)
          · exact .inl ⟨e.kind, hkind, by rw [← hpath, hvalue]⟩
          · refine .inr ⟨hpasses, ⟨rest, e.kind, e.value⟩, (ih has).mpr hrest, ?_⟩
            rw [Entry.below, ← hpath]

theorem nodup_map_below {es : List Entry} (h : (es.map Entry.path).Nodup) (step : Step) :
    ((es.map (Entry.below step)).map Entry.path).Nodup := by
  have hmap : (es.map (Entry.below step)).map Entry.path = (es.map Entry.path).map (step :: ·) := by
    rw [map_map, map_map]
    rfl
  rw [hmap]
  exact h.map (cons_injective)

theorem head_of_mem_itemEntries (h : e ∈ itemEntries sub item) : e.path.head? = some (.key item.1) := by
  rcases mem_itemEntries.mp h with ⟨kind, -, rfl⟩ | ⟨-, e', -, rfl⟩
  · rfl
  · rfl

theorem nodup_flatMap_paths {β : Type} {xs : List β} {f : β → List Entry} (first : β → Step)
    (hfirst : (xs.map first).Nodup) (hf : ∀ x ∈ xs, ((f x).map Entry.path).Nodup)
    (hhead : ∀ x, ∀ e ∈ f x, e.path.head? = some (first x)) :
    ((xs.flatMap f).map Entry.path).Nodup := by
  rw [map_flatMap, nodup_flatMap]
  refine ⟨hf, (pairwise_map.mp hfirst).imp ?_⟩
  intro x y hne path hx hy
  obtain ⟨e, he, rfl⟩ := mem_map.mp hx
  obtain ⟨e', he', hpath⟩ := mem_map.mp hy
  have hsame := hhead y e' he'
  rw [hpath, hhead x e he] at hsame
  exact hne (Option.some.inj hsame)

theorem nodup_itemEntries (h : ((sub item.2).map Entry.path).Nodup) :
    ((itemEntries sub item).map Entry.path).Nodup := by
  rw [itemEntries]
  cases kindOf item.1 with
  | some kind => exact nodup_singleton _
  | none =>
    rw [Option.elim_none]
    split
    · exact nodup_nil
    · exact nodup_map_below h _

theorem nodup_entries (hkeys : KeysNodup h) (n : Nat) (r : PyRef) :
    ((entries h n r).map Entry.path).Nodup := by
  induction n generalizing r with
  | zero => cases r <;> exact nodup_nil
  | succ n ih =>
    cases r with
    | atom a => exact nodup_nil
    | obj i =>
      rw [entries]
      cases ho : h[i]? with
      | none => exact nodup_nil
      | some o =>
        rw [Option.elim_some]
        cases o with
        | list xs =>
          apply nodup_flatMap_paths fun x => Step.index x.2
          · have hindices : xs.zipIdx.map (fun x => Step.index x.2) =
                (xs.zipIdx.map Prod.snd).map Step.index := by
              rw [map_map]
              rfl
            rw [hindices, zipIdx_map_snd]
            exact (nodup_range' ..).map fun _ _ heq => Step.index.inj heq
          · intro x _
            exact nodup_map_below (ih x.1) _
          · intro x e he
            obtain ⟨e', -, rfl⟩ := mem_map.mp he
            rfl
        | dict items =>
          have hnodup := hkeys (.obj i) items (itemsAt_eq_some.mpr ⟨i, rfl, ho⟩)
          apply nodup_flatMap_paths fun item => Step.key item.1
          · have hsteps : items.map (fun item => Step.key item.1) =
                (items.map Prod.fst).map Step.key := by
              rw [map_map]
              rfl
            rw [hsteps]
            exact hnodup.map fun _ _ heq => Step.key.inj heq
          · intro item _
            exact nodup_itemEntries (ih item.2)
          · intro item e he
            exact head_of_mem_itemEntries he

end ZbkcTasks.BuildPackages
