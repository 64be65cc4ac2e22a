import ZbkcTasks.BuildLookup
import ZbkcTasks.PyText

/-! Which packages are built for a role of `install.upgrade`. A field of the role comes before that of the
overrides; but a tag is taken before a branch and a branch before a commit, wherever they come from. -/

namespace ZbkcTasks.BuildPackages

open List Option Prog PyHeap

abbrev Text := List Char

/-! ### The loop of the task -/

/-- What the loop finds out once, before its first turn. -/
structure Host where
  gitUrl : Text
  pkgType : Text
  osType : Text
  osVersion : Text
  arch : Text
  dist : Text
  minMachine : Except PyError PyRef
  goodMachine : Except PyError PyRef

structure Job where
  network : Text
  gitUrl : Text
  pkgType : Text
  osType : Text
  osVersion : Text
  dist : Text
  arch : Text
  sha1 : Text
  tag : Text
  branch : Text
  flavor : Text
  buildFlavor : Text
  httpFlavor : Text
  httpArch : Text
  target : Text

namespace Task

inductive Op
  | lsRemote (url ref : Text)
  | setProvider
  | net
  | image (osType osVersion arch : Text)
  | flavorRange (minMachine goodMachine : PyRef) (arch select : Text)
  | getDefaultArch
  /-- `openstack.flavor` of the machine that serves the packages. -/
  | flavor (arch select : Text)
  | make (job : Job)

abbrev sig : Sig := ⟨Op, fun _ => Except PyError Text⟩

abbrev M := Prog sig PyHeap PyError

def call (o : Op) : M Text := .op o orThrow

def isTrue (r : PyRef) : M Bool := .read fun h => .ret (truthyAt h r)

def asText : PyRef → M Text
  | .atom (.str s) => .ret s.toList
  | _ => .throw .typeError

def getSha1 (host : Host) (ref : PyRef) : M Text := do
  let ref ← asText ref
  let lsRemote ← call (.lsRemote host.gitUrl ref)
  (words lsRemote).head?.elim (.throw .indexError) .ret

def commitOf (host : Host) (c : Config) : M Text := do
  let tagged ← isTrue c.tag
  let branched ← isTrue c.branch
  if tagged = true then getSha1 host c.tag
  else if branched = true then getSha1 host c.branch
  else asText c.sha1

def select (provider : Text) : Text := if provider = "ovh".toList then "^(vps|hg)-.*ssd".toList else []

def networkOption (network : Text) : Text :=
  if network = [] then [] else " OPENSTACK_NETWORK='".toList ++ network ++ "' ".toList

def target (host : Host) (flavor sha1 : Text) : Text :=
  "zbkc-".toList ++ host.pkgType ++ '-' :: host.dist ++ '-' :: host.arch ++ '-' :: flavor ++ '-' :: sha1

def build (host : Host) (flavor tag branch sha1 : Text) : M Unit := do
  let provider ← call .setProvider
  let network ← call .net
  let _ ← call (.image host.osType host.osVersion host.arch)
  let minMachine ← orThrow host.minMachine
  let goodMachine ← orThrow host.goodMachine
  let buildFlavor ← call (.flavorRange minMachine goodMachine host.arch (select provider))
  let defaultArch ← call .getDefaultArch
  let httpFlavor ← call (.flavor defaultArch (select provider))
  let _ ← call (.make
    { network := networkOption network, gitUrl := host.gitUrl, pkgType := host.pkgType
      osType := host.osType, osVersion := host.osVersion, dist := host.dist, arch := host.arch
      sha1, tag, branch, flavor, buildFlavor, httpFlavor, httpArch := defaultArch
      target := target host flavor sha1 })
  return ()

def turn (host : Host) (c : Config) : M Unit := do
  let sha1 ← commitOf host c
  let flavor ← asText c.flavor
  let tag ← asText c.tag
  let branch ← asText c.branch
  build host flavor tag branch sha1

end Task

/-! ### References -/

/-- What packages are built from: a tag or a branch, which `git ls-remote` is asked for, or a commit. -/
inductive Ref
  | named (name : PyRef)
  | commit (sha1 : PyRef)
  deriving DecidableEq

def chosen (h : PyHeap) (tag branch sha1 : PyRef) : Ref :=
  if truthyAt h tag = true then .named tag
  else if truthyAt h branch = true then .named branch
  else .commit sha1

abbrev Items := List (PyAtom × PyRef)

def ownRef (h : PyHeap) (role : Items) : Ref :=
  chosen h ((role.lookup (.str "tag")).getD (str "")) ((role.lookup (.str "branch")).getD (str ""))
    ((role.lookup (.str "sha1")).getD pyNone)

def Names (h : PyHeap) (items : Items) (key : PyAtom) : Prop :=
  ∃ v, items.lookup key = some v ∧ truthyAt h v = true

def filled (role overrides : Items) (key : PyAtom) (default : PyRef) : PyRef :=
  (role.lookup key).getD ((overrides.lookup key).getD default)

/-- The overrides fill in a field that comes before the one which the role names. -/
def Outranked (h : PyHeap) (role overrides : Items) : Prop :=
  (role.lookup (.str "tag") = none ∧
      ∃ tag, overrides.lookup (.str "tag") = some tag ∧ truthyAt h tag = true ∧
        role.lookup (.str "branch") ≠ some tag) ∨
    (¬ Names h role "tag" ∧ role.lookup (.str "branch") = none ∧ Names h overrides "branch")

def NamesRef (h : PyHeap) (role : Items) : Prop :=
  Names h role "tag" ∨ Names h role "branch" ∨ Names h role "sha1"

variable {key : PyAtom} {default config : PyRef} {role items : Items} {cs : List Nat} {c : Config}

section Ranks

variable {h : PyHeap} {overrides : Items} {tag branch sha1 : PyRef}

theorem not_names_iff : ¬ Names h role key ↔ truthyAt h ((role.lookup key).getD (str "")) = false := by
  rw [Names]
  cases role.lookup key with
  | none => simp [truthyAt, str, PyAtom.truthy]
  | some v => simp

theorem names_iff : Names h role key ↔ truthyAt h ((role.lookup key).getD (str "")) = true := by
  rw [← not_iff_not, not_names_iff, Bool.not_eq_true]

theorem filled_of_some {v : PyRef} (hv : role.lookup key = some v) :
    filled role overrides key default = v := by
  rw [filled, hv, getD_some]

theorem filled_of_none (hnone : role.lookup key = none) :
    filled role overrides key default = (overrides.lookup key).getD default := by
  rw [filled, hnone, getD_none]

theorem truthyAt_filled : truthyAt h (filled role overrides key (str "")) = true ↔
      Names h role key ∨ role.lookup key = none ∧ Names h overrides key := by
  rw [names_iff, names_iff, filled]
  cases hlookup : role.lookup key with
  | none => simp [truthyAt, str, PyAtom.truthy]
  | some v => simp

theorem chosen_of_tag (htag : truthyAt h tag = true) :
    chosen h tag branch sha1 = .named tag := if_pos htag

theorem chosen_of_branch (htag : ¬ truthyAt h tag = true) (hbranch : truthyAt h branch = true) :
    chosen h tag branch sha1 = .named branch := by
  rw [chosen, if_neg htag, if_pos hbranch]

theorem chosen_of_sha1 (htag : ¬ truthyAt h tag = true) (hbranch : ¬ truthyAt h branch = true) :
    chosen h tag branch sha1 = .commit sha1 := by
  rw [chosen, if_neg htag, if_neg hbranch]

/-- **Ranks.** The reference that the task takes is the role's own one unless the overrides outrank it. -/
theorem chosen_eq_ownRef_iff (hnames : NamesRef h role) :
    chosen h (filled role overrides "tag" (str "")) (filled role overrides "branch" (str ""))
        (filled role overrides "sha1" pyNone) = ownRef h role ↔ ¬ Outranked h role overrides := by
  by_cases htag : Names h role "tag"
  · -- the role's tag comes first in both
    obtain ⟨tag, hlookup, htrue⟩ := htag
    have hnot : ¬ Outranked h role overrides := by
      rintro (⟨hnone, -⟩ | ⟨hno, -⟩)
      · rw [hlookup] at hnone
        cases hnone
      · exact hno ⟨tag, hlookup, htrue⟩
    rw [filled_of_some hlookup, ownRef, hlookup, getD_some, chosen_of_tag htrue, chosen_of_tag htrue]
    exact iff_of_true rfl hnot
  have hownTag : ¬ truthyAt h ((role.lookup (.str "tag")).getD (str "")) = true := mt names_iff.mpr htag
  by_cases hfilled : role.lookup (.str "tag") = none ∧ Names h overrides "tag"
  · -- the tag of the overrides is taken
    obtain ⟨hnone, tag, hlookup, htrue⟩ := hfilled
    have hleft : filled role overrides "tag" (str "") = tag := by
      rw [filled_of_none hnone, hlookup, getD_some]
    rw [hleft, chosen_of_tag htrue, ownRef]
    by_cases hbranch : Names h role "branch"
    · rw [chosen_of_branch hownTag (names_iff.mp hbranch)]
      obtain ⟨branch, hbranchLookup, -⟩ := hbranch
      rw [hbranchLookup, getD_some, Ref.named.injEq]
      constructor
      · rintro rfl (⟨-, tag', hlookup', -, hdiffer⟩ | ⟨-, hnoBranch, -⟩)
        · rw [hlookup] at hlookup'
          exact hdiffer (hbranchLookup.trans hlookup')
        · rw [hbranchLookup] at hnoBranch
          cases hnoBranch
      · intro hnot
        by_contra hdiffer
        refine hnot (.inl ⟨hnone, tag, hlookup, htrue, ?_⟩)
        rw [hbranchLookup]
        exact fun hsame => hdiffer (some.inj hsame).symm
    · rw [chosen_of_sha1 hownTag (mt names_iff.mpr hbranch)]
      refine iff_of_false (by simp) (not_not.mpr (.inl ⟨hnone, tag, hlookup, htrue, ?_⟩))
      intro hsame
      exact hbranch ⟨tag, hsame, htrue⟩
  · -- neither has a tag
    have hleftTag : ¬ truthyAt h (filled role overrides "tag" (str "")) = true := by
      rw [truthyAt_filled]
      exact not_or.mpr ⟨htag, hfilled⟩
    have houtranked : Outranked h role overrides ↔
        role.lookup (.str "branch") = none ∧ Names h overrides "branch" := by
      constructor
      · rintro (⟨hnone, tag, hlookup, htrue, -⟩ | ⟨-, hbranch⟩)
        · exact absurd ⟨hnone, tag, hlookup, htrue⟩ hfilled
        · exact hbranch
      · exact fun hbranch => .inr ⟨htag, hbranch⟩
    rw [houtranked, ownRef]
    by_cases hbranch : Names h role "branch"
    · obtain ⟨branch, hlookup, htrue⟩ := hbranch
      rw [filled_of_some hlookup, chosen_of_branch hleftTag htrue, hlookup, getD_some,
        chosen_of_branch hownTag htrue]
      simp
    have hownBranch : ¬ truthyAt h ((role.lookup (.str "branch")).getD (str "")) = true :=
      mt names_iff.mpr hbranch
    rw [chosen_of_sha1 hownTag hownBranch]
    by_cases hother : role.lookup (.str "branch") = none ∧ Names h overrides "branch"
    · rw [chosen_of_branch hleftTag (truthyAt_filled.mpr (.inr hother))]
      exact iff_of_false (by simp) (not_not.mpr hother)
    · have hleftBranch : ¬ truthyAt h (filled role overrides "branch" (str "")) = true := by
        rw [truthyAt_filled]
        exact not_or.mpr ⟨hbranch, hother⟩
      obtain ⟨sha1, hlookup, -⟩ : Names h role "sha1" :=
        (hnames.resolve_left htag).resolve_left hbranch
      rw [chosen_of_sha1 hleftTag hleftBranch, filled_of_some hlookup, hlookup, getD_some]
      exact iff_of_true rfl hother

end Ranks

/-! ### Overrides that win -/

/-- What merging `b` into `a` leaves: keys that `a` lacks, and of the others the atoms that are not `None`.
-/
def OverrideWins (h h' : PyHeap) (a b : PyRef) : Prop :=
  ∀ items, itemsAt h a = some items → ∃ items', itemsAt h' a = some items' ∧
    (∀ key, items.lookup key = none → items'.lookup key = ((itemsAt h b).getD []).lookup key) ∧
    ∀ key u v, items.lookup key = some (.atom u) → ((itemsAt h b).getD []).lookup key = some (.atom v) →
      v ≠ .none → items'.lookup key = some (.atom v)

def winEnv (mayRaise : Prop) : Env sig PyHeap Unit
  | .deepMerge a b, h, x, ans, h', x' =>
      env mayRaise (.deepMerge a b) h x ans h' x' ∧ (ans = .ok () → OverrideWins h h' a b)

theorem env_of_winEnv (mayRaise : Prop) (o : Op) (h : PyHeap) (x : Unit) (ans : Except PyError Unit)
    (h' : PyHeap) (x' : Unit) (hwin : winEnv mayRaise o h x ans h' x') : env mayRaise o h x ans h' x' := by
  cases o with
  | deepMerge a b => exact hwin.1

def overridesFor (h : PyHeap) (ctx : PyRef) (project : PyAtom) : Items :=
  overridesIn h ((child h ctx (.key "overrides")).getD pyNone) project

variable {h : PyHeap}

theorem overridesIn_of_falsy {r : PyRef} (hfalsy : truthyAt h r = false) (project : PyAtom) :
    overridesIn h r project = [] := by
  have hnone : child h r (.key "install") = none := by
    cases hitems : itemsAt h r with
    | none => rw [child, hitems, bind_none]
    | some items =>
      obtain ⟨i, rfl, ho⟩ := itemsAt_eq_some.mp hitems
      rw [truthyAt, ho] at hfalsy
      have hempty : items = [] := by simpa [PyObj.refs] using hfalsy
      rw [child_key hitems, hempty, lookup_nil]
  rw [overridesIn, hnone, bind_none, getD_none]

section Upgrade

variable {mayRaise : Prop} {h₀ : PyHeap} {ctx : PyRef} {w : W} {project : PyAtom}

abbrev wins {α : Type} (mayRaise : Prop) (p : M α) (Q : Outcome PyError α → W → Prop) (w : W) : Prop :=
  wp (winEnv mayRaise) (fun _ _ _ => True) p Q w

theorem wins_deepMerge (hset : Setting mayRaise h₀ ctx True) {b : PyRef} {k : Nat} (hext : Extends h₀ w.st)
    (hfresh : ∃ m cs, IsTree w.st m config cs ∧ ∀ i ∈ cs, h₀.length ≤ i ∧ i < k)
    (hb : Valid h₀ b ∨ ∃ j, k ≤ j ∧ b = .obj j ∧ w.st[j]? = some (.dict []))
    (hitems : itemsAt w.st config = some items) :
    wins mayRaise (.op (.deepMerge config b) orThrow : M Unit)
      (Keeps h₀ True fun _ h => ∃ items', itemsAt h config = some items' ∧
        ∀ key, items.lookup key = none → items'.lookup key = ((itemsAt w.st b).getD []).lookup key) w := by
  refine ⟨trivial, fun ans h' x hwin => ?_⟩
  have hend := (ends_deepMerge hset hext hfresh hb).2 ans h' x hwin.1
  cases ans with
  | ok _ =>
    obtain ⟨items', hitems', hlookup, -⟩ := hwin.2 rfl items hitems
    exact ⟨hend.1, items', hitems', hlookup⟩
  | error e => exact hend

theorem wins_applyOverrides (hset : Setting mayRaise h₀ ctx True) {n : Nat} (hext : Extends h₀ w.st)
    (hcells : cells w.st n config = some cs) (hrole : itemsAt w.st config = some role)
    (hproject : (role.lookup (.str "project")).getD (str "zbkc") = .atom project) :
    wins mayRaise (applyOverrides ctx n config)
      (Keeps h₀ True fun o h => ∃ items, itemsAt h o = some items ∧
        ∀ key, role.lookup key = none → items.lookup key = (overridesFor h₀ ctx project).lookup key) w := by
  obtain ⟨i, rfl, ho⟩ := itemsAt_eq_some.mp hrole
  have hne : PyRef.obj i ≠ pyNone := fun heq => by cases heq
  -- the copy has the role's keys, and the same project
  have hcopy : ∀ (own : PyRef) (h : PyHeap) (items : Items), Copied w.st n (.obj i) h own →
      itemsAt h own = some items →
      (∀ key, role.lookup key = none → items.lookup key = none) ∧
        (items.lookup (.str "project")).getD (str "zbkc") = .atom project := by
    intro own h items hcopied hitems
    obtain ⟨j, rs, rfl, hj, hsame⟩ := hcopied.obj i _ rfl ho
    rw [itemsAt_eq_some.mpr ⟨j, rfl, hj⟩] at hitems
    obtain rfl := some.inj hitems
    constructor
    · intro key hnone
      rcases lookup_zip hsame key with ⟨-, hnone'⟩ | ⟨v, v', hv, -⟩
      · exact hnone'
      · rw [hv] at hnone
        cases hnone
    · rcases lookup_zip hsame (.str "project") with ⟨hnone, hnone'⟩ | ⟨v, v', hv, hv', hatom⟩
      · rw [hnone']
        rw [hnone] at hproject
        exact hproject
      · rw [hv, getD_some] at hproject
        rw [hv', getD_some, hatom project hproject]
  apply keeps_applyOverrides (env_of_winEnv mayRaise) hset hext hcells (fun hf => absurd trivial hf)
  · intro own w' items _ hcopied hitems hfalsy
    refine ⟨items, hitems, fun key hnone => ?_⟩
    rw [(hcopy own w'.st items (hcopied hne) hitems).1 key hnone, overridesFor,
      overridesIn_of_falsy hfalsy, lookup_nil]
  · intro own w' items citems hext' howned hcopied hitems hcitems _
    obtain ⟨hkeys, hown⟩ := hcopy own w'.st items (hcopied hne) hitems
    rw [hown]
    obtain ⟨m, cs', htree, hcs⟩ := howned.fresh
    apply keeps_mergeOverrides (env_of_winEnv mayRaise) hset hext' (valid_overrides hset hcitems)
      ⟨m, cs', htree, fun i hi => hext.length_le.trans (hcs i hi)⟩ (fun hf => absurd trivial hf)
      (fun hf => absurd trivial hf)
    intro b k w'' hext'' hgrown hfresh hb hoverrides
    refine wp_mono ?_ (wins_deepMerge hset hext'' hfresh hb (hgrown.itemsAt hitems))
    rintro (_ | e | _) w3 hend
    · obtain ⟨hext3, items', hitems', hlookup⟩ := hend
      refine ⟨hext3, items', hitems', fun key hnone => ?_⟩
      rw [hlookup key (hkeys key hnone), hoverrides project rfl, overridesFor, child_key hcitems]
    · exact hend
    · exact hend

theorem wins_field {o : PyRef} {overrides : Items} (hext : Extends h₀ w.st)
    (ho : itemsAt w.st o = some items) (hrole : itemsAt w.st config = some role)
    (hlookup : role.lookup key = none → items.lookup key = overrides.lookup key) :
    wins mayRaise (get o key default >>= get config key)
      (Keeps h₀ True fun v h => h = w.st ∧ v = filled role overrides key default) w := by
  apply wp_env_mono (env_of_winEnv mayRaise)
  apply ends_bind (ends_get key default hext (valid_of_itemsAt ho) fun hf => absurd trivial hf)
  rintro u w1 hext1 ⟨hst1, items', hitems', hu⟩
  rw [ho] at hitems'
  obtain rfl := some.inj hitems'
  rw [← hst1] at hrole
  apply ends_mono _ (ends_get key u hext1 (valid_of_itemsAt hrole) fun hf => absurd trivial hf)
  rintro v h ⟨rfl, role', hrole', hv⟩
  rw [hrole] at hrole'
  obtain rfl := some.inj hrole'
  refine ⟨hst1, ?_⟩
  rw [hv, hu, filled]
  cases hown : role.lookup key with
  | none => rw [hlookup hown]
  | some own => rfl

/-- The overrides stand behind the role's own fields, one by one. -/
structure FilledFrom (role overrides : Items) (c : Config) : Prop where
  tag : c.tag = filled role overrides "tag" (str "")
  branch : c.branch = filled role overrides "branch" (str "")
  sha1 : c.sha1 = filled role overrides "sha1" pyNone

/-- **Fields.** What `get_config_install_upgrade` finds for a role, field by field. -/
theorem wins_upgradeRole (hset : Setting mayRaise h₀ ctx True) {n : Nat} (hext : Extends h₀ w.st)
    (hcells : cells h₀ n config = some cs) (hrole : itemsAt h₀ config = some role)
    (hproject : (role.lookup (.str "project")).getD (str "zbkc") = .atom project) :
    wins mayRaise (upgradeRole ctx n config)
      (Keeps h₀ True fun c _ => FilledFrom role (overridesFor h₀ ctx project) c) w := by
  have hne : config ≠ pyNone := by
    rintro rfl
    cases hrole
  have hgiven : givenOrEmpty config = .ret config := if_neg hne
  rw [upgradeRole, hgiven]
  apply keeps_bind (wins_applyOverrides hset hext (hext.cells hcells) (hext.itemsAt hrole) hproject)
  rintro o w1 hext1 ⟨items, hitems, hlookup⟩
  have hfield : ∀ (key : PyAtom) default (w' : W), Extends h₀ w'.st → w'.st = w1.st →
      wins mayRaise (get o key default >>= get config key)
        (Keeps h₀ True fun v h => h = w1.st ∧
          v = filled role (overridesFor h₀ ctx project) key default) w' := by
    intro key default w' hext' hst'
    rw [← hst'] at hitems ⊢
    exact wins_field hext' hitems (hext'.itemsAt hrole) (hlookup key)
  have hflavor : wins mayRaise (get o "flavor" (str "basic")) (Keeps h₀ True fun _ h => h = w1.st) w1 := by
    apply wp_env_mono (env_of_winEnv mayRaise)
    apply ends_mono _ (ends_get "flavor" (str "basic") hext1 (valid_of_itemsAt hitems)
      fun hf => absurd trivial hf)
    exact fun _ _ hend => hend.1
  apply keeps_bind hflavor
  intro flavor w2 hext2 hst2
  apply keeps_bind (hfield "tag" (str "") w2 hext2 hst2)
  rintro tag w3 hext3 ⟨hst3, htag⟩
  apply keeps_bind (hfield "branch" (str "") w3 hext3 hst3)
  rintro branch w4 hext4 ⟨hst4, hbranch⟩
  apply keeps_bind (hfield "sha1" pyNone w4 hext4 hst4)
  rintro sha1 w5 hext5 ⟨_, hsha1⟩
  exact ⟨hext5, htag, hbranch, hsha1⟩

end Upgrade

/-! ### What is built -/

variable {log : List Act}

namespace Task

/-- Git, the cloud and `make` may answer anything; they do not know the heap. -/
def env : Env sig PyHeap Unit := fun _ h _ _ h' _ => h' = h

abbrev W := World sig PyHeap Unit

inductive Act
  | looked (ref listing : Text)
  | made (sha1 : Text)
  deriving DecidableEq

def actOf : Op → Except PyError Text → Option Act
  | .lsRemote _ ref, .ok listing => some (.looked ref listing)
  | .make job, _ => some (.made job.sha1)
  | _, _ => none

def acts (log : List (Event sig PyHeap Unit)) : List Act := log.filterMap fun e => actOf e.op e.ans

/-- The commit comes from the reference: it is the first word that git lists for the name, or is given. -/
def Settles (acts : List Act) (sha1 : Text) : Ref → Prop
  | .named name => ∃ s listing rest, name = str s ∧ acts = [.looked s.toList listing] ∧
      words listing = sha1 :: rest
  | .commit given => ∃ s, given = str s ∧ acts = [] ∧ sha1 = s.toList

def Builds (log : List (Event sig PyHeap Unit)) (ref : Ref) : Prop :=
  ∃ sha1 earlier, acts log = .made sha1 :: earlier ∧ Settles earlier sha1 ref

theorem str_toList_inj {s s' : String} (h : s.toList = s'.toList) : str s = str s' := by
  rw [String.toList_inj.mp h]

theorem Builds.unique {log : List (Event sig PyHeap Unit)} {ref ref' : Ref} (h : Builds log ref)
    (h' : Builds log ref') : ref = ref' := by
  obtain ⟨sha1, earlier, hacts, hsettles⟩ := h
  obtain ⟨sha1', earlier', hacts', hsettles'⟩ := h'
  rw [hacts] at hacts'
  obtain ⟨hmade, rfl⟩ := List.cons.inj hacts'
  cases hmade
  cases ref with
  | named name =>
    obtain ⟨s, listing, rest, rfl, rfl, -⟩ := hsettles
    cases ref' with
    | named name' =>
      obtain ⟨s', listing', rest', rfl, hlooked, -⟩ := hsettles'
      have hsame : s.toList = s'.toList := by
        injection hlooked with hlooked
        injection hlooked
      rw [str_toList_inj hsame]
    | commit given =>
      obtain ⟨_, -, hnil, -⟩ := hsettles'
      cases hnil
  | commit given =>
    obtain ⟨s, rfl, rfl, rfl⟩ := hsettles
    cases ref' with
    | named name' =>
      obtain ⟨_, _, _, -, hnil, -⟩ := hsettles'
      cases hnil
    | commit given' =>
      obtain ⟨s', rfl, -, hsame⟩ := hsettles'
      rw [str_toList_inj hsame]

section Turn

variable {w : W} {host : Host}

abbrev yields {α : Type} (p : M α) (P : α → W → Prop) (w : W) : Prop :=
  wp env (fun _ _ _ => True) p (gives P fun _ => True) w

theorem yields_call (o : Op) : yields (call o) (fun a w' => w'.st = w.st ∧
      acts w'.log = (actOf o (.ok a)).toList ++ acts w.log) w := by
  refine ⟨trivial, fun ans h x hsame => ?_⟩
  cases ans with
  | error e => exact trivial
  | ok a =>
    refine ⟨hsame, ?_⟩
    show List.filterMap _ (_ :: _) = _
    rw [filterMap_cons]
    cases actOf o (.ok a) <;> simp [acts]

theorem yields_aside {o : Op} (ho : ∀ a, actOf o (.ok a) = none) (hlog : acts w.log = log) :
    yields (call o) (fun _ w' => acts w'.log = log) w := by
  apply wp_result _ (yields_call o)
  rintro a w' ⟨-, hacts⟩
  rw [hacts, ho a, toList_none, nil_append, hlog]

theorem yields_asText (r : PyRef) :
    yields (asText r) (fun text w' => w' = w ∧ ∃ s, r = str s ∧ text = s.toList) w := by
  cases r with
  | obj i => exact trivial
  | atom a =>
    cases a with
    | str s => exact ⟨rfl, s, rfl, rfl⟩
    | none | bool | int | float => exact trivial

theorem yields_orThrow {α : Type} (x : Except PyError α) : yields (orThrow x) (fun _ w' => w' = w) w := by
  cases x with
  | ok a => exact rfl
  | error e => exact trivial

theorem yields_getSha1 {ref : PyRef} (hlog : acts w.log = []) :
    yields (getSha1 host ref) (fun sha1 w' => Settles (acts w'.log) sha1 (.named ref)) w := by
  apply wp_seq (yields_asText ref)
  rintro text w' ⟨rfl, s, rfl, rfl⟩
  apply wp_seq (yields_call (.lsRemote host.gitUrl s.toList))
  rintro listing w1 ⟨-, hacts⟩
  rw [hlog] at hacts
  cases hwords : words listing with
  | nil => exact trivial
  | cons sha1 rest => exact ⟨s, listing, rest, rfl, hacts, hwords⟩

theorem yields_commitOf (hlog : acts w.log = []) : yields (commitOf host c)
      (fun sha1 w' => Settles (acts w'.log) sha1 (chosen w.st c.tag c.branch c.sha1)) w := by
  show yields (if truthyAt w.st c.tag = true then getSha1 host c.tag
    else if truthyAt w.st c.branch = true then getSha1 host c.branch else asText c.sha1) _ w
  rw [chosen]
  split
  next => exact yields_getSha1 hlog
  next =>
    split
    next => exact yields_getSha1 hlog
    next =>
      apply wp_result _ (yields_asText c.sha1)
      rintro text w' ⟨rfl, s, hs, rfl⟩
      exact ⟨s, hs, hlog, rfl⟩

theorem yields_build (flavor tag branch sha1 : Text) (hlog : acts w.log = log) :
    yields (build host flavor tag branch sha1) (fun _ w' => acts w'.log = .made sha1 :: log) w := by
  apply wp_seq (yields_aside (fun _ => rfl) hlog)
  intro provider w1 hlog1
  apply wp_seq (yields_aside (fun _ => rfl) hlog1)
  intro network w2 hlog2
  apply wp_seq (yields_aside (fun _ => rfl) hlog2)
  intro _ w3 hlog3
  apply wp_seq (yields_orThrow host.minMachine)
  rintro minMachine _ rfl
  apply wp_seq (yields_orThrow host.goodMachine)
  rintro goodMachine _ rfl
  apply wp_seq (yields_aside (fun _ => rfl) hlog3)
  intro buildFlavor w4 hlog4
  apply wp_seq (yields_aside (fun _ => rfl) hlog4)
  intro defaultArch w5 hlog5
  apply wp_seq (yields_aside (fun _ => rfl) hlog5)
  intro httpFlavor w6 hlog6
  apply wp_seq (yields_call _)
  rintro _ w7 ⟨-, hacts⟩
  show acts w7.log = _
  rw [hacts, hlog6]
  rfl

/-- **A turn.** If it comes to its end, it has built from the tag, else the branch, else the commit. -/
theorem yields_turn (hlog : acts w.log = []) :
    yields (turn host c) (fun _ w' => Builds w'.log (chosen w.st c.tag c.branch c.sha1)) w := by
  apply wp_seq (yields_commitOf hlog)
  intro sha1 w1 hsettles
  apply wp_seq (yields_asText c.flavor)
  rintro flavor w2 ⟨rfl, -⟩
  apply wp_seq (yields_asText c.tag)
  rintro tag w3 ⟨rfl, -⟩
  apply wp_seq (yields_asText c.branch)
  rintro branch w4 ⟨rfl, -⟩
  apply wp_result _ (yields_build flavor tag branch sha1 rfl)
  intro _ w5 hacts
  exact ⟨sha1, _, hacts, hsettles⟩

end Turn

end Task

/-! ### Roles and overrides -/

theorem truthyAt_of_extends {h h' : PyHeap} (hext : Extends h h') {r : PyRef} (hr : Valid h r) :
    truthyAt h' r = truthyAt h r := by
  cases r with
  | atom a => rfl
  | obj i =>
    obtain ⟨o, ho⟩ := hr i rfl
    rw [truthyAt, truthyAt, ho, hext i o ho]

theorem chosen_of_extends {h h' : PyHeap} (hext : Extends h h') {tag branch : PyRef} (htag : Valid h tag)
    (hbranch : Valid h branch) (sha1 : PyRef) : chosen h' tag branch sha1 = chosen h tag branch sha1 := by
  rw [chosen, truthyAt_of_extends hext htag, truthyAt_of_extends hext hbranch, ← chosen]

theorem valid_of_overridesFor (hclosed : Closed h) {ctx v : PyRef} {project : PyAtom}
    (hv : (overridesFor h ctx project).lookup key = some v) : Valid h v := by
  rw [overridesFor, overridesIn] at hv
  cases hfound : (child h ((child h ctx (.key "overrides")).getD pyNone) (.key "install")).bind
      fun install => (child h install (.key project)).bind (itemsAt h) with
  | none =>
    rw [hfound] at hv
    cases hv
  | some items =>
    rw [hfound, getD_some] at hv
    obtain ⟨install, -, hinner⟩ := bind_eq_some_iff.mp hfound
    obtain ⟨found, -, hitems⟩ := bind_eq_some_iff.mp hinner
    exact hclosed.valid_lookup hitems hv

theorem valid_filled (hclosed : Closed h) {ctx : PyRef} {project : PyAtom}
    (hrole : itemsAt h config = some role) (hdefault : Valid h default) :
    Valid h (filled role (overridesFor h ctx project) key default) := by
  rw [filled]
  cases hown : role.lookup key with
  | some v => exact hclosed.valid_lookup hrole hown
  | none =>
    cases hother : (overridesFor h ctx project).lookup key with
    | some v => exact valid_of_overridesFor hclosed hother
    | none => exact hdefault

/-- **Overrides are defaults, field by field only.** A role that names a tag, a branch or a commit is built
from it exactly when the overrides fill in no other tag where it has none, and no branch where it has a
commit only. -/
theorem upgrade_builds_own_iff {h₀ : PyHeap} {ctx config : PyRef} {n : Nat} {cs : List Nat} {role : Items}
    {project : PyAtom} (hclosed : Closed h₀) (hctx : Valid h₀ ctx) (hcells : cells h₀ n config = some cs)
    (hrole : itemsAt h₀ config = some role)
    (hproject : (role.lookup (.str "project")).getD (str "zbkc") = .atom project)
    (hnames : NamesRef h₀ role) (mayRaise : Prop) (host : Host) {w w' : W} {c : Config}
    (hext : Extends h₀ w.st) (hrun : Exec (winEnv mayRaise) (upgradeRole ctx n config) w (.ret c) w')
    {h : PyHeap} (hlater : Extends h₀ h) {v : Task.W}
    (hturn : Exec Task.env (Task.turn host c) ⟨h, (), []⟩ (.ret ()) v) :
    Task.Builds v.log (ownRef h₀ role) ↔ ¬ Outranked h₀ role (overridesFor h₀ ctx project) := by
  have hset : Setting mayRaise h₀ ctx True := ⟨hclosed, hctx, fun _ => trivial, fun hf => absurd trivial hf⟩
  have hfields : FilledFrom role (overridesFor h₀ ctx project) c :=
    (wp_post (wins_upgradeRole hset hext hcells hrole hproject) hrun).2
  have hbuilds : Task.Builds v.log (chosen h c.tag c.branch c.sha1) := wp_post (Task.yields_turn rfl) hturn
  have hempty : Valid h₀ (str "") := valid_atom h₀ _
  rw [hfields.tag, hfields.branch, hfields.sha1, chosen_of_extends hlater
    (valid_filled hclosed hrole hempty) (valid_filled hclosed hrole hempty)] at hbuilds
  rw [← chosen_eq_ownRef_iff hnames]
  constructor
  · exact hbuilds.unique
  · intro hsame
    rw [← hsame]
    exact hbuilds

/-! ### A job -/

def mergeTop (h : PyHeap) : PyRef → PyRef → PyHeap
  | .atom _, _ => h
  | .obj i, b => (itemsAt h (.obj i)).elim h fun items => h.set i (.dict ((itemsAt h b).getD [] ++ items))

theorem itemsAt_set {i : Nat} (hi : i < h.length) :
    itemsAt (h.set i (.dict items)) (.obj i) = some items :=
  itemsAt_eq_some.mpr ⟨i, rfl, getElem?_set_self hi⟩

theorem winEnv_mergeTop (mayRaise : Prop) (a b : PyRef) (h : PyHeap) :
    winEnv mayRaise (.deepMerge a b) h () (.ok ()) (mergeTop h a b) () := by
  cases a with
  | atom a => exact ⟨⟨.refl h _ b, fun e he => by cases he⟩, fun _ items hitems => by cases hitems⟩
  | obj i =>
    cases hitems : itemsAt h (.obj i) with
    | none =>
      rw [mergeTop, hitems, elim_none]
      refine ⟨⟨.refl h _ b, fun e he => by cases he⟩, fun _ items hsome => ?_⟩
      rw [hitems] at hsome
      cases hsome
    | some items =>
      obtain ⟨_, hsame, ho⟩ := itemsAt_eq_some.mp hitems
      cases hsame
      have hi : i < h.length := (List.getElem?_eq_some_iff.mp ho).1
      rw [mergeTop, hitems, elim_some]
      refine ⟨⟨⟨?_, ?_⟩, fun e he => by cases he⟩, ?_⟩
      · intro n cs htree _ j o hj hmem
        have hne : i ≠ j := by
          rintro rfl
          cases n with
          | zero => cases htree.cells_eq
          | succ n =>
            obtain ⟨_, bs, -, -, rfl⟩ := cells_obj_eq_some.mp htree.cells_eq
            exact hmem (.head _)
        rw [getElem?_set_ne hne]
        exact hj
      · intro r others hothers
        obtain ⟨j, rfl, hj⟩ := itemsAt_eq_some.mp hothers
        by_cases hne : i = j
        · subst hne
          exact ⟨_, itemsAt_set hi⟩
        · exact ⟨others, itemsAt_eq_some.mpr ⟨j, rfl, by rw [getElem?_set_ne hne]; exact hj⟩⟩
      · intro _ items' hsame
        rw [hitems] at hsame
        obtain rfl := some.inj hsame
        refine ⟨_, itemsAt_set hi, ?_, ?_⟩
        · intro key hnone
          rw [lookup_append, hnone, or_none]
        · intro key u v _ hv _
          rw [lookup_append, hv, some_or]

def job (role : Items) : PyHeap :=
  [.dict [("overrides", .obj 1)], .dict [("install", .obj 2)], .dict [("zbkc", .obj 3)],
   .dict [("tag", str "overridetag")], .dict role]

def taggedRole : Items := [("tag", str "roletag")]

def commitRole : Items := [("sha1", str "client0sha1")]

def host : Host where
  gitUrl := "https://zbkc".toList
  pkgType := "deb".toList
  osType := "ubuntu".toList
  osVersion := "14.04".toList
  arch := "x86_64".toList
  dist := "trusty".toList
  minMachine := .ok pyNone
  goodMachine := .ok pyNone

def merging : (o : Op) → PyHeap → Unit → Except PyError Unit × PyHeap × Unit
  | .deepMerge a b, h, x => (.ok (), mergeTop h a b, x)

def answering (_ : Task.Op) (h : PyHeap) (x : Unit) : Except PyError Text × PyHeap × Unit :=
  (.ok "12ab refs".toList, h, x)

theorem exec_merging (role : Items) :
    Exec (winEnv False) (upgradeRole (.obj 0) 2 (.obj 4)) ⟨job role, (), []⟩
      (runWith merging (upgradeRole (.obj 0) 2 (.obj 4)) ⟨job role, (), []⟩).1
      (runWith merging (upgradeRole (.obj 0) 2 (.obj 4)) ⟨job role, (), []⟩).2 := by
  have hE : ∀ o h x, winEnv False o h x (merging o h x).1 (merging o h x).2.1 (merging o h x).2.2 := by
    rintro ⟨a, b⟩ h ⟨⟩
    exact winEnv_mergeTop False a b h
  exact exec_runWith hE _ _

theorem exec_answering (c : Config) (h : PyHeap) :
    Exec Task.env (Task.turn host c) ⟨h, (), []⟩ (runWith answering (Task.turn host c) ⟨h, (), []⟩).1
      (runWith answering (Task.turn host c) ⟨h, (), []⟩).2 :=
  exec_runWith (fun _ _ _ => rfl) _ _

theorem upgrade_builds_own_tagged :
    ∃ c w v, Exec (winEnv False) (upgradeRole (.obj 0) 2 (.obj 4)) ⟨job taggedRole, (), []⟩ (.ret c) w ∧
      Exec Task.env (Task.turn host c) ⟨job taggedRole, (), []⟩ (.ret ()) v ∧
      (Task.Builds v.log (ownRef (job taggedRole) taggedRole) ↔
        ¬ Outranked (job taggedRole) taggedRole (overridesFor (job taggedRole) (.obj 0) "zbkc")) := by
  have hclosed : Closed (job taggedRole) := closed_of_inside (by decide)
  have hctx : Valid (job taggedRole) (.obj 0) := valid_of_itemsAt (itemsAt_eq_some.mpr ⟨0, rfl, rfl⟩)
  have hcells : cells (job taggedRole) 2 (.obj 4) = some [4] := by decide
  have hnames : NamesRef (job taggedRole) taggedRole := .inl ⟨str "roletag", by decide, by decide⟩
  let c : Config := ⟨str "basic", str "roletag", str "", pyNone⟩
  have hrun := exec_merging taggedRole
  have hturn := exec_answering c (job taggedRole)
  exact ⟨c, _, _, hrun, hturn, upgrade_builds_own_iff hclosed hctx hcells rfl rfl hnames False host
    (.refl _) hrun (.refl _) hturn⟩

/-- The role names its commit, but the packages are those of the tag in the overrides. -/
theorem upgrade_builds_override_tag :
    ∃ c w v, Exec (winEnv False) (upgradeRole (.obj 0) 2 (.obj 4)) ⟨job commitRole, (), []⟩ (.ret c) w ∧
      Exec Task.env (Task.turn host c) ⟨job commitRole, (), []⟩ (.ret ()) v ∧
      NamesRef (job commitRole) commitRole ∧
      ownRef (job commitRole) commitRole = .commit (str "client0sha1") ∧
      Task.Builds v.log (.named (str "overridetag")) ∧
      ¬ Task.Builds v.log (ownRef (job commitRole) commitRole) := by
  let c : Config := ⟨str "basic", str "overridetag", str "", str "client0sha1"⟩
  have hown : ownRef (job commitRole) commitRole = .commit (str "client0sha1") := by decide
  have hbuilds : Task.Builds (runWith answering (Task.turn host c) ⟨job commitRole, (), []⟩).2.log
      (.named (str "overridetag")) :=
    ⟨_, _, rfl, "overridetag", _, ["refs".toList], rfl, rfl, by decide⟩
  refine ⟨c, _, _, exec_merging commitRole, exec_answering c (job commitRole), ?_, hown, hbuilds, ?_⟩
  · exact .inr (.inr ⟨str "client0sha1", by decide, by decide⟩)
  · intro hother
    rw [hown] at hother
    cases hbuilds.unique hother

end ZbkcTasks.BuildPackages
