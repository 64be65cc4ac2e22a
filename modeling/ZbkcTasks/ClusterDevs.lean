import Mathlib.Data.List.Forall2
import Mathlib.Data.List.Nodup
import Mathlib.Data.String.Basic
import ZbkcTasks.PyValue

/-! The devices of the OSDs: `assign_devs` and the loop of `cluster` in `tasks/zbkc.py`. What teuthology
finds out about a host is the `Host` below; the commands for a journal in memory are left out. -/

namespace ZbkcTasks.ClusterDevs

open List

section Dict

variable {κ β : Type} [DecidableEq κ]

def dict (items : List (κ × β)) : List (κ × β) := items.foldl (fun d item => setItem d item.1 item.2) []

theorem setItem_of_notMem (d : List (κ × β)) (key : κ) (v : β) (h : key ∉ d.map Prod.fst) :
    setItem d key v = d ++ [(key, v)] := by
  induction d with
  | nil => rfl
  | cons item d ih =>
    obtain ⟨k, u⟩ := item
    rw [map_cons, mem_cons, not_or] at h
    rw [setItem, if_neg (Ne.symm h.1), ih h.2, cons_append]

theorem foldl_setItem (items d : List (κ × β)) (h : ((d ++ items).map Prod.fst).Nodup) :
    items.foldl (fun d item => setItem d item.1 item.2) d = d ++ items := by
  induction items generalizing d with
  | nil => rw [foldl_nil, append_nil]
  | cons item items ih =>
    have hkey : item.1 ∉ d.map Prod.fst := by
      rw [map_append, map_cons, nodup_middle, nodup_cons, mem_append,
        not_or] at h
      exact h.1.1
    rw [foldl_cons, setItem_of_notMem d item.1 item.2 hkey, ih]
    · rw [append_assoc, singleton_append]
    · rw [append_assoc, singleton_append]
      exact h

theorem dict_of_nodup {items : List (κ × β)} (h : (items.map Prod.fst).Nodup) : dict items = items :=
  foldl_setItem items [] h

end Dict

theorem map_fst_zip_eq_take {α β : Type} (xs : List α) (ys : List β) :
    (xs.zip ys).map Prod.fst = xs.take ys.length := by
  induction xs generalizing ys with
  | nil => simp
  | cons x xs ih =>
    cases ys with
    | nil => rfl
    | cons y ys => rw [zip_cons_cons, map_cons, ih, length_cons, take_succ_cons]

theorem map_snd_zip_eq_take {α β : Type} (xs : List α) (ys : List β) :
    (xs.zip ys).map Prod.snd = ys.take xs.length := by
  induction xs generalizing ys with
  | nil => simp
  | cons x xs ih =>
    cases ys with
    | nil => rfl
    | cons y ys => rw [zip_cons_cons, map_cons, ih, length_cons, take_succ_cons]

/-! ### Assigning devices -/

def assignDevs (roles devs : List String) : List (String × String) := dict (roles.zip devs)

variable {roles : List String}

theorem assignDevs_eq (h : roles.Nodup) (devs : List String) : assignDevs roles devs = roles.zip devs := by
  apply dict_of_nodup
  rw [map_fst_zip_eq_take]
  exact h.sublist (take_sublist devs.length roles)

theorem length_assignDevs (h : roles.Nodup) (devs : List String) :
    (assignDevs roles devs).length = min roles.length devs.length := by
  rw [assignDevs_eq h, length_zip]

theorem devices_assignDevs (h : roles.Nodup) (devs : List String) :
    (assignDevs roles devs).map Prod.snd = devs.take roles.length := by
  rw [assignDevs_eq h, map_snd_zip_eq_take]

structure Config where
  fs : Bool
  blockJournal : Bool
  tmpfsJournal : Bool

/-- What teuthology says about a host. Every device has one stable name, and no two share one. -/
structure Host where
  osdRoles : List String
  scratchDevices : List String
  wwnIdMap : List (String × String)
  osdRoles_nodup : osdRoles.Nodup
  scratchDevices_nodup : scratchDevices.Nodup
  keys_wwnIdMap : (wwnIdMap.map Prod.fst).Perm scratchDevices
  ids_nodup : (wwnIdMap.map Prod.snd).Nodup

structure HostMaps where
  rolesToDevs : List (String × String)
  rolesToJournals : List (String × String)
  deriving DecidableEq

def trim (rolesToDevs : List (String × String)) (iddevs : List String) : List String :=
  if rolesToDevs.length < iddevs.length then iddevs.drop rolesToDevs.length else iddevs

/-- The branch of `fs`. `iddevs` outlives the turn of the loop, and is unbound at first. -/
def dataDevs (config : Config) (host : Host) (iddevs : Option (List String)) :
    List (String × String) × Option (List String) :=
  if config.fs then
    let iddevs := host.wwnIdMap.map Prod.snd
    let rolesToDevs := assignDevs host.osdRoles iddevs
    (rolesToDevs, some (trim rolesToDevs iddevs))
  else ([], iddevs)

/-- The branches of `block_journal` and `tmpfs_journal`, or `none` where an unbound `iddevs` is read. -/
def journalDevs (config : Config) (host : Host) (iddevs : Option (List String)) :
    Option (List (String × String)) :=
  let block := if config.blockJournal then iddevs.map (assignDevs host.osdRoles) else some []
  block.map fun rolesToJournals =>
    if config.tmpfsJournal then dict (host.osdRoles.map fun role => (role, "/mnt/" ++ role))
    else rolesToJournals

def assignHost (config : Config) (host : Host) (iddevs : Option (List String)) :
    Option (HostMaps × Option (List String)) :=
  let data := dataDevs config host iddevs
  (journalDevs config host data.2).map fun rolesToJournals => (⟨data.1, rolesToJournals⟩, data.2)

def assignHosts (config : Config) : List Host → Option (List String) → Option (List HostMaps)
  | [], _ => some []
  | host :: hosts, iddevs =>
      (assignHost config host iddevs).bind fun step => (assignHosts config hosts step.2).map (step.1 :: ·)

def cluster (config : Config) (hosts : List Host) : Option (List HostMaps) := assignHosts config hosts none

/-! ### Where data and journals go -/

/-- No device serves two roles, nor both purposes. -/
structure Separate (maps : HostMaps) : Prop where
  data : (maps.rolesToDevs.map Prod.snd).Nodup
  journals : (maps.rolesToJournals.map Prod.snd).Nodup
  apart : (maps.rolesToDevs.map Prod.snd).Disjoint (maps.rolesToJournals.map Prod.snd)

theorem length_wwnIdMap (host : Host) :
    (host.wwnIdMap.map Prod.snd).length = host.scratchDevices.length := by
  have hlength := host.keys_wwnIdMap.length_eq
  rw [length_map] at hlength ⊢
  exact hlength

def blockMaps (host : Host) : HostMaps :=
  let iddevs := host.wwnIdMap.map Prod.snd
  let rolesToDevs := assignDevs host.osdRoles iddevs
  ⟨rolesToDevs, assignDevs host.osdRoles (trim rolesToDevs iddevs)⟩

variable {host : Host} {config : Config}

theorem trim_of_lt (h : host.osdRoles.length < host.scratchDevices.length) :
    trim (assignDevs host.osdRoles (host.wwnIdMap.map Prod.snd)) (host.wwnIdMap.map Prod.snd) =
      (host.wwnIdMap.map Prod.snd).drop host.osdRoles.length := by
  have hcount := length_assignDevs host.osdRoles_nodup (host.wwnIdMap.map Prod.snd)
  rw [length_wwnIdMap, Nat.min_eq_left h.le] at hcount
  rw [trim, hcount, length_wwnIdMap, if_pos h]

theorem trim_of_le (h : host.scratchDevices.length ≤ host.osdRoles.length) :
    trim (assignDevs host.osdRoles (host.wwnIdMap.map Prod.snd)) (host.wwnIdMap.map Prod.snd) =
      host.wwnIdMap.map Prod.snd := by
  have hcount := length_assignDevs host.osdRoles_nodup (host.wwnIdMap.map Prod.snd)
  rw [length_wwnIdMap, Nat.min_eq_right h] at hcount
  rw [trim, hcount, length_wwnIdMap, if_neg (lt_irrefl _)]

theorem data_blockMaps (host : Host) :
    (blockMaps host).rolesToDevs.map Prod.snd = (host.wwnIdMap.map Prod.snd).take host.osdRoles.length :=
  devices_assignDevs host.osdRoles_nodup _

theorem journals_blockMaps_of_lt (h : host.osdRoles.length < host.scratchDevices.length) :
    (blockMaps host).rolesToJournals.map Prod.snd =
      ((host.wwnIdMap.map Prod.snd).drop host.osdRoles.length).take host.osdRoles.length := by
  rw [← trim_of_lt h]
  exact devices_assignDevs host.osdRoles_nodup _

theorem separate_of_lt (h : host.osdRoles.length < host.scratchDevices.length) :
    Separate (blockMaps host) := by
  have hdata := data_blockMaps host
  have hjournals := journals_blockMaps_of_lt h
  constructor
  · rw [hdata]
    exact host.ids_nodup.sublist (take_sublist _ _)
  · rw [hjournals]
    exact host.ids_nodup.sublist ((take_sublist _ _).trans (drop_sublist _ _))
  · rw [hdata, hjournals]
    intro dev hleft hright
    exact disjoint_take_drop host.ids_nodup le_rfl hleft (mem_of_mem_take hright)

/-- With none to spare, the journals take the very devices that the data has taken. -/
theorem blockMaps_of_le (h : host.scratchDevices.length ≤ host.osdRoles.length) :
    (blockMaps host).rolesToJournals = (blockMaps host).rolesToDevs ∧
      (blockMaps host).rolesToDevs.map Prod.snd = host.wwnIdMap.map Prod.snd := by
  constructor
  · show assignDevs _ (trim _ _) = assignDevs _ _
    rw [trim_of_le h]
  · rw [data_blockMaps, take_of_length_le]
    rw [length_wwnIdMap]
    exact h

theorem separate_blockMaps_iff (host : Host) : Separate (blockMaps host) ↔
      host.osdRoles.length < host.scratchDevices.length ∨ host.scratchDevices = [] := by
  rcases Nat.lt_or_ge host.osdRoles.length host.scratchDevices.length with hlt | hle
  · exact ⟨fun _ => .inl hlt, fun _ => separate_of_lt hlt⟩
  · obtain ⟨hsame, hdevs⟩ := blockMaps_of_le hle
    have hlength := length_wwnIdMap host
    constructor
    · intro hseparate
      have hapart := hseparate.apart
      rw [hsame, hdevs] at hapart
      have hnone : host.wwnIdMap.map Prod.snd = [] :=
        eq_nil_iff_forall_not_mem.mpr fun dev hdev => hapart hdev hdev
      rw [hnone] at hlength
      exact .inr (eq_nil_of_length_eq_zero hlength.symm)
    · rintro (hlt | hempty)
      · omega
      · rw [hempty] at hlength
        have hnone := eq_nil_of_length_eq_zero hlength
        rw [hnone] at hdevs
        constructor
        · rw [hdevs]
          exact nodup_nil
        · rw [hsame, hdevs]
          exact nodup_nil
        · rw [hdevs]
          exact disjoint_nil_left _

/-! ### The loop -/

theorem assignHost_block (hfs : config.fs = true) (hblock : config.blockJournal = true)
    (htmpfs : config.tmpfsJournal = false) (host : Host) (iddevs : Option (List String)) :
    ∃ left, assignHost config host iddevs = some (blockMaps host, some left) := by
  simp [assignHost, dataDevs, journalDevs, blockMaps, hfs, hblock, htmpfs]

/-- With `fs` set, no turn of the loop sees what an earlier one left in `iddevs`. -/
theorem assignHosts_block (hfs : config.fs = true) (hblock : config.blockJournal = true)
    (htmpfs : config.tmpfsJournal = false) (hosts : List Host) (iddevs : Option (List String)) :
    assignHosts config hosts iddevs = some (hosts.map blockMaps) := by
  induction hosts generalizing iddevs with
  | nil => rfl
  | cons host hosts ih =>
    obtain ⟨left, hleft⟩ := assignHost_block hfs hblock htmpfs host iddevs
    rw [assignHosts, hleft, Option.bind_some, ih, Option.map_some, map_cons]

/-- **Data and journal devices.** With `fs` and `block_journal`, every host gets maps that keep data and
journals apart exactly if it has more scratch devices than OSDs, or none at all. -/
theorem cluster_separate_iff {config : Config} (hfs : config.fs = true)
    (hblock : config.blockJournal = true) (htmpfs : config.tmpfsJournal = false) (hosts : List Host) :
    ∃ maps, cluster config hosts = some maps ∧ List.Forall₂ (fun host maps => Separate maps ↔
        host.osdRoles.length < host.scratchDevices.length ∨ host.scratchDevices = []) hosts maps := by
  refine ⟨hosts.map blockMaps, assignHosts_block hfs hblock htmpfs hosts none, ?_⟩
  rw [List.forall₂_map_right_iff, List.forall₂_same]
  intro host _
  exact separate_blockMaps_iff host

def sampleConfig : Config := ⟨true, true, false⟩

def spareHost : Host where
  osdRoles := ["osd.0"]
  scratchDevices := ["/dev/sdb", "/dev/sdc"]
  wwnIdMap := [("/dev/sdc", "wwn-2"), ("/dev/sdb", "wwn-1")]
  osdRoles_nodup := by decide
  scratchDevices_nodup := by decide
  keys_wwnIdMap := by decide
  ids_nodup := by decide

theorem cluster_separate_spareHost : ∃ maps, cluster sampleConfig [spareHost] = some maps ∧
      List.Forall₂ (fun host maps => Separate maps ↔
        host.osdRoles.length < host.scratchDevices.length ∨ host.scratchDevices = []) [spareHost] maps :=
  cluster_separate_iff rfl rfl rfl [spareHost]

def fullHost : Host where
  osdRoles := ["osd.0"]
  scratchDevices := ["/dev/sdb"]
  wwnIdMap := [("/dev/sdb", "wwn-1")]
  osdRoles_nodup := by decide
  scratchDevices_nodup := by decide
  keys_wwnIdMap := by decide
  ids_nodup := by decide

theorem journal_on_data_device :
    cluster sampleConfig [fullHost] = some [⟨[("osd.0", "wwn-1")], [("osd.0", "wwn-1")]⟩] ∧
      ¬ Separate ⟨[("osd.0", "wwn-1")], [("osd.0", "wwn-1")]⟩ := by
  constructor
  · decide
  · intro hseparate
    exact hseparate.apart (mem_singleton_self "wwn-1") (mem_singleton_self "wwn-1")

end ZbkcTasks.ClusterDevs
