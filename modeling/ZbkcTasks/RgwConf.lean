import Mathlib.Data.Set.Basic
import ZbkcTasks.ClusterConf

/-! How the radosgw tasks look up the settings of a client. Each starts from the section `global` itself
and not from a copy: the settings of one client stay in it, and the next client finds them. -/

namespace ZbkcTasks.RgwConf

open ClusterConf Finmap Option SectionMap

/-- What `conf.get(name, {})` returns: a section of the configuration, or a new dictionary. -/
inductive Dict
  | stored (name : String)
  | fresh (entries : Entries)

def getSection (name : String) : StateM Conf Dict := do
  let conf ← get
  if name ∈ conf then return .stored name else return .fresh ∅

def Dict.entries : Dict → StateM Conf Entries
  | .stored name => do return inSection (← get) name
  | .fresh entries => return entries

def Dict.update : (d other : Dict) → StateM Conf Dict
  | .stored name, other => do
      let new := (← other.entries) ∪ (← (Dict.stored name).entries)
      modifyThe Conf (insert name new)
      return .stored name
  | .fresh entries, other => do return .fresh ((← other.entries) ∪ entries)

def zbkcConfig (client : String) : StateM Conf Entries := do
  let config ← getSection "global"
  let config ← config.update (← getSection "client")
  let config ← config.update (← getSection client)
  config.entries

/-! ### What a lookup makes of the dictionary -/

abbrev Settings := String → Option Value

structure ZoneInfo where
  region : Value
  zone : Value
  pools : List (String × Value)
  indexPool : String
  dataPool : String
  dataExtraPool : String
  compression : Value
  logs : List (String × Value)
  deriving DecidableEq

def newKey (key : String) : String :=
  String.ofList (((key.toList.dropWhile (· ≠ ' ')).drop 1).map fun c => if c = ' ' then '_' else c)

def poolName (name : String) : Value → Value → Except PyError String
  | .text region, .text zone => .ok ("." ++ region ++ "." ++ zone ++ "." ++ name)
  | _, _ => .error .typeError

def requiredKeys : List String := ["rgw zone", "rgw region", "rgw zone root pool"]

def poolKeys : List String :=
  ["rgw control pool", "rgw gc pool", "rgw log pool", "rgw intent log pool", "rgw usage log pool",
    "rgw user keys pool", "rgw user email pool", "rgw user swift pool", "rgw user uid pool",
    "rgw domain root"]

def logKeys : List String := ["rgw log meta", "rgw log data"]

def Settings.need (settings : Settings) (key : String) : Except PyError Value :=
  (settings key).elim (.error (.keyError key)) .ok

def zoneInfo (client : String) (settings : Settings) : Except PyError ZoneInfo := do
  requiredKeys.forM fun key =>
    if (settings key).isSome then .ok ()
    else .error (.assertionError ("zbkc conf must contain " ++ key ++ " for " ++ client))
  let region ← settings.need "rgw region"
  let zone ← settings.need "rgw zone"
  let pools ← poolKeys.mapM fun key =>
    (settings key).elim
      (do let name ← poolName (newKey key) region zone; .ok (newKey key, .text name))
      fun value => .ok (newKey key, value)
  let indexPool ← poolName "index_pool" region zone
  let dataPool ← poolName "data_pool" region zone
  let dataExtraPool ← poolName "data_extra_pool" region zone
  let compression := (settings "rgw compression type").getD (.text "")
  let logs := logKeys.filterMap fun key => (settings key).map (key, ·)
  .ok ⟨region, zone, pools, indexPool, dataPool, dataExtraPool, compression, logs⟩

/-! ### The calls -/

inductive Call
  | zoneForClient (client : String)
  | regionForClient (client : String)
  | radosgwDataLogWindow (client : String)
  | extractZoneInfo (client : String)

def Call.client : Call → String
  | .zoneForClient client => client
  | .regionForClient client => client
  | .radosgwDataLogWindow client => client
  | .extractZoneInfo client => client

/-- What a call returns or raises; `None` is no value. -/
inductive Answer
  | value (v : Option Value)
  | zone (info : Except PyError ZoneInfo)
  deriving DecidableEq

def Call.answer (settings : Settings) : Call → Answer
  | .zoneForClient _ => .value (settings "rgw zone")
  | .regionForClient _ => .value (settings "rgw region")
  | .radosgwDataLogWindow _ => .value (some ((settings "rgw data log window").getD (.int 30)))
  | .extractZoneInfo client => .zone (zoneInfo client settings)

def Call.run (c : Call) : StateM Conf Answer := do
  let config ← zbkcConfig c.client
  return c.answer fun key => config.lookup key

def runCalls (calls : List Call) : StateM Conf (List Answer) := calls.mapM Call.run

def settingsOf (conf : Conf) (client : String) : Settings := fun key =>
  (valueOf conf client key).or ((valueOf conf "client" key).or (valueOf conf "global" key))

/-- What a client's settings bring into the section `global` is there already. -/
def Harmless (conf : Conf) (client : String) : Prop :=
  ∀ key value, (valueOf conf client key = some value ∨
    (valueOf conf client key = none ∨ client = "global") ∧ valueOf conf "client" key = some value) →
      valueOf conf "global" key = some value

/-! ### One lookup -/

section Lookup

variable {conf : Conf} {client : String}

def dictOf (conf : Conf) (name : String) : Dict := if name ∈ conf then .stored name else .fresh ∅

theorem run_getSection (name : String) (conf : Conf) :
    (getSection name).run conf = pure (dictOf conf name, conf) := by
  by_cases hmem : name ∈ conf
  all_goals simp [getSection, dictOf, hmem]

theorem run_entries_dictOf (name : String) (conf : Conf) :
    (dictOf conf name).entries.run conf = pure (inSection conf name, conf) := by
  by_cases hmem : name ∈ conf
  · simp [dictOf, hmem, Dict.entries]
  · simp [dictOf, hmem, Dict.entries, inSection_of_notMem hmem]

theorem run_entries_stored (name : String) (conf : Conf) :
    (Dict.stored name).entries.run conf = pure (inSection conf name, conf) := rfl

theorem run_update_stored (name other : String) (conf : Conf) :
    ((Dict.stored name).update (dictOf conf other)).run conf =
      pure (.stored name, insert name (inSection conf other ∪ inSection conf name) conf) := by
  simp [Dict.update, run_entries_dictOf, run_entries_stored]

theorem run_update_fresh (entries : Entries) (other : String) (conf : Conf) :
    ((Dict.fresh entries).update (dictOf conf other)).run conf =
      pure (.fresh (inSection conf other ∪ entries), conf) := by
  simp [Dict.update, run_entries_dictOf]

def merged (conf : Conf) (client : String) : Entries :=
  let first := inSection conf "client" ∪ inSection conf "global"
  inSection (insert "global" first conf) client ∪ first

theorem run_zbkcConfig_of_mem (h : "global" ∈ conf) : (zbkcConfig client).run conf =
      pure (merged conf client, insert "global" (merged conf client) conf) := by
  have hglobal : dictOf conf "global" = .stored "global" := if_pos h
  simp [zbkcConfig, run_getSection, hglobal, run_update_stored, Dict.entries, merged, inSection_insert]

theorem run_zbkcConfig_of_notMem (h : "global" ∉ conf) :
    (zbkcConfig client).run conf = pure (inSection conf client ∪ inSection conf "client", conf) := by
  have hglobal : dictOf conf "global" = .fresh ∅ := if_neg h
  simp [zbkcConfig, run_getSection, hglobal, run_update_fresh, Dict.entries]

theorem lookup_merged (key : String) :
    (merged conf client).lookup key = if client = "global" then
        (valueOf conf "client" key).or (valueOf conf "global" key)
      else settingsOf conf client key := by
  have hfirst : (inSection conf "client" ∪ inSection conf "global").lookup key =
      (valueOf conf "client" key).or (valueOf conf "global" key) := lookup_union _ _ key
  rw [merged, inSection_insert, lookup_union]
  split
  · rw [hfirst, Option.or_self]
  · rw [hfirst, settingsOf]
    rfl

theorem merged_eq_iff : merged conf client = inSection conf "global" ↔ Harmless conf client := by
  have hpoint : merged conf client = inSection conf "global" ↔
      ∀ key, (merged conf client).lookup key = valueOf conf "global" key :=
    ⟨fun h key => by rw [h, valueOf], ext_lookup⟩
  rw [hpoint]
  refine forall_congr' fun key => ?_
  rw [lookup_merged]
  by_cases hclient : client = "global"
  · rw [if_pos hclient, hclient]
    constructor
    · rintro h v (hown | ⟨-, hshared⟩)
      · exact hown
      · rw [hshared, some_or] at h
        exact h.symm
    · intro h
      cases hshared : valueOf conf "client" key with
      | none => exact none_or
      | some v => rw [h v (.inr ⟨.inr rfl, hshared⟩), some_or]
  · simp only [hclient, if_false, or_false, settingsOf]
    cases valueOf conf client key <;> cases valueOf conf "client" key <;>
      cases valueOf conf "global" key <;> simp [eq_comm]

theorem settingsOf_of_harmless (h : Harmless conf client) (key : String) :
    settingsOf conf client key = valueOf conf "global" key := by
  unfold settingsOf
  cases hown : valueOf conf client key with
  | some v => rw [h key v (.inl hown), some_or]
  | none =>
    cases hshared : valueOf conf "client" key with
    | some v => rw [h key v (.inr ⟨.inl hown, hshared⟩), none_or, some_or]
    | none => rw [none_or, none_or]

theorem run_call_of_harmless (c : Call) (h : "global" ∉ conf ∨ Harmless conf c.client) :
    c.run.run conf = pure (c.answer (settingsOf conf c.client), conf) := by
  by_cases hmem : "global" ∈ conf
  · have hmerged := merged_eq_iff.mpr (h.resolve_left (not_not.mpr hmem))
    have hsettings : (fun key => (inSection conf "global").lookup key) = settingsOf conf c.client :=
      funext fun key => (settingsOf_of_harmless (h.resolve_left (not_not.mpr hmem)) key).symm
    simp [Call.run, run_zbkcConfig_of_mem hmem, hmerged, insert_inSection hmem, hsettings]
  · have hsettings : (fun key => (inSection conf c.client ∪ inSection conf "client").lookup key) =
        settingsOf conf c.client := by
      funext key
      have hnone : valueOf conf "global" key = none := by
        rw [valueOf, inSection_of_notMem hmem, lookup_empty]
      rw [lookup_union, settingsOf, hnone, or_none]
      rfl
    simp [Call.run, run_zbkcConfig_of_notMem hmem, hsettings]

end Lookup

/-- **The lookups of different clients do not disturb each other** exactly when there is no section
`global`, or it already has everything that the clients' settings bring into it. -/
theorem lookups_independent_iff (conf : Conf) (clients : Set String) :
    (∀ calls : List Call, (∀ c ∈ calls, c.client ∈ clients) →
      (runCalls calls).run conf = (calls.map fun c => c.answer (settingsOf conf c.client), conf)) ↔
    "global" ∉ conf ∨ ∀ client ∈ clients, Harmless conf client := by
  constructor
  · intro h
    by_contra hharm
    push Not at hharm
    obtain ⟨hmem, client, hclient, hnot⟩ := hharm
    have hcall := h [.zoneForClient client] (by simpa [Call.client] using hclient)
    have hrun : ((runCalls [.zoneForClient client]).run conf).2 =
        insert "global" (merged conf client) conf := by
      simp [runCalls, Call.run, Call.client, run_zbkcConfig_of_mem hmem]
      rfl
    rw [hcall] at hrun
    refine hnot (merged_eq_iff.mp ?_)
    have hglobal := congrArg (inSection · "global") hrun
    simp only [inSection_insert, if_true] at hglobal
    exact hglobal.symm
  · intro h calls
    induction calls with
    | nil => exact fun _ => rfl
    | cons c calls ih =>
      intro hcalls
      obtain ⟨hc, hrest⟩ := List.forall_mem_cons.mp hcalls
      have hhead := run_call_of_harmless c (h.imp_right fun h => h _ hc)
      have htail : (calls.mapM Call.run).run conf =
          pure (calls.map fun c => c.answer (settingsOf conf c.client), conf) := ih hrest
      rw [runCalls, List.mapM_cons]
      simp only [StateT.run_bind, hhead, htail, pure_bind, StateT.run_pure, List.map_cons]
      rfl

def twoClients : Conf :=
  insert "global" ∅ (insert "client.0" (singleton "rgw zone" (.text "z0")) ∅)

/-- `client.1` has no zone, but after a lookup for `client.0` it is told the zone of that one. -/
theorem zone_leaks_to_next_client : settingsOf twoClients "client.1" "rgw zone" = none ∧
      ((runCalls [.zoneForClient "client.0", .zoneForClient "client.1"]).run twoClients).1 =
        [.value (some (.text "z0")), .value (some (.text "z0"))] ∧
      valueOf ((runCalls [.zoneForClient "client.0"]).run twoClients).2 "global" "rgw zone" =
        some (.text "z0") := by
  decide +kernel

end ZbkcTasks.RgwConf
