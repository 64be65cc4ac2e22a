import Mathlib.Data.List.AList
import Mathlib.Data.List.Infix
import ZbkcTasks.PyText

/-! The regions that `tasks/s3tests.py` writes into the configuration of its clients. The code asks
whether a name is contained in another where it should ask whether they are equal. -/

namespace ZbkcTasks.S3Regions

open AList List

abbrev Text := List Char

structure Region where
  apiName : String
  isMaster : Bool
  zones : List Text
  deriving DecidableEq

abbrev Entry := (_ : Text) × Region

structure Agent where
  src : Text
  dest : Text

/-- What the task finds in its context. The host of the agent's endpoint has a role endpoint. -/
structure Ctx where
  conf : AList fun _ : Text => Option Text
  regions : AList fun _ : Text => Region
  roleEndpoints : AList fun _ : Text => String × Nat
  agents : AList fun _ : Text => Agent
  endpoint : Text × Nat
  agentRole : (roleEndpoints.lookup endpoint.1).isSome = true

structure RegionDict where
  apiName : String
  isMaster : Bool
  port : Option Nat
  host : Option String
  syncAgent : Option (String × Nat)
  deriving DecidableEq

structure ClientConf where
  defaultRegion : Option Text := none
  sections : AList (fun _ : Text => Option RegionDict) := ∅

section Model

variable (ctx : Ctx)

def regionDict (clientName : Text) (regionData : Region) : RegionDict :=
  let endpoint := ctx.roleEndpoints.lookup clientName
  { apiName := regionData.apiName
    isMaster := regionData.isMaster
    port := endpoint.map Prod.snd
    host := endpoint.map Prod.fst
    syncAgent := if regionData.isMaster then none
      else some (((ctx.roleEndpoints.lookup ctx.endpoint.1).get ctx.agentRole).1, ctx.endpoint.2) }

def zoneOf (clientName : Text) : Option Text := (ctx.conf.lookup clientName).join

/-- The name of the region and its data, or `None, None`. -/
def extractSyncClientData (clientName : Text) : Option (Text × RegionDict) :=
  match zoneOf ctx clientName with
  | none => none
  | some [] => none
  | some zone => ctx.regions.entries.foldl (fun result region =>
      region.2.zones.foldl (fun result z =>
        if zone <:+: z then some (region.1, regionDict ctx clientName region.2) else result) result) none

/-- The two assignments to a section; a region that was not found is called `None`. -/
def sections (source dest : Option (Text × RegionDict)) : AList fun _ : Text => Option RegionDict :=
  let name (r : Option (Text × RegionDict)) := (r.map Prod.fst).getD "None".toList
  ((∅ : AList fun _ : Text => Option RegionDict).insert (name source) (source.map Prod.snd)).insert
    (name dest) (dest.map Prod.snd)

/-- The body of the loop over the clients, whose configurations have no regions before. -/
def updateClient (key : Text) : Except PyError ClientConf :=
  if ctx.agents.entries.any fun rgwa => decide (key <:+: rgwa.2.src ∨ key <:+: rgwa.2.dest) then
    match ctx.agents.lookup key with
    | none => .error (.keyError (String.ofList key))
    | some syncData =>
        match extractSyncClientData ctx syncData.src with
        | none => .error .typeError
        | some source => .ok
            { defaultRegion := if source.2.isMaster then some source.1 else none
              sections := sections (some source) (extractSyncClientData ctx syncData.dest) }
  else .ok {}

def updated (key : Text) : Except PyError (Text × ClientConf) :=
  (updateClient ctx key).map fun conf => (key, conf)

def updateConfWithRegionInfo (clients : List Text) : Except PyError (List (Text × ClientConf)) :=
  clients.mapM (updated ctx)

/-! ### What is to be written -/

def Agent.Ends (a : Agent) (key : Text) : Prop := key = a.src ∨ key = a.dest

def home (clientName : Text) : Option (Text × RegionDict) :=
  (zoneOf ctx clientName).bind fun zone =>
    (ctx.regions.entries.find? fun region => region.2.zones.contains zone).map fun region =>
      (region.1, regionDict ctx clientName region.2)

/-- A client of exactly one agent gets the regions of its two ends, a client of none gets nothing. -/
structure Right (key : Text) (conf : ClientConf) : Prop where
  one : ∀ e ∈ ctx.agents.entries, (∀ e' ∈ ctx.agents.entries, e'.2.Ends key ↔ e' = e) →
    ∀ name, conf.sections.lookup name = (sections (home ctx e.2.src) (home ctx e.2.dest)).lookup name
  none : (∀ e ∈ ctx.agents.entries, ¬ e.2.Ends key) → conf = {}

def Works (clients : List Text) : Prop :=
  ∃ result, updateConfWithRegionInfo ctx clients = .ok result ∧
    ∀ key conf, (key, conf) ∈ result → Right ctx key conf

/-- The region has the zone of the client. -/
def Lists (clientName : Text) (region : Entry) : Prop :=
  region ∈ ctx.regions.entries ∧ ∃ zone ∈ zoneOf ctx clientName, zone ∈ region.2.zones

/-- No end of an agent contains the client's name; or there is an agent `a` of that name and the client is
an end of some agent, and if only of one, then this has the destination of `a`, and its source too unless
both sources are in the region of the destination. -/
def Fits (key : Text) : Prop :=
  (∀ e ∈ ctx.agents.entries, ¬ (key <:+: e.2.src ∨ key <:+: e.2.dest)) ∨
    ∃ a, ctx.agents.lookup key = some a ∧ (∃ e ∈ ctx.agents.entries, e.2.Ends key) ∧
      ∀ e ∈ ctx.agents.entries, (∀ e' ∈ ctx.agents.entries, e'.2.Ends key ↔ e' = e) →
        e.2.dest = a.dest ∧
          (e.2.src = a.src ∨ ∃ region, ∀ c ∈ [a.src, e.2.src, e.2.dest], Lists ctx c region)

end Model

/-- A context in which every end of an agent has a zone in a region and an endpoint. No zone has the name
of a zone of another region in its own. -/
structure Setup extends Ctx where
  listed : ∀ e ∈ agents.entries, ∀ c, e.2.Ends c → ∃ region, Lists toCtx c region
  named : ∀ r ∈ regions.entries, [] ∉ r.2.zones
  apart : ∀ r ∈ regions.entries, ∀ r' ∈ regions.entries, ∀ z ∈ r.2.zones, ∀ z' ∈ r'.2.zones,
    z <:+: z' → r = r'
  endpoints : ∀ e ∈ agents.entries, ∀ e' ∈ agents.entries, ∀ c c', e.2.Ends c → e'.2.Ends c' →
    roleEndpoints.lookup c = roleEndpoints.lookup c' → c = c'

/-! ### Where the zone of a client is found -/

theorem foldl_any {α β : Type} (p : α → Prop) [DecidablePred p] (b : β) (xs : List α) (init : Option β) :
    xs.foldl (fun result x => if p x then some b else result) init =
      if ∃ x ∈ xs, p x then some b else init := by
  induction xs generalizing init with
  | nil => simp
  | cons x xs ih =>
    rw [foldl_cons, ih]
    by_cases hx : p x <;> simp [hx]

/-- A fold that keeps the last match. -/
theorem foldl_last {α β : Type} (p : α → Prop) [DecidablePred p] (g : α → β) (xs : List α)
    (init : Option β) : xs.foldl (fun result x => if p x then some (g x) else result) init =
      ((xs.reverse.find? fun x => p x).map g).or init := by
  induction xs generalizing init with
  | nil => rfl
  | cons x xs ih =>
    rw [foldl_cons, ih, reverse_cons, find?_append, Option.map_or, Option.or_assoc]
    by_cases hx : p x <;> simp [hx]

theorem find?_eq_some_of_unique {α : Type} {p : α → Bool} {xs : List α} {x : α} (hmem : x ∈ xs)
    (hx : p x = true) (hunique : ∀ y ∈ xs, p y = true → y = x) : xs.find? p = some x := by
  obtain ⟨y, hy⟩ := Option.isSome_iff_exists.mp (find?_isSome.mpr ⟨x, hmem, hx⟩)
  rw [hy, hunique y (mem_of_find?_eq_some hy) (find?_some hy)]

section Found

variable {setup : Setup} {c : Text} {region region' : Entry}

theorem extract_eq (h : Lists setup.toCtx c region) :
    extractSyncClientData setup.toCtx c = some (region.1, regionDict setup.toCtx c region.2) := by
  obtain ⟨hmem, zone, hzone, hin⟩ := h
  rw [extractSyncClientData, Option.mem_def.mp hzone]
  cases zone with
  | nil => exact absurd hin (setup.named region hmem)
  | cons x zone =>
    simp only [foldl_any, foldl_last, Option.or_none]
    rw [find?_eq_some_of_unique (mem_reverse.mpr hmem), Option.map_some]
    · exact decide_eq_true ⟨_, hin, infix_rfl⟩
    · intro other hother hcontains
      obtain ⟨z, hz, hinfix⟩ := of_decide_eq_true hcontains
      exact (setup.apart region hmem other (mem_reverse.mp hother) _ hin z hz hinfix).symm

theorem home_eq (h : Lists setup.toCtx c region) :
    home setup.toCtx c = some (region.1, regionDict setup.toCtx c region.2) := by
  obtain ⟨hmem, zone, hzone, hin⟩ := h
  rw [home, Option.mem_def.mp hzone, Option.bind_some, find?_eq_some_of_unique hmem, Option.map_some]
  · exact contains_iff_mem.mpr hin
  · intro other hother hcontains
    exact setup.apart other hother region hmem zone (contains_iff_mem.mp hcontains) zone hin infix_rfl

theorem Lists.unique (h : Lists setup.toCtx c region) (h' : Lists setup.toCtx c region') :
    region = region' := by
  obtain ⟨hmem, zone, hzone, hin⟩ := h
  obtain ⟨hmem', zone', hzone', hin'⟩ := h'
  obtain rfl := Option.mem_unique hzone hzone'
  exact setup.apart region hmem region' hmem' zone hin zone hin' infix_rfl

theorem entry_ext {ctx : Ctx} (h : region ∈ ctx.regions.entries) (h' : region' ∈ ctx.regions.entries)
    (hname : region.1 = region'.1) : region = region' := by
  obtain ⟨name, data⟩ := region
  obtain ⟨name', data'⟩ := region'
  obtain rfl : name = name' := hname
  have heq := (mem_lookup_iff.mpr h).symm.trans (mem_lookup_iff.mpr h')
  rw [Option.some.inj heq]

end Found

/-! ### The two sections -/

section Sections

variable {source dest : Text × RegionDict}

theorem lookup_sections (name : Text) : (sections (some source) (some dest)).lookup name =
    if name = dest.1 then some (some dest.2)
    else if name = source.1 then some (some source.2) else none := by
  rw [sections]
  split
  next h =>
    subst h
    exact lookup_insert _
  next h =>
    refine (lookup_insert_ne h).trans ?_
    split
    next h' =>
      subst h'
      exact lookup_insert _
    next h' => exact (lookup_insert_ne h').trans rfl

theorem sections_ne_empty (source dest : Option (Text × RegionDict)) : sections source dest ≠ ∅ := by
  intro h
  have := congrArg (AList.lookup ((dest.map Prod.fst).getD "None".toList)) h
  rw [sections, lookup_insert] at this
  cases this

theorem regionDict_inj {ctx : Ctx} {c c' : Text} {r r' : Region}
    (h : regionDict ctx c r = regionDict ctx c' r') :
    ctx.roleEndpoints.lookup c = ctx.roleEndpoints.lookup c' := by
  have hport := congrArg RegionDict.port h
  have hhost := congrArg RegionDict.host h
  simp only [regionDict] at hport hhost
  cases hc : ctx.roleEndpoints.lookup c <;> cases hc' : ctx.roleEndpoints.lookup c' <;>
    simp_all [Prod.ext_iff]

/-- The sections for `cs` and `cd`, in the regions `fs` and `fd`, and for `cs'` and `cd'` in `hs` and `hd`.
-/
theorem sections_eq_iff {ctx : Ctx} {cs cd cs' cd' : Text} {fs fd hs hd : Entry}
    (hown : ∀ c ∈ [cs, cd], ∀ c' ∈ [cs', cd'], ∀ r r', regionDict ctx c r = regionDict ctx c' r' → c = c')
    (hname : ∀ r ∈ [fs, fd], ∀ r' ∈ [hs, hd], r.1 = r'.1 → r = r') (hsame : cs = cd → fs.1 = fd.1)
    (hends : cs' = cs ∧ cd' = cd ∨ ∃ key, (key = cs' ∨ key = cd') ∧ key ≠ cs ∧ key ≠ cd) :
    (∀ name, (sections (some (fs.1, regionDict ctx cs fs.2))
        (some (fd.1, regionDict ctx cd fd.2))).lookup name =
      (sections (some (hs.1, regionDict ctx cs' hs.2)) (some (hd.1, regionDict ctx cd' hd.2))).lookup
        name) ↔
      cd' = cd ∧ hs = fs ∧ hd = fd ∧ (cs' = cs ∨ hs = hd) := by
  simp only [forall_mem_cons, not_mem_nil, false_implies, implies_true, and_true] at hown hname
  simp only [lookup_sections]
  constructor
  · intro h
    -- a section of the one side is one of the other, of the same region and the same client
    have hhd := h hd.1
    have hhs := h hs.1
    have hfs := h fs.1
    have hfd := h fd.1
    grind
  · rintro ⟨rfl, rfl, rfl, rfl | rfl⟩ name
    · rfl
    · split <;> simp_all

end Sections

section Clients

variable {setup : Setup} {key : Text}

/-- What the agent of the client's name is given is right if and only if the names are. -/
theorem sections_right_iff {a : Agent} {e : (_ : Text) × Agent}
    (ha : setup.agents.lookup key = some a) (he : e ∈ setup.agents.entries)
    (honly : ∀ e' ∈ setup.agents.entries, e'.2.Ends key ↔ e' = e) :
    (∀ name, (sections (extractSyncClientData setup.toCtx a.src)
        (extractSyncClientData setup.toCtx a.dest)).lookup name =
      (sections (home setup.toCtx e.2.src) (home setup.toCtx e.2.dest)).lookup name) ↔
      e.2.dest = a.dest ∧
        (e.2.src = a.src ∨ ∃ region, ∀ c ∈ [a.src, e.2.src, e.2.dest], Lists setup.toCtx c region) := by
  have hmem : ⟨key, a⟩ ∈ setup.agents.entries := mem_lookup_iff.mp ha
  obtain ⟨fs, hfs⟩ := setup.listed _ hmem a.src (.inl rfl)
  obtain ⟨fd, hfd⟩ := setup.listed _ hmem a.dest (.inr rfl)
  obtain ⟨hs, hhs⟩ := setup.listed e he e.2.src (.inl rfl)
  obtain ⟨hd, hhd⟩ := setup.listed e he e.2.dest (.inr rfl)
  rw [extract_eq hfs, extract_eq hfd, home_eq hhs, home_eq hhd, sections_eq_iff]
  · constructor
    · rintro ⟨hdest, rfl, -, hsrc | rfl⟩
      · exact ⟨hdest, .inl hsrc⟩
      · exact ⟨hdest, .inr ⟨hs, by simp [hfs, hhs, hhd]⟩⟩
    · rintro ⟨hdest, hsrc | ⟨region, hregion⟩⟩
      · exact ⟨hdest, hhs.unique (hsrc ▸ hfs), hhd.unique (hdest ▸ hfd), .inl hsrc⟩
      · simp only [forall_mem_cons, not_mem_nil, false_implies, implies_true, and_true] at hregion
        obtain ⟨hfs', hhs', hhd'⟩ := hregion
        obtain rfl := hfs.unique hfs'
        obtain rfl := hhs.unique hhs'
        obtain rfl := hhd.unique hhd'
        exact ⟨hdest, rfl, hhd.unique (hdest ▸ hfd), .inr rfl⟩
  · intro c hc c' hc' r r' hdict
    have hend : a.Ends c := by simpa [Agent.Ends] using hc
    have hend' : e.2.Ends c' := by simpa [Agent.Ends] using hc'
    exact setup.endpoints _ hmem e he c c' hend hend' (regionDict_inj hdict)
  · have hfound : ∀ r ∈ [fs, fd], r ∈ setup.regions.entries := by simp [hfs.1, hfd.1]
    have hlisted : ∀ r ∈ [hs, hd], r ∈ setup.regions.entries := by simp [hhs.1, hhd.1]
    exact fun r hr r' hr' => entry_ext (hfound r hr) (hlisted r' hr')
  · exact fun hsame => congrArg Sigma.fst (hfs.unique (hsame ▸ hfd))
  · by_cases hend : a.Ends key
    · obtain rfl := (honly _ hmem).mp hend
      exact .inl ⟨rfl, rfl⟩
    · rw [Agent.Ends, not_or] at hend
      exact .inr ⟨key, (honly e he).mpr rfl, hend⟩

theorem ok_right_iff : (∃ conf, updateClient setup.toCtx key = .ok conf ∧ Right setup.toCtx key conf) ↔
    Fits setup.toCtx key := by
  rw [updateClient, Fits]
  simp only [any_eq_true, decide_eq_true_eq]
  by_cases hany : ∃ e ∈ setup.agents.entries, key <:+: e.2.src ∨ key <:+: e.2.dest
  · rw [if_pos hany, or_iff_right fun hnot => hany.elim fun e he => hnot e he.1 he.2]
    cases hagent : setup.agents.lookup key with
    | none => simp
    | some a =>
      simp only [Option.some.injEq, exists_eq_left']
      have hmem : ⟨key, a⟩ ∈ setup.agents.entries := mem_lookup_iff.mp hagent
      obtain ⟨region, hlists⟩ := setup.listed _ hmem a.src (.inl rfl)
      have hextract := extract_eq hlists
      rw [hextract]
      simp only [Except.ok.injEq, exists_eq_left']
      rw [← hextract]
      constructor
      · intro h
        refine ⟨?_, fun e he honly => (sections_right_iff hagent he honly).mp (h.one e he honly)⟩
        by_contra hnot
        push Not at hnot
        exact sections_ne_empty _ _ (congrArg ClientConf.sections (h.none hnot))
      · rintro ⟨⟨e, he, hend⟩, hone⟩
        exact ⟨fun e he honly => (sections_right_iff hagent he honly).mpr (hone e he honly),
          fun hnot => absurd hend (hnot e he)⟩
  · rw [if_neg hany]
    refine iff_of_true ⟨{}, rfl, fun e he honly => ?_, fun _ => rfl⟩ (.inl fun e he h => hany ⟨e, he, h⟩)
    -- a client that is an end is contained in it
    rcases (honly e he).mpr rfl with h | h
    · exact absurd ⟨e, he, .inl (h ▸ infix_rfl)⟩ hany
    · exact absurd ⟨e, he, .inr (h ▸ infix_rfl)⟩ hany

end Clients

def east : Region := ⟨"east", true, ["a".toList]⟩

def west : Region := ⟨"west", false, ["b".toList]⟩

def oneAgent : Setup where
  conf := (∅ : AList _).insert "client.0".toList (some "a".toList)
    |>.insert "client.1".toList (some "b".toList)
  regions := (∅ : AList _).insert "east".toList east |>.insert "west".toList west
  roleEndpoints := (∅ : AList _).insert "client.0".toList ("host", 7280)
    |>.insert "client.1".toList ("host", 7281)
  agents := (∅ : AList _).insert "client.0".toList ⟨"client.0".toList, "client.1".toList⟩
  endpoint := ("client.0".toList, 8000)
  agentRole := by decide
  listed := by
    intro e he c hc
    obtain rfl := mem_singleton.mp he
    rcases hc with rfl | rfl
    · exact ⟨⟨"east".toList, east⟩, .tail _ (.head _), "a".toList, rfl, .head _⟩
    · exact ⟨⟨"west".toList, west⟩, .head _, "b".toList, rfl, .head _⟩
  named := by decide
  apart := by decide
  endpoints := by
    intro e he e' he' c c' hc hc' hsame
    obtain rfl := mem_singleton.mp he
    obtain rfl := mem_singleton.mp he'
    rcases hc with rfl | rfl <;> rcases hc' with rfl | rfl
    · rfl
    · revert hsame; decide
    · revert hsame; decide
    · rfl

end ZbkcTasks.S3Regions
