import ZbkcTasks.ThrasherBook

/-! What `Thrasher.__init__` leaves in the object, whatever the cluster answers and whatever the
greenlets that it starts do meanwhile. -/

namespace ZbkcTasks

open Prog

/-- Attributes are never taken away, and what `__init__` reads off the configuration is not written
again. -/
structure SameSettings (t t' : Thrasher) : Prop where
  assigned : t.assigned ⊆ t'.assigned
  config : t'.config = t.config
  maxPgs : t'.maxPgs = t.maxPgs
  sighupDelay : t'.sighupDelay = t.sighupDelay
  optrackToggleDelay : t'.optrackToggleDelay = t.optrackToggleDelay
  dumpOpsEnable : t'.dumpOpsEnable = t.dumpOpsEnable
  noscrubToggleDelay : t'.noscrubToggleDelay = t.noscrubToggleDelay

namespace SameSettings

variable {t t' t'' : Thrasher}

theorem refl (t : Thrasher) : SameSettings t t :=
  ⟨List.Subset.refl _, rfl, rfl, rfl, rfl, rfl, rfl⟩

theorem trans (h : SameSettings t t') (h' : SameSettings t' t'') : SameSettings t t'' where
  assigned := List.Subset.trans h.assigned h'.assigned
  config := h'.config.trans h.config
  maxPgs := h'.maxPgs.trans h.maxPgs
  sighupDelay := h'.sighupDelay.trans h.sighupDelay
  optrackToggleDelay := h'.optrackToggleDelay.trans h.optrackToggleDelay
  dumpOpsEnable := h'.dumpOpsEnable.trans h.dumpOpsEnable
  noscrubToggleDelay := h'.noscrubToggleDelay.trans h.noscrubToggleDelay

theorem started (h : SameSettings t t') (ht : Started t) : Started t' :=
  fun a hlate hhandle => h.assigned (ht a hlate hhandle)

end SameSettings

variable {η : Type} {E : Env taskSig Thrasher η} {A : Op → Thrasher → η → Prop} {w : W η} {x : η}
  {K : W η → Prop} {J : Thrasher → η → Prop} {config : ThrasherConfig} {remotes : List Remote}
  {inOsds outOsds : List Osd} {t t' : Thrasher}
  (hE : ∀ o t x a t' x', E o t x a t' x' → SameSettings t t')

theorem Others.sameSettings (h : Others t t') : SameSettings t t' := by
  obtain ⟨_, _, _, _, hsub, rfl⟩ := h
  exact ⟨hsub, rfl, rfl, rfl, rfl, rfl, rfl⟩

/-- A thrasher as `__init__` sets it up before the greenlets, for the OSDs in and out then. -/
structure Constructed (config : ThrasherConfig) (inOsds outOsds : List Osd) (t : Thrasher) :
    Prop where
  started : Started t
  sameConfig : t.config = config
  maxPgs : t.maxPgs = .list (repeatList (config.maxPgsPerPoolOsd.getD 1200) (inOsds ++ outOsds))

theorem Constructed.same (h : Constructed config inOsds outOsds t) (ht : SameSettings t t') :
    Constructed config inOsds outOsds t' :=
  ⟨ht.started h.started, ht.config.trans h.sameConfig, ht.maxPgs.trans h.maxPgs⟩

section Init

theorem wp_assign {a : Attr} {f : Thrasher → Thrasher}
    {Q : Outcome PyError Unit → W η → Prop} : wp E A (assign a f) Q w ↔
      Q (.ret ()) { w with st := { f w.st with assigned := a :: w.st.assigned } } := Iff.rfl

/-! ### The attributes -/

/-- The attributes set from the status of the OSDs and from the configuration, in that order. -/
def settingAttrs : List Attr :=
  [.inOsds, .liveOsds, .outOsds, .deadOsds, .stopping, .logger, .config, .reviveTimeout, .cleanWait,
    .minin, .chanceMovePg, .sighupDelay, .optrackToggleDelay, .dumpOpsEnable, .noscrubToggleDelay]

structure Assigned (config : ThrasherConfig) (osdStatus : OsdStatus) (t t' : Thrasher) : Prop where
  inOsds : t'.inOsds = osdStatus.inOsds
  outOsds : t'.outOsds = osdStatus.outOsds
  sameConfig : t'.config = config
  assigned : ∀ a, a ∈ t'.assigned ↔ a ∈ t.assigned ∨ a ∈ settingAttrs

theorem wp_assignSettings (config : ThrasherConfig) (osdStatus : OsdStatus) :
    wp E A (assignLists osdStatus >>= fun _ => assignSettings config)
      (gives (fun _ w' => Assigned config osdStatus w.st w'.st ∧ w'.ext = w.ext) K) w := by
  refine ⟨⟨rfl, rfl, rfl, fun a => ?_⟩, rfl⟩
  change a ∈ settingAttrs.reverse ++ w.st.assigned ↔ _
  rw [List.mem_append, List.mem_reverse, or_comm]

theorem wp_assignMaxPgs {osdStatus : OsdStatus}
    (hw : Assigned config osdStatus t w.st) (hmanager : .zbkcManager ∈ t.assigned)
    (hcluster : .cluster ∈ t.assigned) : wp E A (assignMaxPgs config >>= fun _ => assign .log id)
      (gives (fun _ w' => Constructed config osdStatus.inOsds osdStatus.outOsds w'.st ∧
        w'.ext = w.ext) K) w := by
  have hin : .inOsds ∈ w.st.assigned := (hw.assigned _).mpr (.inr (by decide))
  have hout : .outOsds ∈ w.st.assigned := (hw.assigned _).mpr (.inr (by decide))
  simp only [assignMaxPgs, osds, OsdList.attr, wp_bind, wp_attr hin, wp_attr hout, chain_ret,
    wp_assign]
  refine ⟨⟨fun a hlate hhandle => ?_, hw.sameConfig, ?_⟩, rfl⟩
  · have hcases : a ∈ settingAttrs ∨ a = .zbkcManager ∨ a = .cluster ∨ a = .maxPgs ∨ a = .log := by
      cases a <;> first
        | decide | exact absurd hlate (by decide) | exact absurd hhandle (by decide)
    rcases hcases with h | rfl | rfl | rfl | rfl
    · exact .tail _ (.tail _ ((hw.assigned a).mpr (.inr h)))
    · exact .tail _ (.tail _ ((hw.assigned _).mpr (.inl hmanager)))
    · exact .tail _ (.tail _ ((hw.assigned _).mpr (.inl hcluster)))
    · exact .tail _ (.head _)
    · exact .head _
  · simp [Thrasher.osds, hw.inOsds, hw.outOsds]

variable (hX : ∀ c t a t' x', E (.cmd c) t x a t' x' → x' = x) (hA : ∀ c t, A (.cmd c) t x) (hx : w.ext = x)

include hE hX hA hx

theorem wp_callKeeps (c : Cmd) {Q : Outcome PyError c.Ret → W η → Prop}
    (hret : ∀ v w', SameSettings w.st w'.st → w'.ext = x → Q (.ret v) w')
    (hexn : ∀ e w', SameSettings w.st w'.st → w'.ext = x → Q (.exn e) w') : wp E A (call c) Q w := by
  subst hx
  rw [wp_call]
  refine ⟨hA c w.st, ?_⟩
  rintro (e | v) t x hstep
  · exact hexn _ _ (hE _ _ _ _ _ _ hstep) (hX _ _ _ _ _ hstep)
  · exact hret _ _ (hE _ _ _ _ _ _ hstep) (hX _ _ _ _ _ hstep)

theorem wp_managerKeeps (c : Cmd) (hmanager : .zbkcManager ∈ w.st.assigned) :
    wp E A (manager c) (gives (fun _ w' => SameSettings w.st w'.st ∧ w'.ext = x)
      fun w' => w'.ext = x) w := by
  rw [manager, wp_bind, wp_attr hmanager, chain_ret]
  exact wp_callKeeps hE hX hA hx c (fun _ _ h hx => ⟨h, hx⟩) fun _ _ _ hx => hx

theorem wp_connect :
    wp E A connect (gives (fun _ w' => .zbkcManager ∈ w'.st.assigned ∧ .cluster ∈ w'.st.assigned ∧
      w'.ext = x) fun w' => w'.ext = x) w := by
  let w1 : W η :=
    { w with st := { w.st with assigned := .cluster :: .zbkcManager :: w.st.assigned } }
  change wp E A (manager (.waitForClean none) >>= fun _ => manager .getOsdStatus) _ w1
  refine wp_seq (wp_managerKeeps (w := w1) hE hX hA hx _ (by simp [w1])) ?_
  rintro _ w2 ⟨h2, hx2⟩
  have hassigned : .zbkcManager ∈ w2.st.assigned ∧ .cluster ∈ w2.st.assigned :=
    ⟨h2.assigned (by simp [w1]), h2.assigned (by simp [w1])⟩
  refine wp_result ?_ (wp_managerKeeps hE hX hA hx2 .getOsdStatus hassigned.1)
  rintro status w3 ⟨h3, hx3⟩
  exact ⟨h3.assigned hassigned.1, h3.assigned hassigned.2, hx3⟩

theorem constructed_initAttributes (config : ThrasherConfig) :
    wp E A (initAttributes config) (gives (fun _ w' => (∃ osdStatus : OsdStatus,
      Constructed config osdStatus.inOsds osdStatus.outOsds w'.st) ∧ w'.ext = x)
      fun w' => w'.ext = x) w := by
  refine wp_seq (wp_connect hE hX hA hx) ?_
  rintro osdStatus w1 ⟨hmanager, hcluster, hx1⟩
  rw [← bind_assoc]
  refine wp_seq (wp_assignSettings config osdStatus) ?_
  rintro _ w2 ⟨h2, hx2⟩
  refine wp_result ?_ (wp_assignMaxPgs h2 hmanager hcluster)
  rintro _ w3 ⟨h3, hx3⟩
  exact ⟨⟨osdStatus, h3⟩, hx3.trans (hx2.trans hx1)⟩

theorem wp_tellMonitors : wp E A tellMonitors (gives (fun _ w' => SameSettings w.st w'.st ∧ w'.ext = x)
      fun w' => w'.ext = x) w := by
  apply wp_catching
  refine wp_callKeeps hE hX hA hx _ (fun _ _ h hx => ⟨h, hx⟩) fun _ w1 h1 hx1 => ?_
  refine wp_callKeeps hE hX hA hx1 _ (fun _ w2 h2 hx2 => ?_) fun _ _ _ hx2 => hx2
  exact ⟨h1.trans h2, hx2⟩

end Init

/-! ### The greenlets -/

theorem SameSettings.enabled (h : SameSettings t t') (helper : Helper) :
    helper.enabled t' = helper.enabled t := by
  cases helper <;> simp only [Helper.enabled, h.sighupDelay, h.optrackToggleDelay, h.dumpOpsEnable,
    h.noscrubToggleDelay]

theorem SameSettings.assign (h : SameSettings t t') (a : Attr) :
    SameSettings t { t' with assigned := a :: t'.assigned } :=
  h.trans ⟨List.subset_cons_self _ _, rfl, rfl, rfl, rfl, rfl, rfl⟩

theorem Started.setting (h : Started t) (helper : Helper) : helper.setting ∈ t.assigned := by
  cases helper <;> exact h _ rfl rfl

inductive Expected (t : Thrasher) : Greenlet → Prop
  | thrash : Expected t .thrash
  | helper {h : Helper} : h.enabled t = true → Expected t h.greenlet

theorem SameSettings.expected (h : SameSettings t t') {g : Greenlet} : Expected t g → Expected t' g
  | .thrash => .thrash
  | .helper hg => .helper ((h.enabled _).trans hg)

section Start

variable (hJ : ∀ t t' x, SameSettings t t' → J t x → J t' x)
  (hspawn : ∀ g t x, Expected t g → J t x →
    A (.spawn g) t x ∧ ∀ a t' x', E (.spawn g) t x a t' x' → J t' x')

include hE hJ hspawn

theorem wp_start {a : Attr} {g : Greenlet} (hg : Expected t g) (hw : SameSettings t w.st)
    (hj : J w.st w.ext) :
    wp E A (start a g) (gives (fun _ w' => SameSettings t w'.st ∧ J w'.st w'.ext) K) w := by
  obtain ⟨hA, hstep⟩ := hspawn g w.st w.ext (hw.expected hg) hj
  refine ⟨hA, fun r s x hr => ⟨(hw.trans (hE _ _ _ _ _ _ hr)).assign a, ?_⟩⟩
  exact hJ s _ x ((SameSettings.refl s).assign a) (hstep r s x hr)

theorem wp_startHelper (ht : Started t) (h : Helper) (hw : SameSettings t w.st) (hj : J w.st w.ext) :
    wp E A (startHelper h) (gives (fun _ w' => SameSettings t w'.st ∧ J w'.st w'.ext) K) w := by
  rw [startHelper, wp_bind, wp_attr ((hw.started ht).setting h), chain_ret, when]
  split
  next henabled => exact wp_start hE hJ hspawn (.helper ((hw.enabled h).symm.trans henabled)) hw hj
  next => exact ⟨hw, hj⟩

theorem wp_startGreenlets (ht : Started w.st) (hj : J w.st w.ext) :
    wp E A startGreenlets (gives (fun _ w' => SameSettings w.st w'.st ∧ J w'.st w'.ext) K) w := by
  refine wp_seq (wp_start hE hJ hspawn .thrash (.refl _) hj) fun _ _ h1 => ?_
  refine wp_seq (wp_startHelper hE hJ hspawn ht .sighup h1.1 h1.2) fun _ _ h2 => ?_
  refine wp_seq (wp_startHelper hE hJ hspawn ht .optrackToggle h2.1 h2.2) fun _ _ h3 => ?_
  refine wp_seq (wp_startHelper hE hJ hspawn ht .dumpOps h3.1 h3.2) fun _ _ h4 => ?_
  exact wp_startHelper hE hJ hspawn ht .noscrubToggle h4.1 h4.2

end Start

section Tool

theorem wp_assignTool (hw : Started w.st) (lacking : Bool) :
    wp E A (assignTool config lacking) (gives (fun _ w' => SameSettings w.st w'.st ∧
      .zbkcObjectstoreTool ∈ w'.st.assigned ∧ .testRmPastIntervals ∈ w'.st.assigned ∧
      w'.ext = w.ext) K) w := by
  have hsub : w.st.assigned ⊆ .testRmPastIntervals :: .zbkcObjectstoreTool :: w.st.assigned :=
    fun a ha => .tail _ (.tail _ ha)
  cases lacking with
  | false => exact ⟨⟨hsub, rfl, rfl, rfl, rfl, rfl, rfl⟩, .tail _ (.head _), .head _, rfl⟩
  | true =>
    rw [assignTool, if_pos rfl, wp_bind, wp_assign, chain_ret, wp_bind, wp_assign, chain_ret,
      wp_log fun a hlate hhandle => hsub (hw a hlate hhandle)]
    exact ⟨⟨hsub, rfl, rfl, rfl, rfl, rfl, rfl⟩, .tail _ (.head _), .head _, rfl⟩

variable (hcmd : ∀ c t x, J t x → A (.cmd c) t x ∧ ∀ a t' x', E (.cmd c) t x a t' x' → J t' x')

include hE hcmd

theorem wp_cmdExistsOnOsds (remotes : List Remote) :
    ∀ w, J w.st w.ext → wp E A (cmdExistsOnOsds remotes)
      (gives (fun _ w' => SameSettings w.st w'.st ∧ J w'.st w'.ext) fun w' => J w'.st w'.ext) w := by
  induction remotes with
  | nil => exact fun w hj => ⟨.refl _, hj⟩
  | cons remote remotes ih =>
    intro w hj
    obtain ⟨hA, hstep⟩ := hcmd (.typeTool remote) w.st w.ext hj
    rw [cmdExistsOnOsds, wp_bind, wp_call]
    refine ⟨hA, ?_⟩
    rintro (e | status) t x hr
    · exact hstep _ t x hr
    · have h1 := hE _ _ _ _ _ _ hr
      change wp E A (if (status : Int) ≠ 0 then _ else _) _ _
      split
      · exact ⟨h1, hstep _ t x hr⟩
      · exact wp_result (fun _ _ h2 => ⟨h1.trans h2.1, h2.2⟩)
          (ih _ (hstep _ t x hr))

theorem wp_lacksTool (remotes : List Remote) (hj : J w.st w.ext) : wp E A (lacksTool config remotes)
      (gives (fun _ w' => SameSettings w.st w'.st ∧ J w'.st w'.ext) fun w' => J w'.st w'.ext) w := by
  unfold lacksTool
  split
  · exact ⟨.refl _, hj⟩
  · exact wp_seq (wp_cmdExistsOnOsds hE hcmd remotes w hj) fun _ _ h => h

end Tool

def Prompt (config : ThrasherConfig) (remotes : List Remote) : Prop :=
  config.powercycle = true ∨ remotes = []

theorem lacksTool_of_prompt
    (h : Prompt config remotes) : ∃ lacking, lacksTool config remotes = .ret lacking := by
  unfold lacksTool
  by_cases hcycle : config.powercycle = true
  · exact ⟨_, if_pos hcycle⟩
  · rw [if_neg hcycle, h.resolve_left hcycle]
    exact ⟨_, rfl⟩

theorem SameSettings.initialised (h : SameSettings t t') (ht : Initialised t) :
    Initialised t' := fun a ha => h.assigned (ht a ha)

theorem Started.initialised (h : Started t) (htool : .zbkcObjectstoreTool ∈ t.assigned)
    (hintervals : .testRmPastIntervals ∈ t.assigned) : Initialised t := by
  intro a hhandle
  cases hlate : a.late with
  | false => exact h a hlate hhandle
  | true =>
    cases a with
    | zbkcObjectstoreTool => exact htool
    | testRmPastIntervals => exact hintervals
    | _ => exact absurd hlate (by decide)

/-- **What `__init__` leaves.** A thrasher that could be constructed has all its attributes, and as
`max_pgs` the list of its OSDs, repeated. `J` is what starting greenlets and asking the hosts keep. -/
theorem wp_init (config : ThrasherConfig) (remotes : List Remote)
    (hE : ∀ o t x a t' x', E o t x a t' x' → SameSettings t t')
    (hX : ∀ c t a t' x', E (.cmd c) t x a t' x' → x' = x) (hA : ∀ c t, A (.cmd c) t x)
    (hx : w.ext = x) (hJ : ∀ t t' x, SameSettings t t' → J t x → J t' x)
    (hstart : ∀ inOsds outOsds t, Constructed config inOsds outOsds t → J t x)
    (hspawn : ∀ g t x, Expected t g → J t x →
      A (.spawn g) t x ∧ ∀ a t' x', E (.spawn g) t x a t' x' → J t' x')
    (hcmd : ¬ Prompt config remotes → ∀ c t x, J t x →
      A (.cmd c) t x ∧ ∀ a t' x', E (.cmd c) t x a t' x' → J t' x') :
    wp E A (init config remotes) (gives (fun _ w' => (∃ osdStatus : OsdStatus,
        Constructed config osdStatus.inOsds osdStatus.outOsds w'.st) ∧
        Initialised w'.st ∧ J w'.st w'.ext)
      fun w' => w'.ext = x ∨ ¬ Prompt config remotes ∧ J w'.st w'.ext) w := by
  have hattributes := constructed_initAttributes hE hX hA hx config
  refine wp_seq (wp_weaken (fun _ _ h => h) (fun _ => .inl) hattributes) ?_
  rintro _ w1 ⟨⟨osdStatus, h1⟩, hx1⟩
  have htell := wp_tellMonitors hE hX hA hx1
  refine wp_seq (wp_weaken (fun _ _ h => h) (fun _ => .inl) htell) ?_
  rintro _ w2 ⟨h2, hx2⟩
  have hj2 : J w2.st w2.ext := hx2 ▸ hstart _ _ w2.st (h1.same h2)
  refine wp_seq (wp_startGreenlets hE hJ hspawn (h2.started h1.started) hj2) ?_
  rintro _ w3 ⟨h3, hj3⟩
  have hlacks : wp E A (lacksTool config remotes) (gives
      (fun _ w' => SameSettings w3.st w'.st ∧ J w'.st w'.ext)
      fun w' => w'.ext = x ∨ ¬ Prompt config remotes ∧ J w'.st w'.ext) w3 := by
    by_cases hprompt : Prompt config remotes
    · obtain ⟨lacking, hret⟩ := lacksTool_of_prompt hprompt
      rw [hret]
      exact ⟨.refl _, hj3⟩
    · exact wp_weaken (fun _ _ h => h) (fun _ h => .inr ⟨hprompt, h⟩)
        (wp_lacksTool hE (hcmd hprompt) remotes hj3)
  refine wp_seq hlacks ?_
  rintro lacking w4 ⟨h4, hj4⟩
  have hsame := (h2.trans h3).trans h4
  refine wp_result ?_ (wp_assignTool (hsame.started h1.started) lacking)
  rintro _ w5 ⟨h5, htool, hintervals, hx5⟩
  have h := h1.same (hsame.trans h5)
  exact ⟨⟨osdStatus, h⟩, h.started.initialised htool hintervals, hx5 ▸ hJ _ _ _ h5 hj4⟩

end ZbkcTasks
