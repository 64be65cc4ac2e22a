import ZbkcTasks.MonQuorum

/-! `thrash_many` of the monitor thrasher is only logged: a round kills up to `max_killable()` monitors
with the option or without it. -/

namespace ZbkcTasks.MonThrash

open List ProcAct Prog

def OneDown (mons : Monitors) (st : Mon → ProcStatus) : Prop :=
  mons.names.countP (fun m => st m = .dead) ≤ 1

variable {t : MonitorThrasher} {kills freezes dead : List Mon} {now : List (ProcAct Mon)}
  {past : List (List (ProcAct Mon))} {x : Cluster}

theorem maxKillable_le_one_iff (hmany : 3 ≤ t.mons.names.length) :
    t.maxKillable ≤ 1 ↔ t.maintainQuorum = true ∧ t.mons.names.length ≤ 4 := by
  rw [MonitorThrasher.maxKillable]
  by_cases hquorum : t.maintainQuorum = true
  · rw [if_pos hquorum, max_le_iff, sub_le_iff_le_add, Int.ceil_le]
    have hhalf : (t.mons.names.length : ℚ) / 2 ≤ ((1 + 1 : Int) : ℚ) ↔ t.mons.names.length ≤ 4 := by
      rw [div_le_iff₀ (by norm_num)]
      norm_num
    rw [hhalf]
    simp [hquorum]
  · rw [if_neg hquorum]
    constructor
    · intro hle
      omega
    · rintro ⟨hquorum', -⟩
      exact absurd hquorum' hquorum

theorem Amid.oneDown {st : Mon → ProcStatus} (hle : t.maxKillable ≤ 1) (h : Amid t st) :
    OneDown t.mons st := by
  rcases h with rfl | ⟨kills, freezes, hchosen, hst⟩
  · simp [OneDown, allRunning]
  · have hdown : t.mons.names.countP (fun m => decide (st m = .dead)) ≤ kills.length := by
      rw [countP_eq_length_filter]
      apply ((t.mons.nodup.filter _).subperm _).length_le
      intro m hm
      exact (hst m).1 (of_decide_eq_true (mem_filter.mp hm).2)
    have hkills := hchosen.kills_le
    rw [OneDown]
    omega

theorem not_oneDown_view (hsub : kills ⊆ t.mons.names) (hnodup : kills.Nodup) (htwo : 2 ≤ kills.length) :
    ¬ OneDown t.mons (view kills []) := by
  have hdown : kills.length ≤ t.mons.names.countP (fun m => decide (view kills [] m = .dead)) := by
    rw [countP_eq_length_filter]
    apply (hnodup.subperm _).length_le
    intro m hm
    exact mem_filter.mpr ⟨hsub hm, by simp [view, hm]⟩
  rw [OneDown]
  omega

/-! ### A round that raises nothing -/

theorem leads_sleep (d : ℚ) : Leads prompt (sleep d) () x (.ret ()) () x :=
  (leads_quiet (.sleep d) (.ok ()) ⟨rfl, by simp⟩).bind (.ret ())

theorem leads_awaitSurvivors (hsub : kills ⊆ t.mons.names) (hnodup : kills.Nodup) :
    Leads prompt (awaitSurvivors t 1 kills) () x (.ret ()) () x := by
  have hle : kills.length ≤ t.mons.names.length := (hnodup.subperm hsub).length_le
  have hsize : (t.mons.names.length : Int) - kills.length =
      ((t.mons.names.length - kills.length : Nat) : Int) := by omega
  unfold awaitSurvivors onlyIf
  split
  · simp only [hsize]
    exact leads_await _ _
  · exact .ret ()

theorem leads_freezeAll (hnodup : freezes.Nodup) (hdead : ∀ m ∈ freezes, m ∉ dead) :
    Leads prompt (freezeAll t freezes) () ⟨view dead [], now :: past⟩ (.ret ()) ()
      ⟨view dead [], (now ++ (freezes.map .stop ++ freezes.map .cont)) :: past⟩ := by
  unfold freezeAll onlyIf
  split
  · rw [← append_assoc]
    refine (leads_sweep (sweep_stop dead hnodup hdead) fun m st now => leads_daemon rfl st now past).bind ?_
    refine (leads_sleep _).bind ?_
    exact leads_sweep (sweep_cont dead hnodup hdead) fun m st now => leads_daemon rfl st now past
  · rename_i hnil
    rw [not_not] at hnil
    simp only [hnil, map_nil, append_nil]
    exact .ret ()

theorem leads_reviveAll (hnodup : kills.Nodup) :
    Leads prompt (forEach kills reviveMon) () ⟨view kills [], now :: past⟩ (.ret ()) ()
      ⟨allRunning, (now ++ kills.map .start) :: past⟩ := by
  rw [← view_nil]
  exact leads_sweep (sweep_start hnodup) fun m st now => leads_daemon rfl st now past

theorem leads_triggerScrub : Leads prompt (triggerScrub t) () x (.ret ()) () x := by
  unfold triggerScrub onlyIf
  split
  · exact .op (a := .ok ()) (.inl rfl) (.ret ())
  · exact .ret ()

theorem leads_onlyIf_sleep (c : Prop) [Decidable c] (d : ℚ) :
    Leads prompt (onlyIf c (sleep d)) () x (.ret ()) () x := by
  unfold onlyIf
  split
  · exact leads_sleep d
  · exact .ret ()

def WhileDown (kills : List Mon) (e : Event monSig Unit Cluster) : Prop := e.ext.status = view kills []

theorem passes_sleep (d : ℚ) : Passes prompt (WhileDown kills) (sleep d) () ⟨view kills [], now :: past⟩
    (.ret ()) () ⟨view kills [], now :: past⟩ :=
  .op (a := .ok ()) rfl (.inl rfl) (.ret ())

theorem passes_thrash (past : List (List (ProcAct Mon))) (hsub : kills ⊆ t.mons.names)
    (hkills : kills.Nodup) (hfreezes : freezes.Nodup) (hdisj : ∀ m ∈ freezes, m ∉ kills) :
    Passes prompt (WhileDown kills) (thrash t 1 kills freezes) () ⟨allRunning, [] :: past⟩ (.ret ())
      () ⟨allRunning, plan kills freezes :: past⟩ := by
  have hagain : ∀ now, Leads prompt (freezeAll t freezes) () ⟨allRunning, now :: past⟩ (.ret ()) ()
      ⟨allRunning, (now ++ (freezes.map .stop ++ freezes.map .cont)) :: past⟩ := by
    intro now
    rw [← view_nil]
    exact leads_freezeAll hfreezes fun _ _ => not_mem_nil
  refine (leads_killAll hkills [] past).bind_passes ?_
  refine (leads_freezeAll hfreezes hdisj).bind_passes ?_
  refine (leads_awaitSurvivors hsub hkills).bind_passes ?_
  refine (passes_sleep t.reviveDelay).bind ?_
  refine (leads_reviveAll hkills).bind ((hagain _).bind ?_)
  exact leads_awaitAll.bind (leads_triggerScrub.bind (leads_onlyIf_sleep _ _))

theorem passes_thrashRound (past : List (List (ProcAct Mon))) (hsub : kills ⊆ t.mons.names)
    (hnodup : kills.Nodup) (hpos : 1 ≤ kills.length) (hle : (kills.length : Int) ≤ t.maxKillable) :
    ∃ round, Passes prompt (WhileDown kills) (thrashRound t 1) () ⟨allRunning, [] :: past⟩ (.ret ())
      () ⟨allRunning, round :: past⟩ := by
  let freezes := t.mons.names.filter fun m => m ∉ kills ∧ 0 < t.freezeMonProbability
  have hdisj : ∀ m ∈ freezes, m ∉ kills := fun m hm => (of_decide_eq_true (mem_filter.mp hm).2).1
  have hthrash := passes_thrash past hsub hnodup (t.mons.nodup.filter _) hdisj
  refine ⟨plan kills freezes, leads_awaitAll.bind_passes ?_⟩
  refine (leads_chooseMonsToKill hsub hnodup hpos hle).bind_passes ?_
  exact (leads_chooseMonsToFreeze kills t.mons.names).bind_passes hthrash

theorem passes_doThrash (hsub : kills ⊆ t.mons.names) (hnodup : kills.Nodup) (hpos : 1 ≤ kills.length)
    (hle : (kills.length : Int) ≤ t.maxKillable) :
    ∃ x, Passes prompt (WhileDown kills) (doThrash t 1 2) () start (.ret ()) () x := by
  obtain ⟨round, hround⟩ := passes_thrashRound [] hsub hnodup hpos hle
  have htest : ∀ (x : Cluster) (stopping : Bool), Leads prompt
      (issue .stopping >>= fun stopping => .ret (!stopping)) () x (.ret (!stopping)) ()
      ⟨x.status, [] :: x.rounds⟩ :=
    fun x stopping => (leads_issue .stopping stopping rfl).bind (.ret _)
  have hstop : Leads prompt (doThrash t 1 1) () ⟨allRunning, [round]⟩ (.ret ()) ()
      ⟨allRunning, [[], round]⟩ :=
    (htest ⟨allRunning, [round]⟩ true).bind (.ret ())
  exact ⟨_, (htest start false).bind_passes (hround.bind hstop)⟩

/-- **One monitor at a time only where no more may be killed**: with three or more monitors, exactly if
quorum is maintained and there are at most four. `thrash_many` makes no difference. -/
theorem one_down_iff (t : MonitorThrasher) (hmany : 3 ≤ t.mons.names.length) :
    (∀ fuel n r w, Exec prompt (doThrash t fuel n) ⟨(), start, []⟩ r w → (∀ e, r ≠ .exn e) →
      (∀ e ∈ w.log, OneDown t.mons e.ext.status) ∧ OneDown t.mons w.ext.status) ↔
    t.maintainQuorum = true ∧ t.mons.names.length ≤ 4 := by
  rw [← maxKillable_le_one_iff hmany]
  constructor
  · intro h
    by_contra hlt
    rw [not_le] at hlt
    have hsub := take_subset 2 t.mons.names
    have hnodup := t.mons.nodup.sublist (take_sublist 2 t.mons.names)
    have htwo : (t.mons.names.take 2).length = 2 := by
      rw [length_take]
      omega
    obtain ⟨x, hpasses⟩ := passes_doThrash hsub hnodup (by omega) (by omega)
    obtain ⟨log, hrun, e, he, hdown⟩ := hpasses []
    have hone := (h 1 2 _ _ hrun (by simp)).1 e he
    rw [hdown] at hone
    exact not_oneDown_view hsub hnodup (by omega) hone
  · intro hle fuel n r w hrun _
    have hwp := wp_doThrash t fuel n (w := ⟨(), start, []⟩) rfl
    refine ⟨fun e he => ((wp_events hwp hrun rfl e he).2).oneDown hle, ?_⟩
    have hpost := wp_post hwp hrun
    cases r with
    | ret _ => exact Amid.oneDown hle (.inl hpost.1)
    | exn | cut => exact hpost.1.oneDown hle

theorem one_down_three_monitors :
    MonitorThrasher.init threeMons.mons {} = .ok threeMons ∧ threeMons.thrashMany = false ∧
      ∀ fuel n r w, Exec prompt (doThrash threeMons fuel n) ⟨(), start, []⟩ r w → (∀ e, r ≠ .exn e) →
        (∀ e ∈ w.log, OneDown threeMons.mons e.ext.status) ∧ OneDown threeMons.mons w.ext.status := by
  have hinit : MonitorThrasher.init threeMons.mons {} = .ok threeMons :=
    MonitorThrasher.init_eq_ok_iff.mpr ⟨rfl, by decide +kernel, by decide⟩
  exact ⟨hinit, rfl, (one_down_iff threeMons (by decide)).mpr ⟨rfl, by decide⟩⟩

def fiveMons : MonitorThrasher := .ofConfig ⟨["a", "b", "c", "d", "e"], by decide⟩ {}

/-- Five monitors and no configuration: two are killed in one round. -/
theorem two_down_five_monitors :
    MonitorThrasher.init fiveMons.mons {} = .ok fiveMons ∧ fiveMons.thrashMany = false ∧
      ∃ w, Exec prompt (doThrash fiveMons 1 2) ⟨(), start, []⟩ (.ret ()) w ∧
        ∃ e ∈ w.log, ¬ OneDown fiveMons.mons e.ext.status := by
  have hkillable : fiveMons.maxKillable = 2 := by decide +kernel
  have hinit : MonitorThrasher.init fiveMons.mons {} = .ok fiveMons :=
    MonitorThrasher.init_eq_ok_iff.mpr ⟨rfl, by rw [hkillable]; decide, by decide⟩
  have hsub : ["a", "b"] ⊆ fiveMons.mons.names := by decide
  have hnodup : ["a", "b"].Nodup := by decide
  obtain ⟨x, hpasses⟩ := passes_doThrash hsub hnodup (by decide) (by rw [hkillable]; decide)
  obtain ⟨log, hrun, e, he, hdown⟩ := hpasses []
  refine ⟨hinit, rfl, _, hrun, e, he, ?_⟩
  rw [hdown]
  exact not_oneDown_view hsub hnodup (by decide)

end ZbkcTasks.MonThrash
