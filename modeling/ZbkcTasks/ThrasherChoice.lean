import ZbkcTasks.ThrasherBook
import ZbkcTasks.WeightedPick

/-! `choose_action` as a weighted selection: with weights that are not negative, its last loop picks the
action whose interval holds the draw. -/

namespace ZbkcTasks

open List Prog

def weightSettings (c : ThrasherConfig) : List ℚ :=
  [chanceDown c, c.reweightOsd.getD (1 / 2), c.chancePgnumGrow.getD 0, c.chancePgpnumFix.getD 0,
    c.chanceTestMinSize.getD 0, c.chanceTestBackfillFull.getD 0, c.chanceInjectPauseShort.getD 1,
    c.chanceInjectPauseLong.getD 0]

theorem pick_eq_pickAt (xs : List (Action × ℚ)) (val : ℚ) : pick xs val = pickAt xs val := by
  induction xs generalizing val with
  | nil => rfl
  | cons x xs ih => rw [pick, pickAt, ih]

variable {t : Thrasher}

theorem actions_nonneg (hweights : ∀ q ∈ weightSettings t.config, 0 ≤ q) :
    ∀ x ∈ actions t, 0 ≤ x.2 := by
  intro x hx
  simp only [weightSettings, forall_mem_cons] at hweights
  obtain ⟨hdown, hreweight, hgrow, hfix, hsize, hfull, hshort, hlong, -⟩ := hweights
  simp only [actions, pauseKeys, mem_append, mem_entry, flatMap_cons, flatMap_nil,
    mem_cons, not_mem_nil, or_false] at hx
  rcases hx with ((((((h | h) | h) | h) | h) | h) | h) | h
  · rw [h.2]; exact zero_le_one
  · rw [h.2]; exact hdown
  · rw [h.2]; exact zero_le_one
  · rw [h.2]; decide +kernel
  · rw [h.2]; exact zero_le_one
  · rw [h.2]; exact zero_le_one
  · rcases h with rfl | rfl | rfl | rfl | rfl <;> assumption
  · rcases h with (rfl | rfl) | rfl | rfl <;> assumption

theorem weight_killOsd {weight : ℚ} (h : (.killOsd, weight) ∈ actions t) :
    weight = chanceDown t.config := by
  have hentry : (t.config.minLive.getD 2 < t.liveOsds.length ∧ 0 < chanceDown t.config) ∧
      weight = chanceDown t.config := by
    simpa [actions, pauseKeys] using h
  exact hentry.2

theorem entry_sublist (c : Prop) [Decidable c] (a : Action) (weight : ℚ) :
    ((entry c a weight).map (·.1)).Sublist [a] := by
  unfold entry
  split
  · exact List.Sublist.refl _
  · exact nil_sublist _

def allActions : List Action :=
  [.outOsd] ++ [.killOsd] ++ [.rmPastIntervals] ++ [.inOsd] ++ [.reviveOsd] ++ [.primaryAffinity] ++
  [.reweightOsdOrByUtil, .growPool, .fixPgpNum, .testPoolMinSize, .testBackfillFull] ++
  [.injectPauseShort .heartbeatInjectFailure, .injectPauseLong .heartbeatInjectFailure,
    .injectPauseShort .filestoreInjectStall, .injectPauseLong .filestoreInjectStall]

theorem actions_nodup (t : Thrasher) : ((actions t).map (·.1)).Nodup := by
  have hsub : ((actions t).map (·.1)).Sublist allActions := by
    simp only [actions, map_append]
    refine List.Sublist.append (List.Sublist.append ?_ (List.Sublist.refl _)) (List.Sublist.refl _)
    exact ((((((entry_sublist _ _ _).append (entry_sublist _ _ _)).append (entry_sublist _ _ _)).append
      (entry_sublist _ _ _)).append (entry_sublist _ _ _)).append (entry_sublist _ _ _))
  exact List.Nodup.sublist hsub (by decide)

/-! ### Runs -/

/-- The answers in which `random.uniform` returns `val`. -/
def Op.draws (val : ℚ) : (o : Op) → o.Ans → Prop
  | .uniform _ _, u => u.val = val
  | _, _ => True

def drawing (val : ℚ) : Env taskSig Thrasher Unit := fun o t _ a t' _ => o.draws val a ∧ Others t t'

/-- `choose_action` may return `r` when it draws `val`. -/
def Chooses (t : Thrasher) (val : ℚ) (r : Option Action) : Prop :=
  ∃ w, Exec (drawing val) chooseAction ⟨t, (), []⟩ (.ret r) w

theorem chooses_iff (hstarted : Started t) {val : ℚ} {r : Option Action} :
    Chooses t val r ↔ (min 0 (total (actions t)) ≤ val ∧ val ≤ max 0 (total (actions t))) ∧
      r = pick (actions t) val := by
  constructor
  · rintro ⟨w, hrun⟩
    have hwp : wp (drawing val) (fun _ _ _ => True) chooseAction (fun r _ =>
        (min 0 (total (actions t)) ≤ val ∧ val ≤ max 0 (total (actions t))) ∧
          r = .ret (pick (actions t) val)) ⟨t, (), []⟩ := by
      refine (wp_chooseAction hstarted).mpr ⟨trivial, fun u s x hstep => ?_⟩
      have hu : u.val = val := hstep.1
      rw [← hu]
      exact ⟨u.property, rfl⟩
    obtain ⟨hbounds, hr⟩ := wp_post hwp hrun
    injection hr with hr
    exact ⟨hbounds, hr⟩
  · rintro ⟨hbounds, rfl⟩
    by_contra hnone
    -- otherwise every run would return something else
    have hwp : wp (drawing val) (fun _ _ _ => True) chooseAction
        (fun r _ => r ≠ .ret (pick (actions t) val)) ⟨t, (), []⟩ :=
      wp_iff_exec.mpr fun r w hrun hr => hnone ⟨w, hr ▸ hrun⟩
    rw [wp_chooseAction hstarted] at hwp
    exact hwp.2 ⟨val, hbounds⟩ t () ⟨rfl, .refl t⟩ rfl

theorem chooses_of_covers (hstarted : Started t) (hweights : ∀ q ∈ weightSettings t.config, 0 ≤ q) {val : ℚ}
    (hval : 0 ≤ val) (hlt : val < total (actions t)) {entry : Action × ℚ}
    (hcovers : Covers (actions t) entry val) (r : Option Action) : Chooses t val r ↔ r = some entry.1 := by
  have hpick : pick (actions t) val = some entry.1 := by
    rw [pick_eq_pickAt]
    exact hcovers.picks (actions_nonneg hweights)
  rw [chooses_iff hstarted, hpick]
  exact and_iff_right ⟨(min_le_left _ _).trans hval, hlt.le.trans (le_max_right _ _)⟩

/-- **Weighted selection.** With weights laid end to end in the order of the list, a draw below their total
lies in the interval of exactly one enabled action, which is returned; the draws of an action are an
interval as long as its weight. -/
theorem choose_action_weighted (t : Thrasher) (hstarted : Started t)
    (hweights : ∀ q ∈ weightSettings t.config, 0 ≤ q) : (∀ val, 0 ≤ val → val < total (actions t) →
      (∃! entry, Covers (actions t) entry val) ∧ ∀ entry, Covers (actions t) entry val →
        0 < entry.2 ∧ ∀ r, Chooses t val r ↔ r = some entry.1) ∧
    (∀ a weight, (a, weight) ∈ actions t → ∃ lo,
      { val | (0 ≤ val ∧ val < total (actions t)) ∧ Chooses t val (some a) } =
        Set.Ico lo (lo + weight)) ∧
    ∀ c weight, t.config.chanceDown = some (.int c) → (.killOsd, weight) ∈ actions t →
      weight = c / 100 := by
  have hnonneg := actions_nonneg hweights
  have hnodup := actions_nodup t
  refine ⟨fun val hval hlt => ⟨?_, fun entry hentry => ⟨hentry.pos, ?_⟩⟩, fun a weight ha => ?_, ?_⟩
  · obtain ⟨entry, hentry⟩ := exists_covers hval hlt
    exact ⟨entry, hentry, fun entry' hentry' => hentry'.unique hnonneg hnodup hentry⟩
  · exact chooses_of_covers hstarted hweights hval hlt hentry
  · obtain ⟨before, after, hsplit⟩ := append_of_mem ha
    refine ⟨weightSum before, ?_⟩
    rw [← setOf_pickAt hnonneg hnodup hsplit]
    ext val
    refine and_congr_right fun hval => ?_
    rw [chooses_iff hstarted, ← pick_eq_pickAt, eq_comm (a := some a)]
    exact and_iff_right ⟨(min_le_left _ _).trans hval.1, hval.2.le.trans (le_max_right _ _)⟩
  · intro c weight hdown hmem
    rw [weight_killOsd hmem, chanceDown, hdown]
    rfl

theorem choose_action_weighted_fourOsds :
    Chooses (fourOsds {}) 1 (some .inOsd) ∧ ¬ Chooses (fourOsds {}) 1 none := by
  have hweights : ∀ q ∈ weightSettings (fourOsds {}).config, 0 ≤ q := by decide +kernel
  have hcovers : Covers (actions (fourOsds {})) (.inOsd, 17 / 10) 1 :=
    ⟨[(.killOsd, 4 / 10)], (actions (fourOsds {})).drop 2, by decide +kernel, by decide +kernel,
      by decide +kernel⟩
  have hchooses := (((choose_action_weighted (fourOsds {}) (ready_started _ _ _ _ _ _) hweights).1 1
    (by decide +kernel) (by decide +kernel)).2 _ hcovers).2
  exact ⟨(hchooses _).mpr rfl, fun hnone => nomatch (hchooses none).mp hnone⟩

end ZbkcTasks
