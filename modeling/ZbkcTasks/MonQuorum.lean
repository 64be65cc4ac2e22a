import ZbkcTasks.MonRounds

/-! `maintain_quorum` of the monitor thrasher. A round kills few enough, but those that it stops are drawn
among all the others. -/

namespace ZbkcTasks.MonThrash

open List ProcAct Prog

/-- Strictly more than half of the monitors run and are not stopped. -/
def Quorate (mons : Monitors) (st : Mon → ProcStatus) : Prop :=
  mons.names.length < 2 * mons.names.countP fun m => st m = .running

instance (mons : Monitors) (st : Mon → ProcStatus) : Decidable (Quorate mons st) :=
  inferInstanceAs (Decidable (_ < _))

section Kept

variable {t : MonitorThrasher} {st : Mon → ProcStatus}

theorem two_mul_maxKillable_lt (hquorum : t.maintainQuorum = true) (hmons : 0 < t.mons.names.length) :
    2 * t.maxKillable < t.mons.names.length := by
  rw [MonitorThrasher.maxKillable, if_pos hquorum]
  have hceil : (⌈(t.mons.names.length : ℚ) / 2⌉ : ℚ) < (t.mons.names.length : ℚ) / 2 + 1 :=
    Int.ceil_lt_add_one _
  have hlt : (⌈(t.mons.names.length : ℚ) / 2⌉ - 1) * 2 < (t.mons.names.length : Int) := by
    have hcast : ((⌈(t.mons.names.length : ℚ) / 2⌉ : ℚ) - 1) * 2 < (t.mons.names.length : ℚ) := by linarith
    exact_mod_cast hcast
  omega

theorem one_le_maxKillable (hquorum : t.maintainQuorum = true) (hmany : 3 ≤ t.mons.names.length) :
    1 ≤ t.maxKillable := by
  rw [MonitorThrasher.maxKillable, if_pos hquorum]
  have hcast : (3 : ℚ) ≤ t.mons.names.length := by exact_mod_cast hmany
  have hceil : 1 < ⌈(t.mons.names.length : ℚ) / 2⌉ := Int.lt_ceil.mpr (by push_cast; linarith)
  omega

theorem Amid.quorate (hquorum : t.maintainQuorum = true) (hmons : 0 < t.mons.names.length)
    (hfreeze : t.freezeMonProbability ≤ 0) (h : Amid t st) : Quorate t.mons st := by
  have hsplit := t.mons.names.length_eq_countP_add_countP fun m => decide (st m = .running)
  rcases h with rfl | ⟨kills, freezes, hchosen, hst⟩
  · simp only [Quorate, allRunning, decide_true, countP_true]
    omega
  · have hnil : freezes = [] := by
      by_contra hne
      exact absurd (hchosen.freeze_pos hne) (not_lt.mpr hfreeze)
    have hdown : t.mons.names.countP (fun m => !decide (st m = .running)) ≤ kills.length := by
      rw [countP_eq_length_filter]
      apply ((t.mons.nodup.filter _).subperm _).length_le
      intro m hm
      obtain ⟨-, hm⟩ := mem_filter.mp hm
      cases hstatus : st m with
      | running => simp [hstatus] at hm
      | dead => exact (hst m).1 hstatus
      | stopped => simpa [hnil] using (hst m).2 hstatus
    have hhalf := two_mul_maxKillable_lt hquorum hmons
    have hle := hchosen.kills_le
    simp only [Quorate]
    simp only [← decide_not, decide_eq_true_eq] at hsplit hdown ⊢
    omega

end Kept

/-! ### Losing it -/

variable {kills : List Mon} {mons : Monitors}

section Lost

variable {t : MonitorThrasher} {x : Cluster}

theorem leads_issue (o : Op) (a : o.Ans) {x' : Cluster} (h : x' = o.effect x) :
    Leads prompt (issue o) () x (.ret a) () x' :=
  .op (.inl h) (.ret a)

theorem leads_quiet (o : Op) (a : o.Ans) (ho : quiet.ops o) : Leads prompt (issue o) () x (.ret a) () x :=
  leads_issue o a (Op.effect_quiet ho x).symm

theorem leads_below (n : Nat) (i : Fin (n + 1)) : Leads prompt (below n) () x (.ret i) () x :=
  leads_quiet (.below n) i ⟨rfl, by simp⟩

theorem leads_await (mons : List Mon) (size : Nat) :
    Leads prompt (waitForMonQuorumSize 1 size >>= fun _ => checkQuorum mons size) () x (.ret ()) () x := by
  have hquorum : Leads prompt getMonQuorum () x (.ret (List.range size)) () x :=
    (leads_quiet .quorumStatus (.ok _) ⟨rfl, by simp⟩).bind (.ret _)
  have hstatus : ∀ m, Leads prompt (getMonStatus m) () x (.ret ⟨.leader, List.range size⟩) () x :=
    fun m => (leads_quiet (.monStatus m) (.ok _) ⟨rfl, by simp⟩).bind (.ret _)
  refine Leads.bind (a := ()) ?_ (Leads.forEach (fun _ => x) fun done m rest _ => (hstatus m).bind ?_)
  · apply (leads_quiet .time (0 : ℚ) ⟨rfl, by simp⟩).bind
    apply Leads.whileDo_stop
    apply hquorum.bind
    simp only [length_range, not_true_eq_false, decide_false]
    exact .ret false
  · simp only [pyAssert, length_range, true_or, if_true, Prog.ret_bind]
    exact .ret ()

theorem leads_awaitAll : Leads prompt (awaitAll t 1) () x (.ret ()) () x :=
  leads_await t.mons.names t.mons.names.length

theorem leads_shouldFreezeMon :
    Leads prompt (shouldFreezeMon t) () x (.ret (decide (0 < t.freezeMonProbability))) () x := by
  have hdraw := leads_randrange 0 101 0 (x := x) leads_below (by decide)
  simp only [Int.cast_zero, Int.cast_ofNat] at hdraw
  refine hdraw.bind ?_
  simp only [Int.cast_zero]
  exact .ret _

/-- With a chance to stop a monitor, all that are not killed may be stopped. -/
theorem leads_chooseMonsToFreeze (kills mons : List Mon) :
    Leads prompt (chooseMonsToFreeze t kills mons) () x
      (.ret (mons.filter fun m => m ∉ kills ∧ 0 < t.freezeMonProbability)) () x := by
  induction mons with
  | nil => exact .ret []
  | cons mon mons ih =>
    by_cases hmon : mon ∈ kills
    · simpa [chooseMonsToFreeze, hmon] using ih
    · rw [chooseMonsToFreeze, if_neg hmon]
      refine leads_shouldFreezeMon.bind (ih.bind ?_)
      rw [filter_cons]
      simp only [hmon, not_false_eq_true, true_and]
      exact .ret _

theorem leads_chooseMonsToKill (hsub : kills ⊆ t.mons.names) (hnodup : kills.Nodup)
    (hpos : 1 ≤ kills.length) (hle : (kills.length : Int) ≤ t.maxKillable) :
    Leads prompt (chooseMonsToKill t) () x (.ret kills) () x := by
  have hdraw := leads_randrange 1 (t.maxKillable + 1) kills.length (x := x) leads_below
    ⟨by omega, by omega⟩
  simp only [Int.cast_one, Int.cast_add] at hdraw
  have hsample := leads_sample samplePositions (x := x)
    (fun n k d => leads_quiet (.sample n k) d ⟨rfl, by simp⟩) hsub hnodup
  exact hdraw.bind hsample

theorem leads_daemon {mon : Mon} {cmd : DaemonCmd} {a : ProcAct Mon} (hact : cmd.act mon = some a)
    (st : Mon → ProcStatus) (now : List (ProcAct Mon)) (past : List (List (ProcAct Mon))) :
    Leads prompt (daemon mon cmd) () ⟨st, now :: past⟩ (.ret ()) () ⟨a.apply st, (now ++ [a]) :: past⟩ := by
  have heffect : (⟨a.apply st, (now ++ [a]) :: past⟩ : Cluster) =
      (Op.daemon mon cmd).effect ⟨st, now :: past⟩ := by
    simp [Op.effect, Op.act, hact, Cluster.send, noteAct]
  exact (leads_issue (.daemon mon cmd) (.ok ()) heffect).bind (.ret ())

theorem leads_thrashStoreOf (mon : Mon) : ∃ b, Leads prompt (shouldThrashStore t) () x (.ret b) () x ∧
    Leads prompt (onlyIf (b ∧ t.maintainQuorum) (thrashStore mon)) () x (.ret ()) () x := by
  have hstore : Leads prompt (thrashStore mon) () x (.ret ()) () x := by
    apply Leads.bind ((leads_quiet (.syncForce mon) (.ok ⟨"", 0⟩) ⟨rfl, by simp⟩).bind (.ret _))
    exact .ret ()
  have honly : ∀ b : Bool,
      Leads prompt (onlyIf (b ∧ t.maintainQuorum) (thrashStore mon)) () x (.ret ()) () x := by
    intro b
    unfold onlyIf
    split
    · exact hstore
    · exact .ret ()
  unfold shouldThrashStore
  split
  · have hdraw := leads_randrange 0 101 0 (x := x) leads_below (by decide)
    simp only [Int.cast_zero, Int.cast_ofNat] at hdraw
    exact ⟨_, hdraw.bind (.ret _), honly _⟩
  · exact ⟨false, .ret false, honly false⟩

theorem leads_sweep {act : Mon → ProcAct Mon} {V : List Mon → List Mon → Mon → ProcStatus} {mons : List Mon}
    {f : Mon → M Unit} {past : List (List (ProcAct Mon))} {now : List (ProcAct Mon)}
    (hsweep : Sweep act V mons)
    (hbody : ∀ m st now, Leads prompt (f m) () ⟨st, now :: past⟩ (.ret ()) ()
      ⟨(act m).apply st, (now ++ [act m]) :: past⟩) :
    Leads prompt (forEach mons f) () ⟨V [] mons, now :: past⟩ (.ret ()) ()
      ⟨V mons [], (now ++ mons.map act) :: past⟩ := by
  have hstep : ∀ done m rest, done ++ m :: rest = mons →
      Leads prompt (f m) () ⟨V done (mons.drop done.length), (now ++ done.map act) :: past⟩ (.ret ()) ()
        ⟨V (done ++ [m]) (mons.drop (done ++ [m]).length), (now ++ (done ++ [m]).map act) :: past⟩ := by
    intro done m rest hdone
    have hdrop : mons.drop done.length = m :: rest := by rw [← hdone]; simp
    have hdrop' : mons.drop (done ++ [m]).length = rest := by rw [← hdone]; simp
    have hstep := hbody m (V done (m :: rest)) (now ++ done.map act)
    rw [(hsweep done m rest hdone).2] at hstep
    rw [hdrop, hdrop']
    simpa using hstep
  simpa using Leads.forEach _ hstep

theorem leads_killAll (hnodup : kills.Nodup) (now : List (ProcAct Mon)) (past : List (List (ProcAct Mon))) :
    Leads prompt (killAll t kills) () ⟨allRunning, now :: past⟩ (.ret ()) ()
      ⟨view kills [], (now ++ kills.map .kill) :: past⟩ := by
  rw [← view_nil]
  apply leads_sweep (sweep_kill hnodup)
  intro mon st now
  obtain ⟨b, hdraw, hstore⟩ := leads_thrashStoreOf (t := t) (x := ⟨st, now :: past⟩) mon
  exact hdraw.bind (hstore.bind (leads_daemon rfl st now past))

theorem not_quorate_all_stopped {mon : Mon} :
    ¬ Quorate mons (view [mon] (mons.names.filter (· ∉ [mon]))) := by
  have hnone : mons.names.countP
      (fun m => decide (view [mon] (mons.names.filter (· ∉ [mon])) m = .running)) = 0 := by
    rw [countP_eq_zero]
    intro m hm
    by_cases heq : m = mon <;> simp [view, heq, hm]
  rw [Quorate, hnone]
  omega

theorem others_ne_nil (hmany : 3 ≤ mons.names.length) (mon : Mon) :
    mons.names.filter (· ∉ [mon]) ≠ [] := by
  intro hnil
  have hsub : mons.names ⊆ [mon] := by
    intro m hm
    by_contra hne
    exact not_mem_nil (hnil ▸ mem_filter.mpr ⟨hm, by simpa using hne⟩)
  have hlen := (mons.nodup.subperm hsub).length_le
  rw [length_singleton] at hlen
  omega

end Lost

/-- **Quorum is maintained exactly when no monitor is ever stopped**: with three or more monitors, more
than half run at every moment of every run if and only if `freeze_mon_probability` is not positive. -/
theorem quorum_maintained_iff (t : MonitorThrasher) (hmany : 3 ≤ t.mons.names.length)
    (hquorum : t.maintainQuorum = true) :
    (∀ fuel n r w, Exec prompt (doThrash t fuel n) ⟨(), start, []⟩ r w →
      (∀ e ∈ w.log, Quorate t.mons e.ext.status) ∧ Quorate t.mons w.ext.status) ↔
    t.freezeMonProbability ≤ 0 := by
  have hpos : 0 < t.mons.names.length := by omega
  constructor
  · intro h
    by_contra hfreeze
    rw [not_le] at hfreeze
    have htotal : ∀ o s x, ∃ a s' x', prompt o s x a s' x' :=
      fun o s x => ⟨_, _, _, prompt_obliging t o s x⟩
    have hwp : wp prompt (fun _ _ x => Quorate t.mons x.status) (doThrash t 1 1) (fun _ _ => True)
        ⟨(), start, []⟩ := wp_of_events htotal fun r w hrun => (h 1 1 r w hrun).1
    have hgo : Leads prompt (do let stopping ← issue .stopping; .ret (!stopping)) () start (.ret true) ()
        ⟨allRunning, [[]]⟩ := (leads_issue .stopping false rfl).bind (.ret true)
    obtain ⟨mon, hmon⟩ := exists_mem_of_length_pos hpos
    have hkill := one_le_maxKillable hquorum hmany
    obtain ⟨_, h1⟩ := hgo.wp_rest hwp
    obtain ⟨_, h2⟩ := leads_awaitAll.wp_rest (wp_bind.mp h1)
    have hone : [mon] ⊆ t.mons.names := cons_subset.mpr ⟨hmon, nil_subset _⟩
    have hchoose : Leads prompt (chooseMonsToFreeze t [mon] t.mons.names) () ⟨allRunning, [[]]⟩
        (.ret (t.mons.names.filter (· ∉ [mon]))) () ⟨allRunning, [[]]⟩ := by
      simpa [hfreeze] using leads_chooseMonsToFreeze (t := t) [mon] t.mons.names
    obtain ⟨_, h3⟩ := (leads_chooseMonsToKill hone (nodup_singleton mon) le_rfl hkill).wp_rest h2
    obtain ⟨_, h4⟩ := hchoose.wp_rest h3
    obtain ⟨_, h5⟩ := (leads_killAll (nodup_singleton mon) [] []).wp_rest h4
    have hstop := sweep_stop [mon] (t.mons.nodup.filter (· ∉ [mon]))
      fun m hm => by simpa using (mem_filter.mp hm).2
    have hfirst := wp_bind.mp h5
    rw [freezeAll, onlyIf, if_pos (others_ne_nil hmany mon)] at hfirst
    -- the sleep after the STOPs is where quorum is missed
    obtain ⟨_, h6⟩ := (leads_sweep hstop fun m st now => leads_daemon rfl st now []).wp_rest hfirst
    exact not_quorate_all_stopped h6.1
  · intro hfreeze fuel n r w hrun
    have hwp := wp_doThrash t fuel n (w := ⟨(), start, []⟩) rfl
    have hquorate : ∀ {st}, Amid t st → Quorate t.mons st := Amid.quorate hquorum hpos hfreeze
    refine ⟨fun e he => hquorate (wp_events hwp hrun rfl e he).2, ?_⟩
    have hpost := wp_post hwp hrun
    cases r with
    | ret _ => exact hquorate (.inl hpost.1)
    | exn | cut => exact hquorate hpost.1

theorem quorum_maintained_without_freezes :
    ∃ t, MonitorThrasher.init threeMons.mons { freezeMonProbability := some (.int 0) } = .ok t ∧
      t.freezeMonProbability ≤ 0 ∧ ∀ fuel n r w, Exec prompt (doThrash t fuel n) ⟨(), start, []⟩ r w →
        (∀ e ∈ w.log, Quorate t.mons e.ext.status) ∧ Quorate t.mons w.ext.status := by
  refine ⟨.ofConfig threeMons.mons { freezeMonProbability := some (.int 0) }, ?_, le_refl 0, ?_⟩
  · exact MonitorThrasher.init_eq_ok_iff.mpr ⟨rfl, by decide +kernel, by decide⟩
  · exact (quorum_maintained_iff _ (by decide) rfl).mpr (le_refl 0)

/-- Three monitors and no configuration: one is killed, the two others are stopped. -/
theorem quorum_lost_by_default :
    MonitorThrasher.init threeMons.mons {} = .ok threeMons ∧ threeMons.maintainQuorum = true ∧
      Exec prompt (doThrash threeMons 1 2) ⟨(), start, []⟩ (obligingRun threeMons).1
        (obligingRun threeMons).2 ∧
      ∃ e ∈ (obligingRun threeMons).2.log, ¬ Quorate threeMons.mons e.ext.status := by
  have hinit : MonitorThrasher.init threeMons.mons {} = .ok threeMons :=
    MonitorThrasher.init_eq_ok_iff.mpr ⟨rfl, by decide +kernel, by decide⟩
  have hlost : ((obligingRun threeMons).2.log.any fun e =>
      !decide (Quorate threeMons.mons e.ext.status)) := by
    decide +kernel
  obtain ⟨e, he, hne⟩ := any_eq_true.mp hlost
  exact ⟨hinit, rfl, exec_obligingRun threeMons, e, he, by simpa using hne⟩

end ZbkcTasks.MonThrash
