import ZbkcTasks.MonThrash
import ZbkcTasks.ProcSignals

/-! What the monitor thrasher does to the monitors; a command that raises may have taken effect or not.
Every round that ends has sent the signals of one plan and leaves every monitor running. -/

namespace ZbkcTasks.MonThrash

open List ProcAct Prog

/-! ### The cluster -/

/-- The monitors, and what each round so far has sent to them, the newest round first. -/
structure Cluster where
  status : Mon → ProcStatus
  rounds : List (List (ProcAct Mon))

def allRunning : Mon → ProcStatus := fun _ => .running

def start : Cluster := ⟨allRunning, []⟩

def noteAct (a : ProcAct Mon) : List (List (ProcAct Mon)) → List (List (ProcAct Mon))
  | [] => [[a]]
  | now :: past => (now ++ [a]) :: past

def Cluster.send (x : Cluster) (a : ProcAct Mon) : Cluster := ⟨a.apply x.status, noteAct a x.rounds⟩

/-- What a command is to the monitor; 19 is STOP and 18 is CONT. -/
def DaemonCmd.act (mon : Mon) : DaemonCmd → Option (ProcAct Mon)
  | .signal 19 => some (.stop mon)
  | .signal 18 => some (.cont mon)
  | .signal _ => none
  | .stop => some (.kill mon)
  | .restart => some (.start mon)

def Op.act : Op → Option (ProcAct Mon)
  | .daemon mon cmd => cmd.act mon
  | _ => none

/-- The test of `self.stopping` opens a round. -/
def Op.effect : Op → Cluster → Cluster
  | .stopping, x => ⟨x.status, [] :: x.rounds⟩
  | o, x => o.act.elim x x.send

def Op.Failed : (o : Op) → o.Ans → Prop
  | .quorumStatus, r => ∃ e, r = .error e
  | .monStatus _, r => ∃ e, r = .error e
  | .syncForce _, r => ∃ e, r = .error e
  | .daemon _ _, r => ∃ e, r = .error e
  | .scrub, r => ∃ e, r = .error e
  | .sleep _, r => ∃ e, r = .error e
  | .time, _ => False
  | .below _, _ => False
  | .sample _ _, _ => False
  | .stopping, _ => False

/-- Signals, kills and restarts take effect at once. -/
def prompt : Env monSig Unit Cluster :=
  fun o _ x a _ x' => x' = o.effect x ∨ o.Failed a ∧ x' = x

/-! ### What a round may choose -/

structure Chosen (t : MonitorThrasher) (kills freezes : List Mon) : Prop where
  kills_nodup : kills.Nodup
  kills_subset : kills ⊆ t.mons.names
  kills_pos : 1 ≤ kills.length
  kills_le : (kills.length : Int) ≤ t.maxKillable
  freezes_nodup : freezes.Nodup
  disjoint : ∀ m ∈ freezes, m ∉ kills
  freeze_pos : freezes ≠ [] → 0 < t.freezeMonProbability

def plan (kills freezes : List Mon) : List (ProcAct Mon) :=
  kills.map .kill ++ (freezes.map .stop ++ freezes.map .cont) ++ kills.map .start ++
    (freezes.map .stop ++ freezes.map .cont)

/-- The dead are among those that some round chose to kill, the stopped among those it chose to stop. -/
def Amid (t : MonitorThrasher) (st : Mon → ProcStatus) : Prop :=
  st = allRunning ∨ ∃ kills freezes, Chosen t kills freezes ∧
    ∀ m, (st m = .dead → m ∈ kills) ∧ (st m = .stopped → m ∈ freezes)

/-- The monitors of `dead` are dead, those of `stopped` stopped and the others running. -/
def view (dead stopped : List Mon) : Mon → ProcStatus :=
  fun m => if m ∈ dead then .dead else if m ∈ stopped then .stopped else .running

theorem view_nil : view [] [] = allRunning := by
  funext m
  simp [view, allRunning]

abbrev ClusterW := World monSig Unit Cluster

variable {t : MonitorThrasher} {w : ClusterW}

theorem Chosen.amid {kills freezes dead stopped : List Mon} (h : Chosen t kills freezes)
    (hdead : dead ⊆ kills) (hstopped : stopped ⊆ freezes) : Amid t (view dead stopped) := by
  refine .inr ⟨kills, freezes, h, fun m => ⟨fun hm => hdead ?_, fun hm => hstopped ?_⟩⟩
  all_goals
    by_contra hne
    simp only [view, if_neg hne] at hm
    split at hm <;> cases hm

/-! ### Sweeps: one act on each monitor of a list -/

/-- Sweeping `mons`, with `V done rest` on the way, each act is allowed and leads on. -/
def Sweep (act : Mon → ProcAct Mon) (V : List Mon → List Mon → Mon → ProcStatus) (mons : List Mon) :
    Prop :=
  ∀ done m rest, done ++ m :: rest = mons →
    (act m).Allowed (V done (m :: rest)) ∧ (act m).apply (V done (m :: rest)) = V (done ++ [m]) rest

variable {V : List Mon → List Mon → Mon → ProcStatus} {act : Mon → ProcAct Mon} {mons : List Mon}
  {round : List (ProcAct Mon)}

theorem Sweep.legal (h : Sweep act V mons) :
    Legal (V [] mons) (mons.map act) ∧ replay (V [] mons) (mons.map act) = V mons [] := by
  have hrest : ∀ rest done, done ++ rest = mons →
      Legal (V done rest) (rest.map act) ∧ replay (V done rest) (rest.map act) = V mons [] := by
    intro rest
    induction rest with
    | nil =>
      intro done hdone
      rw [append_nil] at hdone
      rw [hdone]
      exact ⟨trivial, rfl⟩
    | cons m rest ih =>
      intro done hdone
      obtain ⟨hallowed, happly⟩ := h done m rest hdone
      have hnext := ih (done ++ [m]) (by rw [← hdone, append_assoc]; rfl)
      rw [← happly] at hnext
      exact ⟨⟨hallowed, hnext.1⟩, hnext.2⟩
  exact hrest mons [] rfl

section Sweeps

variable {dead done rest : List Mon} {m : Mon}

theorem not_mem_of_nodup (h : mons.Nodup) (hm : done ++ m :: rest = mons) : m ∉ done ∧ m ∉ rest := by
  rw [← hm, nodup_append] at h
  obtain ⟨-, hrest, hdisj⟩ := h
  exact ⟨fun hdone => hdisj m hdone m (.head _) rfl, (nodup_cons.mp hrest).1⟩

theorem sweep_kill (h : mons.Nodup) : Sweep .kill (fun done _ => view done []) mons := by
  intro done m rest hm
  obtain ⟨hdone, -⟩ := not_mem_of_nodup h hm
  refine ⟨by simp [Allowed, view, hdone], ?_⟩
  funext m'
  by_cases hm' : m' = m
  all_goals simp [apply, view, hm']

theorem sweep_stop (dead : List Mon) (h : mons.Nodup) (hdead : ∀ m ∈ mons, m ∉ dead) :
    Sweep .stop (fun done _ => view dead done) mons := by
  intro done m rest hm
  obtain ⟨hdone, -⟩ := not_mem_of_nodup h hm
  have hmdead : m ∉ dead := hdead m (by simp [← hm])
  have hrunning : view dead done m = .running := by simp [view, hmdead, hdone]
  refine ⟨hrunning, ?_⟩
  rw [apply_stop hrunning]
  funext m'
  by_cases hm' : m' = m
  · simp [view, hm', hmdead]
  · simp [view, hm']

theorem sweep_cont (dead : List Mon) (h : mons.Nodup) (hdead : ∀ m ∈ mons, m ∉ dead) :
    Sweep .cont (fun _ rest => view dead rest) mons := by
  intro done m rest hm
  obtain ⟨-, hrest⟩ := not_mem_of_nodup h hm
  have hmdead : m ∉ dead := hdead m (by simp [← hm])
  have hstopped : view dead (m :: rest) m = .stopped := by simp [view, hmdead]
  refine ⟨hstopped, ?_⟩
  rw [apply_cont hstopped]
  funext m'
  by_cases hm' : m' = m
  · simp [view, hm', hmdead, hrest]
  · simp [view, hm']

theorem sweep_start (h : mons.Nodup) : Sweep .start (fun _ rest => view rest []) mons := by
  intro done m rest hm
  obtain ⟨-, hrest⟩ := not_mem_of_nodup h hm
  refine ⟨by simp [Allowed, view], ?_⟩
  funext m'
  by_cases hm' : m' = m
  · simp [apply, hm', view, hrest]
  · simp [apply, view, hm']

end Sweeps

theorem Chosen.plan_legal {kills freezes : List Mon} (h : Chosen t kills freezes) :
    Legal allRunning (plan kills freezes) ∧ replay allRunning (plan kills freezes) = allRunning := by
  obtain ⟨hkill, hkill'⟩ := (sweep_kill h.kills_nodup).legal
  obtain ⟨hstop, hstop'⟩ := (sweep_stop _ h.freezes_nodup h.disjoint).legal
  obtain ⟨hcont, hcont'⟩ := (sweep_cont _ h.freezes_nodup h.disjoint).legal
  obtain ⟨hstart, hstart'⟩ := (sweep_start h.kills_nodup).legal
  obtain ⟨hstop2, hstop2'⟩ := (sweep_stop [] h.freezes_nodup fun _ _ => not_mem_nil).legal
  obtain ⟨hcont2, hcont2'⟩ := (sweep_cont [] h.freezes_nodup fun _ _ => not_mem_nil).legal
  rw [view_nil] at hkill hkill' hcont2' hstart' hstop2 hstop2'
  simp only [plan, legal_append, replay_append, hkill', hstop', hcont', hstart', hstop2', hcont2']
  exact ⟨⟨⟨⟨hkill, hstop, hcont⟩, hstart⟩, hstop2, hcont2⟩, trivial⟩

/-! ### What every run does -/

/-- What may be sent where: an act only where it is allowed, and a round begins with all running. -/
def Op.Proper (o : Op) (x : Cluster) : Prop :=
  (∀ a, o.act = some a → a.Allowed x.status) ∧ (o = .stopping → x.status = allRunning)

def proper (t : MonitorThrasher) : Op → Unit → Cluster → Prop :=
  fun o _ x => o.Proper x ∧ Amid t x.status

def Broken (t : MonitorThrasher) (past : List (List (ProcAct Mon))) (w : World monSig Unit Cluster) :
    Prop :=
  Amid t w.ext.status ∧ w.ext.rounds.tail = past

/-- The statement takes the cluster from `x` to `x'`, unless the round is broken off in it. -/
def Takes (t : MonitorThrasher) (past : List (List (ProcAct Mon))) (p : M Unit) (x x' : Cluster) : Prop :=
  ∀ w, w.ext = x → wp prompt (proper t) p (gives (fun _ w' => w'.ext = x') (Broken t past)) w

section Takes

variable {past : List (List (ProcAct Mon))} {now : List (ProcAct Mon)} {st : Mon → ProcStatus}
  {p q : M Unit} {x x₁ x' : Cluster}

theorem Takes.bind (hp : Takes t past p x x₁) (hq : Takes t past q x₁ x') :
    Takes t past (p >>= fun _ => q) x x' :=
  fun w hw => wp_seq (hp w hw) fun _ w' h' => hq w' h'

def quiet : Usage monSig Unit PyError :=
  ⟨fun o => o.act = none ∧ o ≠ .stopping, fun _ => False, fun _ => True, fun _ => True⟩

theorem Op.effect_quiet {o : Op} (ho : quiet.ops o) (x : Cluster) : o.effect x = x := by
  obtain ⟨hact, hne⟩ := ho
  unfold Op.effect
  split
  · exact absurd rfl hne
  · rw [hact]
    rfl

theorem wp_quiet {α : Type} {p : M α} {w : ClusterW} (hp : Uses quiet p) (hw : Amid t w.ext.status) :
    wp prompt (proper t) p (gives (fun _ w' => w'.ext = w.ext) fun w' => w'.ext = w.ext) w := by
  have hop : ∀ (o : Op) (w' : ClusterW), quiet.ops o → w'.ext = w.ext →
      proper t o w'.st w'.ext ∧
        ∀ a s x, prompt o w'.st w'.ext a s x → (w'.push (S := monSig) o a s x).ext = w.ext := by
    intro o w' ho hw'
    refine ⟨⟨⟨fun a ha => ?_, fun hstop => absurd hstop ho.2⟩, hw' ▸ hw⟩, fun a s x hstep => ?_⟩
    · rw [ho.1] at ha
      cases ha
    · rcases hstep with hx | ⟨-, hx⟩
      · rw [World.push_ext, hx, Op.effect_quiet ho, hw']
      · rw [World.push_ext, hx, hw']
  exact wp_gives_of_settles (Uses.wp (U := quiet) (fun _ h => h) (fun _ _ => trivial) hop
    (fun _ _ h => h.elim) hp w rfl)

theorem takes_quiet (hp : Uses quiet p) (hst : Amid t st) :
    Takes t past p ⟨st, now :: past⟩ ⟨st, now :: past⟩ := by
  intro w hw
  have hst' : Amid t w.ext.status := by rwa [hw]
  refine wp_weaken (fun _ w' h' => h'.trans hw) (fun w' h' => ?_) (wp_quiet hp hst')
  rw [hw] at h'
  exact ⟨by rwa [h'], by rw [h']; rfl⟩

theorem takes_daemon {a : ProcAct Mon} {mon : Mon} {cmd : DaemonCmd} (hact : cmd.act mon = some a)
    (hallowed : a.Allowed st) (hst : Amid t st) (hst' : Amid t (a.apply st)) :
    Takes t past (daemon mon cmd) ⟨st, now :: past⟩ ⟨a.apply st, (now ++ [a]) :: past⟩ := by
  intro w hw
  have heffect : (Op.daemon mon cmd).effect w.ext = ⟨a.apply st, (now ++ [a]) :: past⟩ := by
    simp [Op.effect, Op.act, hact, hw, Cluster.send, noteAct]
  refine ⟨⟨⟨fun b hb => ?_, fun hstop => by cases hstop⟩, by rwa [hw]⟩, ?_⟩
  · cases hact.symm.trans hb
    rwa [hw]
  · rintro (e | _) s x hstep
    · -- the command raised: the act may have been felt or not
      rcases hstep with hx | ⟨-, hx⟩
      · rw [heffect] at hx
        subst hx
        exact ⟨hst', rfl⟩
      · rw [hw] at hx
        subst hx
        exact ⟨hst, rfl⟩
    · rcases hstep with hx | ⟨⟨e, hfail⟩, -⟩
      · exact hx.trans heffect
      · cases hfail

theorem takes_sweep {f : Mon → M Unit} (hsweep : Sweep act V mons)
    (hamid : ∀ done rest, done ++ rest = mons → Amid t (V done rest))
    (hbody : ∀ m st now, (act m).Allowed st → Amid t st → Amid t ((act m).apply st) →
      Takes t past (f m) ⟨st, now :: past⟩ ⟨(act m).apply st, (now ++ [act m]) :: past⟩) :
    Takes t past (forEach mons f) ⟨V [] mons, now :: past⟩ ⟨V mons [], (now ++ mons.map act) :: past⟩ := by
  intro w hw
  let I : List Mon → ClusterW → Prop := fun rest w =>
    ∃ done, done ++ rest = mons ∧ w.ext = ⟨V done rest, (now ++ done.map act) :: past⟩
  have hI : I mons w := ⟨[], rfl, by simpa using hw⟩
  refine wp_result (fun _ w' h' => ?_) (wp_forEach_gives I ?_ mons w hI)
  · obtain ⟨done, hdone, hext⟩ := h'
    rw [append_nil] at hdone
    rwa [← hdone]
  · rintro m rest w' ⟨done, hdone, hext⟩
    obtain ⟨hallowed, happly⟩ := hsweep done m rest hdone
    have hnext : (done ++ [m]) ++ rest = mons := by rw [← hdone, append_assoc]; rfl
    have hstep := hbody m _ (now ++ done.map act) hallowed (hamid done (m :: rest) hdone)
      (by rw [happly]; exact hamid _ _ hnext) w' hext
    refine wp_result (fun _ w'' h'' => ⟨done ++ [m], hnext, ?_⟩) hstep
    rw [h'', happly, map_append, append_assoc]
    rfl

end Takes

/-! ### The statements of a round -/

section Round

variable {past : List (List (ProcAct Mon))} {now : List (ProcAct Mon)} {kills freezes dead : List Mon}
  {fuel : Nat}

theorem quiet_throws (e : PyError) : quiet.throws e := trivial

theorem uses_issue {o : Op} (ho : quiet.ops o) : Uses quiet (issue o) := .op ho fun a => .ret a

theorem uses_below (n : Nat) : Uses quiet (below n) := uses_issue ⟨rfl, by simp⟩

theorem uses_sleep (d : ℚ) : Uses quiet (sleep d) :=
  (uses_issue ⟨rfl, by simp⟩).bind (uses_ofCommand quiet_throws)

theorem uses_waitForMonQuorumSize (fuel : Nat) (size : Int) :
    Uses quiet (waitForMonQuorumSize fuel size) := by
  refine (uses_issue ⟨rfl, by simp⟩).bind fun start => Uses.whileDo ?_ ?_ fuel
  · exact ((uses_issue ⟨rfl, by simp⟩).bind (uses_ofCommand quiet_throws)).bind fun quorum => .ret _
  · exact (uses_issue ⟨rfl, by simp⟩).bind fun now =>
      (uses_pyAssert quiet_throws _ _).bind fun _ => uses_sleep 3

theorem uses_checkQuorum (mons : List Mon) (size : Int) : Uses quiet (checkQuorum mons size) :=
  .forEach (fun m => ((uses_issue ⟨rfl, by simp⟩).bind (uses_ofCommand quiet_throws)).bind fun s =>
    (uses_pyAssert quiet_throws _ _).bind fun _ => uses_pyAssert quiet_throws _ _) mons

theorem uses_awaitAll (t : MonitorThrasher) (fuel : Nat) : Uses quiet (awaitAll t fuel) :=
  (uses_waitForMonQuorumSize _ _).bind fun _ => uses_checkQuorum _ _

theorem uses_awaitSurvivors (t : MonitorThrasher) (fuel : Nat) (kills : List Mon) :
    Uses quiet (awaitSurvivors t fuel kills) :=
  uses_onlyIf ((uses_waitForMonQuorumSize _ _).bind fun _ => uses_checkQuorum _ _)

theorem uses_shouldThrashStore (t : MonitorThrasher) : Uses quiet (shouldThrashStore t) :=
  .ite ((uses_randrange quiet_throws uses_below _ _).bind fun _ => .ret _) (.ret _)

theorem uses_thrashStore (mon : Mon) : Uses quiet (thrashStore mon) :=
  ((uses_issue ⟨rfl, by simp⟩).bind (uses_ofCommand quiet_throws)).bind fun _ =>
    uses_pyAssert quiet_throws _ _

theorem uses_triggerScrub (t : MonitorThrasher) : Uses quiet (triggerScrub t) := by
  refine uses_onlyIf (.op (show quiet.ops .scrub from ⟨rfl, by simp⟩) fun r => ?_)
  cases r with
  | ok | error => exact .ret ()

theorem takes_killAll (h : Chosen t kills freezes) :
    Takes t past (killAll t kills) ⟨allRunning, now :: past⟩
      ⟨view kills [], (now ++ kills.map .kill) :: past⟩ := by
  rw [← view_nil]
  apply takes_sweep (sweep_kill h.kills_nodup)
  · intro done rest hdone
    exact h.amid (hdone ▸ subset_append_left done rest) (nil_subset _)
  · intro m st now hallowed hst hst' w hw
    have hst0 : Amid t w.ext.status := by rwa [hw]
    refine wp_seq (wp_weaken (fun _ _ h => h) (fun w' h' => ?_)
      (wp_quiet (uses_shouldThrashStore t) hst0)) fun b w' h' => ?_
    · rw [hw] at h'
      exact ⟨by rwa [h'], by rw [h']; rfl⟩
    · exact (takes_quiet (uses_onlyIf (uses_thrashStore m)) hst).bind
        (takes_daemon rfl hallowed hst hst') w' (h'.trans hw)

theorem takes_freezeAll (past : List (List (ProcAct Mon))) (now : List (ProcAct Mon)) (dead : List Mon)
    (h : Chosen t kills freezes) (hdead : dead ⊆ kills) :
    Takes t past (freezeAll t freezes) ⟨view dead [], now :: past⟩
      ⟨view dead [], (now ++ (freezes.map .stop ++ freezes.map .cont)) :: past⟩ := by
  have hdisj : ∀ m ∈ freezes, m ∉ dead := fun m hm hmdead => h.disjoint m hm (hdead hmdead)
  have hamid : ∀ stopped, stopped ⊆ freezes → Amid t (view dead stopped) := fun _ => h.amid hdead
  unfold freezeAll onlyIf
  split
  · rw [← append_assoc]
    refine Takes.bind (takes_sweep (sweep_stop _ h.freezes_nodup hdisj) ?_ ?_)
      (Takes.bind (takes_quiet (uses_sleep _) (hamid _ (List.Subset.refl _)))
        (takes_sweep (sweep_cont _ h.freezes_nodup hdisj) ?_ ?_))
    · exact fun done rest hdone => hamid _ (hdone ▸ subset_append_left done rest)
    · exact fun m st now => takes_daemon rfl
    · exact fun done rest hdone => hamid _ (hdone ▸ subset_append_right done rest)
    · exact fun m st now => takes_daemon rfl
  · rename_i hnil
    rw [not_not] at hnil
    intro w hw
    have hret : w.ext = ⟨view dead [], (now ++ ([].map .stop ++ [].map .cont)) :: past⟩ := by simpa using hw
    rw [hnil]
    exact hret

theorem takes_reviveAll (h : Chosen t kills freezes) :
    Takes t past (forEach kills reviveMon) ⟨view kills [], now :: past⟩
      ⟨allRunning, (now ++ kills.map .start) :: past⟩ := by
  rw [← view_nil]
  apply takes_sweep (sweep_start h.kills_nodup)
  · intro done rest hdone
    exact h.amid (hdone ▸ subset_append_right done rest) (nil_subset _)
  · exact fun m st now => takes_daemon rfl

theorem takes_thrash (h : Chosen t kills freezes) :
    Takes t past (thrash t fuel kills freezes) ⟨allRunning, [] :: past⟩
      ⟨allRunning, plan kills freezes :: past⟩ := by
  have hkilled : Amid t (view kills []) := h.amid (List.Subset.refl _) (nil_subset _)
  have hrunning : Amid t allRunning := .inl rfl
  have hfreeze := takes_freezeAll past (kills.map .kill) kills h (List.Subset.refl _)
  have hfreeze2 := takes_freezeAll past
    (kills.map .kill ++ (freezes.map .stop ++ freezes.map .cont) ++ kills.map .start) [] h
    (nil_subset _)
  rw [view_nil] at hfreeze2
  exact (takes_killAll h).bind (hfreeze.bind
    ((takes_quiet (uses_awaitSurvivors t fuel kills) hkilled).bind
    ((takes_quiet (uses_sleep _) hkilled).bind ((takes_reviveAll h).bind (hfreeze2.bind
    ((takes_quiet (uses_awaitAll t fuel) hrunning).bind ((takes_quiet (uses_triggerScrub t) hrunning).bind
      (takes_quiet (uses_onlyIf (uses_sleep _)) hrunning))))))))

/-! ### The choice -/

theorem wp_shouldFreezeMon (hw : Amid t w.ext.status) : wp prompt (proper t) (shouldFreezeMon t)
      (gives (fun b w' => (b = true → 0 < t.freezeMonProbability) ∧ w'.ext = w.ext)
        fun w' => w'.ext = w.ext) w := by
  have hdraw := wp_randrange 0 101 (fun n => wp_quiet (uses_below n) hw) rfl
  refine wp_seq hdraw fun n w' h' => ⟨fun hlt => ?_, h'.2⟩
  exact lt_of_le_of_lt h'.1.1 (of_decide_eq_true hlt)

theorem wp_chooseMonsToFreeze (kills mons : List Mon) (hw : Amid t w.ext.status) :
    wp prompt (proper t) (chooseMonsToFreeze t kills mons)
      (gives (fun freezes w' => (freezes.Sublist mons ∧ (∀ m ∈ freezes, m ∉ kills) ∧
        (freezes ≠ [] → 0 < t.freezeMonProbability)) ∧ w'.ext = w.ext) fun w' => w'.ext = w.ext) w := by
  induction mons generalizing w with
  | nil => exact ⟨⟨List.Sublist.refl _, by simp, by simp⟩, rfl⟩
  | cons mon mons ih =>
    unfold chooseMonsToFreeze
    split
    · refine wp_result (fun freezes w' h' => ?_) (ih hw)
      exact ⟨⟨h'.1.1.cons _, h'.1.2⟩, h'.2⟩
    · rename_i hmon
      refine wp_seq (wp_shouldFreezeMon hw) fun freeze w1 h1 => ?_
      have hw1 : Amid t w1.ext.status := by rwa [h1.2]
      have hrest := ih hw1
      rw [h1.2] at hrest
      refine wp_seq hrest fun freezes w2 h2 => ⟨?_, h2.2⟩
      obtain ⟨⟨hsub, hdisj, hpos⟩, -⟩ := h2
      cases freeze with
      | false => exact ⟨hsub.cons _, hdisj, hpos⟩
      | true =>
        refine ⟨hsub.cons_cons _, fun m hm => ?_, fun _ => h1.1 rfl⟩
        rcases mem_cons.mp hm with rfl | hm
        · exact hmon
        · exact hdisj m hm

theorem wp_chooseMonsToKill (hw : Amid t w.ext.status) : wp prompt (proper t) (chooseMonsToKill t)
      (gives (fun kills w' => (kills.Nodup ∧ kills ⊆ t.mons.names ∧ 1 ≤ kills.length ∧
        (kills.length : Int) ≤ t.maxKillable) ∧ w'.ext = w.ext) fun w' => w'.ext = w.ext) w := by
  have hdraw := wp_randrange 1 (t.maxKillable + 1)
    (fun n => wp_quiet (uses_below n) hw) rfl
  refine wp_seq hdraw fun killUpTo w1 h1 => ?_
  have hw1 : Amid t w1.ext.status := by rwa [h1.2]
  have hpos : 1 ≤ killUpTo := by exact_mod_cast h1.1.1
  have hle : killUpTo ≤ t.maxKillable := by
    have hlt : killUpTo < t.maxKillable + 1 := by exact_mod_cast h1.1.2
    omega
  have hdraw1 := wp_quiet (p := samplePositions t.mons.names.length killUpTo.toNat)
    (uses_issue ⟨rfl, by simp⟩) hw1
  have hsample := wp_sample samplePositions t.mons.nodup hdraw1 rfl fun _ h => h
  rw [h1.2] at hsample
  refine wp_result (fun kills w2 h2 => ?_) hsample
  obtain ⟨⟨hnodup, hsub, hlen⟩, hext⟩ := h2
  exact ⟨⟨hnodup, hsub, by omega, by omega⟩, hext⟩

theorem wp_thrashRound (hw : w.ext = ⟨allRunning, [] :: past⟩) :
    wp prompt (proper t) (thrashRound t fuel)
      (gives (fun _ w' => ∃ kills freezes, Chosen t kills freezes ∧
        w'.ext = ⟨allRunning, plan kills freezes :: past⟩) (Broken t past)) w := by
  have hrunning : Amid t allRunning := .inl rfl
  have hbroken : ∀ w' : ClusterW, w'.ext = ⟨allRunning, [] :: past⟩ → Broken t past w' :=
    fun w' h' => by rw [Broken, h']; exact ⟨hrunning, rfl⟩
  refine wp_seq (takes_quiet (uses_awaitAll t fuel) hrunning w hw) fun _ w1 h1 => ?_
  have hkill := wp_chooseMonsToKill (t := t) (w := w1) (by rw [h1]; exact hrunning)
  rw [h1] at hkill
  refine wp_seq (wp_weaken (fun _ _ h => h) hbroken hkill) fun kills w2 h2 => ?_
  obtain ⟨⟨hnodup, hsub, hpos, hle⟩, h2⟩ := h2
  have hfreeze := wp_chooseMonsToFreeze (t := t) kills t.mons.names (w := w2) (by rw [h2]; exact hrunning)
  rw [h2] at hfreeze
  refine wp_seq (wp_weaken (fun _ _ h => h) hbroken hfreeze) fun freezes w3 h3 => ?_
  obtain ⟨⟨hlist, hdisj, hprob⟩, h3⟩ := h3
  have hchosen : Chosen t kills freezes :=
    ⟨hnodup, hsub, hpos, hle, t.mons.nodup.sublist hlist, hdisj, hprob⟩
  exact wp_result (fun _ w' h' => ⟨kills, freezes, hchosen, h'⟩)
    (takes_thrash hchosen w3 h3)

end Round

def Planned (t : MonitorThrasher) (round : List (ProcAct Mon)) : Prop :=
  ∃ kills freezes, Chosen t kills freezes ∧ round = plan kills freezes

/-- **Every run of `do_thrash`** sends an act only where it is allowed, and follows a plan in each round
that ends. -/
theorem wp_doThrash (t : MonitorThrasher) (fuel n : Nat) (hw : w.ext = start) :
    wp prompt (proper t) (doThrash t fuel n)
      (gives (fun _ w' => w'.ext.status = allRunning ∧ ∀ round ∈ w'.ext.rounds.tail, Planned t round)
        fun w' => Amid t w'.ext.status ∧ ∀ round ∈ w'.ext.rounds.tail, Planned t round) w := by
  let I : ClusterW → Prop := fun w =>
    w.ext.status = allRunning ∧ ∀ round ∈ w.ext.rounds, Planned t round
  let J : ClusterW → Prop := fun w =>
    ∃ past, w.ext = ⟨allRunning, [] :: past⟩ ∧ ∀ round ∈ past, Planned t round
  have hhead : ∀ w, I w → wp prompt (proper t) (issue .stopping) (gives (fun _ => J) fun _ => False) w := by
    rintro w ⟨hrunning, hplanned⟩
    refine ⟨⟨⟨fun a ha => absurd ha (by simp [Op.act]), fun _ => hrunning⟩, .inl hrunning⟩,
      fun b s x hstep => ?_⟩
    rcases hstep with hx | ⟨hfail, -⟩
    · refine ⟨w.ext.rounds, ?_, hplanned⟩
      rw [World.push_ext, hx, Op.effect, hrunning]
    · exact hfail.elim
  apply wp_whileDo_gives (I := I) (J := J)
  · intro w hI
    refine wp_seq (wp_weaken (fun _ _ h => h) (fun _ h => h.elim) (hhead w hI)) ?_
    rintro b w' ⟨past, hw', hplanned⟩
    cases b with
    | false => exact ⟨past, hw', hplanned⟩
    | true => exact ⟨by rw [hw'], by rw [hw']; exact hplanned⟩
  · rintro w ⟨past, hw, hplanned⟩
    refine wp_weaken ?_ ?_ (wp_thrashRound hw)
    · rintro _ w' ⟨kills, freezes, hchosen, hw'⟩
      refine ⟨by rw [hw'], ?_⟩
      rw [hw', forall_mem_cons]
      exact ⟨⟨kills, freezes, hchosen, rfl⟩, hplanned⟩
    · rintro w' ⟨hamid, htail⟩
      exact ⟨hamid, by rwa [htail]⟩
  · rintro w ⟨hrunning, hplanned⟩
    exact ⟨.inl hrunning, fun round hround => hplanned round (mem_of_mem_tail hround)⟩
  · have hrounds : w.ext.rounds = [] := by rw [hw]; rfl
    exact ⟨by rw [hw]; rfl, by simp [hrounds]⟩

/-! ### What a round amounts to -/

def killedMon : ProcAct Mon → Option Mon
  | .kill m => some m
  | _ => none

def stoppedMon : ProcAct Mon → Option Mon
  | .stop m => some m
  | _ => none

def killed (round : List (ProcAct Mon)) : Finset Mon := (round.filterMap killedMon).toFinset

def frozen (round : List (ProcAct Mon)) : Finset Mon := (round.filterMap stoppedMon).toFinset

theorem killed_plan (kills freezes : List Mon) : killed (plan kills freezes) = kills.toFinset := by
  simp [killed, plan, filterMap_map, Function.comp_def, killedMon]

theorem frozen_plan (kills freezes : List Mon) : frozen (plan kills freezes) = freezes.toFinset := by
  simp [frozen, plan, filterMap_map, Function.comp_def, stoppedMon]

theorem Planned.sets (h : Planned t round) :
    Disjoint (killed round) (frozen round) ∧ 1 ≤ (killed round).card ∧
      ((killed round).card : Int) ≤ t.maxKillable := by
  obtain ⟨kills, freezes, hchosen, rfl⟩ := h
  rw [killed_plan, frozen_plan, toFinset_card_of_nodup hchosen.kills_nodup]
  refine ⟨?_, hchosen.kills_pos, hchosen.kills_le⟩
  rw [Finset.disjoint_right]
  intro m hm hkill
  exact hchosen.disjoint m (mem_toFinset.mp hm) (mem_toFinset.mp hkill)

theorem Planned.one_cont {before after : List (ProcAct Mon)} {m : Mon} (h : Planned t round)
    (hround : round = before ++ .stop m :: after) : contsBefore m after = 1 := by
  obtain ⟨kills, freezes, hchosen, rfl⟩ := h
  obtain ⟨hlegal, hreplay⟩ := hchosen.plan_legal
  rw [hround] at hlegal hreplay
  apply contsBefore_of_legal hlegal
  rw [hreplay]
  simp [allRunning]

theorem finished_planned {fuel n : Nat} {r : Outcome PyError Unit}
    (hrun : Exec prompt (doThrash t fuel n) ⟨(), start, []⟩ r w) :
    ∀ round ∈ w.ext.rounds.tail, Planned t round := by
  have hpost := wp_post (wp_doThrash t fuel n rfl) hrun
  cases r with
  | ret | exn | cut => exact hpost.2

/-- **Every round restores the monitors.** A round that ended has killed between one and `max_killable()`
monitors, and each STOP got exactly one CONT before anything else was done to its monitor. All monitors run
at the head of the loop and when it ends. -/
theorem rounds_restore_monitors (t : MonitorThrasher) (fuel n : Nat) (r : Outcome PyError Unit)
    (w : World monSig Unit Cluster) (hrun : Exec prompt (doThrash t fuel n) ⟨(), start, []⟩ r w) :
    (∀ round ∈ w.ext.rounds.tail, Disjoint (killed round) (frozen round) ∧ 1 ≤ (killed round).card ∧
      ((killed round).card : Int) ≤ t.maxKillable ∧
      ∀ before m after, round = before ++ .stop m :: after → contsBefore m after = 1) ∧
    (∀ e ∈ w.log, ∀ m cmd, e.op = .daemon m cmd →
      (cmd = .signal 19 → e.ext.status m = .running) ∧ (cmd = .signal 18 → e.ext.status m = .stopped) ∧
      (cmd = .stop → e.ext.status m = .running) ∧ (cmd = .restart → e.ext.status m = .dead)) ∧
    (∀ e ∈ w.log, e.op = .stopping → e.ext.status = allRunning) ∧
    (r = .ret () → w.ext.status = allRunning) := by
  have hwp := wp_doThrash t fuel n (w := ⟨(), start, []⟩) rfl
  have hevents := wp_events hwp hrun rfl
  refine ⟨fun round hround => ?_, fun e he m cmd hop => ?_, fun e he => (hevents e he).1.2, ?_⟩
  · have hplanned := finished_planned hrun round hround
    obtain ⟨hdisj, hpos, hle⟩ := hplanned.sets
    exact ⟨hdisj, hpos, hle, fun _ _ _ => hplanned.one_cont⟩
  · have hallowed := (hevents e he).1.1
    rw [hop] at hallowed
    refine ⟨?_, ?_, ?_, ?_⟩
    · rintro rfl
      exact hallowed (.stop m) rfl
    · rintro rfl
      exact hallowed (.cont m) rfl
    · rintro rfl
      exact hallowed (.kill m) rfl
    · rintro rfl
      exact hallowed (.start m) rfl
  · rintro rfl
    exact (wp_post hwp hrun).1

/-! ### A run in which nothing fails -/

def MonitorThrasher.runningCount (t : MonitorThrasher) (x : Cluster) : Nat :=
  t.mons.names.countP fun m => x.status m = .running

/-- Every command succeeds, every draw is the lowest, and it ends after one round. -/
def obliging (t : MonitorThrasher) : (o : Op) → Unit → Cluster → o.Ans × Unit × Cluster
  | .quorumStatus, _, x => (.ok (List.range (t.runningCount x)), (), x)
  | .monStatus _, _, x => (.ok ⟨.leader, List.range (t.runningCount x)⟩, (), x)
  | .syncForce _, _, x => (.ok ⟨"", 0⟩, (), x)
  | .daemon mon cmd, _, x => (.ok (), (), (Op.daemon mon cmd).effect x)
  | .scrub, _, x => (.ok (), (), x)
  | .time, _, x => ((0 : ℚ), (), x)
  | .sleep _, _, x => (.ok (), (), x)
  | .below n, _, x => ((⟨0, Nat.succ_pos n⟩ : Fin (n + 1)), (), x)
  | .sample n k, _, x => (Draw.first n k, (), x)
  | .stopping, _, x => (!x.rounds.isEmpty, (), Op.stopping.effect x)

theorem prompt_obliging (t : MonitorThrasher) (o : Op) (s : Unit) (x : Cluster) :
    prompt o s x (obliging t o s x).1 (obliging t o s x).2.1 (obliging t o s x).2.2 := by
  cases o <;> exact .inl rfl

def obligingRun (t : MonitorThrasher) : Outcome PyError Unit × World monSig Unit Cluster :=
  runWith (obliging t) (doThrash t 1 2) ⟨(), start, []⟩

theorem exec_obligingRun (t : MonitorThrasher) :
    Exec prompt (doThrash t 1 2) ⟨(), start, []⟩ (obligingRun t).1 (obligingRun t).2 :=
  exec_runWith (prompt_obliging t) _ _

def threeMons : MonitorThrasher := .ofConfig ⟨["a", "b", "c"], by decide⟩ {}

theorem rounds_restore_three_monitors :
    MonitorThrasher.init threeMons.mons {} = .ok threeMons ∧ (obligingRun threeMons).1 = .ret () ∧
      (obligingRun threeMons).2.ext.rounds.tail = [plan ["a"] ["b", "c"]] ∧
      Disjoint (killed (plan ["a"] ["b", "c"])) (frozen (plan ["a"] ["b", "c"])) ∧
      (obligingRun threeMons).2.ext.status = allRunning := by
  have hret : (obligingRun threeMons).1 = .ret () := by decide +kernel
  have hrounds : (obligingRun threeMons).2.ext.rounds.tail = [plan ["a"] ["b", "c"]] := by decide +kernel
  obtain ⟨hall, -, -, hend⟩ := rounds_restore_monitors threeMons 1 2 _ _ (exec_obligingRun threeMons)
  have hround := hall (plan ["a"] ["b", "c"]) (by rw [hrounds]; exact (.head _))
  have hinit : MonitorThrasher.init threeMons.mons {} = .ok threeMons :=
    MonitorThrasher.init_eq_ok_iff.mpr ⟨rfl, by decide +kernel, by decide⟩
  exact ⟨hinit, hret, hrounds, hround.1, hend hret⟩

end ZbkcTasks.MonThrash
