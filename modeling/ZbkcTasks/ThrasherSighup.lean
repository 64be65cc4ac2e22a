import ZbkcTasks.ThrasherPool
import ZbkcTasks.ThrasherSucceed

/-! Signals to running OSDs. `do_sighup` picks from `live_osds` in the turn in which it signals, so it is
enough that at every switch the daemons of `live_osds` run. -/

namespace ZbkcTasks

open List Prog

/-! ### The daemons -/

/-- The daemons that run, and are not being stopped, once the operation is issued. -/
def Op.stops (running : Finset Osd) : Op → Finset Osd
  | .cmd (.killOsd osd) => running.erase osd
  | .cmd (.blackholeKillOsd osd) => running.erase osd
  | _ => running

/-- The daemons that run once the operation is answered: a revive starts its OSD when it returns. -/
def Op.revives (running : Finset Osd) : (o : Op) → o.Ans → Finset Osd
  | .cmd (.reviveOsd osd _ _), .ok _ => insert osd running
  | _, _ => running

def resumed (turn : Turn taskSig Greenlet) (running : Finset Osd) : Finset Osd :=
  turn.answered.elim running fun answer => answer.1.revives running answer.2

def left (turn : Turn taskSig Greenlet) (running : Finset Osd) : Finset Osd :=
  turn.issued.elim (resumed turn running) fun o => o.stops (resumed turn running)

def Op.Calm (o : Op) : Prop := kills o = none ∧ o.starts = none

variable {o : Op} {t : Thrasher} {running : Finset Osd} {p : M Unit} {g : Greenlet} {l : List Op}

theorem Op.stops_of_kills (h : kills o = none) (running : Finset Osd) : o.stops running = running := by
  cases o with
  | cmd c => cases c <;> first | rfl | cases h
  | _ => rfl

theorem Op.revives_of_kills (h : kills o = none) (running : Finset Osd) (a : o.Ans) :
    o.revives running a = running := by
  cases o with
  | cmd c => cases c <;> first | rfl | cases h
  | _ => rfl

theorem Op.calm_of_quiet (h : o.quiet = true) : o.Calm := by
  cases o with
  | cmd c => cases c <;> first | exact ⟨rfl, rfl⟩ | cases h
  | _ => first | exact ⟨rfl, rfl⟩ | cases h

theorem Op.kills_of_draw (h : o.waits = false) : kills o = none := by
  cases o with
  | cmd c => cases c <;> first | rfl | cases h
  | _ => rfl

/-- The lists split the OSDs, and what is live runs. -/
structure LiveRuns (S : Finset Osd) (t : Thrasher) (running : Finset Osd) : Prop where
  started : Started t
  splits : Splits S (t.osds .live) (t.osds .dead)
  runs : ∀ osd ∈ t.osds .live, osd ∈ running

section Lists

variable {S : Finset Osd} {t' : Thrasher} {osd : Osd}

theorem LiveRuns.others (h : LiveRuns S t running) (ho : Others t t') : LiveRuns S t' running := by
  refine ⟨ho.started h.started, ?_, ?_⟩
  · rw [ho.osds, ho.osds]
    exact h.splits
  · rw [ho.osds]
    exact h.runs

theorem LiveRuns.killed (h : LiveRuns S t running) (hosd : osd ∈ t.osds .live) :
    LiveRuns S (t.moved .live .dead osd) (running.erase osd) := by
  have hlive : (t.moved .live .dead osd).osds .live = (t.osds .live).erase osd :=
    t.osds_moved .live .dead osd .live
  have hdead : (t.moved .live .dead osd).osds .dead = t.osds .dead ++ [osd] :=
    t.osds_moved .live .dead osd .dead
  refine ⟨h.started.moved _ _ _, ?_, ?_⟩
  · rw [hlive, hdead]
    exact h.splits.move hosd
  · intro osd' hmem
    rw [hlive, h.splits.nodup_left.mem_erase_iff] at hmem
    exact Finset.mem_erase.mpr ⟨hmem.1, h.runs osd' hmem.2⟩

theorem LiveRuns.revived (h : LiveRuns S t running) (hosd : osd ∈ t.osds .dead)
    (hruns : osd ∈ running) : LiveRuns S (t.moved .dead .live osd) running := by
  have hlive : (t.moved .dead .live osd).osds .live = t.osds .live ++ [osd] :=
    t.osds_moved .dead .live osd .live
  have hdead : (t.moved .dead .live osd).osds .dead = (t.osds .dead).erase osd :=
    t.osds_moved .dead .live osd .dead
  refine ⟨h.started.moved _ _ _, ?_, ?_⟩
  · rw [hlive, hdead]
    exact (h.splits.symm.move hosd).symm
  · intro osd' hmem
    rw [hlive, mem_append, mem_singleton] at hmem
    rcases hmem with hmem | rfl
    · exact h.runs osd' hmem
    · exact hruns

theorem LiveRuns.congr (h : LiveRuns S t running) (hstarted : Started t')
    (hlive : t'.osds .live = t.osds .live) (hdead : t'.osds .dead = t.osds .dead) :
    LiveRuns S t' running := by
  refine ⟨hstarted, ?_, ?_⟩
  · rw [hlive, hdead]
    exact h.splits
  · rw [hlive]
    exact h.runs

theorem LiveRuns.more (h : LiveRuns S t running) (osd : Osd) : LiveRuns S t (insert osd running) :=
  ⟨h.started, h.splits, fun osd' hmem => Finset.mem_insert_of_mem (h.runs osd' hmem)⟩

end Lists

/-! ### What `do_thrash` does -/

section Thrash

variable {S : Finset Osd} {w : W (Finset Osd)}

/-- While `do_thrash` waits, the others leave its lists and the daemons alone. -/
def thrashEnv : Env taskSig Thrasher (Finset Osd) := fun o t running a t' running' =>
  Others t t' ∧ running' = o.revives (o.stops running) a

theorem thrashEnv_draw (ho : o.waits = false) (t : Thrasher) (running : Finset Osd) (a : o.Ans) :
    thrashEnv o t running a t running := by
  have hkills := Op.kills_of_draw ho
  refine ⟨.refl t, ?_⟩
  rw [Op.stops_of_kills hkills, Op.revives_of_kills hkills]

def thrashAsserts (S : Finset Osd) (o : Op) (t : Thrasher) (running : Finset Osd) : Prop :=
  LiveRuns S t (o.stops running) ∧ ∀ g, o.starts = some g → ∃ i, g = .scrub i

def thrashUsage : Usage taskSig Thrasher PyError where
  ops := Op.Calm
  acts m := (∃ μ osd, m = Mutator.run μ osd) ∨ ∃ up, m = addScrubber up
  throws _ := True
  reads _ := True

theorem thrashUsage_fits : Fits thrashUsage :=
  ⟨fun _ => Op.calm_of_quiet, fun _ _ _ _ => .inr trivial, fun _ _ => trivial⟩

theorem thrashUsage_acts : Acts thrashUsage :=
  ⟨thrashUsage_fits, fun osd => .inl ⟨.kill, osd, rfl⟩, fun osd => .inl ⟨.revive false, osd, rfl⟩,
    fun osd => .inl ⟨.in_, osd, rfl⟩⟩

theorem thrash_op (ho : o.Calm) (hw : LiveRuns S w.st w.ext) :
    thrashAsserts S o w.st w.ext ∧ ∀ a t running, thrashEnv o w.st w.ext a t running →
      LiveRuns S t running := by
  have hstops := Op.stops_of_kills ho.1 w.ext
  refine ⟨⟨?_, fun g hg => absurd (ho.2.symm.trans hg) (by simp)⟩, ?_⟩
  · rw [hstops]
    exact hw
  · rintro a t running ⟨hothers, rfl⟩
    rw [hstops, Op.revives_of_kills ho.1]
    exact hw.others hothers

theorem thrash_kill {c : Cmd} {osd : Osd} (hc : kills (.cmd c) = some (osd, true))
    (hw : LiveRuns S w.st w.ext) :
    wp thrashEnv (thrashAsserts S) (transfer .live .dead osd >>= fun _ => manager c)
      (fun _ w' => LiveRuns S w'.st w'.ext) w := by
  have hstops : (Op.cmd c).stops w.ext = w.ext.erase osd := by
    cases c <;> cases hc <;> rfl
  have hrevives (a : (Op.cmd c).Ans) (running : Finset Osd) : (Op.cmd c).revives running a = running := by
    cases c <;> cases hc <;> rfl
  rw [wp_moveFirst (by decide) hw.started]
  split
  · next hosd =>
    have hkilled := hw.killed hosd
    refine ⟨⟨hstops.symm ▸ hkilled, fun g hg => nomatch hg⟩, ?_⟩
    rintro r t running ⟨hothers, rfl⟩
    have hafter : LiveRuns S t ((Op.cmd c).revives ((Op.cmd c).stops w.ext) r) := by
      rw [hrevives, hstops]
      exact hkilled.others hothers
    cases r <;> exact hafter
  · exact hw

theorem thrash_revive {osd : Osd} {timeout : ℚ} {skip : Bool} (hw : LiveRuns S w.st w.ext) :
    wp thrashEnv (thrashAsserts S)
      (manager (.reviveOsd osd timeout skip) >>= fun _ => transfer .dead .live osd)
      (fun _ w' => LiveRuns S w'.st w'.ext) w := by
  rw [wp_cmdFirst (by decide) hw.started fun r s x h => h.1.started hw.started]
  refine ⟨⟨hw, fun g hg => nomatch hg⟩, ?_⟩
  rintro r t running ⟨hothers, rfl⟩
  cases r with
  | error e => exact hw.others hothers
  | ok v =>
    have hmore : LiveRuns S t (insert osd w.ext) := (hw.others hothers).more osd
    simp only [answered_ok, chain_ret]
    split
    · next hosd => exact hmore.revived hosd (Finset.mem_insert_self osd w.ext)
    · exact hmore

theorem LiveRuns.marked (h : LiveRuns S t running) {src dst : OsdList}
    (hsrc : src = .in_ ∧ dst = .out ∨ src = .out ∧ dst = .in_) (osd : Osd) :
    LiveRuns S (t.moved src dst osd) running := by
  refine h.congr (h.started.moved _ _ _) ?_ ?_ <;> rw [t.osds_moved src dst osd]
  all_goals rcases hsrc with ⟨rfl, rfl⟩ | ⟨rfl, rfl⟩ <;> rfl

theorem thrash_run (μ : Mutator) (osd : Osd) (hw : LiveRuns S w.st w.ext) :
    wp thrashEnv (thrashAsserts S) (μ.run osd) (fun _ w' => LiveRuns S w'.st w'.ext) w := by
  cases μ with
  | kill | blackholeKill => exact thrash_kill rfl hw
  | revive skip =>
    rw [Mutator.run, wp_bind, wp_attr (hw.started _ rfl rfl), chain_ret]
    exact thrash_revive hw
  | out =>
    rw [Mutator.run, wp_cmdFirst (by decide) hw.started fun r s x h => h.1.started hw.started]
    refine ⟨(thrash_op ⟨rfl, rfl⟩ hw).1, fun r t running hstep => ?_⟩
    have h' := (thrash_op (o := .cmd (.markOutOsd osd)) ⟨rfl, rfl⟩ hw).2 r t running hstep
    cases r with
    | error e => exact h'
    | ok v =>
      simp only [answered_ok, chain_ret]
      split
      · exact h'.marked (.inl ⟨rfl, rfl⟩) osd
      · exact h'
  | in_ =>
    rw [Mutator.run, wp_moveFirst (by decide) hw.started]
    split
    · have hmoved : LiveRuns S (w.st.moved .out .in_ osd) w.ext := hw.marked (.inr ⟨rfl, rfl⟩) osd
      have hop := thrash_op (o := .cmd (.markInOsd osd)) (w := { w with st := w.st.moved .out .in_ osd })
        ⟨rfl, rfl⟩ hmoved
      refine ⟨hop.1, fun r t running hstep => ?_⟩
      have h' := hop.2 r t running hstep
      cases r <;> exact h'
    · exact hw

theorem thrash_addScrubber (up : List Osd) (hw : LiveRuns S w.st w.ext) :
    wp thrashEnv (thrashAsserts S) (addScrubber up) (fun _ w' => LiveRuns S w'.st w'.ext) w := by
  have hw' : LiveRuns S { w.st with scrubbers := w.st.scrubbers ++ [⟨up, false⟩] } w.ext :=
    hw.congr hw.started rfl rfl
  refine ⟨⟨hw', ?_⟩, ?_⟩
  · rintro g ⟨⟩
    exact ⟨_, rfl⟩
  · rintro a t running ⟨hothers, rfl⟩
    exact hw'.others hothers

/-- **The thrash loop.** At every operation what is live runs, once the operation is issued. -/
theorem thrash_body (fuel n : Nat) (hw : LiveRuns S w.st w.ext) :
    wp thrashEnv (thrashAsserts S) (doThrash fuel n) (fun _ w' => LiveRuns S w'.st w'.ext) w := by
  have hrounds : ∀ t, thrashUsage.reads t → Rounds thrashUsage fuel (thrashSettings t.config) :=
    fun t _ => thrashUsage_acts.rounds (fun osd => .inl ⟨.out, osd, rfl⟩)
      (fun _ up => .inr ⟨up, rfl⟩) fuel
  have hwp := (uses_doThrash thrashUsage_acts hrounds n).wp (E := thrashEnv) (A := thrashAsserts S)
    (I := fun w => LiveRuns S w.st w.ext) (K := fun w => LiveRuns S w.st w.ext) (fun _ h => h)
    (fun _ _ => trivial) (fun o w ho h => thrash_op ho h) ?_ w hw
  · exact wp_logExc (fun _ _ h => h.started) (wp_mono (fun _ _ => settles_always.mp) hwp)
  · rintro m w (⟨μ, osd, rfl⟩ | ⟨up, rfl⟩) h
    · exact wp_mono (fun _ _ => settles_always.mpr) (thrash_run μ osd h)
    · exact wp_mono (fun _ _ => settles_always.mpr) (thrash_addScrubber up h)

end Thrash

/-! ### What the others do -/

structure Watch where
  start : Thrasher
  running : Finset Osd

section Watch

variable {S : Finset Osd} {w : W Watch}

/-- While another greenlet waits, the lists change, but what is live runs. -/
def watchEnv (S : Finset Osd) : Env taskSig Thrasher Watch := fun o t x _ t' x' =>
  if o.waits = true then LiveRuns S t' x'.running ∧ x'.start = t' else t' = t ∧ x' = x

theorem watchEnv_draw (ho : o.waits = false) (t : Thrasher) (x : Watch) (a : o.Ans) :
    watchEnv S o t x a t x := by
  rw [watchEnv, if_neg (by simp [ho])]
  exact ⟨rfl, rfl⟩

theorem watchEnv_wait (ho : o.waits = true) {t' : Thrasher} {x : Watch} (a : o.Ans)
    (h : LiveRuns S t' running) : watchEnv S o t x a t' ⟨t', running⟩ := by
  rw [watchEnv, if_pos ho]
  exact ⟨h, rfl⟩

/-- A turn leaves the lists alone and starts and stops nothing; `do_sighup` signals what runs. -/
def watchAsserts (g : Greenlet) (o : Op) (t : Thrasher) (x : Watch) : Prop :=
  Others x.start t ∧ o.Calm ∧ (g = .sighup → ∀ osd, o = .cmd (.signalOsd osd) → osd ∈ x.running)

structure Watching (S : Finset Osd) (w : World taskSig Thrasher Watch) : Prop where
  others : Others w.ext.start w.st
  live : LiveRuns S w.st w.ext.running

theorem Watching.push (hw : Watching S w) {a : o.Ans} {x : Watch} (h : watchEnv S o w.st w.ext a t x) :
    Watching S (w.push (S := taskSig) o a t x) := by
  unfold watchEnv at h
  split at h
  · obtain ⟨hlive, hstart⟩ := h
    exact ⟨hstart ▸ .refl t, hlive⟩
  · obtain ⟨rfl, rfl⟩ := h
    exact ⟨hw.others, hw.live⟩

def watchUsage : Usage taskSig Thrasher PyError where
  ops := Op.Calm
  acts m := m = modify ({ · with stopping := true })
  throws _ := True
  reads _ := True

theorem watchUsage_fits : Fits watchUsage :=
  ⟨fun _ => Op.calm_of_quiet, fun _ _ _ _ => .inr trivial, fun _ _ => trivial⟩

theorem Watching.stop (hw : Watching S w) :
    Watching S { w with st := { w.st with stopping := true } } := by
  have hothers : Others w.st { w.st with stopping := true } := ⟨_, _, _, _, List.Subset.refl _, rfl⟩
  exact ⟨hw.others.trans hothers, hw.live.others hothers⟩

theorem watch_of_uses (hg : g ≠ .sighup) (hp : Uses watchUsage p) (hw : Watching S w) :
    wp (watchEnv S) (watchAsserts g) p (fun _ => Watching S) w := by
  refine wp_mono (fun _ _ => settles_always.mp) (hp.wp (K := Watching S) (fun _ h => h)
    (fun _ _ => trivial) (fun o w ho h => ?_) ?_ w hw)
  · exact ⟨⟨h.others, ho, fun hsighup => absurd hsighup hg⟩, fun _ _ _ hstep => h.push hstep⟩
  · rintro m w rfl h
    exact h.stop

theorem watch_logExc {m : M Unit} (hm : wp (watchEnv S) (watchAsserts g) m (fun _ => Watching S) w) :
    wp (watchEnv S) (watchAsserts g) (logExc m) (fun _ => Watching S) w :=
  wp_logExc (fun _ _ h => h.live.started) hm

/-! `do_sighup`: the pick and the signal are in one turn. -/

theorem watch_attr {β : Type} (hw : Watching S w) (a : Attr) (f : Thrasher → β) :
    wp (watchEnv S) (watchAsserts g) (attr a f) (gives (fun _ => Watching S) (Watching S)) w :=
  wp_attr_gives hw hw

theorem watch_sleep (hw : Watching S w) (seconds : ℚ) :
    wp (watchEnv S) (watchAsserts g) (sleep seconds) (gives (fun _ => Watching S) (Watching S)) w := by
  refine ⟨⟨hw.others, ⟨rfl, rfl⟩, fun _ osd ho => nomatch ho⟩, fun r t x hstep => ?_⟩
  have h' : Watching S (w.push (S := taskSig) (.sleep seconds) r t x) := hw.push hstep
  cases r <;> exact h'

theorem watch_signal (hw : Watching S w) :
    wp (watchEnv S) (watchAsserts g) (osds .live >>= choice >>= fun osd => manager (.signalOsd osd))
      (gives (fun _ => Watching S) (Watching S)) w := by
  rw [wp_bind, wp_bind, wp_osds hw.live.started, chain_ret]
  refine wp_choice (fun _ => hw) fun n => ?_
  refine ⟨⟨hw.others, ⟨rfl, rfl⟩, fun _ osd ho => nomatch ho⟩, ?_⟩
  rintro i t x ⟨rfl, rfl⟩ osd hosd
  have hdrawn : Watching S (w.push (S := taskSig) (.randIndex n) i w.st w.ext) := ⟨hw.others, hw.live⟩
  refine (wp_manager hdrawn.live.started).mpr ⟨⟨hw.others, ⟨rfl, rfl⟩, ?_⟩, fun r t x hstep => ?_⟩
  · rintro _ osd' ⟨⟩
    exact hw.live.runs osd hosd
  · have h' := hdrawn.push (a := r) hstep
    cases r <;> exact h'

theorem watching_of_gives {α : Type} {r : Outcome PyError α}
    (h : gives (fun _ => Watching S) (Watching S) r w) : Watching S w := by
  cases r <;> exact h

theorem watch_doSighup (n : Nat) (hw : Watching S w) :
    wp (watchEnv S) (watchAsserts g) (doSighup n) (fun _ => Watching S) w := by
  apply watch_logExc
  apply wp_mono fun _ _ => watching_of_gives
  apply wp_seq (watch_attr hw _ _)
  intro delay w hw
  apply wp_seq (wp_log_gives (P := fun _ => Watching S) hw hw)
  intro _ w hw
  refine wp_whileDo_gives (J := Watching S) (fun w hw => ?_) (fun w hw => ?_) (fun _ h => h) n w hw
  · apply wp_seq (watch_attr hw _ _)
    intro stopping w hw
    cases stopping <;> exact hw
  · rw [← bind_assoc]
    exact wp_seq (watch_signal hw) fun _ w' h' => watch_sleep h' delay

theorem uses_doJoin : Uses watchUsage doJoin := by
  have hattr {β : Type} (a : Attr) (f : Thrasher → β) : Uses watchUsage (attr a f) := by
    refine .read fun t _ => ?_
    split
    · exact .ret _
    · exact .throw trivial
  have hget (g : Greenlet) : Uses watchUsage (getGreenlet g) := by
    refine .op ⟨rfl, rfl⟩ fun r => ?_
    cases r with
    | ok a => exact .ret ()
    | error e => exact .throw trivial
  have hjoin (h : Helper) : Uses watchUsage (joinHelper h) := by
    refine (hattr _ _).bind fun _ => uses_when ((uses_log watchUsage_fits).bind fun _ =>
      (hattr _ _).bind fun _ => ?_)
    cases h with
    | sighup => exact hget .sighup
    | _ => exact .op ⟨rfl, rfl⟩ fun _ => .ret ()
  exact (Uses.step rfl).bind fun _ => (hattr _ _).bind fun _ => (hget _).bind fun _ =>
    (hjoin _).bind fun _ => (hjoin _).bind fun _ => (hjoin _).bind fun _ => hjoin _

/-- **What the others do.** No turn of theirs touches the lists or the daemons. -/
theorem watch_body {config : ThrasherConfig} {remotes : List Remote} (fuel n : Nat) (hmain : g ≠ .main)
    (hthrash : g ≠ .thrash) (hw : Watching S w) :
    wp (watchEnv S) (watchAsserts g) (g.body config remotes fuel n) (fun _ => Watching S) w := by
  have h : Fits watchUsage := watchUsage_fits
  cases g with
  | main => exact absurd rfl hmain
  | thrash => exact absurd rfl hthrash
  | sighup => exact watch_doSighup n hw
  | optrackToggle =>
    exact watch_logExc (watch_of_uses (by decide) ((uses_attr h _ _ rfl).bind fun _ =>
      (uses_log h).bind fun _ => uses_optrackLoop h _ _ n) hw)
  | dumpOps =>
    exact watch_logExc (watch_of_uses (by decide) ((uses_log h).bind fun _ => uses_untilStopping h
      ((uses_dumpOpsFrom h 0 n).bind fun _ => uses_sleep h 0) n) hw)
  | noscrubToggle =>
    exact watch_logExc (watch_of_uses (by decide) ((uses_attr h _ _ rfl).bind fun _ =>
      (uses_log h).bind fun _ => uses_noscrubLoop h _ _ n) hw)
  | scrub i => exact watch_of_uses (by simp) (uses_doScrub h i n) hw

end Watch

/-! ### The pool -/

section Pool

variable {S : Finset Osd} {config : ThrasherConfig} {remotes : List Remote} {fuel n : Nat}
  {P : GreenletPool} {th : GreenletThread} {a : Option ((o : taskSig.Op) × taskSig.Ans o)}

def ThrashFrom (S : Finset Osd) (t : Thrasher) (running : Finset Osd) (p : M Unit) : Prop :=
  ∀ t', Others t t' → ∃ log,
    wp thrashEnv (thrashAsserts S) p (fun _ w => LiveRuns S w.st w.ext) ⟨t', running, log⟩

def ThrashGoes (S : Finset Osd) (t : Thrasher) (running : Finset Osd) : GreenletThread → Prop
  | .idle => True
  | .ready p => ThrashFrom S t running p
  | .waits o k => ∀ a, ThrashFrom S t (Op.revives running o a) (k a)
  | .done _ => True

def WatchFrom (S : Finset Osd) (g : Greenlet) (p : M Unit) : Prop :=
  ∀ t running, LiveRuns S t running → ∃ log,
    wp (watchEnv S) (watchAsserts g) p (fun _ => Watching S) ⟨t, ⟨t, running⟩, log⟩

def WatchGoes (S : Finset Osd) (g : Greenlet) : GreenletThread → Prop
  | .idle => True
  | .ready p => WatchFrom S g p
  | .waits o k => Op.Calm o ∧ ∀ a, WatchFrom S g (k a)
  | .done _ => True

/-- What every turn keeps. -/
structure SighupSafe (S running : Finset Osd) (P : GreenletPool) : Prop where
  live : LiveRuns S P.st running
  thrash : ThrashGoes S P.st running (P.threads .thrash)
  watch : ∀ g, g ≠ .thrash → WatchGoes S g (P.threads g)

theorem watchFrom_body (hmain : g ≠ .main) (hthrash : g ≠ .thrash) :
    WatchFrom S g (g.body config remotes fuel n) :=
  fun t _ ht => ⟨[], watch_body fuel n hmain hthrash ⟨.refl t, ht⟩⟩

variable {t' : Thrasher}

theorem ThrashFrom.others (h : ThrashFrom S t running p) (ho : Others t t') : ThrashFrom S t' running p :=
  fun t'' ho' => h t'' (ho.trans ho')

theorem ThrashGoes.others (h : ThrashGoes S t running th) (ho : Others t t') :
    ThrashGoes S t' running th := by
  cases th with
  | idle | done => trivial
  | ready p => exact ThrashFrom.others h ho
  | waits o k => exact fun a => (h a).others ho

theorem SighupSafe.turn_thrash (h : SighupSafe S running P)
    (hgoes : Resumes (greenlets config remotes fuel n) P .thrash a p)
    (hseg : Seg (greenlets config remotes fuel n) p P.st l t th) :
    SighupSafe S (left ⟨.thrash, a, th.pending⟩ running)
      (P.after (greenlets config remotes fuel n) .thrash l t th) := by
  let before := resumed ⟨.thrash, a, th.pending⟩ running
  have hwp : ∃ log, wp thrashEnv (thrashAsserts S) p (fun _ w => LiveRuns S w.st w.ext)
      ⟨P.st, before, log⟩ := by
    have hthrash := h.thrash
    cases hgoes with
    | ready hready =>
      rw [hready] at hthrash
      exact hthrash _ (.refl _)
    | answered hwaits _ =>
      rw [hwaits] at hthrash
      exact hthrash _ _ (.refl _)
  obtain ⟨log, hwp⟩ := hwp
  obtain ⟨⟨w, rfl, hext, hmeets⟩, hasserts⟩ := hseg.wp (fun _ x => x)
    (fun _ t running a ho => thrashEnv_draw ho t running a) _ rfl hwp
  rw [foldl_fixed] at hext
  -- it starts scrubbers only
  have hstarts : ∀ g ∈ l.filterMap Op.starts, ∃ i, g = .scrub i := by
    intro g hg
    obtain ⟨o, ho, hstart⟩ := mem_filterMap.mp hg
    obtain ⟨l1, l2, hl⟩ := append_of_mem ho
    obtain ⟨t, -, hscrub⟩ := hasserts l1 o l2 hl
    exact hscrub g hstart
  have hself : .thrash ∉ l.filterMap Op.starts := fun hmem => by
    obtain ⟨i, hi⟩ := hstarts _ hmem
    cases hi
  refine ⟨?_, ?_, fun g hg => ?_⟩
  · cases th with
    | idle | ready => exact hmeets.elim
    | waits o k =>
      have hlive := hmeets.2.1.1
      rw [hext] at hlive
      exact hlive
    | done r =>
      have hlive : LiveRuns S w.st w.ext := by cases r <;> exact hmeets
      rw [hext] at hlive
      exact hlive
  · rw [Pool.after_self hself]
    cases th with
    | idle | done => trivial
    | ready p => exact hmeets.elim
    | waits o k =>
      intro a t' ho
      refine ⟨_, hmeets.2.2 a t' _ ⟨ho, ?_⟩⟩
      rw [hext]
      rfl
  · by_cases hmem : g ∈ l.filterMap Op.starts
    · rw [Pool.after_started hmem]
      obtain ⟨i, rfl⟩ := hstarts g hmem
      have hbody : WatchFrom S (.scrub i) (Greenlet.body config remotes fuel n (.scrub i)) :=
        watchFrom_body (by simp) (by simp)
      exact hbody
    · rw [Pool.after_other hmem hg]
      exact h.watch g hg

theorem SighupSafe.turn_watch (h : SighupSafe S running P) (hg : g ≠ .thrash)
    (hgoes : Resumes (greenlets config remotes fuel n) P g a p)
    (hseg : Seg (greenlets config remotes fuel n) p P.st l t th) :
    (g = .sighup → ∀ osd, th.pending = some (.cmd (.signalOsd osd)) →
      osd ∈ resumed ⟨g, a, th.pending⟩ running) ∧ SighupSafe S (left ⟨g, a, th.pending⟩ running)
      (P.after (greenlets config remotes fuel n) g l t th) := by
  have hwp : resumed ⟨g, a, th.pending⟩ running = running ∧ WatchFrom S g p := by
    have hwatch := h.watch g hg
    cases hgoes with
    | ready hready =>
      rw [hready] at hwatch
      exact ⟨rfl, hwatch⟩
    | @answered o k a hwaits _ =>
      rw [hwaits] at hwatch
      exact ⟨Op.revives_of_kills hwatch.1.1 running a, hwatch.2 a⟩
  obtain ⟨hresumed, hfrom⟩ := hwp
  obtain ⟨log, hwp⟩ := hfrom P.st running h.live
  obtain ⟨⟨w, rfl, hext, hmeets⟩, hasserts⟩ := hseg.wp (fun _ x => x)
    (fun _ t x a ho => watchEnv_draw ho t x a) _ rfl hwp
  rw [foldl_fixed] at hext
  have hstarts (g' : Greenlet) : g' ∉ l.filterMap Op.starts := by
    intro hmem
    obtain ⟨o, ho, hstart⟩ := mem_filterMap.mp hmem
    obtain ⟨l1, l2, hl⟩ := append_of_mem ho
    obtain ⟨t, -, hcalm, -⟩ := hasserts l1 o l2 hl
    exact absurd (hcalm.2.symm.trans hstart) (by simp)
  -- where the turn ends, the lists are as they were
  have hothers : Others P.st w.st := by
    have hstart : Others w.ext.start w.st := by
      cases th with
      | idle | ready => exact hmeets.elim
      | waits o k => exact hmeets.2.1.1
      | done r => cases r <;> exact hmeets.others
    rwa [hext] at hstart
  have hleft : left ⟨g, a, th.pending⟩ running = running := by
    cases th with
    | waits o k => exact (Op.stops_of_kills hmeets.2.1.2.1.1 _).trans hresumed
    | _ => exact hresumed
  rw [hresumed, hleft]
  refine ⟨fun hsighup osd hissued => ?_, h.live.others hothers, ?_, fun g' hg' => ?_⟩
  · cases th with
    | waits o k =>
      have hruns := hmeets.2.1.2.2 hsighup osd (Option.some.inj hissued)
      rwa [hext] at hruns
    | _ => exact nomatch hissued
  · rw [Pool.after_other (hstarts _) (Ne.symm hg)]
    exact h.thrash.others hothers
  · by_cases hself : g' = g
    · subst hself
      rw [Pool.after_self (hstarts _)]
      cases th with
      | idle | done => trivial
      | ready p => exact hmeets.elim
      | waits o k =>
        exact ⟨hmeets.2.1.2.1, fun a t running hlive =>
          ⟨_, hmeets.2.2 a t ⟨t, running⟩ (watchEnv_wait hmeets.1 a hlive)⟩⟩
    · rw [Pool.after_other (hstarts _) hself]
      exact h.watch g' hg'

/-- Each greenlet is at its beginning or is not there; `main` waits for the test to end. -/
structure Fresh (config : ThrasherConfig) (remotes : List Remote) (fuel n : Nat) (P : GreenletPool) :
    Prop where
  main : P.threads .main = .idle ∨ P.threads .main = .waits Op.testBody fun _ => doJoin
  others : ∀ g, g ≠ .main →
    P.threads g = .idle ∨ P.threads g = .ready (g.body config remotes fuel n)

theorem Fresh.safe (h : Fresh config remotes fuel n P) (hlive : LiveRuns S P.st running) :
    SighupSafe S running P := by
  refine ⟨hlive, ?_, fun g hg => ?_⟩
  · rcases h.others .thrash (by decide) with hidle | hready
    · rw [hidle]
      trivial
    · rw [hready]
      exact fun t ht => ⟨[], thrash_body fuel n (hlive.others ht)⟩
  · by_cases hmain : g = .main
    · subst hmain
      rcases h.main with hidle | hwaits
      · rw [hidle]
        trivial
      · rw [hwaits]
        exact ⟨⟨rfl, rfl⟩, fun _ t _ ht =>
          ⟨[], watch_of_uses (by decide) uses_doJoin ⟨.refl t, ht⟩⟩⟩
    · rcases h.others g hmain with hidle | hready
      · rw [hidle]
        trivial
      · rw [hready]
        exact watchFrom_body hmain hg

/-- **SIGHUP.** Under every schedule `do_sighup` signals a daemon only if it runs then: no kill of it has
been issued, or a revive of it has returned since the last one. -/
theorem sighup_signals_running (config : ThrasherConfig) (remotes : List Remote) (fuel n : Nat)
    (S running : Finset Osd) (P : GreenletPool) (hfresh : Fresh config remotes fuel n P)
    (hstarted : Started P.st) (hsplits : Splits S P.st.liveOsds P.st.deadOsds)
    (hruns : ∀ osd ∈ P.st.liveOsds, osd ∈ running) {turns : List (Turn taskSig Greenlet)}
    {P' : GreenletPool} (hturns : Turns (greenlets config remotes fuel n) P turns P')
    {later earlier : List (Turn taskSig Greenlet)} {turn : Turn taskSig Greenlet}
    (hturn : turns = later ++ turn :: earlier) (hsighup : turn.thread = .sighup) {osd : Osd}
    (hsignal : turn.issued = some (.cmd (.signalOsd osd))) :
    osd ∈ resumed turn (earlier.foldr left running) := by
  have hlive : LiveRuns S P.st running := ⟨hstarted, hsplits, hruns⟩
  have hall := hturns.inv left (I := SighupSafe S)
    (G := fun running turn => turn.thread = .sighup → ∀ osd,
      turn.issued = some (.cmd (.signalOsd osd)) → osd ∈ resumed turn running)
    (fun running P g a p l t th hsafe hgoes hseg => ?_) (hfresh.safe hlive)
  · exact hall.2 later turn earlier hturn hsighup osd hsignal
  · by_cases hg : g = .thrash
    · subst hg
      exact ⟨fun hsighup => (nomatch hsighup), hsafe.turn_thrash hgoes hseg⟩
    · exact hsafe.turn_watch hg hgoes hseg

/-- Four OSDs, three of them live; the thrash loop and `do_sighup` are about to start. -/
def sighupPool : GreenletPool where
  st := fourOsds {}
  threads g := if g = .thrash ∨ g = .sighup then .ready (g.body {} [] 1 1) else .idle
  issued := []

theorem sighupPool_fresh : Fresh {} [] 1 1 sighupPool := by
  refine ⟨.inl rfl, fun g _ => ?_⟩
  by_cases hg : g = .thrash ∨ g = .sighup
  · exact .inr (if_pos hg)
  · exact .inl (if_neg hg)

theorem sighup_signals_running_fourOsds :
    ∃ turn P', Turns (greenlets {} [] 1 1) sighupPool [turn] P' ∧ turn.thread = .sighup ∧
      turn.issued = some (.cmd (.signalOsd 0)) ∧ 0 ∈ resumed turn {0, 1, 2} := by
  obtain ⟨r, hr⟩ : ∃ r, segWith (greenlets {} [] 1 1) Op.okAns (doSighup 1) (fourOsds {}) = some r :=
    ⟨_, rfl⟩
  have hturns := Turns.cons (.nil (P := sighupPool)) (.ready (n := .sighup) rfl) (seg_segWith hr)
  have hissued : r.2.2.pending = some (.cmd (.signalOsd 0)) := by
    cases hr
    rfl
  have hsplits : Splits [0, 1, 3, 2].toFinset sighupPool.st.liveOsds sighupPool.st.deadOsds :=
    (fourOsds_booked {}).liveDead
  exact ⟨_, _, hturns, rfl, hissued, sighup_signals_running {} [] 1 1 _ {0, 1, 2} sighupPool
    sighupPool_fresh (ready_started _ _ _ _ _ _) hsplits (by decide) hturns
    (show [_] = [] ++ _ :: [] from rfl) rfl hissued⟩

end Pool

end ZbkcTasks
