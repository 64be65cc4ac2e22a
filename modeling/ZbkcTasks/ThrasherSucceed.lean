import ZbkcTasks.ThrasherBook

/-! Runs in which every command succeeds. A set of rules says what each statement does in all such
runs, and a second one builds the run in which a given draw is made. -/

namespace ZbkcTasks

open List Prog

def ToolOp.status : (toolOp : ToolOp) → toolOp.Ret → Int
  | .listPgs, r => r.1
  | .export _ _, status => status
  | .remove _, status => status
  | .import _, status => status
  | .rmPastIntervals _, status => status
  | .applyLayoutSettings _, r => r.1

/-- The exit status of a command that shows one; the others raise when they fail. -/
def Cmd.status : (c : Cmd) → c.Ret → Int
  | .rawClusterCmdResult _, status => status
  | .typeTool _, status => status
  | .tool _ _ toolOp, r => toolOp.status r
  | _, _ => 0

def Op.succeeded : (o : Op) → o.Ans → Prop
  | .cmd c, a => ∃ v, a = .ok v ∧ c.status v = 0
  | .sleep _, a => a = .ok ()
  | _, _ => True

theorem Cmd.status_okRet (c : Cmd) : c.status c.okRet = 0 := by
  cases c with
  | tool remote osd toolOp => cases toolOp <;> rfl
  | _ => rfl

theorem Op.succeeded_okAns (o : Op) : o.succeeded o.okAns := by
  cases o with
  | cmd c => exact ⟨c.okRet, rfl, c.status_okRet⟩
  | sleep t => rfl
  | _ => trivial

/-- Every command succeeds and shows status 0. -/
def allSucceed : Env taskSig Thrasher Unit := fun o t _ a t' _ => o.succeeded a ∧ Others t t'

theorem allSucceed_okRun (o : Op) (t : Thrasher) (x : Unit) :
    allSucceed o t x (okRun o t x).1 (okRun o t x).2.1 (okRun o t x).2.2 :=
  ⟨o.succeeded_okAns, .refl t⟩

theorem allSucceed_total (o : Op) (t : Thrasher) (x : Unit) : ∃ a t' x', allSucceed o t x a t' x' :=
  ⟨_, _, _, allSucceed_okRun o t x⟩

variable {t : Thrasher} {osd : Osd} {β : Type} {xs : List β} {f : Thrasher → β} {file : ExportPath} {q : ℚ}
  {c : Cmd} {l : OsdList} {skip : Bool}

theorem Initialised.others {t' : Thrasher} (h : Initialised t) (ho : Others t t') : Initialised t' := by
  obtain ⟨_, _, _, _, hsub, rfl⟩ := ho
  exact fun a hhandle => hsub (h a hhandle)

theorem Initialised.moved (h : Initialised t) (src dst : OsdList) (osd : Osd) :
    Initialised (t.moved src dst osd) := by
  intro a hhandle
  rw [Thrasher.assigned_moved]
  exact h a hhandle

theorem Others.trans {t' t'' : Thrasher} (h : Others t t') (h' : Others t' t'') : Others t t'' := by
  obtain ⟨_, _, _, _, hsub, rfl⟩ := h
  obtain ⟨_, _, _, _, hsub', rfl⟩ := h'
  exact ⟨_, _, _, _, List.Subset.trans hsub hsub', rfl⟩

theorem Others.moved {t' : Thrasher} (h : Others t t') (src dst : OsdList) (osd : Osd) :
    Others (t.moved src dst osd) (t'.moved src dst osd) := by
  obtain ⟨assigned, stopping, tool, intervals, hsub, rfl⟩ := h
  refine ⟨assigned, stopping, tool, intervals, ?_, ?_⟩
  · rw [Thrasher.assigned_moved]
    exact hsub
  · cases src <;> cases dst <;> rfl

/-! ### What every run does -/

section Always

variable {w : W Unit} {α : Type} {Q : Outcome PyError Unit → W Unit → Prop} {remote : Remote}

/-- Returning, with the object left to the others. -/
def Calm (t : Thrasher) : Outcome PyError α → World taskSig Thrasher Unit → Prop :=
  settles (fun w => Others t w.st) (fun _ => False) fun _ => False

abbrev anything : Op → Thrasher → Unit → Prop := fun _ _ _ => True

theorem ok_call {Q : Outcome PyError c.Ret → W Unit → Prop}
    (h : ∀ v w', c.status v = 0 → Others w.st w'.st → Q (.ret v) w') :
    wp allSucceed anything (call c) Q w := by
  rw [wp_call]
  refine ⟨trivial, fun r t x hstep => ?_⟩
  obtain ⟨⟨v, hv, hstatus⟩, ho⟩ := hstep
  cases hv
  exact h v _ hstatus ho

theorem ok_manager {Q : Outcome PyError c.Ret → W Unit → Prop} (hw : Started w.st)
    (h : ∀ v w', c.status v = 0 → Others w.st w'.st → Q (.ret v) w') :
    wp allSucceed anything (manager c) Q w := by
  rw [manager, wp_bind, wp_attr (hw _ rfl rfl), chain_ret]
  exact ok_call h

theorem ok_sleep (h : ∀ w', Others w.st w'.st → Q (.ret ()) w') :
    wp allSucceed anything (sleep q) Q w := by
  refine ⟨trivial, fun r t x hstep => ?_⟩
  obtain ⟨hr, ho⟩ := hstep
  cases hr
  exact h _ ho

theorem ok_random {Q : Outcome PyError ℚ → W Unit → Prop}
    (h : ∀ u w', Others w.st w'.st → Q (.ret u) w') : wp allSucceed anything random Q w :=
  ⟨trivial, fun u _ _ hstep => h u.val _ hstep.2⟩

theorem ok_choice {Q : Outcome PyError β → W Unit → Prop} (hempty : xs = [] → Q (.exn .indexError) w)
    (h : ∀ y ∈ xs, ∀ w', Others w.st w'.st → Q (.ret y) w') : wp allSucceed anything (choice xs) Q w :=
  wp_choice hempty fun _ => ⟨trivial, fun _ _ _ hstep y hy => h y hy _ hstep.2⟩

theorem ok_checkStatus {tool step : String} {status : Int} (hstatus : status = 0) (h : Q (.ret ()) w) :
    wp allSucceed anything (checkStatus tool step status) Q w := by
  rw [checkStatus, when, if_neg (not_not_intro hstatus)]
  exact h

variable (ht : Initialised t)
include ht

theorem calm_attr {a : Attr} (ha : a.handle = false) (hw : Others t w.st) :
    wp allSucceed anything (attr a f) (Calm t) w :=
  (wp_attr (ht.others hw a ha)).mpr hw

omit ht in
theorem calm_log (ht : Started t) (hw : Others t w.st) : wp allSucceed anything log (Calm t) w :=
  (wp_log (hw.started ht)).mpr hw

omit ht in
theorem calm_call (hw : Others t w.st) : wp allSucceed anything (call c) (Calm t) w :=
  ok_call fun _ _ _ ho => hw.trans ho

omit ht in
theorem calm_manager (ht : Started t) (hw : Others t w.st) :
    wp allSucceed anything (manager c) (Calm t) w :=
  ok_manager (hw.started ht) fun _ _ _ ho => hw.trans ho

omit ht in
theorem calm_sleep (hw : Others t w.st) : wp allSucceed anything (sleep q) (Calm t) w :=
  ok_sleep fun _ ho => hw.trans ho

omit ht in
theorem calm_choice (hne : xs ≠ []) (hw : Others t w.st) : wp allSucceed anything (choice xs) (Calm t) w :=
  ok_choice (fun h => absurd h hne) fun _ _ _ ho => hw.trans ho

omit ht in
theorem calm_when {c : Prop} [Decidable c] {m : M Unit} (hm : wp allSucceed anything m (Calm t) w)
    (hw : Others t w.st) : wp allSucceed anything (when c m) (Calm t) w := by
  unfold when
  split
  · exact hm
  · exact hw

omit ht in
theorem calm_waitForTool {tries : Nat} (hw : Others t w.st) :
    wp allSucceed anything (waitForTool remote (tries + 1)) (Calm t) w := by
  refine wp_bind.mpr (ok_call fun (status : Int) w' hstatus ho => ?_)
  have hzero : status = 0 := hstatus
  change wp allSucceed anything (if status = 0 then .ret () else _) (Calm t) w'
  rw [if_pos hzero]
  exact hw.trans ho

theorem calm_chooseExporter (hw : Others t w.st) :
    wp allSucceed anything (chooseExporter osd remote) (Calm t) w := by
  rw [chooseExporter, wp_bind, wp_osds (ht.others hw).started, chain_ret]
  by_cases hmany : 1 < (w.st.osds .dead).length
  · rw [if_pos hmany]
    refine wp_bind.mpr (ok_random fun u w' ho => ?_)
    have hw' := hw.trans ho
    have hstarted := (ht.others hw').started
    refine wp_bind.mpr ((wp_attr (hstarted _ rfl rfl)).mpr ?_)
    simp only [chain_ret]
    split
    · rw [wp_bind, wp_osds hstarted, chain_ret]
      have hne : (w'.st.osds .dead).dropLast ≠ [] := by
        rw [ho.osds, ← length_pos_iff, length_dropLast]
        omega
      refine wp_bind_settles (calm_choice hne hw') fun expOsd w hw => ?_
      exact wp_bind_settles (calm_manager ht.started hw) fun _ w hw => hw
    · exact hw'
  · rw [if_neg hmany]
    exact hw

theorem calm_chooseImporter {remote expRemote : Remote} (hw : Others t w.st) :
    wp allSucceed anything (chooseImporter file osd remote expRemote) (Calm t) w := by
  unfold chooseImporter
  split
  · refine wp_bind.mpr (ok_call fun listed w' hstatus ho => ?_)
    have hw' := hw.trans ho
    refine wp_bind.mpr (ok_checkStatus hstatus ?_)
    simp only [chain_ret]
    split
    · refine wp_bind_settles (calm_log ht.started hw') fun _ w hw => ?_
      refine wp_bind_settles (calm_when ?_ hw) fun _ w hw => hw
      exact wp_bind_settles (calm_log ht.started hw) fun _ w hw =>
        wp_bind_settles (calm_call hw) fun _ w hw =>
        wp_bind_settles (calm_call hw) fun _ w hw => calm_call hw
    · exact hw'
  · exact hw

theorem calm_applyLayoutSettings (hw : Others t w.st) :
    wp allSucceed anything (applyLayoutSettings osd remote) (Calm t) w := by
  refine wp_bind_settles (calm_manager ht.started hw) fun pools w hw => ?_
  refine wp_forEach (fun _ w => Others t w.st) (fun pool _ w hw => ?_) (fun w hw => hw) pools w hw
  refine wp_bind.mpr (ok_call fun result w' hstatus ho => ?_)
  have hzero : result.1 = 0 := hstatus
  simp only [chain_ret]
  rw [when, if_neg fun h => h.2 hzero]
  exact hw.trans ho

theorem calm_movePgBy {remote expRemote : Remote} (hw : Others t w.st) :
    wp allSucceed anything (movePgBy file osd remote expRemote) (Calm t) w := by
  refine wp_bind.mpr (ok_call fun status w' hstatus ho => ?_)
  have hw := hw.trans ho
  refine wp_bind.mpr (ok_checkStatus hstatus ?_)
  refine wp_bind.mpr (ok_call fun status w' hstatus ho => ?_)
  have hw := hw.trans ho
  refine wp_bind.mpr (ok_checkStatus hstatus ?_)
  refine wp_bind_settles (calm_chooseImporter ht hw) fun importer w hw => ?_
  refine wp_bind.mpr (ok_call fun (status : Int) w' hstatus ho => ?_)
  have hw := hw.trans ho
  have hzero : status = 0 := hstatus
  refine wp_bind_settles (I := fun w => Others t w.st) ?_ fun _ w hw => ?_
  · rw [checkImport, if_neg (by omega)]
    exact ok_checkStatus hzero hw
  · refine wp_bind_settles (calm_call hw) fun _ w hw => ?_
    refine wp_bind_settles (calm_when (calm_call hw) hw) fun _ w hw => ?_
    exact calm_applyLayoutSettings ht hw

theorem calm_testObjectstoreTool (hw : Others t w.st) :
    wp allSucceed anything (testObjectstoreTool osd) (Calm t) w := by
  refine wp_bind_settles (calm_log ht.started hw) fun _ w hw => ?_
  refine wp_bind_settles (calm_manager ht.started hw) fun remote w hw => ?_
  refine wp_bind_settles (calm_chooseExporter ht hw) fun exporter w hw => ?_
  refine wp_bind_settles (calm_attr ht rfl hw) fun _ w hw => ?_
  refine wp_bind_settles (calm_waitForTool hw) fun _ w hw => ?_
  refine wp_bind.mpr (ok_call fun listed w' hstatus ho => ?_)
  have hw' := hw.trans ho
  refine wp_bind.mpr (ok_checkStatus hstatus ?_)
  simp only [chain_ret]
  split
  · exact calm_log ht.started hw'
  next hpgs =>
    have hne : listed.2 ≠ [] := fun h => hpgs (by rw [h]; rfl)
    refine wp_bind_settles (calm_choice hne hw') fun pg w hw => ?_
    exact wp_bind_settles (calm_attr ht rfl hw) fun _ w hw => calm_movePgBy ht hw

end Always

/-! ### The mutators -/

def Mutator.src : Mutator → OsdList
  | .kill => .live
  | .blackholeKill => .live
  | .revive _ => .dead
  | .out => .in_
  | .in_ => .out

def Mutator.dst : Mutator → OsdList
  | .kill => .dead
  | .blackholeKill => .dead
  | .revive _ => .live
  | .out => .out
  | .in_ => .in_

section Mutators

variable {w : W Unit} {Q : Outcome PyError Unit → W Unit → Prop}

theorem ok_moveFirst {src dst : OsdList} (hne : src ≠ dst) {Q : Outcome PyError c.Ret → W Unit → Prop}
    (hw : Started w.st)
    (hret : osd ∈ w.st.osds src → ∀ v w', Others (w.st.moved src dst osd) w'.st → Q (.ret v) w')
    (hexn : osd ∉ w.st.osds src → Q (.exn .valueError) w) :
    wp allSucceed anything (transfer src dst osd >>= fun _ => manager c) Q w := by
  rw [wp_bind, wp_transfer hne hw]
  split
  next hosd => exact ok_manager (hw.moved src dst osd) fun v w' _ ho => hret hosd v w' ho
  next hosd => exact hexn hosd

theorem ok_cmdFirst {src dst : OsdList} (hne : src ≠ dst) (hw : Started w.st)
    (hret : osd ∈ w.st.osds src → ∀ w', Others (w.st.moved src dst osd) w'.st → Q (.ret ()) w')
    (hexn : osd ∉ w.st.osds src → ∀ w', Others w.st w'.st → Q (.exn .valueError) w') :
    wp allSucceed anything (manager c >>= fun _ => transfer src dst osd) Q w := by
  refine wp_bind.mpr (ok_manager hw fun v w' _ ho => ?_)
  refine (wp_transfer hne (ho.started hw)).mpr ?_
  rw [ho.osds]
  split
  next hosd => exact hret hosd _ (ho.moved src dst osd)
  next hosd => exact hexn hosd _ ho

theorem ok_run (μ : Mutator) (hw : Started w.st) (hret : osd ∈ w.st.osds μ.src →
      ∀ w', Others (w.st.moved μ.src μ.dst osd) w'.st → Q (.ret ()) w')
    (hexn : osd ∉ w.st.osds μ.src → ∀ w', Others w.st w'.st → Q (.exn .valueError) w') :
    wp allSucceed anything (μ.run osd) Q w := by
  cases μ with
  | kill | in_ => exact ok_moveFirst (by decide) hw (fun h _ => hret h) fun h => hexn h w (.refl _)
  | blackholeKill =>
    exact ok_moveFirst (by decide) hw (fun h _ => hret h) fun h => hexn h w (.refl _)
  | revive skip =>
    rw [Mutator.run, wp_bind, wp_attr (hw _ rfl rfl), chain_ret]
    exact ok_cmdFirst (by decide) hw hret hexn
  | out => exact ok_cmdFirst (by decide) hw hret hexn

/-! ### The methods, on a given OSD and on one drawn from its list -/

theorem calm_run (μ : Mutator) (ht : Started t) (hosd : osd ∈ t.osds μ.src) (hw : Others t w.st) :
    wp allSucceed anything (μ.run osd) (Calm (t.moved μ.src μ.dst osd)) w := by
  refine ok_run μ (hw.started ht) (fun _ w' ho => (hw.moved _ _ _).trans ho) fun hnot => ?_
  rw [hw.osds] at hnot
  exact absurd hosd hnot

theorem calm_logged_run (μ : Mutator) (ht : Started t) (hosd : osd ∈ t.osds μ.src)
    (hw : Others t w.st) :
    wp allSucceed anything (log >>= fun _ => μ.run osd) (Calm (t.moved μ.src μ.dst osd)) w := by
  rw [wp_bind, wp_log (hw.started ht), chain_ret]
  exact calm_run μ ht hosd hw

theorem calm_outOsd (ht : Started t) (hosd : osd ∈ t.osds .in_) (hw : Others t w.st) :
    wp allSucceed anything (outOsd (some osd)) (Calm (t.moved .in_ .out osd)) w :=
  calm_logged_run .out ht hosd hw

theorem calm_reviveOsd (ht : Started t) (hosd : osd ∈ t.osds .dead) (hw : Others t w.st) :
    wp allSucceed anything (reviveOsd (some osd) skip) (Calm (t.moved .dead .live osd)) w :=
  calm_logged_run (.revive skip) ht hosd hw

def Thrasher.broughtIn (t : Thrasher) (osd : Osd) : Thrasher :=
  if osd ∈ t.osds .dead then t.moved .dead .live osd else t.moved .out .in_ osd

theorem calm_inOsd (ht : Started t) (hosd : osd ∈ t.osds .out) (hw : Others t w.st) :
    wp allSucceed anything (inOsd (some osd)) (Calm (t.broughtIn osd)) w := by
  change wp allSucceed anything (osds .dead >>= _) _ w
  rw [wp_bind, wp_osds (hw.started ht), chain_ret, hw.osds]
  by_cases hdead : osd ∈ t.osds .dead
  · rw [if_pos hdead, Thrasher.broughtIn, if_pos hdead]
    exact calm_reviveOsd ht hdead hw
  · rw [if_neg hdead, Thrasher.broughtIn, if_neg hdead, wp_bind, wp_log (hw.started ht), chain_ret]
    refine wp_bind_settles (calm_run .in_ ht hosd hw) fun _ w' hw' => ?_
    exact calm_log (ht.moved .out .in_ osd) hw'

def Thrasher.killed (t : Thrasher) (osd : Osd) (markOut : Bool) : Thrasher :=
  if markOut = true ∧ osd ∈ t.osds .in_ then (t.moved .live .dead osd).moved .in_ .out osd
  else t.moved .live .dead osd

theorem Initialised.killed (h : Initialised t) (osd : Osd) (markOut : Bool) :
    Initialised (t.killed osd markOut) := by
  unfold Thrasher.killed
  split
  · exact (h.moved _ _ _).moved _ _ _
  · exact h.moved _ _ _

theorem calm_markOut {markOut : Bool} (ht : Started t) (hw : Others (t.moved .live .dead osd) w.st) :
    wp allSucceed anything (when (markOut = true) do
        let inOsds ← osds .in_
        when (osd ∈ inOsds) (outOsd (some osd)))
      (Calm (t.killed osd markOut)) w := by
  have hmoved := ht.moved .live .dead osd
  have hin : (t.moved .live .dead osd).osds .in_ = t.osds .in_ := by
    rw [Thrasher.osds_moved]
    rfl
  by_cases hmark : markOut = true
  · rw [when, if_pos hmark, wp_bind, wp_osds (hw.started hmoved), chain_ret, hw.osds, hin]
    by_cases hosd : osd ∈ t.osds .in_
    · rw [when, if_pos hosd, Thrasher.killed, if_pos ⟨hmark, hosd⟩]
      exact calm_outOsd hmoved (hin.symm ▸ hosd) hw
    · rw [when, if_neg hosd, Thrasher.killed, if_neg fun h => hosd h.2]
      exact hw
  · rw [when, if_neg hmark, Thrasher.killed, if_neg fun h => hmark h.1]
    exact hw

theorem calm_killOsd (markDown markOut : Bool) (ht : Initialised t) (hosd : osd ∈ t.osds .live)
    (hw : Others t w.st) :
    wp allSucceed anything (killOsd (some osd) markDown markOut) (Calm (t.killed osd markOut)) w := by
  change wp allSucceed anything (log >>= fun _ => Mutator.kill.run osd >>= fun _ => _) _ w
  rw [wp_bind, wp_log (hw.started ht.started), chain_ret]
  refine wp_bind_settles (calm_run .kill ht.started hosd hw) fun _ w1 hw1 => ?_
  have hmoved := ht.moved .live .dead osd
  refine wp_bind_settles (calm_when (calm_manager hmoved.started hw1) hw1) fun _ w2 hw2 => ?_
  refine wp_bind_settles (calm_markOut ht.started hw2) fun _ w3 hw3 => ?_
  have hkilled := ht.killed osd markOut
  refine wp_bind_settles (calm_attr hkilled rfl hw3) fun tool w4 hw4 => ?_
  exact calm_when (calm_testObjectstoreTool hkilled hw4) hw4

def Ends {α : Type} (R X : Thrasher → Prop) :
    Outcome PyError α → World taskSig Thrasher Unit → Prop
  | .ret _, w => R w.st
  | .exn _, w => X w.st
  | .cut, _ => False

theorem ok_given {Q : Outcome PyError Osd → W Unit → Prop} (hw : Started w.st)
    (hempty : w.st.osds l = [] → Q (.exn .indexError) w)
    (h : ∀ osd ∈ w.st.osds l, ∀ w', Others w.st w'.st → Q (.ret osd) w') :
    wp allSucceed anything (given none l) Q w := by
  rw [given, wp_bind, wp_osds hw]
  exact ok_choice hempty h

theorem ends_given {f : Osd → M Unit} {after : Osd → Thrasher} (hw : Started w.st)
    (hf : ∀ osd ∈ w.st.osds l, ∀ w', Others w.st w'.st →
      wp allSucceed anything (f osd) (Calm (after osd)) w') : wp allSucceed anything (given none l >>= f)
      (Ends (fun t => ∃ osd ∈ w.st.osds l, Others (after osd) t)
        fun t => w.st.osds l = [] ∧ Others w.st t) w := by
  refine wp_bind.mpr (ok_given hw (fun h => ⟨h, .refl _⟩) fun osd hosd w' ho => ?_)
  refine wp_mono ?_ (hf osd hosd w' ho)
  rintro (a | e | _) w'' h
  · exact ⟨osd, hosd, h⟩
  · exact h.1.elim
  · exact h.elim

theorem ends_outOsd (hw : Started w.st) : wp allSucceed anything (outOsd none)
      (Ends (fun t => ∃ osd ∈ w.st.osds .in_, Others (w.st.moved .in_ .out osd) t)
        fun t => w.st.osds .in_ = [] ∧ Others w.st t) w :=
  ends_given hw fun _ hosd _ ho => calm_outOsd hw hosd ho

theorem ends_reviveOsd (hw : Started w.st) : wp allSucceed anything (reviveOsd none skip)
      (Ends (fun t => ∃ osd ∈ w.st.osds .dead, Others (w.st.moved .dead .live osd) t)
        fun t => w.st.osds .dead = [] ∧ Others w.st t) w :=
  ends_given hw fun _ hosd _ ho => calm_reviveOsd hw hosd ho

theorem ends_inOsd (hw : Started w.st) : wp allSucceed anything (inOsd none)
      (Ends (fun t => ∃ osd ∈ w.st.osds .out, Others (w.st.broughtIn osd) t)
        fun t => w.st.osds .out = [] ∧ Others w.st t) w :=
  ends_given hw fun _ hosd _ ho => calm_inOsd hw hosd ho

theorem ends_killOsd (markDown markOut : Bool) (hw : Initialised w.st) :
    wp allSucceed anything (killOsd none markDown markOut)
      (Ends (fun t => ∃ osd ∈ w.st.osds .live, Others (w.st.killed osd markOut) t)
        fun t => w.st.osds .live = [] ∧ Others w.st t) w :=
  ends_given hw.started fun _ hosd _ ho => calm_killOsd markDown markOut hw hosd ho

end Mutators

/-! ### Runs that can be made -/

section Leads

theorem leads_attr {a : Attr} (ha : a ∈ t.assigned) :
    Leads allSucceed (attr a f) t () (.ret (f t)) t () := by
  refine .read ?_
  rw [if_pos ha]
  exact .ret _

theorem leads_issue {o : Op} {a : o.Ans} (ha : o.succeeded a) :
    Leads allSucceed (issue o) t () (.ret a) t () := by
  have hstep : allSucceed o t () a t () := ⟨ha, .refl t⟩
  exact .op (S := taskSig) hstep (.ret a)

theorem leads_call {v : c.Ret} (hv : c.status v = 0) : Leads allSucceed (call c) t () (.ret v) t () :=
  (leads_issue (o := .cmd c) (a := .ok v) ⟨v, rfl, hv⟩).bind (.ret v)

theorem leads_sleep : Leads allSucceed (sleep q) t () (.ret ()) t () :=
  (leads_issue (o := .sleep q) (a := .ok ()) rfl).bind (.ret ())

theorem leads_choice {y : β} (hy : y ∈ xs) : Leads allSucceed (choice xs) t () (.ret y) t () := by
  obtain ⟨i, rfl⟩ := get_of_mem hy
  cases xs with
  | nil => exact i.elim0
  | cons x xs => exact (leads_issue (o := .randIndex xs.length) (a := i) trivial).bind (.ret _)

variable (ht : Initialised t)
include ht

theorem leads_log : Leads allSucceed log t () (.ret ()) t () :=
  (leads_attr (ht _ rfl)).bind (leads_attr (ht _ rfl))

theorem leads_manager {v : c.Ret} (hv : c.status v = 0) :
    Leads allSucceed (manager c) t () (.ret v) t () :=
  (leads_attr (ht _ rfl)).bind (leads_call hv)

theorem leads_osds (l : OsdList) : Leads allSucceed (osds l) t () (.ret (t.osds l)) t () :=
  leads_attr (ht.started.osds l)

theorem leads_given (hosd : osd ∈ t.osds l) : Leads allSucceed (given none l) t () (.ret osd) t () :=
  (leads_osds ht l).bind (leads_choice hosd)

theorem leads_transfer {src dst : OsdList} (hne : src ≠ dst) (hosd : osd ∈ t.osds src) :
    Leads allSucceed (transfer src dst osd) t () (.ret ()) (t.moved src dst osd) () := by
  have hremove : Leads allSucceed (remove src osd) t () (.ret ())
      (t.setOsds src ((t.osds src).erase osd)) () := by
    refine (leads_osds ht src).bind ?_
    rw [if_pos hosd]
    exact .read (.write (.ret ()))
  have hset : Initialised (t.setOsds src ((t.osds src).erase osd)) := fun a ha => by
    rw [Thrasher.assigned_setOsds]
    exact ht a ha
  refine hremove.bind ((leads_osds hset dst).bind (.read (.write ?_)))
  rw [Thrasher.osds_setOsds, if_neg hne.symm]
  exact .ret ()

theorem leads_run (μ : Mutator) (hosd : osd ∈ t.osds μ.src) :
    Leads allSucceed (μ.run osd) t () (.ret ()) (t.moved μ.src μ.dst osd) () := by
  have hmoved := ht.moved μ.src μ.dst osd
  cases μ with
  | kill =>
    exact (leads_transfer ht (by decide) hosd).bind (leads_manager hmoved (c := .killOsd osd) rfl)
  | blackholeKill =>
    exact (leads_transfer ht (by decide) hosd).bind
      (leads_manager hmoved (c := .blackholeKillOsd osd) rfl)
  | revive skip =>
    exact (leads_attr (ht _ rfl)).bind
      ((leads_manager ht (c := .reviveOsd osd t.reviveTimeout skip) (v := ()) rfl).bind
        (leads_transfer ht (by decide) hosd))
  | out =>
    exact (leads_manager ht (c := .markOutOsd osd) (v := ()) rfl).bind (leads_transfer ht (by decide) hosd)
  | in_ =>
    exact (leads_transfer ht (by decide) hosd).bind (leads_manager hmoved (c := .markInOsd osd) rfl)

theorem leads_reviveOsd (hosd : osd ∈ t.osds .dead) :
    Leads allSucceed (reviveOsd none false) t () (.ret ()) (t.moved .dead .live osd) () :=
  (leads_given ht hosd).bind ((leads_log ht).bind (leads_run ht (.revive false) hosd))

theorem leads_inOsd_dead (hosd : osd ∈ t.osds .out) (hdead : osd ∈ t.osds .dead) :
    Leads allSucceed (inOsd none) t () (.ret ()) (t.moved .dead .live osd) () := by
  refine (leads_given ht hosd).bind ((leads_osds ht .dead).bind ?_)
  rw [if_pos hdead]
  exact (Leads.ret _).bind ((leads_log ht).bind (leads_run ht (.revive false) hdead))

theorem leads_inOsd_live (hosd : osd ∈ t.osds .out) (hdead : osd ∉ t.osds .dead) :
    Leads allSucceed (inOsd none) t () (.ret ()) (t.moved .out .in_ osd) () := by
  refine (leads_given ht hosd).bind ((leads_osds ht .dead).bind ?_)
  rw [if_neg hdead]
  exact (leads_log ht).bind ((leads_run ht .in_ hosd).bind (leads_log (ht.moved .out .in_ osd)))

theorem leads_testObjectstoreTool (osd : Osd) :
    Leads allSucceed (testObjectstoreTool osd) t () (.ret ()) t () := by
  have hexporter : ∃ exporter, Leads allSucceed (chooseExporter osd 0) t () (.ret exporter) t () := by
    by_cases hmany : 1 < (t.osds .dead).length
    · have hpos : 0 < (t.osds .dead).dropLast.length := by
        rw [length_dropLast]
        omega
      obtain ⟨expOsd, hexp⟩ := exists_mem_of_length_pos hpos
      by_cases hchance : 0 < t.chanceMovePg
      · refine ⟨(expOsd, 0), (leads_osds ht .dead).bind ?_⟩
        rw [if_pos hmany]
        refine ((leads_issue (o := .random) (a := ⟨0, by decide +kernel⟩) trivial).bind (.ret _)).bind
          ((leads_attr (ht _ rfl)).bind ?_)
        rw [if_pos hchance]
        exact (leads_osds ht .dead).bind ((leads_choice hexp).bind
          ((leads_manager ht (c := .findRemote expOsd) rfl).bind (.ret _)))
      · refine ⟨(osd, 0), (leads_osds ht .dead).bind ?_⟩
        rw [if_pos hmany]
        refine ((leads_issue (o := .random) (a := ⟨0, by decide +kernel⟩) trivial).bind (.ret _)).bind
          ((leads_attr (ht _ rfl)).bind ?_)
        rw [if_neg hchance]
        exact .ret _
    · refine ⟨(osd, 0), (leads_osds ht .dead).bind ?_⟩
      rw [if_neg hmany]
      exact .ret _
  obtain ⟨exporter, hexporter⟩ := hexporter
  refine (leads_log ht).bind ((leads_manager ht (c := .findRemote osd) (v := 0) rfl).bind
    (hexporter.bind ((leads_attr (ht _ rfl)).bind ?_)))
  have htool : Leads allSucceed (waitForTool exporter.2 40) t () (.ret ()) t () := by
    refine (leads_call (c := .typeTool exporter.2) (v := (0 : Int)) rfl).bind ?_
    exact .ret ()
  refine htool.bind ((leads_call (c := .tool exporter.2 exporter.1 .listPgs) (v := (0, [])) rfl).bind ?_)
  exact (Leads.ret ()).bind (leads_log ht)

end Leads

end ZbkcTasks
