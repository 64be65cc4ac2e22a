import ZbkcTasks.ListSplit
import ZbkcTasks.ThrasherUses

/-! Weakest preconditions of the statements from which the methods of the thrasher are built, on an
object that `__init__` has set up as far as the start of the greenlets. -/

namespace ZbkcTasks

open List Prog

/-- Every attribute that `__init__` sets before it starts the greenlets is set. -/
def Started (t : Thrasher) : Prop :=
  ∀ a : Attr, a.late = false → a.handle = false → a ∈ t.assigned

/-- Every attribute that the methods read is set: `__init__` has returned. -/
def Initialised (t : Thrasher) : Prop := ∀ a : Attr, a.handle = false → a ∈ t.assigned

variable {t : Thrasher}

theorem Initialised.started (h : Initialised t) : Started t := fun a _ hhandle => h a hhandle

def answered {η β : Type} (Q : Outcome PyError β → World taskSig Thrasher η → Prop) :
    Except CommandError β → World taskSig Thrasher η → Prop
  | .ok a, w => Q (.ret a) w
  | .error e, w => Q (.exn (.command e)) w

@[simp] theorem answered_ok {η β : Type} (Q : Outcome PyError β → W η → Prop)
    (a : β) (w : W η) : answered Q (.ok a) w = Q (.ret a) w := rfl

def Thrasher.moved (t : Thrasher) (src dst : OsdList) (osd : Osd) : Thrasher :=
  (t.setOsds src ((t.osds src).erase osd)).setOsds dst (t.osds dst ++ [osd])

@[simp] theorem Thrasher.osds_setOsds (t : Thrasher) (l l' : OsdList) (xs : List Osd) :
    (t.setOsds l xs).osds l' = if l' = l then xs else t.osds l' := by
  cases l <;> cases l' <;> rfl

@[simp] theorem Thrasher.assigned_setOsds (t : Thrasher) (l : OsdList) (xs : List Osd) :
    (t.setOsds l xs).assigned = t.assigned := by
  cases l <;> rfl

@[simp] theorem Thrasher.minin_setOsds (t : Thrasher) (l : OsdList) (xs : List Osd) :
    (t.setOsds l xs).minin = t.minin := by
  cases l <;> rfl

@[simp] theorem Thrasher.assigned_moved (t : Thrasher) (src dst : OsdList) (osd : Osd) :
    (t.moved src dst osd).assigned = t.assigned := by
  simp [Thrasher.moved]

@[simp] theorem Thrasher.minin_moved (t : Thrasher) (src dst : OsdList) (osd : Osd) :
    (t.moved src dst osd).minin = t.minin := by
  simp [Thrasher.moved]

theorem Thrasher.osds_moved (t : Thrasher) (src dst : OsdList) (osd : Osd)
    (l : OsdList) : (t.moved src dst osd).osds l =
      if l = dst then t.osds dst ++ [osd] else if l = src then (t.osds src).erase osd else t.osds l := by
  simp [Thrasher.moved]

theorem Thrasher.length_moved (t : Thrasher) (src dst : OsdList) (hne : src ≠ dst) {osd : Osd}
    (hosd : osd ∈ t.osds src) (l : OsdList) :
    ((t.moved src dst osd).osds l).length + (if l = src then 1 else 0) =
      (t.osds l).length + (if l = dst then 1 else 0) := by
  rw [Thrasher.osds_moved]
  by_cases hdst : l = dst
  · subst hdst
    rw [if_pos rfl, if_pos rfl, if_neg hne.symm, length_append]
    rfl
  · rw [if_neg hdst, if_neg hdst]
    by_cases hsrc : l = src
    · subst hsrc
      have hpos := length_pos_of_mem hosd
      rw [if_pos rfl, if_pos rfl, length_erase_of_mem hosd]
      omega
    · rw [if_neg hsrc, if_neg hsrc]

theorem Started.moved (h : Started t) (src dst : OsdList) (osd : Osd) :
    Started (t.moved src dst osd) := by
  intro a hlate hhandle
  rw [Thrasher.assigned_moved]
  exact h a hlate hhandle

theorem Started.osds (h : Started t) (l : OsdList) : l.attr ∈ t.assigned := by
  cases l <;> exact h _ rfl rfl

/-! ### A run that can always be made -/

def ToolOp.okRet : (toolOp : ToolOp) → toolOp.Ret
  | .listPgs => (0, [])
  | .export _ _ => (0 : Int)
  | .remove _ => (0 : Int)
  | .import _ => (0 : Int)
  | .rmPastIntervals _ => (0 : Int)
  | .applyLayoutSettings _ => (0, false)

def Cmd.okRet : (c : Cmd) → c.Ret
  | .waitForClean _ => ()
  | .waitForRecovery _ => ()
  | .waitForAllUp _ => ()
  | .getOsdStatus => ⟨[], [], [], [], [], []⟩
  | .compilePgStatus => []
  | .killOsd _ => ()
  | .blackholeKillOsd _ => ()
  | .reviveOsd _ _ _ => ()
  | .markDownOsd _ => ()
  | .markOutOsd _ => ()
  | .markInOsd _ => ()
  | .signalOsd _ => ()
  | .osdAdminSocket _ _ => ()
  | .setConfig _ _ => ()
  | .rawClusterCmd _ => ()
  | .rawClusterCmdResult _ => (0 : Int)
  | .getPool => ""
  | .expandPool _ _ _ => ()
  | .setPoolPgpnum _ => ()
  | .listPools => []
  | .findRemote _ => 0
  | .typeTool _ => (0 : Int)
  | .tool _ _ toolOp => toolOp.okRet
  | .getFile _ _ => ()
  | .putFile _ _ => ()
  | .removeTmp _ => ()
  | .rmFile _ _ => ()

/-- Every command succeeds with little to say, and every draw is the least. -/
def Op.okAns : (o : Op) → o.Ans
  | .cmd c => .ok c.okRet
  | .sleep _ => .ok ()
  | .randIndex n => ⟨0, Nat.succ_pos n⟩
  | .random => ⟨0, le_rfl, one_pos⟩
  | .uniform a b => ⟨min a b, le_rfl, min_le_max⟩
  | .spawn _ => ()
  | .join _ => ()
  | .get _ => .ok ()
  | .testBody => ()

def okRun {η : Type} (o : Op) (t : Thrasher) (x : η) : o.Ans × Thrasher × η := (o.okAns, t, x)

/-! ### The choice of an action -/

def Action.guard (t : Thrasher) : Action → Prop
  | .outOsd => t.minin < t.inOsds.length
  | .killOsd => t.config.minLive.getD 2 < t.liveOsds.length ∧ 0 < chanceDown t.config
  | .rmPastIntervals => 1 < t.deadOsds.length
  | .inOsd => t.config.minOut.getD 0 < t.outOsds.length
  | .reviveOsd => t.config.minDead.getD 0 < t.deadOsds.length
  | .primaryAffinity => t.config.thrashPrimaryAffinity.getD true = true
  | _ => True

@[simp] theorem mem_entry {c : Prop} [Decidable c] {a : Action} {weight : ℚ} {x : Action × ℚ} :
    x ∈ entry c a weight ↔ c ∧ x = (a, weight) := by
  unfold entry
  split <;> simp_all

theorem guard_of_mem {x : Action × ℚ} (h : x ∈ actions t) : x.1.guard t := by
  simp only [actions, pauseKeys, mem_append, mem_entry, flatMap_cons, flatMap_nil,
    mem_cons, not_mem_nil, or_false] at h
  rcases h with ((((((h | h) | h) | h) | h) | h) | h) | h
  · exact h.2 ▸ h.1
  · exact h.2 ▸ h.1
  · exact h.2 ▸ h.1
  · exact h.2 ▸ h.1
  · exact h.2 ▸ h.1
  · exact h.2 ▸ h.1
  · rcases h with rfl | rfl | rfl | rfl | rfl <;> exact trivial
  · rcases h with (rfl | rfl) | rfl | rfl <;> exact trivial

theorem mem_of_pick {xs : List (Action × ℚ)} {val : ℚ} {a : Action} (h : pick xs val = some a) :
    ∃ prob, (a, prob) ∈ xs := by
  induction xs generalizing val with
  | nil => cases h
  | cons x xs ih =>
    obtain ⟨b, prob⟩ := x
    by_cases hval : val < prob
    · rw [pick, if_pos hval] at h
      cases h
      exact ⟨prob, .head _⟩
    · rw [pick, if_neg hval] at h
      obtain ⟨prob', hmem⟩ := ih h
      exact ⟨prob', .tail _ hmem⟩

theorem guard_of_pick {val : ℚ} {a : Action} (h : pick (actions t) val = some a) : a.guard t := by
  obtain ⟨prob, hmem⟩ := mem_of_pick h
  exact guard_of_mem hmem

variable {src dst : OsdList}

section Wp

variable {η : Type} {E : Env taskSig Thrasher η} {A : Op → Thrasher → η → Prop}
  {w : W η} {c : Cmd} {Q : Outcome PyError Unit → W η → Prop}
  {l : OsdList}

theorem wp_attr {β : Type} {a : Attr} {f : Thrasher → β}
    {Q : Outcome PyError β → W η → Prop} (ha : a ∈ w.st.assigned) :
    wp E A (attr a f) Q w ↔ Q (.ret (f w.st)) w := by
  change wp E A (if a ∈ w.st.assigned then .ret (f w.st) else _) Q w ↔ _
  rw [if_pos ha]
  exact Iff.rfl

theorem wp_call {Q : Outcome PyError c.Ret → W η → Prop} : wp E A (call c) Q w ↔ A (.cmd c) w.st w.ext ∧
      ∀ (r : Except CommandError c.Ret) s x, E (.cmd c) w.st w.ext r s x →
        answered Q r (w.push (S := taskSig) (.cmd c) r s x) := by
  refine and_congr Iff.rfl (forall_congr' fun r => forall_congr' fun s => forall_congr' fun x => ?_)
  refine imp_congr Iff.rfl ?_
  cases r <;> exact Iff.rfl

theorem wp_manager {Q : Outcome PyError c.Ret → W η → Prop} (hw : Started w.st) :
    wp E A (manager c) Q w ↔ A (.cmd c) w.st w.ext ∧
      ∀ (r : Except CommandError c.Ret) s x, E (.cmd c) w.st w.ext r s x →
        answered Q r (w.push (S := taskSig) (.cmd c) r s x) := by
  rw [manager, wp_bind, wp_attr (hw _ rfl rfl), chain_ret, wp_call]

theorem wp_log (hw : Started w.st) : wp E A log Q w ↔ Q (.ret ()) w := by
  rw [log, wp_bind, wp_attr (hw _ rfl rfl), chain_ret, wp_attr (hw _ rfl rfl)]

theorem wp_osds {Q : Outcome PyError (List Osd) → W η → Prop} (hw : Started w.st) :
    wp E A (osds l) Q w ↔ Q (.ret (w.st.osds l)) w :=
  wp_attr (hw.osds l)

theorem wp_modify {f : Thrasher → Thrasher} :
    wp E A (modify f) Q w ↔ Q (.ret ()) { w with st := f w.st } := Iff.rfl

variable {osd : Osd}

theorem wp_remove (hw : Started w.st) :
    wp E A (remove l osd) Q w ↔ if osd ∈ w.st.osds l
      then Q (.ret ()) { w with st := w.st.setOsds l ((w.st.osds l).erase osd) }
      else Q (.exn .valueError) w := by
  rw [remove, wp_bind, wp_osds hw, chain_ret]
  split
  · exact wp_modify
  · exact Iff.rfl

theorem wp_append (hw : Started w.st) : wp E A (append l osd) Q w ↔
      Q (.ret ()) { w with st := w.st.setOsds l (w.st.osds l ++ [osd]) } := by
  rw [append, wp_bind, wp_osds hw, chain_ret, wp_modify]

theorem wp_transfer (hne : src ≠ dst) (hw : Started w.st) :
    wp E A (transfer src dst osd) Q w ↔ if osd ∈ w.st.osds src
      then Q (.ret ()) { w with st := w.st.moved src dst osd } else Q (.exn .valueError) w := by
  rw [transfer, wp_bind, wp_remove hw]
  split
  · have hstarted : Started (w.st.setOsds src ((w.st.osds src).erase osd)) := fun a h1 h2 => by
      rw [Thrasher.assigned_setOsds]
      exact hw a h1 h2
    rw [chain_ret, wp_append hstarted, Thrasher.osds_setOsds, if_neg (Ne.symm hne)]
    exact Iff.rfl
  · exact Iff.rfl

theorem wp_moveFirst (hne : src ≠ dst) {Q : Outcome PyError c.Ret → W η → Prop} (hw : Started w.st) :
    wp E A (transfer src dst osd >>= fun _ => manager c) Q w ↔ if osd ∈ w.st.osds src
      then A (.cmd c) (w.st.moved src dst osd) w.ext ∧
        ∀ (r : Except CommandError c.Ret) s x, E (.cmd c) (w.st.moved src dst osd) w.ext r s x →
          answered Q r (World.push (S := taskSig) { w with st := w.st.moved src dst osd } (.cmd c) r s x)
      else Q (.exn .valueError) w := by
  rw [wp_bind, wp_transfer hne hw]
  split
  · rw [chain_ret, wp_manager (hw.moved src dst osd)]
  · exact Iff.rfl

theorem wp_cmdFirst (hne : src ≠ dst) (hw : Started w.st)
    (hE : ∀ r s x, E (.cmd c) w.st w.ext r s x → Started s) :
    wp E A (manager c >>= fun _ => transfer src dst osd) Q w ↔ A (.cmd c) w.st w.ext ∧
      ∀ (r : Except CommandError c.Ret) s x, E (.cmd c) w.st w.ext r s x →
        answered (chain (fun _ w' => if osd ∈ s.osds src
          then Q (.ret ()) { w' with st := s.moved src dst osd } else Q (.exn .valueError) w') Q) r
          (w.push (S := taskSig) (.cmd c) r s x) := by
  rw [wp_bind, wp_manager hw]
  refine and_congr Iff.rfl (forall_congr' fun r => forall_congr' fun s => forall_congr' fun x => ?_)
  refine forall_congr' fun hstep => ?_
  cases r with
  | error e => exact Iff.rfl
  | ok v => exact wp_transfer hne (hE _ _ _ hstep)

theorem wp_choice {β : Type} {xs : List β} {Q : Outcome PyError β → W η → Prop}
    (hempty : xs = [] → Q (.exn .indexError) w)
    (hmem : ∀ n : Nat, A (.randIndex n) w.st w.ext ∧ ∀ i s x, E (.randIndex n) w.st w.ext i s x →
      ∀ y ∈ xs, Q (.ret y) (w.push (S := taskSig) (.randIndex n) i s x)) :
    wp E A (choice xs) Q w := by
  cases xs with
  | nil => exact hempty rfl
  | cons y ys =>
    refine ⟨(hmem ys.length).1, fun i s x hE => ?_⟩
    exact (hmem ys.length).2 i s x hE _ (get_mem _ _)

theorem wp_chooseAction {Q : Outcome PyError (Option Action) → W η → Prop}
    (hw : Started w.st) : wp E A chooseAction Q w ↔ A (.uniform 0 (total (actions w.st))) w.st w.ext ∧
        ∀ u s x, E (.uniform 0 (total (actions w.st))) w.st w.ext u s x →
          Q (.ret (pick (actions w.st) u.val)) (w.push (S := taskSig) (.uniform 0 _) u s x) := by
  simp only [chooseAction, wp_bind, wp_log hw, wp_attr (hw .config rfl rfl),
    wp_attr (hw .minin rfl rfl), wp_attr (hw .inOsds rfl rfl), wp_attr (hw .liveOsds rfl rfl),
    wp_attr (hw .deadOsds rfl rfl), wp_attr (hw .outOsds rfl rfl), chain_ret]
  exact Iff.rfl

theorem wp_logExc {m : M Unit} (hQ : ∀ e w, Q (.exn e) w → Started w.st) (hm : wp E A m Q w) :
    wp E A (logExc m) Q w := by
  refine wp_catching (wp_mono ?_ hm)
  rintro (a | e | _) w' h'
  · exact h'
  · change wp E A (log >>= fun _ => .throw e) Q w'
    rw [wp_bind, wp_log (hQ e w' h'), chain_ret]
    exact h'
  · exact h'

end Wp

end ZbkcTasks
