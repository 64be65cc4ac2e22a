import ZbkcTasks.ThrasherBook

/-! `min_in` over whole runs. An OSD leaves the list in at two places: `out_osd`, offered only while more
than `min_in` are in, and the kill of `test_map_discontinuity`, which a loop precedes. -/

namespace ZbkcTasks

open Prog

variable {η : Type}

/-- The books are kept, and at least `k` OSDs more than `min_in`, which is `m`, are in. -/
structure Spare (S : Finset Osd) (m : Int) (k : Nat) (w : World taskSig Thrasher η) : Prop where
  intact : Intact S w
  minin : w.st.minin = m
  enough : m + k ≤ (w.st.osds .in_).length

variable {S : Finset Osd} {m : Int} {k : Nat} {w : W η}
  {E : Env taskSig Thrasher η} (hE : ∀ o t x a t' x', E o t x a t' x' → Others t t')

namespace Spare

theorem push (h : Spare S m k w) {o : Op} {a : o.Ans} {t : Thrasher} {x : η}
    (ho : Others w.st t) : Spare S m k (w.push (S := taskSig) o a t x) where
  intact := h.intact.push ho
  minin := ho.minin.trans h.minin
  enough := by
    rw [World.push_st, ho.osds]
    exact h.enough

theorem weaken {j : Nat} (h : Spare S m k w) (hjk : j ≤ k) : Spare S m j w :=
  ⟨h.intact, h.minin, by have henough := h.enough; omega⟩

theorem moved_any (h : Spare S m (k + 1) w) (src dst : OsdList) (hop : Opposite src dst) {osd : Osd}
    (hosd : osd ∈ w.st.osds src) : Spare S m k { w with st := w.st.moved src dst osd } where
  intact := h.intact.moved hop hosd
  minin := (w.st.minin_moved src dst osd).trans h.minin
  enough := by
    have henough := h.enough
    rw [Thrasher.osds_moved]
    split
    next hdst =>
      rw [List.length_append, ← hdst]
      push_cast at henough ⊢
      omega
    next =>
      split
      next hsrc =>
        rw [List.length_erase_of_mem hosd, ← hsrc]
        push_cast at henough ⊢
        omega
      next =>
        push_cast at henough
        omega

theorem moved (h : Spare S m k w) (src dst : OsdList) (hop : Opposite src dst) (hsrc : src ≠ .in_)
    {osd : Osd} (hosd : osd ∈ w.st.osds src) : Spare S m k { w with st := w.st.moved src dst osd } where
  intact := h.intact.moved hop hosd
  minin := (w.st.minin_moved src dst osd).trans h.minin
  enough := by
    have henough := h.enough
    rw [Thrasher.osds_moved, if_neg hsrc.symm]
    split
    next hdst =>
      rw [List.length_append, ← hdst]
      push_cast
      omega
    next => exact henough

end Spare

def MinIn (m : Int) (t : Thrasher) : Prop := m ≤ t.inOsds.length

theorem Spare.minIn (h : Spare S m k w) : MinIn m w.st := by
  have henough : m + k ≤ w.st.inOsds.length := h.enough
  unfold MinIn
  omega

include hE

theorem spare_moveFirst (src dst : OsdList) (hop : Opposite src dst) (hne : src ≠ dst)
    (hsrc : src ≠ .in_) (osd : Osd) (c : Cmd) (hw : Spare S m k w) :
    wp E (fun _ t _ => MinIn m t) (transfer src dst osd >>= fun _ => manager c)
      (settles (Spare S m k) (Spare S m 0) fun _ => True) w := by
  rw [wp_moveFirst hne hw.intact.started]
  split
  next hosd =>
    have hmoved : Spare S m k { w with st := w.st.moved src dst osd } := hw.moved src dst hop hsrc hosd
    refine ⟨hmoved.minIn, fun r t x hstep => ?_⟩
    have ho := hE _ _ _ _ _ _ hstep
    cases r with
    | error e => exact ⟨trivial, (hmoved.push ho).weaken (Nat.zero_le k)⟩
    | ok v => exact hmoved.push ho
  next => exact ⟨trivial, hw.weaken (Nat.zero_le k)⟩

theorem spare_cmdFirst (src dst : OsdList) (hne : src ≠ dst) (osd : Osd) (c : Cmd) {j : Nat}
    (hw : Spare S m k w) (hmoved : ∀ w : W η, Spare S m k w → osd ∈ w.st.osds src →
      Spare S m j { w with st := w.st.moved src dst osd }) :
    wp E (fun _ t _ => MinIn m t) (manager c >>= fun _ => transfer src dst osd)
      (settles (Spare S m j) (Spare S m 0) fun _ => True) w := by
  rw [wp_cmdFirst hne hw.intact.started fun _ _ _ h => (hE _ _ _ _ _ _ h).started hw.intact.started]
  refine ⟨hw.minIn, fun r t x hstep => ?_⟩
  have hpush : ∀ a, Spare S m k (w.push (S := taskSig) (.cmd c) a t x) :=
    fun a => hw.push (hE _ _ _ _ _ _ hstep)
  cases r with
  | error e => exact ⟨trivial, (hpush _).weaken (Nat.zero_le k)⟩
  | ok v =>
    rw [answered_ok, chain_ret]
    split
    next hosd => exact hmoved _ (hpush (.ok v)) hosd
    next => exact ⟨trivial, (hpush _).weaken (Nat.zero_le k)⟩

theorem spare_run (μ : Mutator) (hμ : μ ≠ .out) (osd : Osd) (hw : Spare S m k w) :
    wp E (fun _ t _ => MinIn m t) (μ.run osd)
      (settles (Spare S m k) (Spare S m 0) fun _ => True) w := by
  cases μ with
  | kill | blackholeKill =>
    exact spare_moveFirst hE .live .dead trivial (by decide) (by decide) osd _ hw
  | revive skip =>
    rw [Mutator.run, wp_bind, wp_attr (hw.intact.started _ rfl rfl), chain_ret]
    exact spare_cmdFirst hE .dead .live (by decide) osd _ hw
      fun _ h hosd => h.moved .dead .live trivial (by decide) hosd
  | out => exact absurd rfl hμ
  | in_ => exact spare_moveFirst hE .out .in_ trivial (by decide) (by decide) osd _ hw

theorem spare_out (osd : Osd) (hw : Spare S m (k + 1) w) :
    wp E (fun _ t _ => MinIn m t) (Mutator.out.run osd)
      (settles (Spare S m k) (Spare S m 0) fun _ => True) w :=
  spare_cmdFirst hE .in_ .out (by decide) osd _ hw
    fun _ h hosd => h.moved_any .in_ .out trivial hosd

theorem spare_addScrubber (up : List Osd) (hw : Spare S m k w) :
    wp E (fun _ t _ => MinIn m t) (addScrubber up)
      (settles (Spare S m k) (Spare S m 0) fun _ => True) w := by
  have hw' : Spare S m k { w with st :=
      { w.st with scrubbers := w.st.scrubbers ++ [⟨up, false⟩] } } :=
    ⟨⟨hw.intact.started, hw.intact.booked.congr fun l => by cases l <;> rfl⟩, hw.minin, hw.enough⟩
  exact ⟨hw'.minIn, fun a t x hstep => hw'.push (hE _ _ _ _ _ _ hstep)⟩

omit hE in
def stayInUsage : Usage taskSig Thrasher PyError where
  ops o := o.quiet = true
  acts p := ∃ μ osd, μ ≠ Mutator.out ∧ p = μ.run osd
  throws _ := True
  reads _ := True

omit hE in
theorem stayInUsage_acts : Acts stayInUsage where
  fits := ⟨fun _ ho => ho, fun _ _ _ _ => .inr trivial, fun _ _ => trivial⟩
  kill osd := ⟨.kill, osd, by decide, rfl⟩
  revive osd := ⟨.revive false, osd, by decide, rfl⟩
  in_ osd := ⟨.in_, osd, by decide, rfl⟩

theorem spare_of_uses {α : Type} {p : M α} (hp : Uses stayInUsage p) (hw : Spare S m k w) :
    wp E (fun _ t _ => MinIn m t) p (settles (Spare S m k) (Spare S m 0) fun _ => True) w := by
  refine Uses.wp (fun _ h => h.weaken (Nat.zero_le k)) (fun _ _ => trivial) ?_ ?_ hp w hw
  · exact fun o w _ hw => ⟨hw.minIn, fun a t x hstep => hw.push (hE _ _ _ _ _ _ hstep)⟩
  · rintro _ w ⟨μ, osd, hμ, rfl⟩ hw
    exact spare_run hE μ hμ osd hw

/-! ### The two places where an OSD is marked out -/

theorem spare_outOsd (osd : Option Osd) (hw : Spare S m (k + 1) w) :
    wp E (fun _ t _ => MinIn m t) (outOsd osd)
      (settles (Spare S m k) (Spare S m 0) fun _ => True) w := by
  have hfits := stayInUsage_acts.fits
  refine wp_bind_settles (spare_of_uses hE (uses_given hfits osd .in_) hw) fun osd w hw => ?_
  exact wp_bind_settles (spare_of_uses hE (uses_log hfits) hw) fun _ w hw => spare_out hE osd hw

theorem spare_killOsd (osd : Option Osd) (markDown : Bool) (hw : Spare S m (k + 1) w) :
    wp E (fun _ t _ => MinIn m t) (killOsd osd markDown true)
      (settles (Spare S m k) (Spare S m 0) fun _ => True) w := by
  have hfits := stayInUsage_acts.fits
  refine wp_bind_settles (spare_of_uses hE (uses_given hfits osd .live) hw) fun osd w hw => ?_
  refine wp_bind_settles (spare_of_uses hE (uses_log hfits) hw) fun _ w hw => ?_
  refine wp_bind_settles (spare_run hE .kill (by decide) osd hw) fun _ w hw => ?_
  refine wp_bind_settles (spare_of_uses hE (uses_when (uses_manager hfits (.markDownOsd osd) rfl)) hw)
    fun _ w hw => ?_
  refine wp_bind_settles (I := Spare S m k) ?_ fun _ w hw => spare_of_uses hE
    ((uses_attr hfits _ _ rfl).bind fun _ => uses_when (uses_testObjectstoreTool hfits osd)) hw
  refine wp_bind_settles (spare_of_uses hE (uses_osds hfits .in_) hw) fun inOsds w hw => ?_
  by_cases hosd : osd ∈ inOsds
  · rw [when, if_pos hosd]
    exact spare_outOsd hE (some osd) hw
  · rw [when, if_neg hosd]
    exact hw.weaken (Nat.le_succ k)

theorem spare_testMapDiscontinuity (fuel : Nat) (hw : Spare S m 0 w) :
    wp E (fun _ t _ => MinIn m t) (testMapDiscontinuity fuel)
      (settles (Spare S m 0) (Spare S m 0) fun _ => True) w := by
  have hacts := stayInUsage_acts
  have hfits := hacts.fits
  refine wp_bind_settles (I := Spare S m 1) ?_ fun _ w hw => ?_
  · refine wp_whileDo (Spare S m 0) (fun w hw => ?_) (fun w hw => hw) fuel w hw
    rw [wp_bind, wp_osds hw.intact.started, chain_ret, wp_bind,
      wp_attr (hw.intact.started _ rfl rfl), chain_ret, wp_ret, chain_ret]
    by_cases hfew : ((w.st.osds .in_).length : Int) < w.st.minin + 1
    · rw [if_pos (decide_eq_true hfew)]
      exact wp_mono (fun r _ h => by cases r <;> exact h)
        (spare_of_uses hE (uses_inOsd hfits hacts.revive hacts.in_ none) hw)
    · rw [if_neg (by simpa using hfew)]
      refine ⟨hw.intact, hw.minin, ?_⟩
      have hminin := hw.minin
      push_cast
      omega
  · refine wp_bind_settles (spare_of_uses hE (uses_log hfits) hw) fun _ w hw => ?_
    refine wp_bind_settles (spare_of_uses hE (uses_attr hfits _ _ rfl) hw) fun config w hw => ?_
    refine wp_bind_settles (spare_of_uses hE (uses_manager hfits (.waitForAllUp config.timeout) rfl) hw)
      fun _ w hw => ?_
    refine wp_bind_settles (spare_of_uses hE (uses_sleep hfits _) hw) fun _ w hw => ?_
    refine wp_bind_settles (spare_of_uses hE (uses_manager hfits (.waitForClean config.timeout) rfl) hw)
      fun _ w hw => ?_
    refine wp_bind_settles (spare_of_uses hE (uses_sleep hfits _) hw) fun _ w hw => ?_
    refine wp_bind_settles (spare_of_uses hE (uses_log hfits) hw) fun _ w hw => ?_
    refine wp_bind_settles (spare_killOsd hE none true hw) fun _ w hw => ?_
    exact spare_of_uses hE ((uses_log hfits).bind fun _ => (uses_attr hfits _ _ rfl).bind fun config =>
      (uses_manager hfits (.waitForClean config.timeout) rfl).bind fun _ => (uses_log hfits).bind fun _ =>
      (uses_sleep hfits _).bind fun _ => uses_reviveOsd hfits hacts.revive none) hw

theorem spare_chosen (fuel : Nat) (hw : Spare S m 0 w) :
    wp E (fun _ t _ => MinIn m t) (chooseAction >>= runChosen fuel)
      (settles (Spare S m 0) (Spare S m 0) fun _ => True) w := by
  rw [wp_bind, wp_chooseAction hw.intact.started]
  refine ⟨hw.minIn, fun u t x hstep => ?_⟩
  have ho := hE _ _ _ _ _ _ hstep
  have hpush := hw.push (o := .uniform 0 (total (actions w.st))) (a := u) (x := x) ho
  rw [chain_ret]
  by_cases hout : pick (actions w.st) u.val = some .outOsd
  · rw [hout]
    have hlt : w.st.minin < (w.st.osds .in_).length := guard_of_pick hout
    refine spare_outOsd hE none ⟨hpush.intact, hpush.minin, ?_⟩
    have hminin := hw.minin
    rw [World.push_st, ho.osds]
    push_cast
    omega
  · exact spare_of_uses hE (uses_runChosen stayInUsage_acts fuel _ fun h => absurd h hout) hpush

omit hE in
/-- The parts of the loop, with the two that mark OSDs out taken whole. -/
def minInUsage (fuel : Nat) : Usage taskSig Thrasher PyError where
  ops o := o.quiet = true
  acts p := (∃ μ osd, μ ≠ Mutator.out ∧ p = μ.run osd) ∨ (∃ up, p = addScrubber up) ∨
    p = testMapDiscontinuity fuel ∨ p = (chooseAction >>= runChosen fuel)
  throws _ := True
  reads _ := True

omit hE in
theorem minInUsage_acts (fuel : Nat) : Acts (minInUsage fuel) where
  fits := ⟨fun _ ho => ho, fun _ _ _ _ => .inr trivial, fun _ _ => trivial⟩
  kill osd := .inl ⟨.kill, osd, by decide, rfl⟩
  revive osd := .inl ⟨.revive false, osd, by decide, rfl⟩
  in_ osd := .inl ⟨.in_, osd, by decide, rfl⟩

omit hE in
theorem minInUsage_rounds (fuel : Nat) (c : ThrashSettings) : Rounds (minInUsage fuel) fuel c where
  acts := minInUsage_acts fuel
  scrub _ up := .inr (.inl ⟨up, rfl⟩)
  discontinuity := .step (.inr (.inr (.inl rfl)))
  chosen := .step (.inr (.inr (.inr rfl)))

theorem spare_doThrash (fuel n : Nat) (hw : Spare S m 0 w) :
    wp E (fun _ t _ => MinIn m t) (doThrash fuel n)
      (settles (Spare S m 0) (Spare S m 0) fun _ => True) w := by
  refine wp_logExc (fun _ _ h => h.2.intact.started) ?_
  refine Uses.wp (fun _ h => h) (fun _ _ => trivial) ?_ ?_
    (uses_doThrash (minInUsage_acts fuel) (fun _ _ => minInUsage_rounds fuel _) n) w hw
  · exact fun o w _ hw => ⟨hw.minIn, fun a t x hstep => hw.push (hE _ _ _ _ _ _ hstep)⟩
  · rintro _ w (⟨μ, osd, hμ, rfl⟩ | ⟨up, rfl⟩ | rfl | rfl) hw
    · exact spare_run hE μ hμ osd hw
    · exact spare_addScrubber hE up hw
    · exact spare_testMapDiscontinuity hE fuel hw
    · exact spare_chosen hE fuel hw

omit hE in
/-- **`min_in` is respected.** From at least `min_in` OSDs in, `do_thrash` has so many in at every
operation and where it ends. -/
theorem min_in_respected (S : Finset Osd) (t : Thrasher) (hstarted : Started t)
    (hbooked : Booked S t) (hminin : t.minin ≤ t.inOsds.length) (fuel n : Nat) :
    ∀ r w, Exec anyEnv (doThrash fuel n) ⟨t, (), []⟩ r w →
      t.minin ≤ w.st.inOsds.length ∧ ∀ e ∈ w.log, t.minin ≤ e.st.inOsds.length := by
  intro r w hrun
  have hstart : Spare S t.minin 0 (⟨t, (), []⟩ : World taskSig Thrasher Unit) :=
    ⟨⟨hstarted, hbooked⟩, rfl, (Int.add_zero t.minin).symm ▸ hminin⟩
  have hwp := spare_doThrash (E := anyEnv) (fun _ _ _ _ _ _ h => h) fuel n hstart
  refine ⟨?_, wp_events hwp hrun rfl⟩
  have hpost := wp_post hwp hrun
  cases r with
  | ret | cut => exact hpost.minIn
  | exn e => exact hpost.2.minIn

omit hE in
theorem min_in_respected_fourOsds :
    let w := (runWith (S := taskSig) okRun (doThrash 3 2) ⟨fourOsds {}, (), []⟩).2
    (3 : Int) ≤ w.st.inOsds.length ∧ ∀ e ∈ w.log, (3 : Int) ≤ e.st.inOsds.length :=
  min_in_respected _ (fourOsds {}) (ready_started _ _ _ _ _ _) (fourOsds_booked _) (by decide) 3 2 _ _
    (exec_runWith (fun _ t _ => .refl t) _ _)

end ZbkcTasks
