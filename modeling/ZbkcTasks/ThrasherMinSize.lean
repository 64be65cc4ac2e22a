import ZbkcTasks.ThrasherAllUp

/-! `test_pool_min_size` logs with two arguments, and neither of the functions that `__init__` installs as
`self.log` takes two; the rest of it is never reached. -/

namespace ZbkcTasks

open Prog

variable {S : Finset Osd} {w : W Unit}

section Log

variable {η : Type} {E : Env taskSig Thrasher η} {A : Op → Thrasher → η → Prop}
  {w : W η} {Q : Outcome PyError Unit → W η → Prop}

theorem wp_call_one (f : LogFunction) (hw : Started w.st) : wp E A (f.call 1) Q w ↔ wp E A log Q w := by
  rw [wp_log hw, LogFunction.call, wp_bind, wp_attr (hw _ rfl rfl), chain_ret, if_pos rfl]
  cases f with
  | loggerInfo => exact wp_attr (hw _ rfl rfl)
  | printing => exact Iff.rfl

theorem wp_call_two (f : LogFunction) (hw : Started w.st) :
    wp E A (f.call 2) Q w ↔ Q (.exn .typeError) w := by
  rw [LogFunction.call, wp_bind, wp_attr (hw _ rfl rfl), chain_ret, if_neg (by decide)]
  exact Iff.rfl

end Log

/-- The OSDs of `D` are dead and out, the others live and in. -/
structure Down (S D : Finset Osd) (t : Thrasher) : Prop where
  init : Initialised t
  booked : Booked S t
  dead : ∀ osd, osd ∈ t.osds .dead ↔ osd ∈ D
  out : ∀ osd, osd ∈ t.osds .out ↔ osd ∈ D

/-- It returns with one OSD dead and out, after a moment at which all were dead and out. -/
def RunsToEnd (S : Finset Osd) (t : Thrasher) (f : LogFunction) : Prop :=
  ∃ bound, ∀ fuel, bound < fuel → ∀ r w,
    Exec allSucceed (testPoolMinSizeBy f fuel) ⟨t, (), []⟩ r w →
    r = .ret () ∧ (∃ theOne ∈ S, Down S {theOne} w.st) ∧ ∃ e ∈ w.log, Down S S e.st

theorem raises_testPoolMinSize (hS : S.Nonempty) {fuel : Nat} (f : LogFunction) (hw : Sane S w.st)
    (hdead : (w.st.osds .dead).length < fuel) (hout : (w.st.osds .out).length < fuel) :
    wp allSucceed anything (testPoolMinSizeBy f fuel)
      (fun r w' => r = .exn .typeError ∧ AllUp S w'.st) w := by
  rw [testPoolMinSizeBy, wp_bind, wp_call_one f hw.started, wp_log hw.started, chain_ret, wp_bind]
  refine wp_mono ?_ (returns_allUp hw hdead hout)
  rintro (a | e | _) w1 h1
  · have hstarted := h1.sane.started
    have hothers : ∀ {s}, Others w1.st s → AllUp S s := fun ho =>
      ⟨h1.sane.others ho, by rw [ho.osds]; exact h1.dead, by rw [ho.osds]; exact h1.out⟩
    rw [chain_ret, wp_bind, wp_attr (hstarted _ rfl rfl), chain_ret, wp_bind]
    refine ok_manager hstarted fun _ w2 _ ho2 => ?_
    rw [chain_ret, wp_bind, wp_bind, wp_osds (ho2.started hstarted), chain_ret]
    refine ok_choice (fun hempty => ?_) fun theOne _ w3 ho3 => ?_
    · -- `S` is not empty, and all of it is in
      have hin := (hothers ho2).sane.all_in (hothers ho2).out
      change w2.st.inOsds = [] at hempty
      rw [hempty, List.toFinset_nil] at hin
      exact absurd hin.symm hS.ne_empty
    · have ho := ho2.trans ho3
      rw [chain_ret, wp_bind, wp_call_two f (ho.started hstarted)]
      exact ⟨rfl, hothers ho⟩
  · exact h1.elim
  · exact h1.elim

/-- **`test_pool_min_size` never gets to its end**: it raises a `TypeError` before it has killed any OSD.
-/
theorem test_pool_min_size_raises (S : Finset Osd) (hS : S.Nonempty) (t : Thrasher)
    (hstarted : Started t) (hbooked : Booked S t) (f : LogFunction) : ¬ RunsToEnd S t f ∧
    ∀ fuel, t.deadOsds.length < fuel → t.outOsds.length < fuel → ∀ r w,
      Exec allSucceed (testPoolMinSizeBy f fuel) ⟨t, (), []⟩ r w →
      r = .exn .typeError ∧ w.st.deadOsds = [] ∧ w.st.outOsds = [] := by
  have hraises : ∀ fuel, t.deadOsds.length < fuel → t.outOsds.length < fuel → ∀ r w,
      Exec allSucceed (testPoolMinSizeBy f fuel) ⟨t, (), []⟩ r w →
      r = .exn .typeError ∧ w.st.deadOsds = [] ∧ w.st.outOsds = [] := by
    intro fuel hdead hout r w hrun
    have hsane : Sane S t := ⟨hstarted, hbooked⟩
    obtain ⟨hr, hup⟩ :=
      wp_post (raises_testPoolMinSize hS f (w := ⟨t, (), []⟩) hsane hdead hout) hrun
    exact ⟨hr, hup.dead, hup.out⟩
  refine ⟨fun ⟨bound, hend⟩ => ?_, hraises⟩
  let fuel := bound + t.deadOsds.length + t.outOsds.length + 1
  obtain ⟨r, w, hrun⟩ := exists_exec allSucceed_total (testPoolMinSizeBy f fuel) ⟨t, (), []⟩
  obtain ⟨hret, -⟩ := hend fuel (by omega) r w hrun
  obtain ⟨hexn, -⟩ := hraises fuel (by omega) (by omega) r w hrun
  exact absurd (hret.symm.trans hexn) (by simp)

theorem test_pool_min_size_raises_fourOsds :
    ¬ RunsToEnd [0, 1, 3, 2].toFinset (fourOsds {}) .loggerInfo ∧ ∀ fuel, 1 < fuel → 1 < fuel → ∀ r w,
      Exec allSucceed (testPoolMinSizeBy .loggerInfo fuel) ⟨fourOsds {}, (), []⟩ r w →
      r = .exn .typeError ∧ w.st.deadOsds = [] ∧ w.st.outOsds = [] :=
  test_pool_min_size_raises _ (by decide) (fourOsds {}) (ready_started _ _ _ _ _ _)
    (fourOsds_booked _) .loggerInfo

theorem one_osd_raises :
    (∃ w, Exec allSucceed (testPoolMinSizeBy .loggerInfo 1) ⟨.ready {} [0] [] [0] [] true, (), []⟩
      (.exn .typeError) w) ∧
    ∃ w, Exec allSucceed (testPoolMinSizeBy .printing 1) ⟨.ready {} [0] [] [0] [] true, (), []⟩
      (.exn .typeError) w := by
  exact ⟨⟨_, exec_runWith allSucceed_okRun (testPoolMinSizeBy .loggerInfo 1) _⟩,
    ⟨_, exec_runWith allSucceed_okRun (testPoolMinSizeBy .printing 1) _⟩⟩

end ZbkcTasks
