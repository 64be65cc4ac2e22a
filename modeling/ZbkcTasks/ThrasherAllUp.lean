import ZbkcTasks.ThrasherSucceed

/-! `all_up` and the loop at the start of `test_map_discontinuity` end when every command succeeds: each
round shortens the list of dead OSDs or that of OSDs out. -/

namespace ZbkcTasks

open List Prog

variable {S : Finset Osd} {t s s' : Thrasher} {w : W Unit} {k fuel : Nat}

def Returns (P : Thrasher → Prop) : Outcome PyError Unit → World taskSig Thrasher Unit → Prop :=
  gives (fun _ w => P w.st) fun _ => False

structure Sane (S : Finset Osd) (t : Thrasher) : Prop where
  started : Started t
  booked : Booked S t

variable {osd : Osd}

namespace Sane

theorem others (h : Sane S t) (ho : Others t s) : Sane S s :=
  ⟨ho.started h.started, h.booked.others ho⟩

theorem moved (h : Sane S t) {src dst : OsdList} (hop : Opposite src dst) (hosd : osd ∈ t.osds src) :
    Sane S (t.moved src dst osd) :=
  ⟨h.started.moved src dst osd, h.booked.moved hop hosd⟩

theorem all_in (h : Sane S t) (hout : t.osds .out = []) : t.inOsds.toFinset = S := by
  have hunion := h.booked.inOut.eq_union
  rw [hout, toFinset_nil, Finset.union_empty] at hunion
  exact hunion.symm

theorem all_live (h : Sane S t) (hdead : t.osds .dead = []) : t.liveOsds.toFinset = S := by
  have hunion := h.booked.liveDead.eq_union
  rw [hdead, toFinset_nil, Finset.union_empty] at hunion
  exact hunion.symm

end Sane

theorem wp_nonempty {l : OsdList} {Q : Outcome PyError Bool → W Unit → Prop}
    (hw : Started w.st) :
    wp allSucceed anything (do let xs ← osds l; .ret (decide (0 < xs.length))) Q w ↔
      Q (.ret (decide (0 < (w.st.osds l).length))) w := by
  rw [wp_bind, wp_osds hw, chain_ret, wp_ret]

/-- The loop that revives: `k` OSDs are dead, and those out are as they were. -/
structure Reviving (S : Finset Osd) (t : Thrasher) (k : Nat) (s : Thrasher) : Prop where
  sane : Sane S s
  out : s.osds .out = t.osds .out
  dead : (s.osds .dead).length = k

theorem Reviving.revived (h : Reviving S t k s) (hosd : osd ∈ s.osds .dead)
    (ho : Others (s.moved .dead .live osd) s') : ∃ j < k, Reviving S t j s' := by
  have hop : Opposite .dead .live := trivial
  have hlength := s.length_moved .dead .live (by decide) hosd .dead
  simp only [reduceCtorEq, if_true, if_false] at hlength
  have hk := h.dead
  refine ⟨((s.moved .dead .live osd).osds .dead).length, by omega, (h.sane.moved hop hosd).others ho,
    ?_, ?_⟩
  · rw [ho.osds, Thrasher.osds_moved]
    exact h.out
  · rw [ho.osds]

theorem returns_reviveAll (hfuel : k < fuel) (hw : Reviving S t k w.st) :
    wp allSucceed anything (whileDo (do let xs ← osds .dead; .ret (decide (0 < xs.length)))
      (do log; reviveOsd none false) fuel) (Returns (Reviving S t 0)) w := by
  refine wp_whileDo_measure (fun k w => Reviving S t k w.st) (fun k w hw => ?_) fuel k w hfuel hw
  have hstarted := hw.sane.started
  rw [wp_nonempty hstarted]
  by_cases hpos : 0 < (w.st.osds .dead).length
  · rw [decide_eq_true hpos]
    change wp allSucceed anything (log >>= fun _ => reviveOsd none false) _ w
    rw [wp_bind, wp_log hstarted, chain_ret]
    refine wp_mono ?_ (ends_reviveOsd hstarted)
    rintro (a | e | _) w' h
    · obtain ⟨osd, hosd, ho⟩ := h
      exact hw.revived hosd ho
    · rw [h.1] at hpos
      exact absurd hpos (lt_irrefl 0)
    · exact h
  · rw [decide_eq_false hpos]
    exact ⟨hw.sane, hw.out, by omega⟩

/-- The loop that marks in: no OSD is dead, and `k` are out. -/
structure Inning (S : Finset Osd) (k : Nat) (s : Thrasher) : Prop where
  sane : Sane S s
  dead : s.osds .dead = []
  out : (s.osds .out).length = k

theorem Inning.marked (h : Inning S k s) (hosd : osd ∈ s.osds .out) (ho : Others (s.broughtIn osd) s') :
    ∃ j < k, Inning S j s' := by
  have hop : Opposite .out .in_ := trivial
  have hlive : osd ∉ s.osds .dead := by
    rw [h.dead]
    exact not_mem_nil
  rw [Thrasher.broughtIn, if_neg hlive] at ho
  have hlength := s.length_moved .out .in_ (by decide) hosd .out
  simp only [reduceCtorEq, if_true, if_false] at hlength
  have hk := h.out
  refine ⟨((s.moved .out .in_ osd).osds .out).length, by omega, (h.sane.moved hop hosd).others ho,
    ?_, ?_⟩
  · rw [ho.osds, Thrasher.osds_moved]
    exact h.dead
  · rw [ho.osds]

theorem returns_inAll (hfuel : k < fuel) (hw : Inning S k w.st) :
    wp allSucceed anything (whileDo (do let xs ← osds .out; .ret (decide (0 < xs.length)))
      (do log; inOsd none) fuel) (Returns (Inning S 0)) w := by
  refine wp_whileDo_measure (fun k w => Inning S k w.st) (fun k w hw => ?_) fuel k w hfuel hw
  have hstarted := hw.sane.started
  rw [wp_nonempty hstarted]
  by_cases hpos : 0 < (w.st.osds .out).length
  · rw [decide_eq_true hpos]
    change wp allSucceed anything (log >>= fun _ => inOsd none) _ w
    rw [wp_bind, wp_log hstarted, chain_ret]
    refine wp_mono ?_ (ends_inOsd hstarted)
    rintro (a | e | _) w' h
    · obtain ⟨osd, hosd, ho⟩ := h
      exact hw.marked hosd ho
    · rw [h.1] at hpos
      exact absurd hpos (lt_irrefl 0)
    · exact h
  · rw [decide_eq_false hpos]
    exact ⟨hw.sane, hw.dead, by omega⟩

structure AllUp (S : Finset Osd) (t : Thrasher) : Prop where
  sane : Sane S t
  dead : t.osds .dead = []
  out : t.osds .out = []

theorem returns_allUp {fuel : Nat} (hw : Sane S w.st) (hdead : (w.st.osds .dead).length < fuel)
    (hout : (w.st.osds .out).length < fuel) :
    wp allSucceed anything (allUp fuel) (Returns (AllUp S)) w := by
  apply wp_seq (returns_reviveAll hdead ⟨hw, rfl, rfl⟩)
  intro _ w1 h1
  have hinning : Inning S (w.st.osds .out).length w1.st :=
    ⟨h1.sane, length_eq_zero_iff.mp h1.dead, by rw [h1.out]⟩
  refine wp_result ?_ (returns_inAll hout hinning)
  intro _ w2 h2
  exact ⟨h2.sane, h2.dead, length_eq_zero_iff.mp h2.out⟩

/-! ### The loop of `test_map_discontinuity` -/

/-- Together, `k` OSDs are dead or out, an OSD that is both counting twice. -/
structure Refilling (S : Finset Osd) (m : Int) (k : Nat) (s : Thrasher) : Prop where
  sane : Sane S s
  minin : s.minin = m
  left : (s.osds .dead).length + (s.osds .out).length = k

theorem Refilling.brought {m : Int} (h : Refilling S m k s) (hosd : osd ∈ s.osds .out)
    (ho : Others (s.broughtIn osd) s') : ∃ j < k, Refilling S m j s' := by
  have hleft := h.left
  by_cases hdead : osd ∈ s.osds .dead
  · have hop : Opposite .dead .live := trivial
    rw [Thrasher.broughtIn, if_pos hdead] at ho
    have hlength := s.length_moved .dead .live (by decide) hdead
    have hshorter := hlength .dead
    have hsame := hlength .out
    simp only [reduceCtorEq, if_true, if_false] at hshorter hsame
    refine ⟨(s'.osds .dead).length + (s'.osds .out).length, ?_, (h.sane.moved hop hdead).others ho,
      ho.minin.trans ((s.minin_moved _ _ _).trans h.minin), rfl⟩
    rw [ho.osds, ho.osds]
    omega
  · have hop : Opposite .out .in_ := trivial
    rw [Thrasher.broughtIn, if_neg hdead] at ho
    have hlength := s.length_moved .out .in_ (by decide) hosd
    have hshorter := hlength .out
    have hsame := hlength .dead
    simp only [reduceCtorEq, if_true, if_false] at hshorter hsame
    refine ⟨(s'.osds .dead).length + (s'.osds .out).length, ?_, (h.sane.moved hop hosd).others ho,
      ho.minin.trans ((s.minin_moved _ _ _).trans h.minin), rfl⟩
    rw [ho.osds, ho.osds]
    omega

theorem returns_fillIn {m : Int} (hcard : m < S.card) (hfuel : k < fuel) (hw : Refilling S m k w.st) :
    wp allSucceed anything (fillIn fuel) (Returns fun s => m + 1 ≤ (s.osds .in_).length) w := by
  refine wp_whileDo_measure (fun k w => Refilling S m k w.st) (fun k w hw => ?_) fuel k w hfuel hw
  have hstarted := hw.sane.started
  rw [wp_bind, wp_osds hstarted, chain_ret, wp_bind, wp_attr (hstarted _ rfl rfl), chain_ret, wp_ret,
    hw.minin]
  by_cases hfew : ((w.st.osds .in_).length : Int) < m + 1
  · rw [decide_eq_true hfew]
    refine wp_mono ?_ (ends_inOsd hstarted)
    rintro (a | e | _) w' h
    · obtain ⟨osd, hosd, ho⟩ := h
      exact hw.brought hosd ho
    · -- fewer than all are in, so one is out that could be drawn
      have hsplit := hw.sane.booked.inOut.card
      rw [h.1, length_nil] at hsplit
      omega
    · exact h
  · rw [decide_eq_false hfew]
    change m + 1 ≤ ((w.st.osds .in_).length : Int)
    omega

/-- **Termination of `all_up` and of the re-in loop.** Both return after at most as many rounds as OSDs are
dead and out: `all_up` with no OSD dead or out, the loop with more than `min_in` in, if there are so many.
-/
theorem all_up_and_refill_end (S : Finset Osd) (t : Thrasher) (hstarted : Started t)
    (hbooked : Booked S t) : (∀ fuel, t.deadOsds.length < fuel → t.outOsds.length < fuel →
      ∀ r w, Exec allSucceed (allUp fuel) ⟨t, (), []⟩ r w → r = .ret () ∧
        w.st.deadOsds = [] ∧ w.st.outOsds = [] ∧ w.st.inOsds.toFinset = S ∧
        w.st.liveOsds.toFinset = S) ∧
    (t.minin < S.card → ∀ fuel, t.deadOsds.length + t.outOsds.length < fuel →
      ∀ r w, Exec allSucceed (fillIn fuel) ⟨t, (), []⟩ r w →
        r = .ret () ∧ t.minin + 1 ≤ w.st.inOsds.length) := by
  have hsane : Sane S t := ⟨hstarted, hbooked⟩
  constructor
  · intro fuel hdead hout r w hrun
    have hpost := wp_post (returns_allUp (w := ⟨t, (), []⟩) hsane hdead hout) hrun
    cases r with
    | ret a => exact ⟨rfl, hpost.dead, hpost.out, hpost.sane.all_in hpost.out,
        hpost.sane.all_live hpost.dead⟩
    | exn | cut => exact hpost.elim
  · intro hcard fuel hfuel r w hrun
    have hstart : Refilling S t.minin (t.deadOsds.length + t.outOsds.length) t := ⟨hsane, rfl, rfl⟩
    have hpost := wp_post (returns_fillIn (w := ⟨t, (), []⟩) hcard hfuel hstart) hrun
    cases r with
    | ret a => exact ⟨rfl, hpost⟩
    | exn | cut => exact hpost.elim

theorem all_up_and_refill_end_fourOsds :
    (∃ w, Exec allSucceed (allUp 2) ⟨fourOsds {}, (), []⟩ (.ret ()) w ∧ w.st.deadOsds = [] ∧
      w.st.outOsds = [] ∧ w.st.inOsds.toFinset = [0, 1, 3, 2].toFinset ∧
      w.st.liveOsds.toFinset = [0, 1, 3, 2].toFinset) ∧
    ∃ w, Exec allSucceed (fillIn 3) ⟨fourOsds {}, (), []⟩ (.ret ()) w ∧
      (3 : Int) + 1 ≤ w.st.inOsds.length := by
  obtain ⟨hall, hrefill⟩ := all_up_and_refill_end _ (fourOsds {}) (ready_started _ _ _ _ _ _)
    (fourOsds_booked _)
  constructor
  · obtain ⟨r, w, hrun⟩ := exists_exec allSucceed_total (allUp 2) ⟨fourOsds {}, (), []⟩
    obtain ⟨rfl, hw⟩ := hall 2 (by decide) (by decide) r w hrun
    exact ⟨w, hrun, hw⟩
  · obtain ⟨r, w, hrun⟩ := exists_exec allSucceed_total (fillIn 3) ⟨fourOsds {}, (), []⟩
    obtain ⟨rfl, hw⟩ := hrefill (by decide) 3 (by decide) r w hrun
    exact ⟨w, hrun, hw⟩

end ZbkcTasks
