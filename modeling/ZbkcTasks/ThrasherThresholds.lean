import ZbkcTasks.ThrasherSucceed

/-! The thresholds `min_dead`, `min_out` and `min_live`. For every step of the loop, the condition is
given under which no run of it, with all commands succeeding, ends below one. -/

namespace ZbkcTasks

open List Prog

/-- The numbers of OSDs dead, out and live are not below their thresholds. -/
structure Within (c : ThrasherConfig) (t : Thrasher) : Prop where
  dead : c.minDead.getD 0 ≤ t.deadOsds.length
  out : c.minOut.getD 0 ≤ t.outOsds.length
  live : c.minLive.getD 2 ≤ t.liveOsds.length

/-- What the loop does between two tests: an action, or `test_map_discontinuity`. -/
inductive ThrashStep
  | action (a : Action)
  | mapDiscontinuity
  deriving DecidableEq

def ThrashStep.run (fuel : Nat) : ThrashStep → M Unit
  | .action a => a.run fuel
  | .mapDiscontinuity => testMapDiscontinuity fuel

/-- `choose_action` can return the action; `test_map_discontinuity` can always be run. -/
def ThrashStep.Offered (t : Thrasher) : ThrashStep → Prop
  | .action a => ∃ w, Exec allSucceed chooseAction ⟨t, (), []⟩ (.ret (some a)) w
  | .mapDiscontinuity => True

/-- No run of the step ends below a threshold, by returning or by raising. -/
def ThrashStep.Keeps (t : Thrasher) (step : ThrashStep) : Prop :=
  ∀ fuel r w, Exec allSucceed (step.run fuel) ⟨t, (), []⟩ r w → r ≠ .cut → Within t.config w.st

/-- How many OSDs `test_map_discontinuity` may leave out when it has to mark OSDs in. -/
def leftOut (t : Thrasher) : Int :=
  let need := t.minin + 1 - t.inOsds.length
  if need < t.outOsds.length then t.outOsds.length - need
  else if need = t.outOsds.length then 1
  else 0

def ThrashStep.Safe (t : Thrasher) : ThrashStep → Prop
  | .action .inOsd => (∃ osd ∈ t.outOsds, osd ∈ t.deadOsds) →
      t.config.minDead.getD 0 < t.deadOsds.length
  | .action _ => True
  | .mapDiscontinuity => t.inOsds.length < t.minin + 1 →
      t.config.minDead.getD 0 ≤ (t.deadOsds.filter (· ∉ t.outOsds)).length ∧
        t.config.minOut.getD 0 ≤ leftOut t

/-- The least length of each list; these thresholds do not bound the list of OSDs in. -/
def threshold (c : ThrasherConfig) : OsdList → Int
  | .in_ => 0
  | .out => c.minOut.getD 0
  | .live => c.minLive.getD 2
  | .dead => c.minDead.getD 0

namespace Within

variable {c : ThrasherConfig} {t t' : Thrasher} {osd : Osd}

theorem iff_forall : Within c t ↔ ∀ l, threshold c l ≤ (t.osds l).length := by
  refine ⟨fun h l => ?_, fun h => ⟨h .dead, h .out, h .live⟩⟩
  cases l with
  | in_ => exact Int.natCast_nonneg _
  | out => exact h.out
  | live => exact h.live
  | dead => exact h.dead

theorem of_length (h : Within c t) (hdead : (t.osds .dead).length ≤ (t'.osds .dead).length)
    (hout : (t.osds .out).length ≤ (t'.osds .out).length)
    (hlive : (t.osds .live).length ≤ (t'.osds .live).length) : Within c t' :=
  ⟨h.dead.trans (Int.ofNat_le.mpr hdead), h.out.trans (Int.ofNat_le.mpr hout),
    h.live.trans (Int.ofNat_le.mpr hlive)⟩

theorem others (h : Within c t) (ho : Others t t') : Within c t' := by
  rw [iff_forall] at h ⊢
  intro l
  rw [ho.osds]
  exact h l

theorem moved (h : Within c t) {src dst : OsdList} (hne : src ≠ dst) (hosd : osd ∈ t.osds src)
    (hsrc : threshold c src < (t.osds src).length) : Within c (t.moved src dst osd) := by
  rw [iff_forall] at h ⊢
  intro l
  have hbound := h l
  have hlength := t.length_moved src dst hne hosd l
  by_cases hl : l = src
  · subst hl
    rw [if_pos rfl, if_neg hne] at hlength
    omega
  · rw [if_neg hl] at hlength
    split at hlength <;> omega

end Within

/-! ### What the methods do when every command succeeds -/

def Leaves {α : Type} (R X : Thrasher → Prop) :
    Outcome PyError α → World taskSig Thrasher Unit → Prop
  | .ret _, w => R w.st
  | .exn _, w => X w.st
  | .cut, _ => True

section Methods

variable {w : W Unit} {t : Thrasher} {R R' X X' : Thrasher → Prop} {α β : Type}
  {p : M α}

theorem wp_leaves_mono (hp : wp allSucceed anything p (Leaves R X) w) (hR : ∀ t, R t → R' t)
    (hX : ∀ t, X t → X' t) : wp allSucceed anything p (Leaves R' X') w := by
  refine wp_mono ?_ hp
  rintro (a | e | _) w h
  · exact hR _ h
  · exact hX _ h
  · trivial

theorem wp_bind_leaves {f : α → M β} (hp : wp allSucceed anything p (Leaves R X) w) (hX : ∀ t, X t → X' t)
    (hf : ∀ a w', R w'.st → wp allSucceed anything (f a) (Leaves R' X') w') :
    wp allSucceed anything (p >>= f) (Leaves R' X') w := by
  rw [wp_bind]
  refine wp_mono ?_ hp
  rintro (a | e | _) w h
  · exact hf a w h
  · exact hX _ h
  · trivial

theorem wp_leaves_of_ends (hp : wp allSucceed anything p (Ends R X) w) (hR : ∀ t, R t → R' t)
    (hX : ∀ t, X t → X' t) : wp allSucceed anything p (Leaves R' X') w := by
  refine wp_mono ?_ hp
  rintro (a | e | _) w h
  · exact hR _ h
  · exact hX _ h
  · exact h.elim

theorem wp_bind_calm {f : α → M β} (hp : wp allSucceed anything p (Calm t) w)
    (hf : ∀ a w', Others t w'.st → wp allSucceed anything (f a) (Leaves R X) w') :
    wp allSucceed anything (p >>= f) (Leaves R X) w := by
  rw [wp_bind]
  refine wp_mono ?_ hp
  rintro (a | e | _) w h
  · exact hf a w h
  · exact h.1.elim
  · exact h.elim

theorem Thrasher.mem_dead_killed (t : Thrasher) (osd : Osd) (markOut : Bool) :
    osd ∈ (t.killed osd markOut).osds .dead := by
  unfold Thrasher.killed
  split <;> simp [Thrasher.osds_moved]

/-- What it leaves: as many OSDs dead and live, and one more out, unless the one it killed was not in. -/
def Skipped (s t : Thrasher) : Prop :=
  (t.osds .dead).length = (s.osds .dead).length ∧ (t.osds .live).length = (s.osds .live).length ∧
    ((t.osds .out).length = (s.osds .out).length + 1 ∨
      (t.osds .out).length = (s.osds .out).length ∧ ∃ osd ∈ s.osds .live, osd ∉ s.osds .in_)

theorem skipped_killed {s t : Thrasher} {osd osd' : Osd} (hosd : osd ∈ s.osds .live)
    (hosd' : osd' ∈ (s.killed osd true).osds .dead)
    (ht : Others ((s.killed osd true).moved .dead .live osd') t) : Skipped s t := by
  unfold Skipped
  rw [ht.osds, ht.osds, ht.osds]
  have hrevived := (s.killed osd true).length_moved .dead .live (by decide) hosd'
  have hkilled := s.length_moved .live .dead (by decide) hosd
  have hdead := hrevived .dead
  have hlive := hrevived .live
  have hout := hrevived .out
  have hdead' := hkilled .dead
  have hlive' := hkilled .live
  have hout' := hkilled .out
  simp only [reduceCtorEq, if_true, if_false, Nat.add_zero] at hdead hlive hout hdead' hlive' hout'
  by_cases hin : osd ∈ s.osds .in_
  · rw [Thrasher.killed, if_pos ⟨rfl, hin⟩] at hdead hlive hout ⊢
    have hin' : osd ∈ (s.moved .live .dead osd).osds .in_ := by
      rw [Thrasher.osds_moved]
      exact hin
    have hmarked := (s.moved .live .dead osd).length_moved .in_ .out (by decide) hin'
    have hdead'' := hmarked .dead
    have hlive'' := hmarked .live
    have hout'' := hmarked .out
    simp only [reduceCtorEq, if_true, if_false, Nat.add_zero] at hdead'' hlive'' hout''
    exact ⟨by omega, by omega, .inl (by omega)⟩
  · rw [Thrasher.killed, if_neg fun h => hin h.2] at hdead hlive hout ⊢
    exact ⟨by omega, by omega, .inr ⟨by omega, osd, hosd, hin⟩⟩

theorem ok_skipMaps (hw : Initialised w.st) : wp allSucceed anything skipMaps (Leaves (Skipped w.st)
      fun t => w.st.osds .live = [] ∧ Others w.st t) w := by
  refine wp_bind_calm (calm_log hw.started (.refl _)) fun _ w1 h => ?_
  refine wp_bind_calm (calm_attr hw rfl h) fun config w1 h => ?_
  refine wp_bind_calm (calm_manager hw.started h) fun _ w1 h => ?_
  refine wp_bind_calm (calm_sleep h) fun _ w1 h => ?_
  refine wp_bind_calm (calm_manager hw.started h) fun _ w1 h => ?_
  refine wp_bind_calm (calm_sleep h) fun _ w1 h => ?_
  refine wp_bind_calm (calm_log hw.started h) fun _ w1 h => ?_
  have hkill := wp_leaves_of_ends (ends_killOsd true true (hw.others h)) (fun _ h' => h')
    fun t h' => show w.st.osds .live = [] ∧ Others w.st t from ⟨h.osds .live ▸ h'.1, h.trans h'.2⟩
  refine wp_bind_leaves hkill (fun _ h' => h') fun _ w2 hkill => ?_
  obtain ⟨osd, hosd, hkilled⟩ := hkill
  have hinit := (hw.others h).killed osd true
  refine wp_bind_calm (calm_log hinit.started hkilled) fun _ w2 h2 => ?_
  refine wp_bind_calm (calm_attr hinit rfl h2) fun config w2 h2 => ?_
  refine wp_bind_calm (calm_manager hinit.started h2) fun _ w2 h2 => ?_
  refine wp_bind_calm (calm_log hinit.started h2) fun _ w2 h2 => ?_
  refine wp_bind_calm (calm_sleep h2) fun _ w2 h2 => ?_
  refine wp_leaves_of_ends (ends_reviveOsd (hinit.others h2).started) ?_ ?_
  · rintro t ⟨osd', hosd', ht⟩
    have hskipped : Skipped w1.st t :=
      skipped_killed hosd (h2.osds .dead ▸ hosd') ((h2.moved _ _ _).trans ht)
    simpa only [Skipped, h.osds] using hskipped
  · rintro t ⟨hdead, -⟩
    have hmem := w1.st.mem_dead_killed osd true
    rw [← h2.osds] at hmem
    exact absurd hmem (hdead ▸ not_mem_nil)

end Methods

/-! ### The loop of `test_map_discontinuity` -/

/-- At the head of the loop that began in `t`, only OSDs that were out have been marked in or revived. -/
structure Filling (S : Finset Osd) (t s : Thrasher) : Prop where
  init : Initialised s
  booked : Booked S s
  minin : s.minin = t.minin
  out : ∀ osd ∈ s.osds .out, osd ∈ t.osds .out
  dead : ∀ osd ∈ s.osds .dead, osd ∈ t.osds .dead
  deadKept : ∀ osd ∈ t.osds .dead, osd ∉ t.osds .out → osd ∈ s.osds .dead
  markedLive : ∀ osd ∈ t.osds .out, osd ∉ s.osds .out → osd ∉ s.osds .dead
  few : (s.osds .in_).length ≤ (t.osds .in_).length ∨ ((s.osds .in_).length : Int) ≤ t.minin + 1

namespace Filling

variable {S : Finset Osd} {t s s' : Thrasher} {osd : Osd}

theorem start (ht : Initialised t) (hbooked : Booked S t) : Filling S t t where
  init := ht
  booked := hbooked
  minin := rfl
  out _ h := h
  dead _ h := h
  deadKept _ h _ := h
  markedLive _ h h' := absurd h h'
  few := .inl le_rfl

theorem others (h : Filling S t s) (ho : Others s s') : Filling S t s' where
  init := h.init.others ho
  booked := h.booked.others ho
  minin := ho.minin.trans h.minin
  out := by rw [ho.osds]; exact h.out
  dead := by rw [ho.osds]; exact h.dead
  deadKept := by rw [ho.osds]; exact h.deadKept
  markedLive := by rw [ho.osds, ho.osds]; exact h.markedLive
  few := by rw [ho.osds]; exact h.few

theorem revive (h : Filling S t s) (hosd : osd ∈ s.osds .out) (hdead : osd ∈ s.osds .dead) :
    Filling S t (s.moved .dead .live osd) := by
  have hosds := s.osds_moved .dead .live osd
  have hnodup := h.booked.nodup .dead
  have hopposite : Opposite .dead .live := trivial
  refine ⟨h.init.moved _ _ _, h.booked.moved hopposite hdead, ?_, ?_, ?_, ?_, ?_, ?_⟩
  · exact (s.minin_moved _ _ _).trans h.minin
  · rw [hosds]
    exact h.out
  · rw [hosds]
    exact fun osd' h' => h.dead osd' (mem_of_mem_erase h')
  · rw [hosds]
    intro osd' h' hout
    have hne : osd' ≠ osd := fun heq => hout (heq ▸ h.out osd hosd)
    exact (hnodup.mem_erase_iff).mpr ⟨hne, h.deadKept osd' h' hout⟩
  · rw [hosds, hosds]
    exact fun osd' h' hout hmem => h.markedLive osd' h' hout (mem_of_mem_erase hmem)
  · rw [hosds]
    exact h.few

theorem markIn (h : Filling S t s) (hosd : osd ∈ s.osds .out) (hlive : osd ∉ s.osds .dead)
    (hfew : ((s.osds .in_).length : Int) < t.minin + 1) : Filling S t (s.moved .out .in_ osd) := by
  have hosds := s.osds_moved .out .in_ osd
  have hnodup := h.booked.nodup .out
  have hopposite : Opposite .out .in_ := trivial
  refine ⟨h.init.moved _ _ _, h.booked.moved hopposite hosd, ?_, ?_, ?_, ?_, ?_, ?_⟩
  · exact (s.minin_moved _ _ _).trans h.minin
  · rw [hosds]
    exact fun osd' h' => h.out osd' (mem_of_mem_erase h')
  · rw [hosds]
    exact h.dead
  · rw [hosds]
    exact h.deadKept
  · rw [hosds, hosds]
    intro osd' h' hout hmem
    by_cases heq : osd' = osd
    · exact hlive (heq ▸ hmem)
    · exact h.markedLive osd' h' (fun h'' => hout ((hnodup.mem_erase_iff).mpr ⟨heq, h''⟩)) hmem
  · have hlength := s.length_moved .out .in_ (by decide) hosd .in_
    simp only [reduceCtorEq, if_true, if_false, Nat.add_zero] at hlength
    exact .inr (by omega)

theorem length_in_out (h : Filling S t s) (hbooked : Booked S t) :
    (s.osds .in_).length + (s.osds .out).length = t.inOsds.length + t.outOsds.length :=
  h.booked.inOut.card.trans hbooked.inOut.card.symm

theorem length_dead (h : Filling S t s) (hbooked : Booked S t) :
    (t.deadOsds.filter (· ∉ t.outOsds)).length ≤ (s.osds .dead).length := by
  refine (subperm_of_subset ((hbooked.nodup .dead).filter _) fun osd hosd => ?_).length_le
  rw [mem_filter, decide_eq_true_eq] at hosd
  exact h.deadKept osd hosd.1 hosd.2

theorem length_live (h : Filling S t s) (hbooked : Booked S t) :
    t.liveOsds.length ≤ (s.osds .live).length := by
  have hdead : (s.osds .dead).length ≤ t.deadOsds.length :=
    (subperm_of_subset (h.booked.nodup .dead) h.dead).length_le
  have hcard : t.liveOsds.length + t.deadOsds.length = S.card := hbooked.liveDead.card
  have hcard' := h.booked.liveDead.card
  omega

end Filling

section Fill

variable {S : Finset Osd} {t : Thrasher} {w : W Unit} {s : Thrasher}

theorem ok_fillIn (fuel : Nat) (ht : Initialised t) (hbooked : Booked S t) (hw : w.st = t) :
    wp allSucceed anything (fillIn fuel)
      (Leaves (fun s => Filling S t s ∧ t.minin + 1 ≤ (s.osds .in_).length ∧
          (Others t s ∨ (t.inOsds.length : Int) < t.minin + 1))
        fun s => Filling S t s ∧ ((s.osds .in_).length : Int) < t.minin + 1 ∧ s.osds .out = []) w := by
  refine wp_whileDo (fun w => Filling S t w.st ∧ (Others t w.st ∨ (t.inOsds.length : Int) < t.minin + 1))
    (fun w hw => ?_) (fun _ _ => trivial) fuel w
    (by rw [hw]; exact ⟨.start ht hbooked, .inl (.refl t)⟩)
  obtain ⟨hw, hidle⟩ := hw
  rw [wp_bind, wp_osds hw.init.started, chain_ret, wp_bind, wp_attr (hw.init _ rfl), chain_ret, wp_ret,
    chain_ret, hw.minin]
  by_cases hfew : ((w.st.osds .in_).length : Int) < t.minin + 1
  · rw [if_pos (decide_eq_true hfew)]
    have hneed : (t.inOsds.length : Int) < t.minin + 1 := by
      rcases hidle with ho | hneed
      · rw [ho.osds] at hfew
        exact hfew
      · exact hneed
    refine wp_mono ?_ (ends_inOsd hw.init.started)
    rintro (a | e | _) w' h
    · obtain ⟨osd, hosd, h⟩ := h
      by_cases hdead : osd ∈ w.st.osds .dead
      · rw [Thrasher.broughtIn, if_pos hdead] at h
        exact ⟨(hw.revive hosd hdead).others h, .inr hneed⟩
      · rw [Thrasher.broughtIn, if_neg hdead] at h
        exact ⟨(hw.markIn hosd hdead hfew).others h, .inr hneed⟩
    · obtain ⟨hempty, ho⟩ := h
      exact ⟨hw.others ho, by rw [ho.osds]; exact hfew, by rw [ho.osds]; exact hempty⟩
    · exact h.elim
  · rw [if_neg (by simpa using hfew)]
    exact ⟨hw, by omega, hidle⟩

theorem Filling.within {s s' : Thrasher} (hs : Filling S t s) (hbooked : Booked S t)
    (hwithin : Within t.config t) (hsafe : ThrashStep.mapDiscontinuity.Safe t)
    (hneed : (t.inOsds.length : Int) < t.minin + 1) (hdead : (s.osds .dead).length = (s'.osds .dead).length)
    (hlive : (s.osds .live).length = (s'.osds .live).length)
    (hout : leftOut t ≤ (s'.osds .out).length) : Within t.config s' := by
  obtain ⟨hminDead, hminOut⟩ := hsafe hneed
  have hdead' := hs.length_dead hbooked
  have hlive' := hs.length_live hbooked
  refine ⟨?_, hminOut.trans hout, ?_⟩
  · change _ ≤ ((s'.osds .dead).length : Int)
    omega
  · have hbound := hwithin.live
    change _ ≤ ((s'.osds .live).length : Int)
    omega

theorem Filling.live_of_out_nil (hs : Filling S t s) (hbooked : Booked S t) (hout : s.osds .out = [])
    {osd : Osd} (hosd : osd ∈ t.osds .out) : osd ∈ s.osds .live := by
  have hnot : osd ∉ s.osds .dead := hs.markedLive osd hosd (by simp [hout])
  exact (hs.booked.liveDead.mem_left_iff (hbooked.inOut.mem_right hosd)).mpr hnot

theorem Filling.length_in_le (hs : Filling S t s) (hneed : (t.inOsds.length : Int) < t.minin + 1) :
    ((s.osds .in_).length : Int) ≤ t.minin + 1 := by
  rcases hs.few with hfew | hfew
  · have hfew : (s.osds .in_).length ≤ t.inOsds.length := hfew
    omega
  · exact hfew

theorem Filling.leftOut_le (hs : Filling S t s) (hbooked : Booked S t)
    (hneed : (t.inOsds.length : Int) < t.minin + 1) (henough : t.minin + 1 ≤ (s.osds .in_).length) :
    leftOut t ≤ (s.osds .out).length + 1 ∧
      (leftOut t ≤ (s.osds .out).length ∨ s.osds .out = [] ∧ ∃ osd, osd ∈ t.osds .out) := by
  have hcard := hs.length_in_out hbooked
  have hfew := hs.length_in_le hneed
  by_cases hlt : t.minin + 1 - t.inOsds.length < t.outOsds.length
  · rw [leftOut, if_pos hlt]
    exact ⟨by omega, .inl (by omega)⟩
  · rw [leftOut, if_neg hlt, if_pos (by omega)]
    have hpos : 0 < t.outOsds.length := by omega
    exact ⟨by omega, .inr ⟨length_eq_zero_iff.mp (by omega), exists_mem_of_length_pos hpos⟩⟩

theorem keeps_mapDiscontinuity (ht : Initialised t) (hbooked : Booked S t)
    (hwithin : Within t.config t) (hsafe : ThrashStep.mapDiscontinuity.Safe t) (fuel : Nat)
    (hw : w.st = t) :
    wp allSucceed anything (testMapDiscontinuity fuel) (Leaves (Within t.config) (Within t.config))
      w := by
  refine wp_bind_leaves (ok_fillIn fuel ht hbooked hw) ?_ fun _ w' h => ?_
  · rintro s ⟨hs, hfew, hout⟩
    have hcard := hs.length_in_out hbooked
    rw [hout, length_nil] at hcard
    refine hs.within hbooked hwithin hsafe (by omega) rfl rfl ?_
    rw [hout, length_nil, leftOut, if_neg (by omega), if_neg (by omega)]
    rfl
  · obtain ⟨hs, henough, hidle | hneed⟩ := h
    · refine wp_leaves_mono (ok_skipMaps hs.init) ?_ ?_
      · rintro s' ⟨hdead, hlive, hout⟩
        simp only [hidle.osds] at hdead hlive hout
        exact hwithin.of_length hdead.ge (by rcases hout with hout | hout <;> omega) hlive.ge
      · rintro s' ⟨-, ho⟩
        exact hwithin.others (hidle.trans ho)
    · obtain ⟨hleft, hleft'⟩ := hs.leftOut_le hbooked hneed henough
      refine wp_leaves_mono (ok_skipMaps hs.init) ?_ ?_
      · rintro s' ⟨hdead, hlive, hout⟩
        refine hs.within hbooked hwithin hsafe hneed hdead.symm hlive.symm ?_
        rcases hout with hout | ⟨hout, osd, hosd, hnot⟩
        · omega
        · rcases hleft' with hleft' | ⟨hnil, -⟩
          · omega
          · -- the killed OSD is in, since none is out
            have hin := (hs.booked.inOut.cover osd).mp (hs.booked.liveDead.mem_left hosd)
            rw [hnil] at hin
            exact absurd (hin.resolve_right not_mem_nil) hnot
      · rintro s' ⟨hnone, ho⟩
        refine hs.within hbooked hwithin hsafe hneed (by rw [ho.osds]) (by rw [ho.osds]) ?_
        rw [ho.osds]
        rcases hleft' with hleft' | ⟨hnil, osd, hosd⟩
        · exact hleft'
        · have hlive := hs.live_of_out_nil hbooked hnil hosd
          rw [hnone] at hlive
          exact absurd hlive not_mem_nil

end Fill

/-! ### The run of `test_map_discontinuity` that leaves least -/

section Worst

variable {S : Finset Osd} {t s s' : Thrasher} {osd : Osd}

theorem leads_killOsd (ht : Initialised t) (hosd : osd ∈ t.osds .live) (markDown markOut : Bool) :
    Leads allSucceed (killOsd none markDown markOut) t () (.ret ()) (t.killed osd markOut) () := by
  have hmoved := ht.moved .live .dead osd
  have hkilled := ht.killed osd markOut
  refine (leads_given ht hosd).bind ((leads_log ht).bind ((leads_run ht .kill hosd).bind ?_))
  have hdown : Leads allSucceed (when (markDown = true) (manager (.markDownOsd osd)))
      (t.moved .live .dead osd) () (.ret ()) (t.moved .live .dead osd) () := by
    unfold when
    split
    · exact leads_manager hmoved rfl
    · exact .ret ()
  have hin : (t.moved .live .dead osd).osds .in_ = t.osds .in_ := by
    rw [Thrasher.osds_moved]
    rfl
  have hout : Leads allSucceed (when (markOut = true) do
      let inOsds ← osds .in_
      when (osd ∈ inOsds) (outOsd (some osd))) (t.moved .live .dead osd) () (.ret ())
      (t.killed osd markOut) () := by
    by_cases hmark : markOut = true
    · rw [when, if_pos hmark]
      refine (leads_osds hmoved .in_).bind ?_
      rw [hin]
      by_cases hosd' : osd ∈ t.osds .in_
      · rw [when, if_pos hosd', Thrasher.killed, if_pos ⟨hmark, hosd'⟩]
        exact (Leads.ret osd).bind ((leads_log hmoved).bind (leads_run hmoved .out (hin ▸ hosd')))
      · rw [when, if_neg hosd', Thrasher.killed, if_neg fun h => hosd' h.2]
        exact .ret ()
    · rw [when, if_neg hmark, Thrasher.killed, if_neg fun h => hmark h.1]
      exact .ret ()
  refine hdown.bind (hout.bind ((leads_attr (hkilled _ rfl)).bind ?_))
  unfold when
  split
  · exact leads_testObjectstoreTool hkilled osd
  · exact .ret ()

theorem leads_skipMaps (ht : Initialised t) (hosd : osd ∈ t.osds .live) :
    Leads allSucceed skipMaps t () (.ret ()) ((t.killed osd true).moved .dead .live osd) () := by
  have hkilled := ht.killed osd true
  refine (leads_log ht).bind ((leads_attr (ht _ rfl)).bind ((leads_manager ht (v := ()) rfl).bind
    (leads_sleep.bind ((leads_manager ht (v := ()) rfl).bind (leads_sleep.bind ((leads_log ht).bind
    ((leads_killOsd ht hosd true true).bind ?_)))))))
  exact (leads_log hkilled).bind ((leads_attr (hkilled _ rfl)).bind
    ((leads_manager hkilled (v := ()) rfl).bind ((leads_log hkilled).bind
    (leads_sleep.bind (leads_reviveOsd hkilled (t.mem_dead_killed osd true))))))

def Fills (t s : Thrasher) : Prop :=
  ∃ k, ∀ n r t', Leads allSucceed (fillIn n) s () r t' () → Leads allSucceed (fillIn (n + k)) t () r t' ()

theorem Fills.refl (t : Thrasher) : Fills t t := ⟨0, fun _ _ _ h => h⟩

theorem Fills.trans (h : Fills t s) (h' : Fills s s') : Fills t s' := by
  obtain ⟨k, hk⟩ := h
  obtain ⟨k', hk'⟩ := h'
  refine ⟨k' + k, fun n r t' hrun => ?_⟩
  rw [← Nat.add_assoc]
  exact hk _ _ _ (hk' _ _ _ hrun)

theorem leads_fillTest (ht : Initialised t) : Leads allSucceed (do
      let inOsds ← osds .in_
      let minin ← attr .minin (·.minin)
      .ret (decide ((inOsds.length : Int) < minin + 1)) : M Bool) t ()
    (.ret (decide (((t.osds .in_).length : Int) < t.minin + 1))) t () :=
  (leads_osds ht .in_).bind ((leads_attr (ht _ rfl)).bind (.ret _))

theorem Fills.step (ht : Initialised t) (hfew : ((t.osds .in_).length : Int) < t.minin + 1)
    (hbody : Leads allSucceed (inOsd none) t () (.ret ()) s ()) : Fills t s := by
  have htest := leads_fillTest ht
  rw [decide_eq_true hfew] at htest
  exact ⟨1, fun n r t' hrun => .whileDo_go htest hbody hrun⟩

theorem fills_revive (hs : Filling S t s) (hin : s.osds .in_ = t.osds .in_)
    (hout : s.osds .out = t.osds .out) (hneed : ((t.osds .in_).length : Int) < t.minin + 1) :
    ∃ s', Fills s s' ∧ Filling S t s' ∧ ∀ osd ∈ s'.osds .dead, osd ∉ t.osds .out := by
  induction hk : (s.osds .dead).length generalizing s with
  | zero => exact ⟨s, .refl s, hs, by simp [length_eq_zero_iff.mp hk]⟩
  | succ k ih =>
    by_cases hsome : ∃ osd ∈ s.osds .dead, osd ∈ t.osds .out
    · obtain ⟨osd, hdead, hosd⟩ := hsome
      rw [← hout] at hosd
      have hosds := s.osds_moved .dead .live osd
      have hlength := s.length_moved .dead .live (by decide) hdead .dead
      simp only [reduceCtorEq, if_true, if_false, Nat.add_zero] at hlength
      obtain ⟨s', hfills, hs', hlive⟩ := ih (hs.revive hosd hdead) (by rw [hosds]; exact hin)
        (by rw [hosds]; exact hout) (by omega)
      have hstep := Fills.step hs.init (by rw [hin, hs.minin]; exact hneed)
        (leads_inOsd_dead hs.init hosd hdead)
      exact ⟨s', hstep.trans hfills, hs', hlive⟩
    · exact ⟨s, .refl s, hs, fun osd hdead hosd => hsome ⟨osd, hdead, hosd⟩⟩

theorem fills_markIn (hs : Filling S t s) (hlive : ∀ osd ∈ s.osds .dead, osd ∉ t.osds .out) :
    ∃ s', Fills s s' ∧ Filling S t s' ∧ (∀ osd ∈ s'.osds .dead, osd ∉ t.osds .out) ∧
      (t.minin + 1 ≤ (s'.osds .in_).length ∨ s'.osds .out = []) := by
  induction hk : (s.osds .out).length generalizing s with
  | zero => exact ⟨s, .refl s, hs, hlive, .inr (length_eq_zero_iff.mp hk)⟩
  | succ k ih =>
    by_cases hfew : ((s.osds .in_).length : Int) < t.minin + 1
    · obtain ⟨osd, hosd⟩ := exists_mem_of_length_pos (l := s.osds .out) (by omega)
      have hdead : osd ∉ s.osds .dead := fun h => hlive osd h (hs.out osd hosd)
      have hosds := s.osds_moved .out .in_ osd
      have hlength := s.length_moved .out .in_ (by decide) hosd .out
      simp only [reduceCtorEq, if_true, if_false, Nat.add_zero] at hlength
      obtain ⟨s', hfills, hs', hrest⟩ := ih (hs.markIn hosd hdead hfew) (by rw [hosds]; exact hlive)
        (by omega)
      have hstep := Fills.step hs.init (by rw [hs.minin]; exact hfew)
        (leads_inOsd_live hs.init hosd hdead)
      exact ⟨s', hstep.trans hfills, hs', hrest⟩
    · exact ⟨s, .refl s, hs, hlive, .inl (by omega)⟩

theorem Filling.length_dead_eq (hs : Filling S t s) (hbooked : Booked S t)
    (hlive : ∀ osd ∈ s.osds .dead, osd ∉ t.osds .out) :
    (s.osds .dead).length = (t.deadOsds.filter (· ∉ t.outOsds)).length := by
  refine le_antisymm ?_ (hs.length_dead hbooked)
  refine (subperm_of_subset (hs.booked.nodup .dead) fun osd hosd => ?_).length_le
  rw [mem_filter, decide_eq_true_eq]
  exact ⟨hs.dead osd hosd, hlive osd hosd⟩

theorem exists_killed_leftOut (hs : Filling S t s) (hbooked : Booked S t)
    (hlive : ∀ osd ∈ s.osds .dead, osd ∉ t.osds .out)
    (hneed : (t.inOsds.length : Int) < t.minin + 1) (henough : t.minin + 1 ≤ (s.osds .in_).length) :
    ∃ osd ∈ s.osds .live, ((s.killed osd true).osds .out).length = leftOut t := by
  have hcard := hs.length_in_out hbooked
  have hfew := hs.length_in_le hneed
  have hkill : ∀ osd ∈ s.osds .live,
      ((s.moved .live .dead osd).osds .out).length = (s.osds .out).length := by
    intro osd _
    rw [Thrasher.osds_moved]
    rfl
  by_cases hlt : t.minin + 1 - t.inOsds.length < t.outOsds.length
  · obtain ⟨osd, hosd⟩ := exists_mem_of_length_pos (l := s.osds .out) (by omega)
    have hosd' : osd ∈ s.osds .live := (hs.booked.liveDead.mem_left_iff
      (hs.booked.inOut.mem_right hosd)).mpr fun h => hlive osd h (hs.out osd hosd)
    have hin : osd ∉ s.osds .in_ := fun h => hs.booked.inOut.disjoint h hosd
    refine ⟨osd, hosd', ?_⟩
    rw [Thrasher.killed, if_neg fun h => hin h.2, hkill osd hosd', leftOut, if_pos hlt]
    omega
  · have hnil : s.osds .out = [] := length_eq_zero_iff.mp (by omega)
    obtain ⟨osd, hosd⟩ := exists_mem_of_length_pos (l := t.osds .out)
      (show 0 < t.outOsds.length by omega)
    have hosd' := hs.live_of_out_nil hbooked hnil hosd
    have hin : osd ∈ s.osds .in_ := by
      have hin := (hs.booked.inOut.cover osd).mp (hs.booked.liveDead.mem_left hosd')
      rw [hnil] at hin
      exact hin.resolve_right not_mem_nil
    have hin' : osd ∈ (s.moved .live .dead osd).osds .in_ := by
      rw [Thrasher.osds_moved]
      exact hin
    have hlength := (s.moved .live .dead osd).length_moved .in_ .out (by decide) hin' .out
    simp only [reduceCtorEq, if_true, if_false, Nat.add_zero] at hlength
    refine ⟨osd, hosd', ?_⟩
    rw [Thrasher.killed, if_pos ⟨rfl, hin⟩, hlength, hkill osd hosd', leftOut, if_neg hlt,
      if_pos (by omega), hnil]
    rfl

theorem safe_mapDiscontinuity (ht : Initialised t) (hbooked : Booked S t)
    (hkeeps : ThrashStep.mapDiscontinuity.Keeps t) : ThrashStep.mapDiscontinuity.Safe t := by
  intro hneed
  obtain ⟨s1, hfills1, hs1, hlive1⟩ := fills_revive (Filling.start ht hbooked) rfl rfl hneed
  obtain ⟨s, hfills2, hs, hlive, hend⟩ := fills_markIn hs1 hlive1
  obtain ⟨k, hfills⟩ := hfills1.trans hfills2
  have hdead := hs.length_dead_eq hbooked hlive
  have hcard := hs.length_in_out hbooked
  have htest := leads_fillTest hs.init
  rw [hs.minin] at htest
  by_cases henough : t.minin + 1 ≤ (s.osds .in_).length
  · rw [decide_eq_false (by omega)] at htest
    have hfill := hfills _ _ _ (.whileDo_stop (n := 0) htest)
    obtain ⟨osd, hosd, hout⟩ := exists_killed_leftOut hs hbooked hlive hneed henough
    obtain ⟨log, hrun⟩ := hfill.bind (f := fun _ => skipMaps) (leads_skipMaps hs.init hosd) []
    have hwithin := hkeeps _ _ _ hrun (by simp)
    have hskipped := skipped_killed hosd (s.mem_dead_killed osd true) (.refl _)
    have hminDead : _ ≤ ((((s.killed osd true).moved .dead .live osd).osds .dead).length : Int) :=
      hwithin.dead
    have hminOut : _ ≤ ((((s.killed osd true).moved .dead .live osd).osds .out).length : Int) :=
      hwithin.out
    rw [hskipped.1, hdead] at hminDead
    rw [Thrasher.osds_moved] at hminOut
    exact ⟨hminDead, hminOut.trans hout.le⟩
  · rw [decide_eq_true (by omega)] at htest
    have hnil := hend.resolve_left henough
    have hraise : Leads allSucceed (inOsd none) s () (.exn .indexError) s () := by
      refine .bind_exn ((leads_osds hs.init .out).bind ?_)
      rw [hnil]
      exact .throw _
    have hfill := hfills 1 _ _ (htest.bind (.bind_exn hraise))
    obtain ⟨log, hrun⟩ := hfill.bind_exn (f := fun _ => skipMaps) []
    have hwithin := hkeeps _ _ _ hrun (by simp)
    have hminDead : _ ≤ ((s.osds .dead).length : Int) := hwithin.dead
    have hminOut : _ ≤ ((s.osds .out).length : Int) := hwithin.out
    rw [hnil, length_nil] at hminOut hcard
    refine ⟨by omega, ?_⟩
    rw [leftOut, if_neg (by omega), if_neg (by omega)]
    exact hminOut

end Worst

/-! ### The actions -/

variable {a : Action}

section Actions

variable {S : Finset Osd} {t : Thrasher} {w : W Unit} {c : ThrasherConfig}
  {xs : List (Action × ℚ)}

def stillUsage : Usage taskSig Thrasher PyError where
  ops o := o.quiet = true
  acts _ := False
  throws _ := True
  reads _ := True

theorem stillUsage_fits : Fits stillUsage :=
  ⟨fun _ ho => ho, fun _ _ _ _ => .inr trivial, fun _ _ => trivial⟩

theorem keeps_still {p : M Unit} (hp : Uses stillUsage p) (hw : Within c w.st) :
    wp allSucceed anything p (Leaves (Within c) (Within c)) w := by
  have hsettles := Uses.wp (U := stillUsage) (E := allSucceed) (A := anything) (I := fun w => Within c w.st)
    (K := fun w => Within c w.st) (fun _ h => h) (fun _ _ => trivial)
    (fun o w _ h => ⟨trivial, fun a t x hstep => h.others hstep.2⟩) (fun _ _ h => h.elim) hp w hw
  refine wp_mono ?_ hsettles
  rintro (a | e | _) w' h
  · exact h
  · exact h.2
  · trivial

/-- A weight that is not positive is passed over, except at the head of the list, where a negative
draw is still below it. -/
theorem pick_head_or_pos {val : ℚ} (h : pick xs val = some a) :
    (∃ prob, xs.head? = some (a, prob)) ∨ ∃ prob, 0 < prob ∧ (a, prob) ∈ xs := by
  have hpos : ∀ (xs : List (Action × ℚ)) (val : ℚ), 0 ≤ val → pick xs val = some a →
      ∃ prob, 0 < prob ∧ (a, prob) ∈ xs := by
    intro xs
    induction xs with
    | nil => exact fun _ _ h => by cases h
    | cons x xs ih =>
      obtain ⟨b, prob⟩ := x
      intro val hval h
      by_cases hlt : val < prob
      · rw [pick, if_pos hlt] at h
        cases h
        exact ⟨prob, hval.trans_lt hlt, .head _⟩
      · rw [pick, if_neg hlt] at h
        obtain ⟨prob', hprob, hmem⟩ := ih (val - prob) (sub_nonneg.mpr (not_lt.mp hlt)) h
        exact ⟨prob', hprob, .tail _ hmem⟩
  cases xs with
  | nil => cases h
  | cons x xs =>
    obtain ⟨b, prob⟩ := x
    by_cases hlt : val < prob
    · rw [pick, if_pos hlt] at h
      cases h
      exact .inl ⟨prob, rfl⟩
    · rw [pick, if_neg hlt] at h
      obtain ⟨prob', hprob, hmem⟩ := hpos xs (val - prob) (sub_nonneg.mpr (not_lt.mp hlt)) h
      exact .inr ⟨prob', hprob, .tail _ hmem⟩

theorem head?_entry_append {p : Prop} [Decidable p] {weight : ℚ} {x : Action × ℚ}
    (h : (entry p a weight ++ xs).head? = some x) : x = (a, weight) ∨ xs.head? = some x := by
  unfold entry at h
  split at h
  · exact .inl (Option.some.inj h).symm
  · exact .inr h

theorem pick_ne_testPoolMinSize {val : ℚ} (hchance : t.config.chanceTestMinSize.getD 0 = 0) :
    pick (actions t) val ≠ some .testPoolMinSize := by
  intro h
  rcases pick_head_or_pos h with ⟨prob, hhead⟩ | ⟨prob, hprob, hmem⟩
  · simp only [actions, append_assoc] at hhead
    repeat'
      rcases head?_entry_append hhead with heq | hhead
      · cases heq
    cases hhead
  · simp only [actions, pauseKeys, mem_append, mem_entry, flatMap_cons, flatMap_nil,
      mem_cons, not_mem_nil, or_false, Prod.mk.injEq, reduceCtorEq, false_and, and_false,
      false_or, true_and] at hmem
    rw [hmem, hchance] at hprob
    exact lt_irrefl _ hprob

theorem keeps_action (fuel : Nat) (a : Action) (hw : Initialised w.st)
    (hwithin : Within w.st.config w.st) (hguard : a.guard w.st) (hne : a ≠ .testPoolMinSize)
    (hsafe : (ThrashStep.action a).Safe w.st) :
    wp allSucceed anything (a.run fuel) (Leaves (Within w.st.config) (Within w.st.config)) w := by
  have hfits := stillUsage_fits
  have hraised : ∀ {p : Prop} {t : Thrasher}, p ∧ Others w.st t → Within w.st.config t :=
    fun h => hwithin.others h.2
  cases a with
  | outOsd =>
    refine wp_leaves_of_ends (ends_outOsd hw.started) ?_ fun _ => hraised
    rintro t ⟨osd, hosd, ho⟩
    exact (hwithin.moved (by decide) hosd
      (Int.natCast_pos.mpr (length_pos_of_mem hosd))).others ho
  | killOsd =>
    refine wp_leaves_of_ends (ends_killOsd false false hw) ?_ fun _ => hraised
    rintro t ⟨osd, hosd, ho⟩
    rw [Thrasher.killed, if_neg (by simp)] at ho
    exact (hwithin.moved (by decide) hosd hguard.1).others ho
  | rmPastIntervals => exact keeps_still (uses_rmPastIntervals hfits none) hwithin
  | inOsd =>
    refine wp_leaves_of_ends (ends_inOsd hw.started) ?_ fun _ => hraised
    rintro t ⟨osd, hosd, ho⟩
    by_cases hdead : osd ∈ w.st.osds .dead
    · rw [Thrasher.broughtIn, if_pos hdead] at ho
      exact (hwithin.moved (by decide) hdead (hsafe ⟨osd, hosd, hdead⟩)).others ho
    · rw [Thrasher.broughtIn, if_neg hdead] at ho
      exact (hwithin.moved (by decide) hosd hguard).others ho
  | reviveOsd =>
    refine wp_leaves_of_ends (ends_reviveOsd hw.started) ?_ fun _ => hraised
    rintro t ⟨osd, hosd, ho⟩
    exact (hwithin.moved (by decide) hosd hguard).others ho
  | primaryAffinity => exact keeps_still (uses_primaryAffinity hfits none) hwithin
  | reweightOsdOrByUtil => exact keeps_still (uses_reweightOsdOrByUtil hfits none) hwithin
  | growPool => exact keeps_still (uses_growPool hfits) hwithin
  | fixPgpNum => exact keeps_still (uses_fixPgpNum hfits) hwithin
  | testPoolMinSize => exact absurd rfl hne
  | testBackfillFull => exact keeps_still (uses_testBackfillFull hfits) hwithin
  | injectPauseShort | injectPauseLong =>
    exact keeps_still ((uses_attr hfits _ _ rfl).bind fun _ => uses_injectPause hfits _ _ _ _) hwithin

theorem safe_inOsd (ht : Initialised t) (hkeeps : (ThrashStep.action .inOsd).Keeps t) :
    (ThrashStep.action .inOsd).Safe t := by
  rintro ⟨osd, hosd, hdead⟩
  obtain ⟨log, hrun⟩ := leads_inOsd_dead ht hosd hdead []
  have hwithin := hkeeps 0 _ _ hrun (by simp)
  have hminDead : _ ≤ (((t.moved .dead .live osd).osds .dead).length : Int) := hwithin.dead
  have hlength := t.length_moved .dead .live (by decide) hdead .dead
  simp only [reduceCtorEq, if_true, if_false, Nat.add_zero] at hlength
  have hlength : _ = t.deadOsds.length := hlength
  omega

theorem offered_guard (ht : Initialised t) (h : (ThrashStep.action a).Offered t) :
    ∃ val, pick (actions t) val = some a := by
  obtain ⟨w, hrun⟩ := h
  have hwp : wp allSucceed anything chooseAction
      (fun r _ => ∃ val, r = .ret (pick (actions t) val)) ⟨t, (), []⟩ :=
    (wp_chooseAction ht.started).mpr ⟨trivial, fun u _ _ _ => ⟨u.val, rfl⟩⟩
  obtain ⟨val, hval⟩ := wp_post hwp hrun
  exact ⟨val, (Outcome.ret.inj hval).symm⟩

theorem keeps_iff_wp {step : ThrashStep} : step.Keeps t ↔ ∀ fuel, wp allSucceed anything (step.run fuel)
      (Leaves (Within t.config) (Within t.config)) ⟨t, (), []⟩ := by
  refine forall_congr' fun fuel => ?_
  rw [wp_iff_exec]
  refine forall_congr' fun r => forall_congr' fun w => imp_congr Iff.rfl ?_
  cases r with
  | ret | exn => exact ⟨fun h => h (by simp), fun h _ => h⟩
  | cut => exact ⟨fun _ => trivial, fun _ h => absurd rfl h⟩

end Actions

/-- **When a step keeps the thresholds.** `in_osd` does when more than `min_dead` OSDs are dead or none
that is out is dead; `test_map_discontinuity`, when it has none to mark in, or enough are dead that are not
out and enough are left out; every other action always. -/
theorem thresholds_kept_iff (S : Finset Osd) (t : Thrasher) (step : ThrashStep) (ht : Initialised t)
    (hbooked : Booked S t) (hchance : t.config.chanceTestMinSize.getD 0 = 0)
    (hwithin : Within t.config t) (hoffered : step.Offered t) : step.Keeps t ↔ step.Safe t := by
  cases step with
  | mapDiscontinuity =>
    refine ⟨safe_mapDiscontinuity ht hbooked, fun hsafe => keeps_iff_wp.mpr fun fuel => ?_⟩
    exact keeps_mapDiscontinuity ht hbooked hwithin hsafe fuel rfl
  | action a =>
    obtain ⟨val, hpick⟩ := offered_guard ht hoffered
    have hne : a ≠ .testPoolMinSize := fun h => pick_ne_testPoolMinSize hchance (h ▸ hpick)
    refine ⟨fun hkeeps => ?_, fun hsafe => keeps_iff_wp.mpr fun fuel => ?_⟩
    · by_cases hin : a = .inOsd
      · subst hin
        exact safe_inOsd ht hkeeps
      · cases a <;> first | exact absurd rfl hin | trivial
    · have hguard : a.guard t := guard_of_pick hpick
      exact keeps_action (w := ⟨t, (), []⟩) fuel a ht hwithin hguard hne hsafe

theorem leads_chooseAction {t : Thrasher} (ht : Initialised t) (val : ℚ)
    (hval : min 0 (total (actions t)) ≤ val ∧ val ≤ max 0 (total (actions t))) :
    Leads allSucceed chooseAction t () (.ret (pick (actions t) val)) t () := by
  refine (leads_attr (ht _ rfl)).bind ((leads_attr (ht _ rfl)).bind ((leads_log ht).bind ?_))
  refine (leads_attr (ht _ rfl)).bind ((leads_attr (ht _ rfl)).bind ((leads_attr (ht _ rfl)).bind ?_))
  refine (leads_attr (ht _ rfl)).bind ?_
  have huniform : Leads allSucceed (uniform 0 (total (actions t))) t () (.ret val) t () :=
    (leads_issue (o := .uniform 0 (total (actions t))) (a := ⟨val, hval⟩) trivial).bind (.ret val)
  exact huniform.bind (.ret _)

theorem ready_initialised (config : ThrasherConfig) (inOsds outOsds liveOsds deadOsds : List Osd)
    (tool : Bool) : Initialised (.ready config inOsds outOsds liveOsds deadOsds tool) :=
  fun a _ => mem_allAttrs a

theorem thresholds_kept_iff_fourOsds : (ThrashStep.action .inOsd).Keeps (fourOsds {}) := by
  have ht : Initialised (fourOsds {}) := ready_initialised _ _ _ _ _ _
  obtain ⟨log, hrun⟩ := leads_chooseAction ht 1 (by decide +kernel) []
  have hpick : pick (actions (fourOsds {})) 1 = some .inOsd := by decide +kernel
  rw [hpick] at hrun
  have hwithin : Within (fourOsds {}).config (fourOsds {}) := ⟨by decide, by decide, by decide⟩
  have hsafe : (ThrashStep.action .inOsd).Safe (fourOsds {}) := fun _ => by decide
  exact (thresholds_kept_iff _ _ (.action .inOsd) ht (fourOsds_booked {}) rfl hwithin ⟨_, hrun⟩).mpr hsafe

def deadOut : Thrasher :=
  .ready { minDead := some 1, maxDead := some 1 } [0, 1, 2] [3] [0, 1, 2] [3] true

/-- The only dead OSD is out: `in_osd` draws it and revives it, and none is left dead. -/
theorem inOsd_below_min_dead : Initialised deadOut ∧ Booked [0, 1, 2, 3].toFinset deadOut ∧
      deadOut.config.chanceTestMinSize.getD 0 = 0 ∧
      deadOut.config.minDead.getD 0 ≤ deadOut.config.maxDead.getD 0 ∧
      Within deadOut.config deadOut ∧ (ThrashStep.action .inOsd).Offered deadOut ∧
      ¬ (ThrashStep.action .inOsd).Keeps deadOut := by
  have ht : Initialised deadOut := ready_initialised _ _ _ _ _ _
  obtain ⟨log, hchoose⟩ := leads_chooseAction ht 1 (by decide +kernel) []
  have hpick : pick (actions deadOut) 1 = some .inOsd := by decide +kernel
  rw [hpick] at hchoose
  have hbooked : Booked [0, 1, 2, 3].toFinset deadOut :=
    ready_booked _ [0, 1, 2] [3] [0, 1, 2] [3] true (by decide) (by decide) (by decide)
  refine ⟨ht, hbooked, rfl, by decide, ⟨by decide, by decide, by decide⟩, ⟨_, hchoose⟩, fun h => ?_⟩
  have hout : 3 ∈ deadOut.osds .out := by decide
  obtain ⟨log', hrun⟩ := leads_inOsd_dead ht hout (by decide) []
  have hdead : (1 : Int) ≤ (deadOut.moved .dead .live 3).deadOsds.length :=
    (h 0 _ _ hrun (by simp)).dead
  exact absurd hdead (by decide)

end ZbkcTasks
