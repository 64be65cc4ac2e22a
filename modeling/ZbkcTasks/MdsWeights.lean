import ZbkcTasks.MdsMaxMds

/-! `thrash_weights` and `thrash_max_mds` are compared with `randrange(0.0, 1.0)`, which is always zero,
and a missing weight is a string, greater than any number: an MDS is killed in every turn or in none. -/

namespace ZbkcTasks.MdsThrash

open List Prog

/-- `max_mds`, the last status before an MDS is killed, and the MDSs killed, newest first. -/
structure Turn where
  maxMds : Int
  seen : Option FSStatus
  killed : List String

variable {x x' : Turn} {info : MdsInfo} {m : Int} {α : Type} {status : FSStatus} {o : Op}
  {seen : Option FSStatus} {r : Outcome PyError Unit} {weights : Weights} {fuel : Nat} {t : MDSThrasher}
  {name : String}

namespace Turn

def start (maxMds : Int) : Turn := ⟨maxMds, none, []⟩

def shown (x : Turn) : Except CommandError FSStatus → Turn
  | .ok st => if x.killed = [] then { x with seen := some st } else x
  | .error _ => x

theorem shown_ok {st : FSStatus} (hx : x.killed = []) :
    x.shown (.ok st) = { x with seen := some st } := if_pos hx

def setTo (x : Turn) (n : Int) : Except CommandError Unit → Turn
  | .ok _ => { x with maxMds := n }
  | .error _ => x

def kill (x : Turn) (mds : String) : Turn := { x with killed := mds :: x.killed }

/-- The MDSs that the loop over the ranks goes through: those of the last status before it. -/
def reported (x : Turn) (fsId : Nat) : List String :=
  x.seen.elim [] fun st => ((st.getRanks fsId).toOption.getD []).map MdsInfo.name

end Turn

def Op.onTurn : (o : Op) → o.Ans → Turn → Turn
  | .status, r, x => x.shown r
  | .setMaxMds n, r, x => x.setTo n r
  | .stopDaemon mds, _, x => x.kill mds
  | .powerOff mds, _, x => x.kill mds
  | _, _, x => x

/-- The status names MDSs of the cluster only. -/
def Named (t : MDSThrasher) (names : List String) (st : FSStatus) : Prop :=
  ∀ fs, st.getFsmap t.fsId = .ok fs → ∀ info ∈ fs.info, info.name ∈ names

/-- The thrasher is not stopped, and a status shows the `max_mds` that was last set. -/
def Op.Reports (t : MDSThrasher) (names : List String) (x : Turn) : (o : Op) → o.Ans → Prop
  | .isSet, r => r = false
  | .status, r => ∀ st, r = .ok st → Named t names st ∧
      ∀ fs, st.getFsmap t.fsId = .ok fs → fs.maxMds = x.maxMds
  | _, _ => True

def reporting (t : MDSThrasher) (names : List String) : Env mdsSig Unit Turn :=
  fun o _ x r _ x' => o.Reports t names x r ∧ x' = o.onTurn r x

/-- Only MDSs of the cluster whose weight is not below the number drawn are killed. -/
def Turn.Sound (t : MDSThrasher) (names : List String) (x : Turn) : Prop :=
  ∀ name ∈ x.killed, name ∈ names ∧ (weightOf t name).le 0 = false

/-- From `x` to `x'` the MDSs in `infos` were gone through. -/
structure Turn.Through (t : MDSThrasher) (infos : List MdsInfo) (x x' : Turn) : Prop where
  maxMds_eq : x'.maxMds = x.maxMds
  seen_eq : x'.seen = x.seen
  killed_subset : x.killed ⊆ x'.killed
  all_killed : ∀ info ∈ infos, (weightOf t info.name).le 0 = false → info.name ∈ x'.killed

abbrev free : Op → Unit → Turn → Prop := fun _ _ _ => True

section Round

variable {names : List String} {w : World mdsSig Unit Turn} {K : World mdsSig Unit Turn → Prop}
  {infos : List MdsInfo}

theorem sound_of_killed_eq_nil (hx : x.killed = []) : x.Sound t names := by
  intro name hname
  rw [hx] at hname
  exact absurd hname not_mem_nil

theorem wp_idle {p : M α} (I : Turn → Prop)
    (hI : ∀ (o : Op) (r : o.Ans) x, o.idle = true → I x → I (o.onTurn r x)) (hp : Uses idle p)
    (hw : I w.ext) :
    wp (reporting t names) free p (gives (fun _ w' => I w'.ext) fun w' => I w'.ext) w := by
  refine wp_gives_of_settles
    (Uses.wp (U := idle) (fun _ h => h) (fun _ _ => trivial) ?_ (fun _ _ h => h.elim) hp w hw)
  intro o w' ho hw'
  refine ⟨trivial, ?_⟩
  rintro r s x ⟨-, rfl⟩
  exact hI o r _ ho hw'

theorem wp_idle_after {p : M α} (hp : Uses idle p) (hw : w.ext.killed ≠ []) :
    wp (reporting t names) free p (gives (fun _ w' => w'.ext = w.ext) fun w' => w'.ext = w.ext) w := by
  refine wp_idle (· = w.ext) ?_ hp rfl
  rintro o r x ho rfl
  cases o <;> first | rfl | cases ho
  cases r with
  | ok st => exact if_neg hw
  | error e => rfl

theorem wp_still (ho : ∀ (r : o.Ans) x, o.onTurn r x = x) : wp (reporting t names) free (issue o)
      (gives (fun _ w' => w'.ext = w.ext) fun w' => w'.ext = w.ext) w := by
  refine ⟨trivial, ?_⟩
  rintro r s x ⟨-, rfl⟩
  exact ho r w.ext

theorem wp_stillCommand {β : Type} {k : o.Ans → M β} (ho : ∀ (r : o.Ans) x, o.onTurn r x = x)
    {P : β → World mdsSig Unit Turn → Prop}
    (hk : ∀ r w', w'.ext = w.ext → wp (reporting t names) free (k r) (gives P K) w') :
    wp (reporting t names) free (issue o >>= k) (gives P K) w := by
  refine ⟨trivial, ?_⟩
  rintro r s x ⟨-, rfl⟩
  exact hk r _ (ho r w.ext)

theorem wp_drawZero : wp (reporting t names) free (randrange below 0 1)
      (gives (fun z w' => z = 0 ∧ w'.ext = w.ext) fun w' => w'.ext = w.ext) w := by
  have hdraw : ∀ n, wp (reporting t names) free (below n)
      (gives (fun _ w' => w'.ext = w.ext) fun w' => w'.ext = w.ext) w := fun n => wp_still fun _ _ => rfl
  refine wp_result ?_ (wp_randrange _ _ hdraw rfl)
  rintro z w' ⟨⟨hlow, hhigh⟩, h'⟩
  have hlow' : 0 ≤ z := by exact_mod_cast hlow
  have hhigh' : z < 1 := by exact_mod_cast hhigh
  exact ⟨by omega, h'⟩

theorem wp_killMds (mds : String) :
    wp (reporting t names) free (killMds t mds) (gives (fun _ w' => w'.ext = w.ext.kill mds)
      fun w' => w'.ext = w.ext ∨ w'.ext = w.ext.kill mds) w := by
  unfold killMds
  split
  · refine wp_stillCommand (fun _ _ => rfl) fun credentials w1 h1 => ?_
    cases credentials with
    | false => exact .inl h1
    | true =>
      refine ⟨trivial, ?_⟩
      rintro (e | u) s x ⟨-, rfl⟩
      · exact .inr (congrArg (Turn.kill · mds) h1)
      · exact congrArg (Turn.kill · mds) h1
  · refine ⟨trivial, ?_⟩
    rintro (e | u) s x ⟨-, rfl⟩
    · exact .inr rfl
    · exact rfl

theorem wp_thrashMds (info : MdsInfo) :
    wp (reporting t names) free (thrashMds t fuel info) (gives (fun _ w' => w'.ext = w.ext.kill info.name)
      fun w' => w'.ext = w.ext ∨ w'.ext = w.ext.kill info.name) w := by
  rw [thrashMds_eq]
  refine wp_seq (wp_killMds info.name) fun _ w1 h1 => ?_
  have hkilled : w1.ext.killed ≠ [] := by
    rw [h1]
    exact cons_ne_nil _ _
  rw [← h1]
  exact wp_weaken (fun _ _ h => h) (fun _ => .inr) (wp_idle_after (uses_replaceMds t fuel info) hkilled)

theorem Turn.Through.skip (h : x.Through t infos x') (hskip : (weightOf t info.name).le 0 = true) :
    x.Through t (info :: infos) x' := by
  refine ⟨h.maxMds_eq, h.seen_eq, h.killed_subset, forall_mem_cons.mpr ⟨fun hle => ?_, h.all_killed⟩⟩
  rw [hskip] at hle
  cases hle

theorem Turn.Through.kill (h : (x.kill info.name).Through t infos x') :
    x.Through t (info :: infos) x' where
  maxMds_eq := h.maxMds_eq
  seen_eq := h.seen_eq
  killed_subset _ hname := h.killed_subset (.tail _ hname)
  all_killed := forall_mem_cons.mpr ⟨fun _ => h.killed_subset (.head _), h.all_killed⟩

/-- **The loop over the ranks** kills the MDSs whose weight is not below zero and skips the others. -/
theorem wp_thrashRanks (hweights : t.thrashWeights ≠ none) (count : Int)
    (hnames : ∀ info ∈ infos, info.name ∈ names) (hw : w.ext.Sound t names) :
    wp (reporting t names) free (thrashRanks t fuel count infos)
      (gives (fun _ w' => w'.ext.Sound t names ∧ w.ext.Through t infos w'.ext)
        fun w' => w'.ext.Sound t names) w := by
  induction infos generalizing w count with
  | nil => exact ⟨hw, rfl, rfl, List.Subset.refl _, by simp⟩
  | cons info infos ih =>
    obtain ⟨hname, hrest⟩ := forall_mem_cons.mp hnames
    have hcap : ¬ (t.thrashWeights.isNone ∧ count + 1 > t.maxThrash) := by
      simp [hweights]
    rw [thrashRanks, if_neg hcap]
    refine wp_seq (wp_weaken (fun _ _ h => h) ?_ wp_drawZero) ?_
    · intro w' h'
      rwa [h']
    · rintro z w1 ⟨rfl, h1⟩
      rw [← h1] at hw ⊢
      split
      · rename_i hskip
        exact wp_result (fun _ _ h => ⟨h.1, h.2.skip hskip⟩) (ih (count + 1) hrest hw)
      · rename_i hkill
        have hsound : (w1.ext.kill info.name).Sound t names :=
          forall_mem_cons.mpr ⟨⟨hname, Bool.not_eq_true _ ▸ hkill⟩, hw⟩
        refine wp_seq (wp_weaken (fun _ _ h => h) ?_ (wp_thrashMds info)) fun _ w2 h2 => ?_
        · rintro w' (h' | h')
          · rwa [h']
          · rwa [h']
        · have hrun := ih (count + 1) hrest (w := w2) (by rwa [h2])
          rw [h2] at hrun
          exact wp_result (fun _ _ h => ⟨h.1, h.2.kill⟩) hrun

/-- No MDS is killed yet; the last status is `st`. -/
structure Turn.Before (t : MDSThrasher) (names : List String) (st : FSStatus) (maxMds : Int) (x : Turn) :
    Prop where
  maxMds_eq : x.maxMds = maxMds
  seen_eq : x.seen = some st
  killed_eq : x.killed = []
  named : Named t names st

theorem wp_fsStatus_before (hw : w.ext.killed = []) : wp (reporting t names) free fsStatus
      (gives (fun st w' => w'.ext.Before t names st w.ext.maxMds ∧
        ∀ fs, st.getFsmap t.fsId = .ok fs → fs.maxMds = w.ext.maxMds) fun w' => w'.ext.killed = []) w := by
  refine ⟨trivial, ?_⟩
  rintro (e | st) s x ⟨hreports, rfl⟩
  · exact hw
  · obtain ⟨hnamed, hmax⟩ := hreports st rfl
    refine ⟨?_, hmax⟩
    show (w.ext.shown (.ok st)).Before t names st w.ext.maxMds
    rw [Turn.shown_ok hw]
    exact ⟨rfl, rfl, hw, hnamed⟩

theorem wp_awaitStable (want : Option (Int × Nat)) (itercount : Nat) (hw : w.ext.Before t names status m) :
    wp (reporting t names) free (awaitStable t want fuel itercount status)
      (gives (fun r w' => w'.ext.Before t names r.1 m) fun w' => w'.ext.killed = []) w := by
  induction fuel generalizing w itercount status with
  | zero => exact hw.killed_eq
  | succ fuel ih =>
    rw [awaitStable]
    cases hfs : status.getFsmap t.fsId with
    | error e => exact hw.killed_eq
    | ok fs =>
      rw [orThrow, Prog.ret_bind]
      cases stableIn t status fs want with
      | some name => exact hw
      | none =>
        have hagain : wp (reporting t names) free
            (onlyIf (itercount + 1 > 10) (fsStatus >>= fun _ => .ret ()))
            (gives (fun _ w' => w'.ext.killed = [] ∧ w'.ext.maxMds = m)
              fun w' => w'.ext.killed = []) w := by
          unfold onlyIf
          split
          · refine wp_seq (wp_fsStatus_before hw.killed_eq) ?_
            rintro st w' ⟨h', -⟩
            exact ⟨h'.killed_eq, h'.maxMds_eq.trans hw.maxMds_eq⟩
          · exact ⟨hw.killed_eq, hw.maxMds_eq⟩
        refine wp_seq hagain ?_
        rintro _ w1 ⟨hkilled, hmax⟩
        refine wp_seq (wp_stillCommand (P := fun _ w' => w'.ext = w1.ext)
          (K := fun w' => w'.ext.killed = []) (fun _ _ => rfl) ?_) ?_
        · rintro (e | u) w' h'
          · exact (congrArg Turn.killed h').trans hkilled
          · exact h'
        · intro _ w2 h2
          rw [← h2] at hkilled hmax
          refine wp_seq (wp_fsStatus_before hkilled) ?_
          rintro st w3 ⟨h3, -⟩
          rw [hmax] at h3
          exact ih (itercount + 1) h3

theorem wp_samplePositions_before (n k : Nat) (hK : ∀ w', w'.ext = w.ext → K w') :
    wp (reporting t names) free (samplePositions n k) (gives (fun _ w' => w'.ext = w.ext) K) w :=
  wp_weaken (fun _ _ h => h) hK (wp_still fun _ _ => rfl)

theorem wp_setMaxMds_before (n : Int) (hw : w.ext.killed = []) :
    wp (reporting t names) free (setMaxMds n)
      (gives (fun _ w' => w'.ext.killed = [] ∧ w'.ext.maxMds = n) fun w' => w'.ext.killed = []) w := by
  refine ⟨trivial, ?_⟩
  rintro (e | u) s x ⟨-, rfl⟩
  · exact hw
  · exact ⟨hw, rfl⟩

theorem wp_deactivate_before (rank : Int) (hw : w.ext.killed = []) :
    wp (reporting t names) free (deactivate rank)
      (gives (fun _ w' => w'.ext = w.ext) fun w' => w'.ext.killed = []) w := by
  unfold deactivate
  split
  · exact hw
  · split
    · exact hw
    · refine wp_stillCommand (fun _ _ => rfl) ?_
      rintro (e | u) w' h'
      · exact (congrArg Turn.killed h').trans hw
      · exact h'

theorem wp_changeMaxMds_before (hw : w.ext.killed = []) :
    wp (reporting t names) free (changeMaxMds t fuel w.ext.maxMds)
      (gives (fun st w' => ∃ n, n ≠ w.ext.maxMds ∧ w'.ext.Before t names st n)
        fun w' => w'.ext.killed = []) w := by
  have hkilled : ∀ {w' w'' : World mdsSig Unit Turn}, w'.ext.killed = [] → w''.ext = w'.ext →
      w''.ext.killed = [] := fun h' h'' => (congrArg Turn.killed h'').trans h'
  refine wp_seq (wp_sample samplePositions (options_nodup t w.ext.maxMds)
    (wp_samplePositions_before _ _ fun _ => hkilled hw) hw fun _ => hkilled hw) ?_
  rintro drawn w1 ⟨⟨-, hdrawn, hone⟩, h1⟩
  obtain ⟨n, rfl⟩ : ∃ n, drawn = [n] := length_eq_one_iff.mp (by omega)
  have hn : n ∈ options t w.ext.maxMds := hdrawn (.head _)
  rw [mem_options] at hn
  refine wp_seq (wp_setMaxMds_before _ (hkilled hw h1)) ?_
  rintro _ w2 ⟨hw2, hmax⟩
  refine wp_seq (wp_sample samplePositions (nodup_pyRange 1 w.ext.maxMds)
    (wp_samplePositions_before _ _ fun _ => hkilled hw2) hw2 fun _ => hkilled hw2) ?_
  rintro ranks w3 ⟨-, h3⟩
  have hdeactivate := wp_forEach_gives (E := reporting t names) (A := free) (f := deactivate)
    (K := fun w' => w'.ext.killed = []) (fun _ w' => w'.ext = w2.ext)
    (fun rank _ w' h' => wp_result (fun _ _ h => h.trans h')
      (wp_deactivate_before rank (hkilled hw2 h'))) ranks w3 h3
  refine wp_seq hdeactivate ?_
  intro _ w4 h4
  refine wp_seq (P := fun r w' => w'.ext.Before t names r.1 n) ?_ ?_
  · refine wp_seq (wp_fsStatus_before (hkilled hw2 h4)) ?_
    rintro st w5 ⟨h5, -⟩
    rw [h4, hmax] at h5
    exact wp_awaitStable none 0 h5
  · intro r w' h'
    exact ⟨n, by omega, h'⟩

theorem wp_thrashMaxMds_before (hw : w.ext.Before t names status m)
    (hmax : ∀ fs, status.getFsmap t.fsId = .ok fs → fs.maxMds = m) :
    wp (reporting t names) free (thrashMaxMds t fuel status)
      (gives (fun st w' => ∃ n, w'.ext.Before t names st n ∧
        (0 ≤ t.thrashMaxMds → options t m ≠ [] → n ≠ m)) fun w' => w'.ext.killed = []) w := by
  have hm := hw.maxMds_eq
  refine wp_seq (wp_weaken (fun _ _ h => h) ?_ wp_drawZero) ?_
  · intro w' h'
    exact (congrArg Turn.killed h').trans hw.killed_eq
  · rintro z w1 ⟨rfl, h1⟩
    rw [← h1] at hw hm
    split
    · cases hfs : status.getFsmap t.fsId with
      | error e => exact hw.killed_eq
      | ok fs =>
        rw [orThrow, Prog.ret_bind, hmax fs hfs]
        split
        · rw [← hm]
          refine wp_result ?_ (wp_changeMaxMds_before hw.killed_eq)
          rintro st w' ⟨n, hne, h'⟩
          exact ⟨n, h', fun _ _ => hne⟩
        · rename_i hnone
          exact ⟨m, hw, fun _ hsome => absurd hsome hnone⟩
    · rename_i hneg
      refine ⟨m, hw, fun hpos => absurd ?_ hneg⟩
      simpa using hpos

/-- A whole turn, from `maxMds` on. -/
structure Turn.Complete (t : MDSThrasher) (names : List String) (maxMds : Int) (x : Turn) : Prop where
  sound : x.Sound t names
  all_killed : ∀ name ∈ x.reported t.fsId, (weightOf t name).le 0 = false → name ∈ x.killed
  changed : 0 ≤ t.thrashMaxMds → options t maxMds ≠ [] → x.maxMds ≠ maxMds

theorem wp_thrashFs_turn (names : List String) (fuel : Nat) (hweights : t.thrashWeights ≠ none)
    (hw : w.ext.killed = []) : wp (reporting t names) free (thrashFs t fuel)
      (gives (fun _ w' => w'.ext.Complete t names w.ext.maxMds) fun w' => w'.ext.Sound t names) w := by
  have hearly : ∀ w' : World mdsSig Unit Turn, w'.ext.killed = [] → w'.ext.Sound t names :=
    fun _ => sound_of_killed_eq_nil
  refine wp_seq (wp_weaken (fun _ _ h => h) hearly (wp_fsStatus_before hw)) ?_
  rintro status w1 ⟨hbefore, hmax⟩
  refine wp_seq (wp_weaken (fun _ _ h => h) hearly (wp_thrashMaxMds_before hbefore hmax)) ?_
  rintro st w2 ⟨n, h2, hchanged⟩
  cases hfs : st.getFsmap t.fsId with
  | error e =>
    rw [FSStatus.getRanks, hfs]
    exact hearly w2 h2.killed_eq
  | ok fs =>
    have hranks : st.getRanks t.fsId = .ok (fs.info.filter fun info => 0 ≤ info.rank) := by
      rw [FSStatus.getRanks, hfs]
      rfl
    rw [hranks, orThrow, Prog.ret_bind]
    have hnames : ∀ info ∈ fs.info.filter fun info => 0 ≤ info.rank, info.name ∈ names :=
      fun info hinfo => h2.named fs hfs info (mem_filter.mp hinfo).1
    refine wp_result ?_
      (wp_thrashRanks hweights 0 hnames (sound_of_killed_eq_nil h2.killed_eq))
    rintro _ w' ⟨hsound, hthrough⟩
    refine ⟨hsound, ?_, ?_⟩
    · intro name hname hle
      rw [Turn.reported, hthrough.seen_eq, h2.seen_eq, Option.elim_some, hranks] at hname
      obtain ⟨info, hinfo, rfl⟩ := mem_map.mp hname
      exact hthrough.all_killed info hinfo hle
    · rw [hthrough.maxMds_eq, h2.maxMds_eq]
      exact hchanged

/-- The delay can be drawn: `randrange` takes a whole number above zero. -/
def Usable (t : MDSThrasher) : Prop :=
  t.randomize = true → t.maxThrashDelay.den = 1 ∧ 0 < t.maxThrashDelay

theorem thrashRound_refused (h : ¬ Usable t) : thrashRound t fuel = .throw .valueError := by
  unfold Usable at h
  push Not at h
  obtain ⟨hrandomize, hdelay⟩ := h
  have hdraw : drawDelay t t.maxThrashDelay = .throw .valueError := by
    rw [drawDelay, if_pos hrandomize, randrange]
    by_cases hden : t.maxThrashDelay.den = 1
    · rw [if_neg (by simp [hden]), if_pos (hdelay hden)]
      rfl
    · rw [if_pos (.inr hden)]
      rfl
  rw [thrashRound, hdraw]
  rfl

theorem wp_thrashRound_turn (hweights : t.thrashWeights ≠ none) (hw : w.ext.killed = []) :
    wp (reporting t names) free (thrashRound t fuel)
      (gives (fun _ w' => Usable t ∧ w'.ext.Complete t names w.ext.maxMds)
        fun w' => (w'.ext.killed ≠ [] → Usable t) ∧ w'.ext.Sound t names) w := by
  by_cases husable : Usable t
  · let I : Turn → Prop := fun x => x.killed = [] ∧ x.maxMds = w.ext.maxMds
    have hI : ∀ (o : Op) (r : o.Ans) x, o.idle = true → I x → I (o.onTurn r x) := by
      rintro o r x ho ⟨hkilled, hmax⟩
      cases o <;> first | exact ⟨hkilled, hmax⟩ | cases ho
      cases r with
      | ok st =>
        show I (x.shown (.ok st))
        rw [Turn.shown_ok hkilled]
        exact ⟨hkilled, hmax⟩
      | error e => exact ⟨hkilled, hmax⟩
    have hearly : ∀ w' : World mdsSig Unit Turn, I w'.ext →
        (w'.ext.killed ≠ [] → Usable t) ∧ w'.ext.Sound t names :=
      fun w' h' => ⟨fun _ => husable, sound_of_killed_eq_nil h'.1⟩
    have hfs : ∀ w' : World mdsSig Unit Turn, I w'.ext → wp (reporting t names) free (thrashFs t fuel)
        (gives (fun _ w' => Usable t ∧ w'.ext.Complete t names w.ext.maxMds)
          fun w' => (w'.ext.killed ≠ [] → Usable t) ∧ w'.ext.Sound t names) w' := by
      intro w' h'
      have hturn := wp_thrashFs_turn names fuel hweights h'.1
      rw [h'.2] at hturn
      exact wp_weaken (fun _ _ h => ⟨husable, h⟩) (fun _ h => ⟨fun _ => husable, h⟩) hturn
    refine wp_seq (wp_weaken (fun _ _ h => h) hearly
      (wp_idle I hI (uses_drawDelay t _) ⟨hw, rfl⟩)) fun delay w1 h1 => ?_
    split
    · refine wp_seq (P := fun _ w' => I w'.ext) ?_ fun _ w2 h2 => ?_
      · exact wp_weaken (fun _ w' h' => by rwa [h']) (fun w' h' => hearly w' (by rwa [h']))
          (wp_still fun _ _ => rfl)
      · refine ⟨trivial, ?_⟩
        rintro r s x ⟨rfl, rfl⟩
        exact hfs _ h2
    · exact hfs w1 h1
  · rw [thrashRound_refused husable]
    exact ⟨fun hne => absurd hw hne, sound_of_killed_eq_nil hw⟩

end Round

/-! ### An MDS without a weight -/

section Absent

variable {names : List String}

/-- All ranks held by MDSs of one name. -/
def crowd (t : MDSThrasher) (name : String) (maxMds : Int) : FSStatus :=
  ⟨[], [⟨t.fsId, maxMds,
    (List.range (maxMds.toNat + 1)).map fun i : Nat => ⟨name, i, i, .active, false⟩, []⟩]⟩

theorem crowd_getFsmap (maxMds : Int) : (crowd t name maxMds).getFsmap t.fsId = .ok ⟨t.fsId, maxMds,
      (List.range (maxMds.toNat + 1)).map fun i : Nat => ⟨name, i, i, .active, false⟩, []⟩ := by
  simp [crowd, FSStatus.getFsmap]

theorem reporting_crowd (hname : name ∈ names) (x : Turn) :
    reporting t names .status () x (.ok (crowd t name x.maxMds)) ()
      (x.shown (.ok (crowd t name x.maxMds))) := by
  refine ⟨?_, rfl⟩
  intro st hst
  cases hst
  refine ⟨?_, ?_⟩
  · intro fs hfs info hinfo
    rw [crowd_getFsmap] at hfs
    cases hfs
    obtain ⟨i, -, rfl⟩ := mem_map.mp hinfo
    exact hname
  · intro fs hfs
    rw [crowd_getFsmap] at hfs
    cases hfs
    rfl

theorem leads_op {r : o.Ans} (h : o.Reports t names x r) :
    Leads (reporting t names) (issue o) () x (.ret r) () (o.onTurn r x) :=
  .op ⟨h, rfl⟩ (.ret r)

theorem leads_crowd (hname : name ∈ names) :
    Leads (reporting t names) fsStatus () ⟨m, seen, []⟩ (.ret (crowd t name m)) ()
      ⟨m, some (crowd t name m), []⟩ :=
  Leads.bind (Leads.op (reporting_crowd hname _) (.ret _)) (.ret _)

theorem leads_drawNone {a b : Int} (hlt : a < b) :
    Leads (reporting t names) (randrange below a b) () x (.ret a) () x :=
  leads_randrange a b a (fun n i => leads_op (o := .below n) (r := i) trivial) ⟨le_refl a, hlt⟩

theorem leads_drawAny {population xs : List α} (hsub : xs ⊆ population) (hxs : xs.Nodup) :
    Leads (reporting t names) (sample samplePositions population xs.length) () x (.ret xs) () x :=
  leads_sample samplePositions (fun n k d => leads_op (o := .sample n k) (r := d) trivial) hsub hxs

theorem leads_stableCrowd (hname : name ∈ names) :
    Leads (reporting t names) (waitForStable t 1 none) () ⟨m, seen, []⟩ (.ret (crowd t name m, none)) ()
      ⟨m, some (crowd t name m), []⟩ := by
  refine (leads_crowd hname).bind ?_
  have hstable : stableIn t (crowd t name m) ⟨t.fsId, m,
      (List.range (m.toNat + 1)).map fun i : Nat => ⟨name, i, i, .active, false⟩, []⟩ none = some none := by
    have hcount : m ≤ ((m.toNat + 1 : Nat) : Int) := by omega
    simpa [stableIn, filter_map, countP_map, Function.comp_def] using hcount
  rw [awaitStable, crowd_getFsmap, orThrow, Prog.ret_bind, hstable]
  exact .ret _

theorem leads_deactivateAll {ranks : List Int} (hranks : ∀ rank ∈ ranks, 1 ≤ rank) :
    Leads (reporting t names) (forEach ranks deactivate) () x (.ret ()) () x := by
  refine Leads.forEach (fun _ => x) fun done rank rest hrank => ?_
  have hpos : 1 ≤ rank := hranks rank (by simp [← hrank])
  rw [deactivate, if_neg (by omega), if_neg (by omega)]
  exact Leads.bind (leads_op (o := .deactivate rank) (r := .ok ()) trivial) (.ret ())

theorem leads_changeMaxMds (hname : name ∈ names) {n : Int} (hn : n ∈ options t m) :
    Leads (reporting t names) (changeMaxMds t 1 m) () ⟨m, seen, []⟩ (.ret (crowd t name n)) ()
      ⟨n, some (crowd t name n), []⟩ := by
  have hbounds := mem_options.mp hn
  have hlength : max 0 (m - n) = (((pyRange 1 m).take (max 0 (m - n)).toNat).length : Int) := by
    rw [length_take, length_pyRange]
    omega
  have hone : [n] ⊆ options t m := cons_subset.mpr ⟨hn, nil_subset _⟩
  refine (leads_drawAny hone (nodup_singleton n)).bind ?_
  refine (Leads.bind (leads_op (o := .setMaxMds n) (r := .ok ()) trivial) (.ret ())).bind ?_
  simp only [headD_cons]
  rw [hlength]
  refine (leads_drawAny (take_subset _ _) ((nodup_pyRange 1 m).sublist (take_sublist _ _))).bind ?_
  refine (leads_deactivateAll fun rank hrank => ?_).bind ((leads_stableCrowd hname).bind (.ret _))
  exact (mem_pyRange.mp (take_subset _ _ hrank)).1

theorem leads_thrashMaxMds (hname : name ∈ names) (m : Int) :
    ∃ n, Leads (reporting t names) (thrashMaxMds t 1 (crowd t name m)) () ⟨m, some (crowd t name m), []⟩
      (.ret (crowd t name n)) () ⟨n, some (crowd t name n), []⟩ := by
  have hzero : Leads (reporting t names) (randrange below 0 1) () ⟨m, some (crowd t name m), []⟩
      (.ret 0) () ⟨m, some (crowd t name m), []⟩ := by
    simpa using leads_drawNone (a := 0) (b := 1) (by decide)
  by_cases hneg : ((0 : Int) : ℚ) ≤ t.thrashMaxMds
  · cases hoptions : options t m with
    | nil =>
      refine ⟨m, hzero.bind ?_⟩
      rw [if_pos hneg, crowd_getFsmap, orThrow, Prog.ret_bind, if_neg (by simp [hoptions])]
      exact .ret _
    | cons n rest =>
      refine ⟨n, hzero.bind ?_⟩
      rw [if_pos hneg, crowd_getFsmap, orThrow, Prog.ret_bind, if_pos (by simp [hoptions])]
      exact leads_changeMaxMds hname (by simp [hoptions])
  · refine ⟨m, hzero.bind ?_⟩
    rw [if_neg hneg]
    exact .ret _

theorem leads_thrashMds :
    Leads (reporting t names) (thrashMds t 1 info) () x (.exn (.command (.failed 1))) ()
      (x.kill info.name) := by
  have hkill : Leads (reporting t names) (killMds t info.name) () x (.ret ()) () (x.kill info.name) := by
    unfold killMds
    split
    · refine Leads.bind (Leads.bind (leads_op (o := .hasIpmi info.name) (r := true) trivial) (.ret ())) ?_
      exact Leads.bind (leads_op (o := .powerOff info.name) (r := .ok ()) trivial) (.ret ())
    · exact Leads.bind (leads_op (o := .stopDaemon info.name) (r := .ok ()) trivial) (.ret ())
  have hraise : ∀ y : Turn, Leads (reporting t names) fsStatus () y (.exn (.command (.failed 1))) () y :=
    fun y => Leads.bind (leads_op (o := .status) (r := .error (.failed 1)) (fun st hst => by cases hst))
      (.throw _)
  rw [thrashMds_eq]
  exact hkill.bind (Leads.bind_exn (Leads.bind_exn (Leads.bind_exn (hraise _))))

theorem crowd_getRanks (t : MDSThrasher) (name : String) (m : Int) :
    ∃ rest, (crowd t name m).getRanks t.fsId = .ok (⟨name, 0, 0, .active, false⟩ :: rest) := by
  rw [FSStatus.getRanks, crowd_getFsmap, range_succ_eq_map]
  exact ⟨_, rfl⟩

theorem leads_thrashRound (husable : Usable t)
    (h : Leads (reporting t names) (thrashFs t fuel) () x r () x') :
    Leads (reporting t names) (thrashRound t fuel) () x r () x' := by
  cases hrandomize : t.randomize with
  | true =>
    obtain ⟨hden, hpos⟩ := husable hrandomize
    have hwhole : ((t.maxThrashDelay.num : Int) : ℚ) = t.maxThrashDelay := Rat.den_eq_one_iff _ |>.mp hden
    have hdraw : Leads (reporting t names) (drawDelay t t.maxThrashDelay) () x
        (.ret (((0 : Int) : ℚ))) () x := by
      rw [drawDelay, if_pos hrandomize, ← hwhole]
      exact (leads_drawNone (a := 0) (Rat.num_pos.mpr hpos)).bind (.ret _)
    refine hdraw.bind ?_
    rw [if_neg (by simp)]
    exact h
  | false =>
    have hdraw : drawDelay t t.maxThrashDelay = .ret t.maxThrashDelay := if_neg (by simp [hrandomize])
    rw [thrashRound, hdraw, Prog.ret_bind]
    split
    · refine Leads.bind (leads_op (o := .stoppingWait _) (r := ()) trivial) ?_
      exact Leads.bind (leads_op (o := .isSet) (r := false) rfl) h
    · exact h

/-- **An MDS without a weight can be killed** in a turn whose delay can be drawn. -/
theorem leads_killAbsent (hweights : t.thrashWeights = some weights)
    (habsent : weights.lookup (label name) = none) (hname : name ∈ names) (husable : Usable t) (m : Int) :
    ∃ x, Leads (reporting t names) (thrashRound t 1) () (.start m) (.exn (.command (.failed 1))) () x ∧
      name ∈ x.killed := by
  obtain ⟨n, hchange⟩ := leads_thrashMaxMds (t := t) hname m
  obtain ⟨rest, hranks⟩ := crowd_getRanks t name n
  have hweight : ∀ z, (weightOf t name).le z = false := by
    intro z
    rw [weightOf, hweights, Option.elim_some, habsent]
    rfl
  have hfs : Leads (reporting t names) (thrashFs t 1) () (.start m) (.exn (.command (.failed 1))) ()
      ⟨n, some (crowd t name n), [name]⟩ := by
    refine (leads_crowd hname).bind (hchange.bind ?_)
    rw [hranks, orThrow, Prog.ret_bind, thrashRanks, if_neg (by simp [hweights])]
    refine (leads_drawNone (a := 0) (b := 1) (by decide)).bind ?_
    rw [hweight, if_neg Bool.false_ne_true]
    exact Leads.bind_exn leads_thrashMds
  exact ⟨_, leads_thrashRound husable hfs, .head _⟩

end Absent

theorem weightOf_le_zero (hweights : t.thrashWeights = some weights) {q : ℚ}
    (hq : weights.lookup (label name) = some q) : (weightOf t name).le 0 = decide (q ≤ 0) := by
  rw [weightOf, hweights, Option.elim_some, hq]
  simp [Weight.le]

theorem usable_of_killed {names : List String} {maxMds : Int} (hweights : t.thrashWeights ≠ none)
    {w : World mdsSig Unit Turn}
    (hrun : Exec (reporting t names) (thrashRound t fuel) ⟨(), .start maxMds, []⟩ r w)
    (hname : name ∈ w.ext.killed) : Usable t ∧ name ∈ names ∧ (weightOf t name).le 0 = false := by
  have hpost := wp_post (wp_thrashRound_turn hweights rfl) hrun
  cases r with
  | ret _ => exact ⟨hpost.1, hpost.2.sound name hname⟩
  | exn | cut => exact ⟨hpost.1 (ne_nil_of_mem hname), hpost.2 name hname⟩

/-- **What the documentation says holds** exactly when every MDS has a weight (or no delay can be drawn),
none strictly between 0 and 1, and `thrash_max_mds` is outside `[0, 1)` or leaves nothing to change. -/
theorem weights_documented_iff (t : MDSThrasher) (weights : Weights)
    (hweights : t.thrashWeights = some weights) (names : List String) (maxMds : Int) :
    ((∀ fuel r w, Exec (reporting t names) (thrashRound t fuel) ⟨(), .start maxMds, []⟩ r w →
        ∀ name ∈ w.ext.killed, ∃ q, weights.lookup (label name) = some q ∧ q ≠ 0) ∧
      (∀ name q, weights.lookup (label name) = some q → 0 < q → q < 1 →
        ∀ ranks : List String, name ∈ ranks → ranks ⊆ names →
          (∃ fuel r w, Exec (reporting t names) (thrashRound t fuel) ⟨(), .start maxMds, []⟩ r w ∧
            w.ext.reported t.fsId = ranks ∧ name ∈ w.ext.killed) ∧
          ∃ fuel w, Exec (reporting t names) (thrashRound t fuel) ⟨(), .start maxMds, []⟩ (.ret ()) w ∧
            w.ext.reported t.fsId = ranks ∧ name ∉ w.ext.killed) ∧
      (0 ≤ t.thrashMaxMds → t.thrashMaxMds < 1 → options t maxMds ≠ [] →
        ∃ fuel w, Exec (reporting t names) (thrashRound t fuel) ⟨(), .start maxMds, []⟩ (.ret ()) w ∧
          w.ext.maxMds = maxMds)) ↔
    (∀ name ∈ names, ∀ q, weights.lookup (label name) = some q → ¬ (0 < q ∧ q < 1)) ∧
      (Usable t → ∀ name ∈ names, weights.lookup (label name) ≠ none) ∧
      (0 ≤ t.thrashMaxMds → t.thrashMaxMds < 1 → options t maxMds = []) := by
  have hsome : t.thrashWeights ≠ none := by simp [hweights]
  constructor
  · rintro ⟨hkilled, hboth, hkept⟩
    refine ⟨?_, ?_, ?_⟩
    · rintro name hname q hq ⟨hpos, hlt⟩
      obtain ⟨-, fuel, w, hrun, hranks, hskipped⟩ :=
        hboth name q hq hpos hlt [name] (.head _) (by simpa using hname)
      have hpost := wp_post (wp_thrashRound_turn hsome rfl) hrun
      refine hskipped (hpost.2.all_killed name (by simp [hranks]) ?_)
      rw [weightOf_le_zero hweights hq, decide_eq_false_iff_not, not_le]
      exact hpos
    · intro husable name hname habsent
      obtain ⟨x, hleads, hx⟩ := leads_killAbsent hweights habsent hname husable maxMds
      obtain ⟨log, hrun⟩ := hleads []
      obtain ⟨q, hq, -⟩ := hkilled 1 _ _ hrun name hx
      rw [habsent] at hq
      cases hq
    · intro hpos hlt
      by_contra hoptions
      obtain ⟨fuel, w, hrun, hsame⟩ := hkept hpos hlt hoptions
      have hpost := wp_post (wp_thrashRound_turn hsome rfl) hrun
      exact hpost.2.changed hpos hoptions hsame
  · rintro ⟨hno, hall, hnone⟩
    refine ⟨?_, ?_, ?_⟩
    · intro fuel r w hrun name hname
      obtain ⟨husable, hmem, hle⟩ := usable_of_killed hsome hrun hname
      obtain ⟨q, hq⟩ := Option.ne_none_iff_exists'.mp (hall husable name hmem)
      rw [weightOf_le_zero hweights hq, decide_eq_false_iff_not, not_le] at hle
      exact ⟨q, hq, ne_of_gt hle⟩
    · intro name q hq hpos hlt ranks hname hsub
      exact absurd ⟨hpos, hlt⟩ (hno name (hsub hname) q hq)
    · exact fun hpos hlt hoptions => absurd (hnone hpos hlt) hoptions

def onlyA (q : ℚ) : Weights := Finmap.singleton "mds.a" q

def oneWeight (q : ℚ) : MDSThrasher := .ofConfig 0 1 { thrashWeights := some (onlyA q) }

theorem label_a : label "a" = "mds.a" := by decide

theorem weights_documented_whole : (oneWeight 1).thrashWeights = some (onlyA 1) ∧
      ∀ fuel r w, Exec (reporting (oneWeight 1) ["a"]) (thrashRound (oneWeight 1) fuel)
        ⟨(), .start 1, []⟩ r w → ∀ name ∈ w.ext.killed,
          ∃ q, (onlyA 1).lookup (label name) = some q ∧ q ≠ 0 := by
  refine ⟨rfl, ((weights_documented_iff (oneWeight 1) _ rfl ["a"] 1).mpr ⟨?_, ?_, ?_⟩).1⟩
  · intro name hname q hq
    rw [mem_singleton.mp hname, label_a, onlyA, Finmap.lookup_singleton_eq] at hq
    cases hq
    exact fun h => lt_irrefl _ h.2
  · intro _ name hname
    rw [mem_singleton.mp hname, label_a, onlyA, Finmap.lookup_singleton_eq]
    exact Option.some_ne_none _
  · exact fun _ _ => by decide +kernel

def handover (x : Turn) : FSStatus :=
  if x.killed = [] then
    ⟨[⟨"a", -1, 5, .standby, false⟩], [⟨0, x.maxMds, [⟨"b", 0, 4, .active, false⟩], []⟩]⟩
  else ⟨[⟨"b", -1, 4, .standby, true⟩], [⟨0, x.maxMds, [⟨"a", 0, 5, .active, false⟩], []⟩]⟩

def willing : (o : Op) → Turn → o.Ans
  | .isSet, _ => false
  | .stoppingWait _, _ => ()
  | .status, x => .ok (handover x)
  | .setMaxMds _, _ => .ok ()
  | .deactivate _, _ => .ok ()
  | .stopDaemon _, _ => .ok ()
  | .restartDaemon _, _ => .ok ()
  | .hasIpmi _, _ => true
  | .powerOff _, _ => .ok ()
  | .powerOn _, _ => .ok ()
  | .sleep _, _ => .ok ()
  | .below n, _ => (⟨0, Nat.succ_pos n⟩ : Fin (n + 1))
  | .sample n k, _ => Draw.first n k

def willingStep (o : Op) (_ : Unit) (x : Turn) : o.Ans × Unit × Turn :=
  (willing o x, (), o.onTurn (willing o x) x)

theorem reporting_willing (q : ℚ) (o : Op) (s : Unit) (x : Turn) :
    reporting (oneWeight q) ["a", "b"] o s x (willingStep o s x).1 (willingStep o s x).2.1
      (willingStep o s x).2.2 := by
  refine ⟨?_, rfl⟩
  cases o
  case isSet => rfl
  case status =>
    intro st hst
    cases hst
    unfold handover
    split
    all_goals
      refine ⟨fun fs hfs => ?_, fun fs hfs => ?_⟩
      all_goals cases hfs
      · simp
      · rfl
  all_goals exact trivial

/-- An MDS without a weight is killed, in a turn that goes as planned. -/
theorem absent_weight_killed :
    ∃ w, Exec (reporting (oneWeight (1 / 2)) ["a", "b"]) (thrashRound (oneWeight (1 / 2)) 1)
        ⟨(), .start 1, []⟩ (.ret ()) w ∧ (onlyA (1 / 2)).lookup (label "b") = none ∧
      w.ext.killed = ["b"] ∧ w.ext.maxMds = 1 := by
  have hrun := exec_runWith (reporting_willing (1 / 2)) (thrashRound (oneWeight (1 / 2)) 1)
    ⟨(), .start 1, []⟩
  have hret : (runWith willingStep (thrashRound (oneWeight (1 / 2)) 1) ⟨(), .start 1, []⟩).1 = .ret () := by
    decide +kernel
  rw [hret] at hrun
  exact ⟨_, hrun, by decide +kernel, by decide +kernel, by decide +kernel⟩

end ZbkcTasks.MdsThrash
