import Mathlib.Data.Finset.Range
import Mathlib.Order.Lattice.Nat
import ZbkcTasks.MdsMaxMds

/-! Which ranks the MDS thrasher deactivates. It draws them below the old `max_mds`, as if the active
ranks were always the lowest; that is so while there is only one to choose from. -/

namespace ZbkcTasks.MdsThrash

open List Prog

/-! ### The map -/

structure MdsMap where
  maxMds : Int
  active : Finset Nat

def lowestAbsent (ranks : Finset Nat) : Nat :=
  ((List.range (ranks.card + 1)).find? (· ∉ ranks)).getD 0

def grow : Nat → Finset Nat → Finset Nat
  | 0, ranks => ranks
  | k + 1, ranks => grow k (insert (lowestAbsent ranks) ranks)

theorem lowestAbsent_range (m : Nat) : lowestAbsent (Finset.range m) = m := by
  have hfind : (List.range (m + 1)).find? (fun r => decide (r ∉ Finset.range m)) = some m := by
    rw [find?_range_eq_some]
    simp
  rw [lowestAbsent, Finset.card_range, hfind]
  rfl

theorem grow_range (k m : Nat) : grow k (Finset.range m) = Finset.range (m + k) := by
  induction k generalizing m with
  | zero => rfl
  | succ k ih =>
    rw [grow, lowestAbsent_range, ← Finset.range_add_one, ih]
    congr 1
    omega

def MdsMap.setTo (x : MdsMap) (n : Int) : MdsMap :=
  ⟨n, if x.maxMds < n then grow (n.toNat - x.active.card) x.active else x.active⟩

def MdsMap.without (x : MdsMap) (rank : Int) : MdsMap := ⟨x.maxMds, x.active.erase rank.toNat⟩

def Op.onMap : Op → MdsMap → MdsMap
  | .setMaxMds n, x => x.setTo n
  | .deactivate rank, x => x.without rank
  | _, x => x

def Op.ShowsMap (fsId : Nat) (x : MdsMap) : (o : Op) → o.Ans → Prop
  | .status, r => ∀ st fs, r = .ok st → st.getFsmap fsId = .ok fs →
      fs.maxMds = x.maxMds ∧ ∀ rank : Nat, (∃ info ∈ fs.info, info.rank = rank) ↔ rank ∈ x.active
  | _, _ => True

/-- Every command is felt before the next one. One that raises may have been carried out or not. -/
def settling (t : MDSThrasher) : Env mdsSig Unit MdsMap :=
  fun o _ x r _ x' => o.ShowsMap t.fsId x r ∧ (x' = o.onMap x ∨ o.Failed r ∧ x' = x)

def fullMap (n : Int) : MdsMap := ⟨n, Finset.range n.toNat⟩

def OnlyActive (o : Op) (x : MdsMap) : Prop :=
  ∀ rank, o = .deactivate rank → ∃ k : Nat, rank = k ∧ k ∈ x.active

/-! ### One rank to choose from -/

variable {x x' : MdsMap} {o : Op} {a : Int} {r : o.Ans} {done : List Int}

section Two

variable {t : MDSThrasher}

/-- Between a change from `a` to `b` and the head of the loop, with at most two ranks. -/
def Shrinking (t : MDSThrasher) (a b : Int) (done : List Int) (x : MdsMap) : Prop :=
  (1 ≤ a ∧ a ≤ t.maxMds) ∧ (1 ≤ b ∧ b ≤ t.maxMds) ∧ x.maxMds = b ∧
    (a < b ∧ done = [] ∧ x.active = Finset.range b.toNat ∨
      b < a ∧ (done = [] ∧ x.active = Finset.range a.toNat ∨ done = [1] ∧ x.active = Finset.range b.toNat))

theorem settling_same {s : Unit} (ho : o.onMap x = x) (h : settling t o s x r s x') : x' = x := by
  rcases h.2 with hx | ⟨-, hx⟩
  · rw [hx, ho]
  · exact hx

theorem Op.onMap_quiet (ho : o.quiet = true) (x : MdsMap) : o.onMap x = x := by
  cases o <;> first | rfl | cases ho

theorem onlyActive_of_ne (ho : ∀ rank, o ≠ .deactivate rank) (x : MdsMap) : OnlyActive o x :=
  fun rank h => absurd h (ho rank)

theorem settling_cases {s s' : Unit} (h : settling t o s x r s' x') : x' = o.onMap x ∨ o.Failed r :=
  h.2.imp_right And.left

theorem shrinking_setTo {n : Int} (hbounds : 1 ≤ x.maxMds ∧ x.maxMds ≤ t.maxMds) (hx : x = fullMap x.maxMds)
    (hn : n ∈ options t x.maxMds) : Shrinking t x.maxMds n [] (x.setTo n) := by
  rw [mem_options] at hn
  have hactive : x.active = Finset.range x.maxMds.toNat := congrArg MdsMap.active hx
  refine ⟨hbounds, ⟨by omega, by omega⟩, rfl, ?_⟩
  by_cases hlt : x.maxMds < n
  · refine .inl ⟨hlt, rfl, ?_⟩
    simp only [MdsMap.setTo, if_pos hlt, hactive, Finset.card_range, grow_range]
    congr 1
    omega
  · refine .inr ⟨by omega, .inl ⟨rfl, ?_⟩⟩
    simp only [MdsMap.setTo, if_neg hlt, hactive]

theorem Shrinking.without (htwo : t.maxMds ≤ 2) {b rank : Int} (h : Shrinking t a b done x)
    (hpos : 1 ≤ rank) (hlt : rank < a) (hlen : (done.length : Int) < a - b) :
    OnlyActive (.deactivate rank) x ∧ Shrinking t a b (done ++ [rank]) (x.without rank) := by
  obtain ⟨ha, hb, hmax, ⟨hup, -⟩ | ⟨hdown, ⟨rfl, hactive⟩ | ⟨rfl, -⟩⟩⟩ := h
  · omega
  · obtain ⟨rfl, rfl, rfl⟩ : a = 2 ∧ b = 1 ∧ rank = 1 := by omega
    refine ⟨?_, ha, hb, hmax, .inr ⟨hdown, .inr ⟨rfl, ?_⟩⟩⟩
    · intro rank heq
      cases heq
      exact ⟨1, rfl, by rw [hactive]; decide⟩
    · simp only [MdsMap.without, hactive]
      decide
  · simp only [length_singleton, Nat.cast_one] at hlen
    omega

theorem Shrinking.full {b : Int} (h : Shrinking t a b done x) (hlen : (done.length : Int) = max 0 (a - b)) :
    (1 ≤ x.maxMds ∧ x.maxMds ≤ t.maxMds) ∧ x = fullMap x.maxMds := by
  obtain ⟨-, hb, hmax, hcase⟩ := h
  have hactive : x.active = Finset.range b.toNat := by
    obtain ⟨-, -, hactive⟩ | ⟨hdown, ⟨rfl, -⟩ | ⟨-, hactive⟩⟩ := hcase
    · exact hactive
    · simp only [length_nil, Nat.cast_zero] at hlen
      omega
    · exact hactive
  exact ⟨by rwa [hmax], by rw [fullMap, hmax, ← hactive, ← hmax]⟩

theorem settling_rule (htwo : t.maxMds ≤ 2) :
    MaxMdsRule t (settling t) (fun o _ x => OnlyActive o x) MdsMap.maxMds
      (fun x => (1 ≤ x.maxMds ∧ x.maxMds ≤ t.maxMds) ∧ x = fullMap x.maxMds)
      (Shrinking t) (fun _ => True) where
  bounds x hx := hx.1
  quiet_step o x ho _ := by
    refine ⟨onlyActive_of_ne ?_ x, fun r s x' h => settling_same (Op.onMap_quiet ho x) h⟩
    rintro rank rfl
    cases ho
  isSet_step x _ := ⟨onlyActive_of_ne (by simp) x, fun r s x' h => settling_same rfl h⟩
  sample_step n k x _ _ := ⟨onlyActive_of_ne (by simp) x, fun r s x' h => settling_same rfl h⟩
  status_true x st s x' h fs hfs := (h.1 st fs rfl hfs).1
  set_step n x hx hn := by
    refine ⟨onlyActive_of_ne (by simp) x, fun r s x' h => ⟨?_, trivial⟩⟩
    rintro rfl
    rcases settling_cases h with rfl | ⟨e, he⟩
    · exact shrinking_setTo hx.1 hx.2 hn
    · cases he
  deactivate_step a b done rank x hx hpos hlt _ hlen := by
    obtain ⟨honly, hnext⟩ := hx.without htwo hpos hlt hlen
    refine ⟨honly, fun r s x' h => ⟨?_, trivial⟩⟩
    rintro rfl
    rcases settling_cases h with rfl | ⟨e, he⟩
    · exact hnext
    · cases he
  settled a b done x hx hlen := hx.full hlen
  early _ _ := trivial

end Two

/-! ### More ranks -/

def calm (maxMds : Int) : MDSThrasher :=
  .ofConfig 0 maxMds { randomize := some false, thrashDelay := some (.int 0), maxThrash := some (.int 0) }

def showing (x : MdsMap) (ranks : List Nat) : FSStatus :=
  ⟨[], [⟨0, x.maxMds, ranks.map fun rank : Nat => ⟨"a", rank, rank, .active, false⟩, []⟩]⟩

theorem showing_getFsmap (x : MdsMap) (ranks : List Nat) : (showing x ranks).getFsmap 0 =
    .ok ⟨0, x.maxMds, ranks.map fun rank : Nat => ⟨"a", rank, rank, .active, false⟩, []⟩ := rfl

section Three

variable {maxMds : Int} {ranks : List Nat}

theorem settling_showing (hranks : ∀ rank, rank ∈ ranks ↔ rank ∈ x.active) :
    settling (calm maxMds) .status () x (.ok (showing x ranks)) () x := by
  refine ⟨?_, .inl rfl⟩
  intro st fs hst hfs
  cases hst
  rw [show (calm maxMds).fsId = 0 from rfl, showing_getFsmap] at hfs
  cases hfs
  refine ⟨rfl, fun rank => ?_⟩
  rw [← hranks rank]
  simp

theorem settling_total (o : Op) (s : Unit) (x : MdsMap) :
    ∃ r s' x', settling (calm maxMds) o s x r s' x' := by
  cases o
  case status =>
    have hranks : ∀ rank, rank ∈ x.active.toList ↔ rank ∈ x.active := by simp
    exact ⟨_, (), x, settling_showing hranks⟩
  case isSet => exact ⟨false, (), _, trivial, .inl rfl⟩
  case hasIpmi => exact ⟨false, (), _, trivial, .inl rfl⟩
  case stoppingWait => exact ⟨(), (), _, trivial, .inl rfl⟩
  case below n => exact ⟨(⟨0, Nat.succ_pos n⟩ : Fin (n + 1)), (), _, trivial, .inl rfl⟩
  case sample n k => exact ⟨Draw.first n k, (), _, trivial, .inl rfl⟩
  all_goals exact ⟨.ok (), (), _, trivial, .inl rfl⟩

theorem leads_issue (h : settling (calm maxMds) o () x r () x') :
    Leads (settling (calm maxMds)) (issue o) () x (.ret r) () x' :=
  .op h (.ret r)

theorem leads_fsStatus (hranks : ∀ rank, rank ∈ ranks ↔ rank ∈ x.active) :
    Leads (settling (calm maxMds)) fsStatus () x (.ret (showing x ranks)) () x :=
  (leads_issue (settling_showing hranks)).bind (.ret _)

theorem leads_sampleOf {α : Type} {population xs : List α} (hsub : xs ⊆ population) (hxs : xs.Nodup) :
    Leads (settling (calm maxMds)) (sample samplePositions population xs.length) () x (.ret xs) () x :=
  leads_sample samplePositions (fun n k _ => leads_issue (o := .sample n k) ⟨trivial, .inl rfl⟩) hsub hxs

theorem leads_setMaxMds (n : Int) :
    Leads (settling (calm maxMds)) (setMaxMds n) () x (.ret ()) () (x.setTo n) :=
  (leads_issue (o := .setMaxMds n) (r := .ok ()) ⟨trivial, .inl rfl⟩).bind (.ret ())

theorem leads_deactivate {rank : Int} (hpos : 1 ≤ rank) :
    Leads (settling (calm maxMds)) (deactivate rank) () x (.ret ()) () (x.without rank) := by
  rw [deactivate, if_neg (by omega), if_neg (by omega)]
  exact (leads_issue (o := .deactivate rank) (r := .ok ()) ⟨trivial, .inl rfl⟩).bind (.ret ())

theorem leads_isSet :
    Leads (settling (calm maxMds)) (do let stopped ← issue .isSet; .ret (!stopped)) () x (.ret true) () x :=
  (leads_issue (o := .isSet) (r := false) ⟨trivial, .inl rfl⟩).bind (.ret true)

theorem thrashRound_calm (fuel : Nat) : thrashRound (calm maxMds) fuel = thrashFs (calm maxMds) fuel := by
  have hdelay : drawDelay (calm maxMds) (calm maxMds).maxThrashDelay = .ret 0 := rfl
  rw [thrashRound, hdelay]
  simp

theorem leads_stable {fuel : Nat} (hranks : ∀ rank, rank ∈ ranks ↔ rank ∈ x.active)
    (hmany : x.maxMds ≤ ranks.length) :
    Leads (settling (calm maxMds)) (waitForStable (calm maxMds) (fuel + 1) none) () x
      (.ret (showing x ranks, none)) () x := by
  refine (leads_fsStatus hranks).bind ?_
  have hstable : stableIn (calm maxMds) (showing x ranks)
      ⟨0, x.maxMds, ranks.map fun rank : Nat => ⟨"a", rank, rank, .active, false⟩, []⟩ none =
        some none := by
    simp [stableIn, filter_map, countP_map, Function.comp_def, hmany]
  rw [awaitStable, show (calm maxMds).fsId = 0 from rfl, showing_getFsmap, orThrow, Prog.ret_bind, hstable]
  exact .ret _

theorem leads_drawZero : Leads (settling (calm maxMds)) (randrange below 0 1) () x (.ret 0) () x := by
  have hbelow : ∀ n i, Leads (settling (calm maxMds)) (below n) () x (.ret i) () x :=
    fun n _ => leads_issue (o := .below n) ⟨trivial, .inl rfl⟩
  have hdraw := leads_randrange 0 1 0 hbelow (by decide)
  simpa using hdraw

theorem thrashMaxMds_calm (fuel : Nat) (hoptions : options (calm maxMds) x.maxMds ≠ []) :
    thrashMaxMds (calm maxMds) fuel (showing x ranks) = randrange below 0 1 >>= fun n =>
      if (n : ℚ) ≤ 1 / 4 then changeMaxMds (calm maxMds) fuel x.maxMds else .ret (showing x ranks) := by
  have hlt : (calm maxMds).thrashMaxMds = 1 / 4 := rfl
  have hid : (calm maxMds).fsId = 0 := rfl
  simp only [thrashMaxMds, hlt, hid, showing_getFsmap, orThrow, Prog.ret_bind, if_pos hoptions]

theorem changes_at_zero {p q : M FSStatus} : (if ((0 : Int) : ℚ) ≤ 1 / 4 then p else q) = p :=
  if_pos (by norm_num)

theorem pred_mem_options (ha : 2 ≤ a) : a - 1 ∈ options (calm maxMds) a := by
  rw [mem_options]
  exact .inl ⟨by omega, by omega⟩

theorem leads_noKill (x : MdsMap) (ranks : List Nat) :
    Leads (settling (calm maxMds))
      (do
        let infos ← orThrow ((showing x ranks).getRanks (calm maxMds).fsId)
        thrashRanks (calm maxMds) 1 0 infos)
      () x (.ret ()) () x := by
  rw [FSStatus.getRanks, show (calm maxMds).fsId = 0 from rfl, showing_getFsmap]
  refine Leads.bind (.ret _) ?_
  cases ranks with
  | nil | cons => exact .ret ()

theorem mem_erase_range (rank : Nat) :
    rank ∈ (List.range maxMds.toNat).erase 1 ↔ rank ∈ (Finset.range maxMds.toNat).erase 1 := by
  rw [nodup_range.mem_erase_iff, Finset.mem_erase, mem_range, Finset.mem_range]

theorem leads_drawLower (ha : 2 ≤ a) :
    Leads (settling (calm maxMds)) (sample samplePositions (options (calm maxMds) a) 1) () x
      (.ret [a - 1]) () x :=
  leads_sampleOf (cons_subset.mpr ⟨pred_mem_options ha, nil_subset _⟩) (nodup_singleton _)

theorem leads_drawOne (ha : 2 ≤ a) :
    Leads (settling (calm maxMds)) (sample samplePositions (pyRange 1 a) (max 0 (a - (a - 1)))) () x
      (.ret [1]) () x := by
  have hone : max 0 (a - (a - 1)) = (([1] : List Int).length : Int) := by simp
  rw [hone]
  refine leads_sampleOf (cons_subset.mpr ⟨?_, nil_subset _⟩) (nodup_singleton _)
  rw [mem_pyRange]
  omega

theorem leads_lower (hx : 3 ≤ maxMds) :
    Leads (settling (calm maxMds)) (thrashRound (calm maxMds) 1) () (fullMap maxMds) (.ret ()) ()
      ⟨maxMds - 1, (Finset.range maxMds.toNat).erase 1⟩ := by
  have hranks : ∀ rank, rank ∈ List.range maxMds.toNat ↔ rank ∈ (fullMap maxMds).active := by
    simp [fullMap]
  have hset : (fullMap maxMds).setTo (maxMds - 1) = ⟨maxMds - 1, Finset.range maxMds.toNat⟩ := by
    rw [MdsMap.setTo, if_neg (by simp [fullMap])]
    rfl
  have hcount : maxMds - 1 ≤ ((List.range maxMds.toNat).erase 1).length := by
    rw [length_erase_of_mem (mem_range.mpr (by omega)), length_range]
    omega
  have hdeactivate : Leads (settling (calm maxMds)) (forEach [1] deactivate) ()
      ⟨maxMds - 1, Finset.range maxMds.toNat⟩ (.ret ()) ()
      ⟨maxMds - 1, (Finset.range maxMds.toNat).erase 1⟩ := (leads_deactivate (le_refl 1)).bind (.ret ())
  have hchange : Leads (settling (calm maxMds)) (changeMaxMds (calm maxMds) 1 maxMds) ()
      (fullMap maxMds) (.ret (showing ⟨maxMds - 1, (Finset.range maxMds.toNat).erase 1⟩
        ((List.range maxMds.toNat).erase 1))) () ⟨maxMds - 1, (Finset.range maxMds.toNat).erase 1⟩ := by
    refine (leads_drawLower (by omega)).bind ?_
    refine (hset ▸ leads_setMaxMds (x := fullMap maxMds) (maxMds - 1)).bind ?_
    exact (leads_drawOne (by omega)).bind
      (hdeactivate.bind ((leads_stable mem_erase_range hcount).bind (.ret _)))
  have hoptions : options (calm maxMds) (fullMap maxMds).maxMds ≠ [] :=
    ne_nil_of_mem (pred_mem_options (by simpa [fullMap] using Int.le_trans (by decide) hx))
  rw [thrashRound_calm]
  refine (leads_fsStatus hranks).bind (Leads.bind ?_ (leads_noKill _ ((List.range maxMds.toNat).erase 1)))
  rw [thrashMaxMds_calm 1 hoptions]
  refine leads_drawZero.bind ?_
  rw [changes_at_zero]
  exact hchange

end Three

/-- **Only active ranks are deactivated exactly when there are at most two.** From three on, rank 1 may be
deactivated twice, on two ways down by one. -/
theorem deactivated_ranks_active_iff (s : Int) (hs : 1 ≤ s) :
    (∀ t : MDSThrasher, t.maxMds = s → ∀ (fuel n : Nat) (r : Outcome PyError Unit)
      (w : World mdsSig Unit MdsMap), Exec (settling t) (doThrash t fuel n) ⟨(), fullMap s, []⟩ r w →
        ∀ e ∈ w.log, OnlyActive e.op e.ext) ↔ s ≤ 2 := by
  constructor
  · intro h
    by_contra hmany
    have hx : 3 ≤ s := by omega
    have hwp : wp (settling (calm s)) (fun o _ x => OnlyActive o x) (doThrash (calm s) 1 2)
        (fun _ _ => True) ⟨(), fullMap s, []⟩ := wp_of_events settling_total (h (calm s) rfl 1 2)
    obtain ⟨_, h1⟩ := leads_isSet.wp_rest hwp
    obtain ⟨_, h2⟩ := (leads_lower hx).wp_rest h1
    obtain ⟨_, h3⟩ := leads_isSet.wp_rest h2
    have hy : 2 ≤ s - 1 := by omega
    have hround := wp_bind.mp h3
    rw [thrashRound_calm] at hround
    obtain ⟨_, h4⟩ := (leads_fsStatus mem_erase_range).wp_rest hround
    have hchange := wp_bind.mp h4
    rw [thrashMaxMds_calm 1 (ne_nil_of_mem (pred_mem_options hy))] at hchange
    obtain ⟨_, h5⟩ := leads_drawZero.wp_rest hchange
    rw [changes_at_zero] at h5
    obtain ⟨_, h6⟩ := (leads_drawLower hy).wp_rest h5
    obtain ⟨_, h7⟩ := (leads_setMaxMds _).wp_rest h6
    obtain ⟨_, h8⟩ := (leads_drawOne hy).wp_rest h7
    obtain ⟨k, hk, hactive⟩ := (show OnlyActive (.deactivate 1) _ from h8.1) 1 rfl
    have hlower : ¬ s - 1 < s - 1 - 1 := by omega
    obtain rfl : k = 1 := by omega
    simp [MdsMap.setTo, hlower] at hactive
  · rintro htwo t rfl fuel n r w hrun
    exact wp_events ((settling_rule htwo).wp_doThrash _ n ⟨⟨hs, le_refl _⟩, rfl⟩) hrun rfl

theorem deactivated_ranks_active_two :
    (1 : Int) ≤ 2 ∧ ∀ t : MDSThrasher, t.maxMds = 2 → ∀ (fuel n : Nat) (r : Outcome PyError Unit)
      (w : World mdsSig Unit MdsMap), Exec (settling t) (doThrash t fuel n) ⟨(), fullMap 2, []⟩ r w →
        ∀ e ∈ w.log, OnlyActive e.op e.ext :=
  ⟨by decide, (deactivated_ranks_active_iff 2 (by decide)).mpr (le_refl 2)⟩

def MdsMap.ranks (x : MdsMap) : List Nat := (List.range (x.active.sup id + 1)).filter (· ∈ x.active)

/-- Every command succeeds. While there are three ranks the last position is drawn, later the first. -/
def slipping : (o : Op) → Unit → MdsMap → o.Ans × Unit × MdsMap
  | .isSet, _, x => (false, (), x)
  | .stoppingWait _, _, x => ((), (), x)
  | .status, _, x => (.ok (showing x x.ranks), (), x)
  | .setMaxMds n, _, x => (.ok (), (), x.setTo n)
  | .deactivate rank, _, x => (.ok (), (), x.without rank)
  | .stopDaemon _, _, x => (.ok (), (), x)
  | .restartDaemon _, _, x => (.ok (), (), x)
  | .hasIpmi _, _, x => (true, (), x)
  | .powerOff _, _, x => (.ok (), (), x)
  | .powerOn _, _, x => (.ok (), (), x)
  | .sleep _, _, x => (.ok (), (), x)
  | .below n, _, x => ((⟨0, Nat.succ_pos n⟩ : Fin (n + 1)), (), x)
  | .sample n k, _, x => (if x.maxMds = 3 then Draw.last n k else Draw.first n k, (), x)

theorem settling_slipping (maxMds : Int) (o : Op) (s : Unit) (x : MdsMap) :
    settling (calm maxMds) o s x (slipping o s x).1 (slipping o s x).2.1 (slipping o s x).2.2 := by
  cases o
  case status =>
    refine settling_showing fun rank => ?_
    simp only [MdsMap.ranks, mem_filter, mem_range, decide_eq_true_eq, and_iff_right_iff_imp]
    exact fun h => Nat.lt_succ_of_le (Finset.le_sup (f := id) h)
  all_goals exact ⟨trivial, .inl rfl⟩

def Op.missing : Op → MdsMap → Bool
  | .deactivate rank, x => decide (rank.toNat ∉ x.active)
  | _, _ => false

theorem not_onlyActive_of_missing (h : o.missing x = true) : ¬ OnlyActive o x := by
  cases o <;> first | cases h | skip
  rename_i rank
  intro honly
  obtain ⟨k, rfl, hk⟩ := honly rank rfl
  exact of_decide_eq_true h hk

/-- From three ranks to two by deactivating rank 1; then from two to one by deactivating it again. -/
theorem rank_one_deactivated_twice :
    ∃ r w, Exec (settling (calm 3)) (doThrash (calm 3) 1 2) ⟨(), fullMap 3, []⟩ r w ∧
      ∃ e ∈ w.log, ¬ OnlyActive e.op e.ext := by
  have hrun := exec_runWith (settling_slipping 3) (doThrash (calm 3) 1 2) ⟨(), fullMap 3, []⟩
  have hany : (runWith slipping (doThrash (calm 3) 1 2) ⟨(), fullMap 3, []⟩).2.log.any
      fun e => e.op.missing e.ext := by
    decide +kernel
  obtain ⟨e, he, hmissing⟩ := any_eq_true.mp hany
  exact ⟨_, _, hrun, e, he, not_onlyActive_of_missing hmissing⟩

end ZbkcTasks.MdsThrash
