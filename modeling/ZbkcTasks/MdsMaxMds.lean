import ZbkcTasks.MdsThrash

/-! The changes of `max_mds` that the MDS thrasher makes. What has to be known of an environment to carry
an invariant through any run is the `MaxMdsRule`; here it carries the bounds of `max_mds`. -/

namespace ZbkcTasks.MdsThrash

open List Prog

/-! ### Ranges -/

theorem length_pyRange (start stop : Int) : (pyRange start stop).length = (stop - start).toNat := by
  rw [pyRange, length_map, length_range]

theorem mem_options {t : MDSThrasher} {maxMds n : Int} :
    n ∈ options t maxMds ↔ 1 ≤ n ∧ n < maxMds ∨ maxMds < n ∧ n ≤ t.maxMds := by
  rw [options, mem_append, mem_pyRange, mem_pyRange]
  omega

theorem options_nodup (t : MDSThrasher) (maxMds : Int) : (options t maxMds).Nodup := by
  rw [options, nodup_append]
  refine ⟨nodup_pyRange _ _, nodup_pyRange _ _, fun n hn m hm => ?_⟩
  rw [mem_pyRange] at hn hm
  omega

/-! ### The rule -/

def Op.quiet : Op → Bool
  | .isSet => false
  | .setMaxMds _ => false
  | .deactivate _ => false
  | .sample _ _ => false
  | _ => true

def quiet : Usage mdsSig Unit PyError :=
  ⟨fun o => o.quiet = true, fun _ => False, fun _ => True, fun _ => True⟩

def Op.idle : Op → Bool
  | .stopDaemon _ => false
  | .powerOff _ => false
  | o => o.quiet

def idle : Usage mdsSig Unit PyError :=
  ⟨fun o => o.idle = true, fun _ => False, fun _ => True, fun _ => True⟩

/-- `I` holds at the head of the loop, `D a b done` when `max_mds` has been changed from `a` to `b` and
`done` deactivated, and `K` wherever a run ends early. -/
structure MaxMdsRule {η : Type} (t : MDSThrasher) (E : Env mdsSig Unit η) (A : Op → Unit → η → Prop)
    (mx : η → Int) (I : η → Prop) (D : Int → Int → List Int → η → Prop) (K : η → Prop) : Prop where
  bounds : ∀ x, I x → 1 ≤ mx x ∧ mx x ≤ t.maxMds
  quiet_step : ∀ o x, o.quiet = true → (I x ∨ ∃ a b done, D a b done x) →
    A o () x ∧ ∀ r s x', E o () x r s x' → x' = x
  isSet_step : ∀ x, I x → A .isSet () x ∧ ∀ r s x', E .isSet () x r s x' → x' = x
  sample_step : ∀ n k x, k ≤ n → (I x ∨ ∃ a b done, D a b done x) →
    A (.sample n k) () x ∧ ∀ r s x', E (.sample n k) () x r s x' → x' = x
  status_true : ∀ x st s x', E .status () x (.ok st) s x' →
    ∀ fs, st.getFsmap t.fsId = .ok fs → fs.maxMds = mx x
  set_step : ∀ n x, I x → n ∈ options t (mx x) →
    A (.setMaxMds n) () x ∧ ∀ r s x', E (.setMaxMds n) () x r s x' →
      (r = .ok () → D (mx x) n [] x') ∧ K x'
  deactivate_step : ∀ a b done rank x, D a b done x → 1 ≤ rank → rank < a → rank ∉ done →
    (done.length : Int) < a - b → A (.deactivate rank) () x ∧
      ∀ r s x', E (.deactivate rank) () x r s x' → (r = .ok () → D a b (done ++ [rank]) x') ∧ K x'
  settled : ∀ a b done x, D a b done x → (done.length : Int) = max 0 (a - b) → I x
  early : ∀ x, (I x ∨ ∃ a b done, D a b done x) → K x

variable {α : Type} {p : M α} {o : Op} {η : Type} {t : MDSThrasher} {E : Env mdsSig Unit η}
  {A : Op → Unit → η → Prop} {mx : η → Int} {I : η → Prop} {D : Int → Int → List Int → η → Prop}
  {K : η → Prop} {w : World mdsSig Unit η} {fuel : Nat}

namespace MaxMdsRule

theorem wp_quiet (h : MaxMdsRule t E A mx I D K) (hp : Uses quiet p)
    (hw : I w.ext ∨ ∃ a b done, D a b done w.ext) :
    wp E A p (gives (fun _ w' => w'.ext = w.ext) fun w' => w'.ext = w.ext) w := by
  have hop : ∀ (o : Op) (w' : World mdsSig Unit η), quiet.ops o → w'.ext = w.ext →
      A o w'.st w'.ext ∧ ∀ r s x, E o w'.st w'.ext r s x → (w'.push (S := mdsSig) o r s x).ext = w.ext := by
    intro o w' ho hw'
    obtain ⟨hA, hstep⟩ := h.quiet_step o w'.ext ho (hw' ▸ hw)
    exact ⟨hA, fun r s x hE => (hstep r s x hE).trans hw'⟩
  exact wp_gives_of_settles (Uses.wp (U := quiet) (fun _ h => h) (fun _ _ => trivial) hop
    (fun _ _ h => h.elim) hp w rfl)

end MaxMdsRule

/-! ### What the statements use -/

theorem Op.quiet_of_idle (ho : o.idle = true) : o.quiet = true := by
  cases o <;> first | rfl | cases ho

theorem uses_quiet (hp : Uses idle p) : Uses quiet p := by
  apply hp.mono
  · exact fun _ => Op.quiet_of_idle
  all_goals exact fun _ h => h

theorem idle_throws (e : PyError) : idle.throws e := trivial

theorem uses_issue (ho : o.idle = true) : Uses idle (issue o) := .op ho fun r => .ret r

theorem uses_command {β : Type} {p : M (Except CommandError β)} (hp : Uses idle p) :
    Uses idle (p >>= ofCommand) :=
  hp.bind (uses_ofCommand idle_throws)

theorem uses_sleep (d : ℚ) : Uses idle (sleep d) := uses_command (uses_issue rfl)

theorem uses_fsStatus : Uses idle fsStatus := uses_command (uses_issue rfl)

theorem uses_below (n : Nat) : Uses idle (below n) := uses_issue rfl

theorem uses_randrange_below (a b : ℚ) : Uses idle (randrange below a b) :=
  uses_randrange idle_throws uses_below a b

theorem uses_assertIpmi (mds : String) : Uses idle (assertIpmi mds) :=
  (uses_issue rfl).bind fun _ => uses_pyAssert idle_throws _ _

section Uses

variable (t : MDSThrasher)

theorem uses_reviveMds (mds : String) : Uses idle (reviveMds t mds) :=
  .ite ((uses_assertIpmi mds).bind fun _ => (uses_command (uses_issue rfl)).bind fun _ => .throw trivial)
    (uses_command (uses_issue rfl))

theorem uses_awaitStable (want : Option (Int × Nat)) (fuel itercount : Nat) (status : FSStatus) :
    Uses idle (awaitStable t want fuel itercount status) := by
  induction fuel generalizing itercount status with
  | zero => exact .cut
  | succ fuel ih =>
    refine (uses_orThrow idle_throws _).bind fun fs => ?_
    cases stableIn t status fs want with
    | some name => exact .ret _
    | none =>
      exact (uses_onlyIf (uses_fsStatus.bind fun _ => .ret ())).bind fun _ =>
        (uses_sleep 2).bind fun _ => uses_fsStatus.bind fun status => ih _ status

theorem uses_waitForStable (fuel : Nat) (want : Option (Int × Nat)) :
    Uses idle (waitForStable t fuel want) :=
  uses_fsStatus.bind fun status => uses_awaitStable t want fuel 0 status

theorem uses_seenDown (name : String) (status : FSStatus) : Uses idle (seenDown t name status) := by
  unfold seenDown
  cases status.getMds name with
  | none => exact .ret true
  | some info => exact .ite (.ret true) ((uses_orThrow idle_throws _).bind fun _ => .ret _)

theorem uses_drawDelay (delay : ℚ) : Uses idle (drawDelay t delay) :=
  .ite ((uses_randrange_below _ _).bind fun _ => .ret _) (.ret _)

def replaceMds (fuel : Nat) (info : MdsInfo) : M Unit := do
  whileDo (do let status ← fsStatus; let down ← seenDown t info.name status; .ret (!down)) (sleep 2) fuel
  let _ ← waitForStable t fuel (some (info.rank, info.gid))
  let delay ← drawDelay t t.maxReviveDelay
  sleep delay
  reviveMds t info.name
  whileDo (do let status ← fsStatus; .ret (!seenStandby info.name status)) (sleep 2) fuel

theorem thrashMds_eq (fuel : Nat) (info : MdsInfo) :
    thrashMds t fuel info = killMds t info.name >>= fun _ => replaceMds t fuel info := rfl

theorem uses_replaceMds (fuel : Nat) (info : MdsInfo) : Uses idle (replaceMds t fuel info) := by
  have hdown : Uses idle (do
      let status ← fsStatus; let down ← seenDown t info.name status; .ret (!down)) :=
    uses_fsStatus.bind fun status => (uses_seenDown t _ status).bind fun _ => .ret _
  have hstandby : Uses idle (do
      let status ← fsStatus; .ret (!seenStandby info.name status)) := uses_fsStatus.bind fun _ => .ret _
  exact (hdown.whileDo (uses_sleep 2) fuel).bind fun _ =>
    (uses_waitForStable t fuel _).bind fun _ => (uses_drawDelay t _).bind fun _ =>
    (uses_sleep _).bind fun _ => (uses_reviveMds t _).bind fun _ => hstandby.whileDo (uses_sleep 2) fuel

theorem uses_killMds (mds : String) : Uses quiet (killMds t mds) := by
  have hcommand : ∀ {o : Op} {β : Type} (ho : o.quiet = true) (k : o.Ans → M β),
      (∀ r, Uses quiet (k r)) → Uses quiet (issue o >>= k) :=
    fun ho k hk => Uses.bind (.op ho fun r => .ret r) hk
  refine .ite ((uses_quiet (uses_assertIpmi mds)).bind fun _ => ?_) ?_
  · exact hcommand (o := .powerOff mds) rfl ofCommand (uses_ofCommand fun _ => trivial)
  · exact hcommand (o := .stopDaemon mds) rfl ofCommand (uses_ofCommand fun _ => trivial)

theorem uses_thrashRanks (fuel : Nat) (count : Int) (infos : List MdsInfo) :
    Uses quiet (thrashRanks t fuel count infos) := by
  induction infos generalizing count with
  | nil => exact .ret ()
  | cons info infos ih =>
    refine .ite (.ret ()) ((uses_quiet (uses_randrange_below _ _)).bind fun _ => .ite (ih _) ?_)
    exact ((uses_killMds t _).bind fun _ => uses_quiet (uses_replaceMds t fuel info)).bind fun _ => ih _

end Uses

/-! ### Carrying an invariant through a run -/

namespace MaxMdsRule

variable (h : MaxMdsRule t E A mx I D K)
include h

theorem wp_keep (hp : Uses quiet p) (hw : I w.ext) :
    wp E A p (gives (fun _ w' => w'.ext = w.ext) fun w' => K w'.ext) w :=
  wp_weaken (fun _ _ h => h) (fun w' h' => by rw [h']; exact h.early _ (.inl hw))
    (h.wp_quiet hp (.inl hw))

theorem wp_fsStatus (hw : I w.ext) : wp E A fsStatus (gives (fun st w' =>
      (∀ fs, st.getFsmap t.fsId = .ok fs → fs.maxMds = mx w.ext) ∧ w'.ext = w.ext)
        fun w' => K w'.ext) w := by
  obtain ⟨hA, hstep⟩ := h.quiet_step .status w.ext rfl (.inl hw)
  refine ⟨hA, ?_⟩
  rintro (e | st) s x hE
  · have hx := hstep _ s x hE
    subst hx
    exact h.early _ (.inl hw)
  · exact ⟨fun fs hfs => h.status_true _ st s x hE fs hfs, hstep _ s x hE⟩

theorem wp_samplePositions {n k : Nat} (hk : k ≤ n) (hw : I w.ext ∨ ∃ a b done, D a b done w.ext) :
    wp E A (samplePositions n k) (gives (fun _ w' => w'.ext = w.ext) fun w' => w'.ext = w.ext) w := by
  obtain ⟨hA, hstep⟩ := h.sample_step n k w.ext hk hw
  exact ⟨hA, fun r s x hE => hstep r s x hE⟩

theorem wp_setMaxMds {n : Int} (hw : I w.ext) (hn : n ∈ options t (mx w.ext)) :
    wp E A (setMaxMds n) (gives (fun _ w' => D (mx w.ext) n [] w'.ext) fun w' => K w'.ext) w := by
  obtain ⟨hA, hstep⟩ := h.set_step n w.ext hw hn
  refine ⟨hA, ?_⟩
  rintro (e | _) s x hE
  · exact (hstep _ s x hE).2
  · exact (hstep _ s x hE).1 rfl

theorem wp_deactivate {a b rank : Int} {done : List Int}
    (hw : D a b done w.ext) (hpos : 1 ≤ rank) (hlt : rank < a) (hnew : rank ∉ done)
    (hlen : (done.length : Int) < a - b) :
    wp E A (deactivate rank) (gives (fun _ w' => D a b (done ++ [rank]) w'.ext) fun w' => K w'.ext) w := by
  rw [deactivate, if_neg (by omega), if_neg (by omega)]
  obtain ⟨hA, hstep⟩ := h.deactivate_step a b done rank w.ext hw hpos hlt hnew hlen
  refine ⟨hA, ?_⟩
  rintro (e | _) s x hE
  · exact (hstep _ s x hE).2
  · exact (hstep _ s x hE).1 rfl

theorem wp_deactivateAll {a b : Int} {ranks : List Int}
    (hnodup : ranks.Nodup) (hsub : ranks ⊆ pyRange 1 a) (hlen : (ranks.length : Int) = max 0 (a - b))
    (hw : D a b [] w.ext) :
    wp E A (forEach ranks deactivate) (gives (fun _ w' => D a b ranks w'.ext) fun w' => K w'.ext) w := by
  let J : List Int → World mdsSig Unit η → Prop := fun rest w =>
    ∃ done, done ++ rest = ranks ∧ D a b done w.ext
  refine wp_result (fun _ w' h' => ?_) (wp_forEach_gives J ?_ ranks w ⟨[], rfl, hw⟩)
  · obtain ⟨done, hdone, hD⟩ := h'
    rw [append_nil] at hdone
    rwa [← hdone]
  · rintro rank rest w' ⟨done, hdone, hD⟩
    have hmem : rank ∈ pyRange 1 a := hsub (by simp [← hdone])
    have hnew : rank ∉ done := by
      rw [← hdone, nodup_append] at hnodup
      exact fun hmem => hnodup.2.2 rank hmem rank (.head _) rfl
    have hlen' : (done.length : Int) < a - b := by
      have htotal := congrArg List.length hdone
      rw [length_append, length_cons] at htotal
      omega
    rw [mem_pyRange] at hmem
    refine wp_result (fun _ w'' h'' => ⟨done ++ [rank], ?_, h''⟩)
      (h.wp_deactivate hD hmem.1 hmem.2 hnew hlen')
    rw [← hdone, append_assoc]
    rfl

theorem wp_changeMaxMds (hw : I w.ext) (hoptions : options t (mx w.ext) ≠ []) :
    wp E A (changeMaxMds t fuel (mx w.ext)) (gives (fun _ w' => I w'.ext) fun w' => K w'.ext) w := by
  have hbounds := h.bounds _ hw
  have hone : (1 : Int).toNat ≤ (options t (mx w.ext)).length := length_pos_of_ne_nil hoptions
  have hdraw := wp_sample samplePositions (k := 1) (options_nodup t _)
    (h.wp_samplePositions hone (.inl hw)) rfl fun _ h => h
  refine wp_seq (wp_weaken (fun _ _ h => h)
    (fun w' h' => by rw [h']; exact h.early _ (.inl hw)) hdraw) fun drawn w1 h1 => ?_
  obtain ⟨⟨-, hsub, hlen⟩, h1⟩ := h1
  obtain ⟨n, rfl⟩ : ∃ n, drawn = [n] := length_eq_one_iff.mp (by omega)
  have hn : n ∈ options t (mx w.ext) := hsub (.head _)
  have hn' := mem_options.mp hn
  rw [← h1] at hw hn ⊢
  refine wp_seq (h.wp_setMaxMds hw hn) fun _ w2 h2 => ?_
  rw [h1] at h2 ⊢
  have hk : (max 0 (mx w.ext - n)).toNat ≤ (pyRange 1 (mx w.ext)).length := by
    rw [length_pyRange]
    omega
  have hranks := wp_sample samplePositions (nodup_pyRange 1 (mx w.ext))
    (h.wp_samplePositions hk (.inr ⟨_, _, _, h2⟩)) rfl fun _ h => h
  refine wp_seq (wp_weaken (fun _ _ h => h)
    (fun w' h' => by rw [h']; exact h.early _ (.inr ⟨_, _, _, h2⟩)) hranks) fun ranks w3 h3 => ?_
  obtain ⟨⟨hnodup, hsub, hlen⟩, h3⟩ := h3
  rw [← h3] at h2
  refine wp_seq (h.wp_deactivateAll hnodup hsub hlen h2) fun _ w4 h4 => ?_
  have hI := h.settled _ _ _ _ h4 hlen
  refine wp_seq (h.wp_keep (uses_quiet (uses_waitForStable t fuel none)) hI) fun stable w5 h5 => ?_
  change I w5.ext
  rwa [h5]

theorem wp_thrashMaxMds {status : FSStatus} (hw : I w.ext)
    (hstatus : ∀ fs, status.getFsmap t.fsId = .ok fs → fs.maxMds = mx w.ext) :
    wp E A (thrashMaxMds t fuel status) (gives (fun _ w' => I w'.ext) fun w' => K w'.ext) w := by
  refine wp_seq (h.wp_keep (uses_quiet (uses_randrange_below _ _)) hw) fun n w1 h1 => ?_
  rw [← h1] at hw hstatus
  split
  · cases hfs : status.getFsmap t.fsId with
    | error e => exact h.early _ (.inl hw)
    | ok fs =>
      rw [orThrow, Prog.ret_bind, hstatus fs hfs]
      split
      · rename_i hoptions
        exact h.wp_changeMaxMds hw hoptions
      · exact hw
  · exact hw

theorem wp_thrashFs (hw : I w.ext) :
    wp E A (thrashFs t fuel) (gives (fun _ w' => I w'.ext) fun w' => K w'.ext) w := by
  refine wp_seq (h.wp_fsStatus hw) fun status w1 h1 => ?_
  obtain ⟨hstatus, h1⟩ := h1
  rw [← h1] at hw hstatus
  refine wp_seq (h.wp_thrashMaxMds hw hstatus) fun status w2 h2 => ?_
  have hrest : Uses quiet (do
      let infos ← orThrow (status.getRanks t.fsId); thrashRanks t fuel 0 infos) :=
    (uses_quiet (uses_orThrow idle_throws _)).bind fun infos => uses_thrashRanks t fuel 0 infos
  exact wp_result (fun _ w' h' => by rwa [h']) (h.wp_keep hrest h2)

theorem wp_isSet (hw : I w.ext) :
    wp E A (issue .isSet) (gives (fun _ w' => w'.ext = w.ext) fun w' => K w'.ext) w := by
  obtain ⟨hA, hstep⟩ := h.isSet_step w.ext hw
  exact ⟨hA, fun r s x hE => hstep r s x hE⟩

theorem wp_thrashRound (hw : I w.ext) :
    wp E A (thrashRound t fuel) (gives (fun _ w' => I w'.ext) fun w' => K w'.ext) w := by
  refine wp_seq (h.wp_keep (uses_quiet (uses_drawDelay t _)) hw) fun delay w1 h1 => ?_
  rw [← h1] at hw
  split
  · have hwait := uses_quiet (uses_issue (o := .stoppingWait delay) rfl)
    refine wp_seq (h.wp_keep hwait hw) fun _ w2 h2 => ?_
    rw [← h2] at hw
    refine wp_seq (h.wp_isSet hw) fun stopped w3 h3 => ?_
    rw [← h3] at hw
    cases stopped with
    | true => exact hw
    | false => exact h.wp_thrashFs hw
  · exact h.wp_thrashFs hw

/-- **What the rule carries** holds at the head of the loop, however often it is reached. -/
theorem wp_doThrash (fuel n : Nat) (hw : I w.ext) :
    wp E A (doThrash t fuel n) (gives (fun _ w' => I w'.ext) fun w' => K w'.ext) w := by
  apply wp_whileDo_gives (I := fun w => I w.ext) (J := fun w => I w.ext)
  · intro w hI
    refine wp_seq (h.wp_isSet hI) fun stopped w' h' => ?_
    have hI' : I w'.ext := by rwa [h']
    cases stopped with
    | true | false => exact hI'
  · exact fun w hI => h.wp_thrashRound hI
  · exact fun w hI => h.early _ (.inl hI)
  · exact hw

end MaxMdsRule

/-! ### Bounds and numbers -/

/-- A change of `max_mds` and the ranks deactivated since, up to the next change. -/
structure Change where
  old : Int
  new : Int
  deactivated : List Int
  deriving DecidableEq

/-- The `max_mds` of the file system, and the changes so far, the newest first. -/
structure Fs where
  maxMds : Int
  changes : List Change

/-- A rank deactivated before any change counts as a change to the same value. -/
def noteRank (maxMds rank : Int) : List Change → List Change
  | [] => [⟨maxMds, maxMds, [rank]⟩]
  | c :: past => { c with deactivated := c.deactivated ++ [rank] } :: past

def Op.note : Op → Fs → Fs
  | .setMaxMds n, x => ⟨n, ⟨x.maxMds, n, []⟩ :: x.changes⟩
  | .deactivate rank, x => ⟨x.maxMds, noteRank x.maxMds rank x.changes⟩
  | _, x => x

def Op.Failed : (o : Op) → o.Ans → Prop
  | .setMaxMds _, r => ∃ e, r = .error e
  | .deactivate _, r => ∃ e, r = .error e
  | _, _ => False

def Op.Shows (fsId : Nat) (maxMds : Int) : (o : Op) → o.Ans → Prop
  | .status, r => ∀ st fs, r = .ok st → st.getFsmap fsId = .ok fs → fs.maxMds = maxMds
  | _, _ => True

/-- Every status shows the `max_mds` that was last set. A command that raises may have been carried out. -/
def steady (t : MDSThrasher) : Env mdsSig Unit Fs :=
  fun o _ x r _ x' => o.Shows t.fsId x.maxMds r ∧ (x' = o.note x ∨ o.Failed r ∧ x' = x)

def Fs.Within (t : MDSThrasher) (x : Fs) : Prop := 1 ≤ x.maxMds ∧ x.maxMds ≤ t.maxMds

/-- To another value, and with different ranks other than 0 deactivated, no more than it takes. -/
structure Change.Fine (c : Change) : Prop where
  different : c.old ≠ c.new
  nodup : c.deactivated.Nodup
  ranks : ∀ rank ∈ c.deactivated, 1 ≤ rank ∧ rank < c.old
  few : (c.deactivated.length : Int) ≤ max 0 (c.old - c.new)

def Change.Complete (c : Change) : Prop := (c.deactivated.length : Int) = max 0 (c.old - c.new)

def lawful (t : MDSThrasher) : Op → Unit → Fs → Prop := fun o _ x =>
  x.Within t ∧ (∀ c ∈ x.changes, c.Fine) ∧ (o = .isSet → ∀ c ∈ x.changes, c.Complete) ∧
    (∀ n, o = .setMaxMds n → n ≠ x.maxMds) ∧ (∀ rank, o = .deactivate rank → 1 ≤ rank) ∧
    ∀ n k, o = .sample n k → k ≤ n

def Fs.Settled (t : MDSThrasher) (x : Fs) : Prop := x.Within t ∧ ∀ c ∈ x.changes, c.Fine ∧ c.Complete

/-- The newest change is from `a` to `b`, with the ranks of `done` deactivated so far. -/
def Fs.Changing (t : MDSThrasher) (a b : Int) (done : List Int) (x : Fs) : Prop :=
  ∃ past, x = ⟨b, ⟨a, b, done⟩ :: past⟩ ∧ x.Within t ∧ Change.Fine ⟨a, b, done⟩ ∧
    ∀ c ∈ past, c.Fine ∧ c.Complete

def Fs.Legal (t : MDSThrasher) (x : Fs) : Prop := x.Within t ∧ ∀ c ∈ x.changes, c.Fine

section Steady

variable {t : MDSThrasher} {x x' : Fs} {a b rank n : Int} {done : List Int} {s : Unit}

theorem Fs.Settled.legal (h : x.Settled t) : x.Legal t := ⟨h.1, fun c hc => (h.2 c hc).1⟩

theorem Fs.Changing.legal (h : x.Changing t a b done) : x.Legal t := by
  obtain ⟨past, rfl, hwithin, hfine, hall⟩ := h
  exact ⟨hwithin, forall_mem_cons.mpr ⟨hfine, fun c hc => (hall c hc).1⟩⟩

theorem Fs.Changing.settled (h : x.Changing t a b done) (hlen : (done.length : Int) = max 0 (a - b)) :
    x.Settled t := by
  obtain ⟨past, rfl, hwithin, hfine, hall⟩ := h
  exact ⟨hwithin, forall_mem_cons.mpr ⟨⟨hfine, hlen⟩, hall⟩⟩

theorem Op.note_quiet (ho : o.quiet = true) (x : Fs) : o.note x = x := by
  cases o <;> first | rfl | cases ho

theorem steady_same {r : o.Ans} (ho : o.note x = x) (h : steady t o s x r s x') : x' = x := by
  rcases h.2 with hx | ⟨-, hx⟩
  · rw [hx, ho]
  · exact hx

theorem Fs.Legal.lawful_quiet (h : x.Legal t) (ho : o.quiet = true) : lawful t o () x := by
  refine ⟨h.1, h.2, ?_, ?_, ?_, ?_⟩
  · rintro rfl
    cases ho
  · rintro n rfl
    cases ho
  · rintro rank rfl
    cases ho
  · rintro n k rfl
    cases ho

theorem Fs.Settled.set (h : x.Settled t) (hn : n ∈ options t x.maxMds) :
    lawful t (.setMaxMds n) () x ∧ ((Op.setMaxMds n).note x).Changing t x.maxMds n [] := by
  obtain ⟨⟨hlow, hhigh⟩, hall⟩ := h
  rw [mem_options] at hn
  refine ⟨⟨⟨hlow, hhigh⟩, fun c hc => (hall c hc).1, by simp, ?_, by simp, by simp⟩, ?_⟩
  · rintro n' heq
    cases heq
    omega
  · refine ⟨x.changes, rfl, ⟨?_, ?_⟩, ⟨?_, nodup_nil, by simp, by simp⟩, hall⟩
    · show 1 ≤ n
      omega
    · show n ≤ t.maxMds
      omega
    · show x.maxMds ≠ n
      omega

theorem Fs.Changing.deactivate (h : x.Changing t a b done) (hpos : 1 ≤ rank) (hlt : rank < a)
    (hnew : rank ∉ done) (hlen : (done.length : Int) < a - b) :
    lawful t (.deactivate rank) () x ∧ ((Op.deactivate rank).note x).Changing t a b (done ++ [rank]) := by
  refine ⟨⟨h.legal.1, h.legal.2, by simp, by simp, ?_, by simp⟩, ?_⟩
  · rintro rank' heq
    cases heq
    exact hpos
  · obtain ⟨past, rfl, hwithin, hfine, hall⟩ := h
    refine ⟨past, rfl, hwithin, ⟨hfine.different, ?_, ?_, ?_⟩, hall⟩
    · rw [nodup_append]
      refine ⟨hfine.nodup, nodup_singleton rank, fun r hr r' hr' => ?_⟩
      rw [mem_singleton.mp hr']
      exact fun heq => hnew (heq ▸ hr)
    · intro r hr
      rcases mem_append.mp hr with hr | hr
      · exact hfine.ranks r hr
      · rw [mem_singleton.mp hr]
        exact ⟨hpos, hlt⟩
    · simp only [length_append, length_singleton]
      omega

end Steady

theorem steady_rule (t : MDSThrasher) :
    MaxMdsRule t (steady t) (lawful t) Fs.maxMds (Fs.Settled t) (Fs.Changing t) (Fs.Legal t) := by
  have hearly : ∀ x : Fs, (x.Settled t ∨ ∃ a b done, x.Changing t a b done) → x.Legal t := by
    rintro x (hx | ⟨a, b, done, hx⟩)
    all_goals exact hx.legal
  refine ⟨fun x hx => hx.1, ?_, ?_, ?_, ?_, ?_, ?_, fun a b done x hx => hx.settled, hearly⟩
  · intro o x ho hx
    exact ⟨(hearly x hx).lawful_quiet ho, fun r s x' h => steady_same (Op.note_quiet ho x) h⟩
  · rintro x ⟨hwithin, hall⟩
    refine ⟨⟨hwithin, fun c hc => (hall c hc).1, fun _ c hc => (hall c hc).2, by simp, by simp, by simp⟩,
      ?_⟩
    exact fun r s x' h => steady_same rfl h
  · intro n k x hk hx
    refine ⟨⟨(hearly x hx).1, (hearly x hx).2, by simp, by simp, by simp, ?_⟩, ?_⟩
    · rintro n' k' heq
      cases heq
      exact hk
    · exact fun r s x' h => steady_same rfl h
  · rintro x st s x' ⟨hshows, -⟩ fs hfs
    exact hshows st fs rfl hfs
  · intro n x hx hn
    refine ⟨(hx.set hn).1, ?_⟩
    rintro r s x' ⟨-, rfl | ⟨⟨e, rfl⟩, rfl⟩⟩
    · exact ⟨fun _ => (hx.set hn).2, (hx.set hn).2.legal⟩
    · exact ⟨fun hok => by simp at hok, hx.legal⟩
  · intro a b done rank x hx hpos hlt hnew hlen
    have hstep := hx.deactivate hpos hlt hnew hlen
    refine ⟨hstep.1, ?_⟩
    rintro r s x' ⟨-, rfl | ⟨⟨e, rfl⟩, rfl⟩⟩
    · exact ⟨fun _ => hstep.2, hstep.2.legal⟩
    · exact ⟨fun hok => by simp at hok, hx.legal⟩

/-- **`max_mds` and the deactivations stay legal.** `max_mds` stays between 1 and where it started and is
only set to another value; rank 0 is never deactivated. After a change from `a` to `b`, exactly `max(0, a -
b)` different ranks between 1 and `a` are deactivated by the next test of the loop. -/
theorem max_mds_stays_legal (t : MDSThrasher) (hstart : 1 ≤ t.maxMds) (fuel n : Nat)
    (r : Outcome PyError Unit) (w : World mdsSig Unit Fs)
    (hrun : Exec (steady t) (doThrash t fuel n) ⟨(), ⟨t.maxMds, []⟩, []⟩ r w) :
    (∀ e ∈ w.log, 1 ≤ e.ext.maxMds ∧ e.ext.maxMds ≤ t.maxMds) ∧
    (1 ≤ w.ext.maxMds ∧ w.ext.maxMds ≤ t.maxMds) ∧
    (∀ e ∈ w.log, ∀ n, e.op = .setMaxMds n → n ≠ e.ext.maxMds) ∧
    (∀ e ∈ w.log, ∀ n k, e.op = .sample n k → k ≤ n) ∧
    (∀ e ∈ w.log, ∀ rank, e.op = .deactivate rank → 1 ≤ rank) ∧
    (∀ c ∈ w.ext.changes, c.old ≠ c.new ∧ c.deactivated.Nodup ∧
      ∀ rank ∈ c.deactivated, 1 ≤ rank ∧ rank < c.old) ∧
    (∀ e ∈ w.log, e.op = .isSet → ∀ c ∈ e.ext.changes,
      (c.deactivated.length : Int) = max 0 (c.old - c.new)) ∧
    (r = .ret () → ∀ c ∈ w.ext.changes, (c.deactivated.length : Int) = max 0 (c.old - c.new)) := by
  have hwp := (steady_rule t).wp_doThrash fuel n (w := ⟨(), ⟨t.maxMds, []⟩, []⟩)
    ⟨⟨hstart, le_refl _⟩, by simp⟩
  have hevents := wp_events hwp hrun rfl
  have hpost := wp_post hwp hrun
  have hend : w.ext.Within t ∧ ∀ c ∈ w.ext.changes, c.Fine := by
    cases r with
    | ret _ => exact ⟨hpost.1, fun c hc => (hpost.2 c hc).1⟩
    | exn | cut => exact hpost
  refine ⟨fun e he => (hevents e he).1, hend.1, fun e he => (hevents e he).2.2.2.1,
    fun e he => (hevents e he).2.2.2.2.2, fun e he => (hevents e he).2.2.2.2.1, ?_,
    fun e he => (hevents e he).2.2.1, ?_⟩
  · exact fun c hc => ⟨(hend.2 c hc).different, (hend.2 c hc).nodup, (hend.2 c hc).ranks⟩
  · rintro rfl c hc
    exact (hpost.2 c hc).2

def fullStatus (t : MDSThrasher) (maxMds : Int) : FSStatus :=
  ⟨[], [⟨t.fsId, maxMds, (List.range t.maxMds.toNat).map fun i : Nat => ⟨"a", i, i, .active, false⟩, []⟩]⟩

/-- Every command succeeds, every draw is the lowest, and the thrasher is stopped after its first change. -/
def obliging (t : MDSThrasher) : (o : Op) → Unit → Fs → o.Ans × Unit × Fs
  | .isSet, _, x => (!x.changes.isEmpty, (), x)
  | .stoppingWait _, _, x => ((), (), x)
  | .status, _, x => (.ok (fullStatus t x.maxMds), (), x)
  | .setMaxMds n, _, x => (.ok (), (), (Op.setMaxMds n).note x)
  | .deactivate rank, _, x => (.ok (), (), (Op.deactivate rank).note x)
  | .stopDaemon _, _, x => (.ok (), (), x)
  | .restartDaemon _, _, x => (.ok (), (), x)
  | .hasIpmi _, _, x => (true, (), x)
  | .powerOff _, _, x => (.ok (), (), x)
  | .powerOn _, _, x => (.ok (), (), x)
  | .sleep _, _, x => (.ok (), (), x)
  | .below n, _, x => ((⟨0, Nat.succ_pos n⟩ : Fin (n + 1)), (), x)
  | .sample n k, _, x => (Draw.first n k, (), x)

theorem steady_obliging (t : MDSThrasher) (o : Op) (s : Unit) (x : Fs) :
    steady t o s x (obliging t o s x).1 (obliging t o s x).2.1 (obliging t o s x).2.2 := by
  cases o
  case status =>
    refine ⟨?_, .inl rfl⟩
    rintro st fs hst hfs
    cases hst
    simp only [FSStatus.getFsmap, fullStatus, find?_cons, beq_self_eq_true] at hfs
    cases hfs
    rfl
  all_goals exact ⟨trivial, .inl rfl⟩

def twoRanks : MDSThrasher :=
  .ofConfig 0 2 { randomize := some false, thrashDelay := some (.int 0), maxThrash := some (.int 0) }

theorem max_mds_stays_legal_two_ranks :
    ∃ r w, Exec (steady twoRanks) (doThrash twoRanks 1 2) ⟨(), ⟨2, []⟩, []⟩ r w ∧ r = .ret () ∧
      w.ext.changes = [⟨2, 1, [1]⟩] ∧ (1 ≤ w.ext.maxMds ∧ w.ext.maxMds ≤ 2) := by
  have hrun := exec_runWith (steady_obliging twoRanks) (doThrash twoRanks 1 2) ⟨(), ⟨2, []⟩, []⟩
  exact ⟨_, _, hrun, by decide +kernel, by decide +kernel,
    (max_mds_stays_legal twoRanks (by decide +kernel) 1 2 _ _ hrun).2.1⟩

end ZbkcTasks.MdsThrash
