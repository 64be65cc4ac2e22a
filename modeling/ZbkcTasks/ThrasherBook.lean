import ZbkcTasks.ThrasherSpec

/-! The bookkeeping of the thrasher. The lists in and out, and live and dead, each split one set of OSDs
at every operation; at a loop head they say what was done last to each OSD. -/

namespace ZbkcTasks

open Prog

/-- What the other greenlets may do while the loop waits: set `stopping`, and set the last attributes. -/
def Others (t t' : Thrasher) : Prop :=
  ∃ assigned stopping tool intervals, t.assigned ⊆ assigned ∧ t' = { t with
    assigned := assigned
    stopping := stopping
    zbkcObjectstoreTool := tool
    testRmPastIntervals := intervals }

theorem Others.refl (t : Thrasher) : Others t t := ⟨_, _, _, _, List.Subset.refl _, rfl⟩

variable {t t' : Thrasher}

theorem Others.osds (h : Others t t') (l : OsdList) : t'.osds l = t.osds l := by
  obtain ⟨_, _, _, _, -, rfl⟩ := h
  cases l <;> rfl

theorem Others.osds_moved (h : Others t t') (src dst : OsdList) (osd : Osd) (l : OsdList) :
    (t'.moved src dst osd).osds l = (t.moved src dst osd).osds l := by
  simp only [Thrasher.osds_moved, h.osds]

theorem Others.minin (h : Others t t') : t'.minin = t.minin := by
  obtain ⟨_, _, _, _, -, rfl⟩ := h
  rfl

theorem Others.started (h : Others t t') (ht : Started t) : Started t' := by
  obtain ⟨_, _, _, _, hsub, rfl⟩ := h
  exact fun a hlate hhandle => hsub (ht a hlate hhandle)

/-- Any command may raise, every draw may come, and the other greenlets may run meanwhile. -/
def anyEnv : Env taskSig Thrasher Unit := fun _ t _ _ t' _ => Others t t'

/-- Both pairs of lists split the set `S` of OSDs. -/
structure Booked (S : Finset Osd) (t : Thrasher) : Prop where
  inOut : Splits S (t.osds .in_) (t.osds .out)
  liveDead : Splits S (t.osds .live) (t.osds .dead)

def Opposite : OsdList → OsdList → Prop
  | .in_, .out => True
  | .out, .in_ => True
  | .live, .dead => True
  | .dead, .live => True
  | _, _ => False

namespace Booked

variable {S : Finset Osd}

theorem congr (h : Booked S t) (hosds : ∀ l, t'.osds l = t.osds l) : Booked S t' := by
  refine ⟨?_, ?_⟩
  · rw [hosds, hosds]
    exact h.inOut
  · rw [hosds, hosds]
    exact h.liveDead

theorem others (h : Booked S t) (ho : Others t t') : Booked S t' := h.congr ho.osds

theorem moved (h : Booked S t) {src dst : OsdList} (hop : Opposite src dst) {osd : Osd}
    (hosd : osd ∈ t.osds src) : Booked S (t.moved src dst osd) := by
  have hosds := t.osds_moved src dst osd
  cases src <;> cases dst <;> first
    | exact hop.elim
    | refine ⟨?_, ?_⟩ <;> rw [hosds, hosds] <;> simp only [reduceCtorEq, if_true, if_false]
  · exact h.inOut.move hosd
  · exact h.liveDead
  · exact (h.inOut.symm.move hosd).symm
  · exact h.liveDead
  · exact h.inOut
  · exact h.liveDead.move hosd
  · exact h.inOut
  · exact (h.liveDead.symm.move hosd).symm

theorem nodup (h : Booked S t) (l : OsdList) : (t.osds l).Nodup := by
  cases l with
  | in_ => exact h.inOut.nodup_left
  | out => exact h.inOut.nodup_right
  | live => exact h.liveDead.nodup_left
  | dead => exact h.liveDead.nodup_right

end Booked

/-! ### What the commands of a run have done last -/

def marks : Op → Option (Osd × Bool)
  | .cmd (.markOutOsd osd) => some (osd, true)
  | .cmd (.markInOsd osd) => some (osd, false)
  | _ => none

def kills : Op → Option (Osd × Bool)
  | .cmd (.killOsd osd) => some (osd, true)
  | .cmd (.blackholeKillOsd osd) => some (osd, true)
  | .cmd (.reviveOsd osd _ _) => some (osd, false)
  | _ => none

variable {η : Type}

/-- The newest command of the kind about the OSD: whether it put the OSD on the list. -/
def latest (kind : Op → Option (Osd × Bool)) : List (Event taskSig Thrasher η) → Osd → Option Bool
  | [], _ => none
  | e :: log, osd =>
      match kind e.op with
      | some (osd', on) => if osd' = osd then some on else latest kind log osd
      | none => latest kind log osd

/-- The list holds the OSDs that the newest command put there, or that started there. -/
def Tells (kind : Op → Option (Osd × Bool)) (start : List Osd) (log : List (Event taskSig Thrasher η))
    (xs : List Osd) : Prop :=
  ∀ osd, osd ∈ xs ↔ (latest kind log osd).getD (decide (osd ∈ start)) = true

namespace Tells

variable {kind : Op → Option (Osd × Bool)} {start xs : List Osd}
  {log : List (Event taskSig Thrasher η)} {e : Event taskSig Thrasher η} {osd : Osd}

theorem nil (kind : Op → Option (Osd × Bool)) (start : List Osd) :
    Tells (η := η) kind start [] start := by
  intro osd
  simp [latest]

theorem other (h : Tells kind start log xs) (he : kind e.op = none) :
    Tells kind start (e :: log) xs := by
  intro osd
  simp only [latest, he]
  exact h osd

theorem put (h : Tells kind start log xs) (he : kind e.op = some (osd, true)) :
    Tells kind start (e :: log) (xs ++ [osd]) := by
  intro osd'
  simp only [latest, he, List.mem_append, List.mem_singleton]
  by_cases heq : osd = osd'
  · simp [heq]
  · rw [if_neg heq, ← h osd']
    simp [Ne.symm heq]

theorem take (h : Tells kind start log xs) (he : kind e.op = some (osd, false)) (hxs : xs.Nodup) :
    Tells kind start (e :: log) (xs.erase osd) := by
  intro osd'
  simp only [latest, he, hxs.mem_erase_iff]
  by_cases heq : osd = osd'
  · simp [heq]
  · rw [if_neg heq, ← h osd']
    simp [Ne.symm heq]

end Tells

/-! ### The invariant -/

/-- What holds between the steps of a run that began in the state `t₀`. -/
structure Kept (S : Finset Osd) (t₀ : Thrasher) (w : World taskSig Thrasher η) : Prop where
  started : Started w.st
  booked : Booked S w.st
  out : Tells marks (t₀.osds .out) w.log (w.st.osds .out)
  dead : Tells kills (t₀.osds .dead) w.log (w.st.osds .dead)

/-- What is left of it where a run is broken off. -/
structure Intact (S : Finset Osd) (w : World taskSig Thrasher η) : Prop where
  started : Started w.st
  booked : Booked S w.st

variable {S : Finset Osd} {t₀ : Thrasher} {w : W η}
  {E : Env taskSig Thrasher η} (hE : ∀ o t x a t' x', E o t x a t' x' → Others t t')

theorem Kept.intact (h : Kept S t₀ w) : Intact S w := ⟨h.started, h.booked⟩

variable {o : Op} {a : o.Ans} {x : η}

theorem Intact.push (h : Intact S w) (ho : Others w.st t) : Intact S (w.push (S := taskSig) o a t x) :=
  ⟨ho.started h.started, h.booked.others ho⟩

theorem Intact.moved (h : Intact S w) {src dst : OsdList} (hop : Opposite src dst) {osd : Osd}
    (hosd : osd ∈ w.st.osds src) : Intact S { w with st := w.st.moved src dst osd } :=
  ⟨h.started.moved _ _ _, h.booked.moved hop hosd⟩

theorem Intact.kept (h : Intact S w) (ho : Others w.st t)
    (hout : Tells marks (t₀.osds .out) (⟨o, a, w.st, w.ext⟩ :: w.log) (w.st.osds .out))
    (hdead : Tells kills (t₀.osds .dead) (⟨o, a, w.st, w.ext⟩ :: w.log) (w.st.osds .dead)) :
    Kept S t₀ (w.push (S := taskSig) o a t x) where
  started := ho.started h.started
  booked := h.booked.others ho
  out := by
    rw [World.push_st, ho.osds]
    exact hout
  dead := by
    rw [World.push_st, ho.osds]
    exact hdead

theorem Kept.other (h : Kept S t₀ w) (hmarks : marks o = none) (hkills : kills o = none)
    (ho : Others w.st t) : Kept S t₀ (w.push (S := taskSig) o a t x) :=
  h.intact.kept ho (h.out.other hmarks) (h.dead.other hkills)

theorem quiet_marks (ho : o.quiet = true) : marks o = none ∧ kills o = none := by
  cases o with
  | cmd c => cases c <;> first | exact ⟨rfl, rfl⟩ | cases ho
  | _ => exact ⟨rfl, rfl⟩

def Tracks (t₀ : Thrasher) (w : World taskSig Thrasher η) (c : Cmd) (t : Thrasher) : Prop :=
  ∀ e : Event taskSig Thrasher η, e.op = .cmd c →
    Tells marks (t₀.osds .out) (e :: w.log) (t.osds .out) ∧
      Tells kills (t₀.osds .dead) (e :: w.log) (t.osds .dead)

include hE

theorem kept_moveFirst (src dst : OsdList) (hop : Opposite src dst) (hne : src ≠ dst) (osd : Osd)
    (c : Cmd) (hw : Kept S t₀ w) (htracks : Tracks t₀ w c (w.st.moved src dst osd)) :
    wp E (fun _ t _ => Booked S t) (transfer src dst osd >>= fun _ => manager c)
      (settles (Kept S t₀) (Intact S) fun _ => True) w := by
  rw [wp_moveFirst hne hw.started]
  split
  next hosd =>
    have hmoved : Intact S { w with st := w.st.moved src dst osd } := hw.intact.moved hop hosd
    refine ⟨hmoved.booked, fun r t x hstep => ?_⟩
    have ho := hE _ _ _ _ _ _ hstep
    cases r with
    | error e => exact ⟨trivial, hmoved.push ho⟩
    | ok v =>
      obtain ⟨hout, hdead⟩ := htracks ⟨.cmd c, .ok v, w.st.moved src dst osd, w.ext⟩ rfl
      exact hmoved.kept ho hout hdead
  next => exact ⟨trivial, hw.intact⟩

theorem kept_cmdFirst (src dst : OsdList) (hop : Opposite src dst) (hne : src ≠ dst) (osd : Osd)
    (c : Cmd) (hw : Kept S t₀ w) (htracks : Tracks t₀ w c (w.st.moved src dst osd)) :
    wp E (fun _ t _ => Booked S t) (manager c >>= fun _ => transfer src dst osd)
      (settles (Kept S t₀) (Intact S) fun _ => True) w := by
  rw [wp_cmdFirst hne hw.started fun _ _ _ h => (hE _ _ _ _ _ _ h).started hw.started]
  refine ⟨hw.booked, fun r t x hstep => ?_⟩
  have ho := hE _ _ _ _ _ _ hstep
  have hpush : ∀ a, Intact S (w.push (S := taskSig) (.cmd c) a t x) := fun a => hw.intact.push ho
  cases r with
  | error e => exact ⟨trivial, hpush _⟩
  | ok v =>
    rw [answered_ok, chain_ret]
    split
    next hosd =>
      have hmoved := (hpush (.ok v)).moved hop hosd
      obtain ⟨hout, hdead⟩ := htracks ⟨.cmd c, .ok v, w.st, w.ext⟩ rfl
      refine ⟨hmoved.started, hmoved.booked, ?_, ?_⟩
      · rw [← ho.osds_moved] at hout
        exact hout
      · rw [← ho.osds_moved] at hdead
        exact hdead
    next => exact ⟨trivial, hpush _⟩

theorem kept_run (μ : Mutator) (osd : Osd) (hw : Kept S t₀ w) :
    wp E (fun _ t _ => Booked S t) (μ.run osd) (settles (Kept S t₀) (Intact S) fun _ => True) w := by
  cases μ with
  | kill =>
    refine kept_moveFirst hE .live .dead trivial (by decide) osd (.killOsd osd) hw fun e he => ?_
    rw [Thrasher.osds_moved, Thrasher.osds_moved]
    exact ⟨hw.out.other (by rw [he]; rfl), hw.dead.put (by rw [he]; rfl)⟩
  | blackholeKill =>
    refine kept_moveFirst hE .live .dead trivial (by decide) osd (.blackholeKillOsd osd) hw
      fun e he => ?_
    rw [Thrasher.osds_moved, Thrasher.osds_moved]
    exact ⟨hw.out.other (by rw [he]; rfl), hw.dead.put (by rw [he]; rfl)⟩
  | revive skip =>
    rw [Mutator.run, wp_bind, wp_attr (hw.started _ rfl rfl), chain_ret]
    refine kept_cmdFirst hE .dead .live trivial (by decide) osd (.reviveOsd osd _ skip) hw
      fun e he => ?_
    rw [Thrasher.osds_moved, Thrasher.osds_moved]
    exact ⟨hw.out.other (by rw [he]; rfl),
      hw.dead.take (by rw [he]; rfl) (hw.booked.nodup .dead)⟩
  | out =>
    refine kept_cmdFirst hE .in_ .out trivial (by decide) osd (.markOutOsd osd) hw fun e he => ?_
    rw [Thrasher.osds_moved, Thrasher.osds_moved]
    exact ⟨hw.out.put (by rw [he]; rfl), hw.dead.other (by rw [he]; rfl)⟩
  | in_ =>
    refine kept_moveFirst hE .out .in_ trivial (by decide) osd (.markInOsd osd) hw fun e he => ?_
    rw [Thrasher.osds_moved, Thrasher.osds_moved]
    exact ⟨hw.out.take (by rw [he]; rfl) (hw.booked.nodup .out), hw.dead.other (by rw [he]; rfl)⟩

theorem kept_addScrubber (up : List Osd) (hw : Kept S t₀ w) :
    wp E (fun _ t _ => Booked S t) (addScrubber up)
      (settles (Kept S t₀) (Intact S) fun _ => True) w := by
  let t : Thrasher := { w.st with scrubbers := w.st.scrubbers ++ [⟨up, false⟩] }
  have hosds : ∀ l, t.osds l = w.st.osds l := fun l => by cases l <;> rfl
  have hw' : Kept S t₀ { w with st := t } :=
    ⟨hw.started, hw.booked.congr hosds, hw.out, hw.dead⟩
  exact ⟨hw'.booked, fun a t x hstep => hw'.other rfl rfl (hE _ _ _ _ _ _ hstep)⟩

omit hE in
def loopUsage : Usage taskSig Thrasher PyError where
  ops o := o.quiet = true
  acts m := (∃ μ osd, m = Mutator.run μ osd) ∨ ∃ up, m = addScrubber up
  throws _ := True
  reads _ := True

omit hE in
theorem loopUsage_acts : Acts loopUsage := by
  have hruns : ∀ μ, Allows loopUsage μ := fun μ osd => .inl ⟨μ, osd, rfl⟩
  exact ⟨⟨fun _ ho => ho, fun _ _ _ _ => .inr trivial, fun _ _ => trivial⟩, hruns _, hruns _, hruns _⟩

omit hE in
theorem loopUsage_rounds (fuel : Nat) (c : ThrashSettings) : Rounds loopUsage fuel c :=
  loopUsage_acts.rounds (fun osd => .inl ⟨.out, osd, rfl⟩) (fun _ up => .inr ⟨up, rfl⟩) fuel

theorem kept_of_uses {α : Type} {p : M α} (hp : Uses loopUsage p) (hw : Kept S t₀ w) :
    wp E (fun _ t _ => Booked S t) p (settles (Kept S t₀) (Intact S) fun _ => True) w := by
  refine Uses.wp (fun _ h => h.intact) (fun _ _ => trivial) ?_ ?_ hp w hw
  · intro o w ho hw
    obtain ⟨hmarks, hkills⟩ := quiet_marks ho
    exact ⟨hw.booked, fun a t x hstep => hw.other hmarks hkills (hE _ _ _ _ _ _ hstep)⟩
  · rintro m w (⟨μ, osd, rfl⟩ | ⟨up, rfl⟩) hw
    · exact kept_run hE μ osd hw
    · exact kept_addScrubber hE up hw

theorem kept_thrashRounds (fuel : Nat) (c : ThrashSettings) (n : Nat) (hw : Kept S t₀ w) :
    wp E (fun _ t _ => Booked S t) (thrashRounds fuel c n)
      (settles (Kept S t₀) (Intact S) fun _ => True) w :=
  kept_of_uses hE (uses_thrashRounds (loopUsage_rounds fuel c) n) hw

theorem kept_doThrash (fuel n : Nat) (hw : Kept S t₀ w) :
    wp E (fun _ t _ => Booked S t) (doThrash fuel n) (settles (Kept S t₀) (Intact S) fun _ => True) w :=
  wp_logExc (fun _ _ h => h.2.started)
    (kept_of_uses hE (uses_doThrash loopUsage_acts (fun _ _ => loopUsage_rounds fuel _) n) hw)

omit hE in
theorem kept_start (hstarted : Started t) (hbooked : Booked S t) (x : η) : Kept S t ⟨t, x, []⟩ :=
  ⟨hstarted, hbooked, Tells.nil _ _, Tells.nil _ _⟩

omit hE in
theorem ready_started (config : ThrasherConfig) (inOsds outOsds liveOsds deadOsds : List Osd)
    (tool : Bool) : Started (.ready config inOsds outOsds liveOsds deadOsds tool) :=
  fun a _ _ => mem_allAttrs a

omit hE in
theorem ready_booked (config : ThrasherConfig) (inOsds outOsds liveOsds deadOsds : List Osd)
    (tool : Bool) (hinOut : (inOsds ++ outOsds).Nodup) (hliveDead : (liveOsds ++ deadOsds).Nodup)
    (hsame : (inOsds ++ outOsds).toFinset = (liveOsds ++ deadOsds).toFinset) :
    Booked (inOsds ++ outOsds).toFinset (.ready config inOsds outOsds liveOsds deadOsds tool) where
  inOut := .of_nodup hinOut
  liveDead := hsame ▸ .of_nodup hliveDead

def fourOsds (config : ThrasherConfig) : Thrasher :=
  .ready config [0, 1, 3] [2] [0, 1, 2] [3] true

omit hE in
theorem fourOsds_booked (config : ThrasherConfig) : Booked [0, 1, 3, 2].toFinset (fourOsds config) :=
  ready_booked config [0, 1, 3] [2] [0, 1, 2] [3] true (by decide) (by decide) (by decide)

omit hE in
/-- **The books are kept.** Both pairs of lists split `S` at every operation of `do_thrash`; at every loop
head an OSD is out or dead exactly when the newest command about it made it so. -/
theorem bookkeeping_invariant (S : Finset Osd) (t : Thrasher) (hstarted : Started t)
    (hbooked : Booked S t) (fuel n : Nat) : (∀ r w, Exec anyEnv (doThrash fuel n) ⟨t, (), []⟩ r w →
      Booked S w.st ∧ ∀ e ∈ w.log, Booked S e.st) ∧
    ∀ c goesOn w, Exec anyEnv (thrashRounds fuel c n) ⟨t, (), []⟩ (.ret goesOn) w → ∀ osd,
      (osd ∈ w.st.outOsds ↔ (latest marks w.log osd).getD (decide (osd ∈ t.outOsds)) = true) ∧
      (osd ∈ w.st.deadOsds ↔ (latest kills w.log osd).getD (decide (osd ∈ t.deadOsds)) = true) := by
  have henv : ∀ o t x a t' x', anyEnv o t x a t' x' → Others t t' := fun _ _ _ _ _ _ h => h
  have hstart := kept_start hstarted hbooked ()
  refine ⟨fun r w hrun => ⟨?_, ?_⟩, fun c goesOn w hrun osd => ?_⟩
  · have hpost := wp_post (kept_doThrash henv fuel n hstart) hrun
    cases r with
    | ret | cut => exact hpost.booked
    | exn e => exact hpost.2.booked
  · exact wp_events (kept_doThrash henv fuel n hstart) hrun rfl
  · have hpost := wp_post (kept_thrashRounds henv fuel c n hstart) hrun
    exact ⟨hpost.out osd, hpost.dead osd⟩

omit hE in
theorem bookkeeping_invariant_fourOsds : (∀ r w, Exec anyEnv (doThrash 3 2) ⟨fourOsds {}, (), []⟩ r w →
      Booked [0, 1, 3, 2].toFinset w.st ∧ ∀ e ∈ w.log, Booked [0, 1, 3, 2].toFinset e.st) ∧
    ∀ c goesOn w, Exec anyEnv (thrashRounds 3 c 2) ⟨fourOsds {}, (), []⟩ (.ret goesOn) w → ∀ osd,
      (osd ∈ w.st.outOsds ↔ (latest marks w.log osd).getD (decide (osd ∈ [2])) = true) ∧
      (osd ∈ w.st.deadOsds ↔ (latest kills w.log osd).getD (decide (osd ∈ [3])) = true) :=
  bookkeeping_invariant _ (fourOsds {}) (ready_started _ _ _ _ _ _) (fourOsds_booked _) 3 2

end ZbkcTasks
