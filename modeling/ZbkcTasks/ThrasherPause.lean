import ZbkcTasks.ThrasherChoice

/-! Pause injection. Each pause is a lambda that reads the loop variable when it is called, after the
method has returned: by then the variable holds the last option, in all four of them. -/

namespace ZbkcTasks

open List Prog

/-! ### The closures -/

inductive PauseClosure
  | short
  | long
  deriving DecidableEq

/-- The variable `key` of the frame, and the lambdas with the key of the round of each. -/
structure PauseLoop where
  key : Option PauseKey
  added : List (PauseKey × PauseClosure)

def addPauses : List PauseKey → PauseLoop → PauseLoop
  | [], loop => loop
  | key :: keys, loop => addPauses keys ⟨some key, loop.added ++ [(key, .short), (key, .long)]⟩

def loadKey : Option PauseKey → M PauseKey
  | some key => .ret key
  | none => .throw (.exception "free variable 'key' referenced before assignment in enclosing scope")

def PauseClosure.call (key : Option PauseKey) : PauseClosure → M Unit
  | .short => do
      let key ← loadKey key
      let config ← attr .config (·.config)
      injectPause key.name (config.pauseShort.getD 3) 0 false
  | .long => do
      let key ← loadKey key
      let config ← attr .config (·.config)
      injectPause key.name (config.pauseLong.getD 80) (config.pauseCheckAfter.getD 70) true

def PauseClosure.action (key : PauseKey) : PauseClosure → Action
  | .short => .injectPauseShort key
  | .long => .injectPauseLong key

def pauseLoop : PauseLoop := addPauses pauseKeys ⟨none, []⟩

theorem addPauses_key (keys : List PauseKey) (loop : PauseLoop) :
    (addPauses keys loop).key = keys.getLast?.or loop.key := by
  induction keys generalizing loop with
  | nil => rfl
  | cons key keys ih =>
    rw [addPauses, ih]
    cases keys <;> simp [getLast?_cons]

variable {key : PauseKey} {val : ℚ} {t : Thrasher} {a : Action}

theorem run_eq_call {closure : PauseClosure} (h : (key, closure) ∈ pauseLoop.added) (fuel : Nat) :
    (closure.action key).run fuel = closure.call pauseLoop.key := by
  have hkey : pauseLoop.key = some .filestoreInjectStall := by
    rw [pauseLoop, addPauses_key]
    rfl
  rw [hkey]
  cases closure <;> rfl

/-! ### What a pause sets -/

def Op.sets : Op → Option (Osd × List String)
  | .cmd (.setConfig osd args) => some (osd, args.map (·.1))
  | _ => none

def optionsSet {η : Type} (log : List (Event taskSig Thrasher η)) : List (Osd × List String) :=
  log.filterMap fun e => e.op.sets

def Op.Drawable (val : ℚ) (o : Op) : Prop := ∃ u : o.Ans, o.draws val u

theorem Op.Drawable.step {o : Op} (h : o.Drawable val) (t : Thrasher) (x : Unit) :
    ∃ a t' x', drawing val o t x a t' x' := by
  obtain ⟨u, hu⟩ := h
  exact ⟨u, t, (), hu, .refl t⟩

/-- No option has been set but those of `sets`. -/
structure HasSet (sets : List (Osd × List String)) (w : World taskSig Thrasher Unit) : Prop where
  started : Started w.st
  options : optionsSet w.log = sets

section

variable {sets : List (Osd × List String)} {w : W Unit}

theorem HasSet.push (h : HasSet sets w) {o : Op} (ho : o.sets = none) {a : o.Ans}
    (hothers : Others w.st t) :
    HasSet sets (w.push (S := taskSig) o a t ()) := by
  refine ⟨hothers.started h.started, ?_⟩
  have hlog : optionsSet (w.push (S := taskSig) o a t ()).log = optionsSet w.log :=
    filterMap_cons_none ho
  rw [hlog, h.options]

theorem hasSet_manager (h : HasSet sets w) {c : Cmd} (hc : (Op.cmd c).sets = none) :
    wp (drawing val) (fun o _ _ => o.Drawable val) (manager c)
      (gives (fun _ => HasSet sets) (HasSet sets)) w := by
  refine (wp_manager h.started).mpr ⟨⟨Op.okAns _, trivial⟩, fun r t _ hstep => ?_⟩
  have hpush : HasSet sets (w.push (S := taskSig) (.cmd c) r t ()) := h.push hc hstep.2
  cases r <;> exact hpush

theorem hasSet_sleep (h : HasSet sets w) (seconds : ℚ) :
    wp (drawing val) (fun o _ _ => o.Drawable val) (sleep seconds)
      (gives (fun _ => HasSet sets) (HasSet sets)) w := by
  refine ⟨⟨Op.okAns _, trivial⟩, fun r t _ hstep => ?_⟩
  have hpush : HasSet sets (w.push (S := taskSig) (.sleep seconds) r t ()) := h.push rfl hstep.2
  cases r <;> exact hpush

theorem hasSet_assert (h : HasSet sets w) (c : Prop) [Decidable c] :
    wp (drawing val) (fun o _ _ => o.Drawable val) (when c (.throw (.assertionError "")))
      (gives (fun _ => HasSet sets) (HasSet sets)) w := by
  unfold when
  split <;> exact h

theorem hasSet_checks (h : HasSet sets w) (theOne : Osd) (duration checkAfter : ℚ) :
    wp (drawing val) (fun o _ _ => o.Drawable val)
      (do
        sleep checkAfter
        let status ← manager .getOsdStatus
        when (theOne ∉ status.down) (.throw (.assertionError ""))
        sleep (duration - checkAfter + 20)
        let status ← manager .getOsdStatus
        when (theOne ∈ status.down) (.throw (.assertionError "")))
      (gives (fun _ => HasSet sets) (HasSet sets)) w := by
  apply wp_seq (hasSet_sleep h _)
  intro _ w h
  apply wp_seq (hasSet_manager h rfl)
  intro _ w h
  apply wp_seq (hasSet_assert h _)
  intro _ w h
  apply wp_seq (hasSet_sleep h _)
  intro _ w h
  apply wp_seq (hasSet_manager h rfl)
  exact fun status w h => hasSet_assert h _

/-- What `inject_pause` leaves: the option of one live OSD is set, or there is no live OSD. -/
def Injected (live : List Osd) (confKey : String) (w : World taskSig Thrasher Unit) : Prop :=
  if live = [] then optionsSet w.log = [] else ∃ osd ∈ live, optionsSet w.log = [(osd, [confKey])]

theorem injected_of_hasSet {live : List Osd} {confKey : String} {osd : Osd} (hosd : osd ∈ live)
    (h : HasSet [(osd, [confKey])] w) : Injected live confKey w := by
  rw [Injected, if_neg (ne_nil_of_mem hosd)]
  exact ⟨osd, hosd, h.options⟩

theorem wp_injectPause (h : HasSet [] w) (confKey : String) (duration checkAfter : ℚ)
    (shouldBeDown : Bool) :
    wp (drawing val) (fun o _ _ => o.Drawable val) (injectPause confKey duration checkAfter shouldBeDown)
      (fun _ => Injected w.st.liveOsds confKey) w := by
  rw [injectPause, wp_bind, wp_bind, wp_osds h.started, chain_ret]
  refine wp_choice (fun hnil => ?_) fun n => ⟨⟨Op.okAns _, trivial⟩, fun i t _ hstep theOne hmem => ?_⟩
  · have hnil : w.st.liveOsds = [] := hnil
    change Injected w.st.liveOsds confKey w
    rw [Injected, if_pos hnil]
    exact h.options
  have hchosen := h.push (o := .randIndex n) (a := i) rfl hstep.2
  simp only [chain_ret, wp_bind, wp_log hchosen.started]
  refine (wp_manager hchosen.started).mpr ⟨⟨Op.okAns _, trivial⟩, fun r t' _ hstep' => ?_⟩
  have hset : HasSet [(theOne, [confKey])] (World.push (S := taskSig) _
      (.cmd (.setConfig theOne [(confKey, .num duration)])) r t' ()) :=
    ⟨hstep'.2.started hchosen.started, congrArg (_ :: ·) hchosen.options⟩
  have hdone (r : Outcome PyError Unit) (w' : W Unit)
      (h' : gives (fun _ => HasSet [(theOne, [confKey])]) (HasSet [(theOne, [confKey])]) r w') :
      Injected w.st.liveOsds confKey w' := by
    cases r <;> exact injected_of_hasSet hmem h'
  cases r with
  | error e => exact injected_of_hasSet hmem hset
  | ok v =>
    cases shouldBeDown with
    | false => exact injected_of_hasSet hmem hset
    | true => exact wp_mono hdone (hasSet_checks hset theOne duration checkAfter)

theorem wp_call_pause (h : HasSet [] w) (closure : PauseClosure) (key : PauseKey) :
    wp (drawing val) (fun o _ _ => o.Drawable val) (closure.call (some key))
      (fun _ => Injected w.st.liveOsds key.name) w := by
  cases closure with
  | short | long =>
    rw [PauseClosure.call, loadKey, wp_bind, wp_ret, chain_ret, wp_bind,
      wp_attr (h.started _ rfl rfl), chain_ret]
    exact wp_injectPause h _ _ _ _

end

/-! ### Pauses in the main loop -/

/-- The key in whose round of the loop an action was added. -/
def Action.addedFor : Action → Option PauseKey
  | .injectPauseShort key => some key
  | .injectPauseLong key => some key
  | _ => none

theorem exists_closure (ha : a.addedFor = some key) :
    ∃ closure : PauseClosure, a = closure.action key ∧ (key, closure) ∈ pauseLoop.added := by
  cases a with
  | injectPauseShort k =>
    obtain rfl : k = key := Option.some.inj ha
    exact ⟨.short, rfl, by cases k <;> decide⟩
  | injectPauseLong k =>
    obtain rfl : k = key := Option.some.inj ha
    exact ⟨.long, rfl, by cases k <;> decide⟩
  | _ => exact nomatch ha

/-- A round that draws `val` sets `key` on a live OSD, once, and no other option. -/
def SetsExactly (t : Thrasher) (val : ℚ) (key : PauseKey) : Prop :=
  ∀ fuel r w, Exec (drawing val) (chooseAction >>= runChosen fuel) ⟨t, (), []⟩ r w →
    ∃ osd ∈ t.liveOsds, optionsSet w.log = [(osd, [key.name])]

theorem wp_chosen_pause (hstarted : Started t) (hchosen : Chooses t val (some a))
    (ha : a.addedFor = some key) (fuel : Nat) :
    wp (drawing val) (fun o _ _ => o.Drawable val) (chooseAction >>= runChosen fuel)
      (fun _ => Injected t.liveOsds PauseKey.filestoreInjectStall.name) ⟨t, (), []⟩ := by
  obtain ⟨hbounds, hpick⟩ := (chooses_iff hstarted).mp hchosen
  obtain ⟨closure, rfl, hadded⟩ := exists_closure ha
  rw [wp_bind]
  refine (wp_chooseAction hstarted).mpr ⟨⟨⟨val, hbounds⟩, rfl⟩, fun u t' _ hstep => ?_⟩
  have hu : u.val = val := hstep.1
  rw [hu, ← hpick, chain_ret]
  change wp (drawing val) _ ((closure.action key).run fuel) _ _
  rw [run_eq_call hadded fuel]
  have hnone : HasSet [] (World.push (S := taskSig) ⟨t, (), []⟩ (.uniform 0 (total (actions t))) u t' ()) :=
    ⟨hstep.2.started hstarted, rfl⟩
  have hlive : t'.liveOsds = t.liveOsds := hstep.2.osds .live
  rw [← hlive]
  exact wp_call_pause hnone closure .filestoreInjectStall

theorem setsExactly_iff (hstarted : Started t) (hchosen : Chooses t val (some a))
    (ha : a.addedFor = some key) :
    SetsExactly t val key ↔ key = .filestoreInjectStall ∧ t.liveOsds ≠ [] := by
  have hinjected := wp_chosen_pause hstarted hchosen ha
  constructor
  · intro hsets
    obtain ⟨r, w, hrun⟩ := exists_exec_of_wp (fun o t x ho => ho.step t x) (hinjected 0)
    obtain ⟨osd, hosd, hset⟩ := hsets 0 r w hrun
    have hlive : t.liveOsds ≠ [] := ne_nil_of_mem hosd
    have hw : Injected _ _ w := wp_post (hinjected 0) hrun
    rw [Injected, if_neg hlive, hset] at hw
    obtain ⟨osd', _, heq⟩ := hw
    refine ⟨?_, hlive⟩
    cases key with
    | filestoreInjectStall => rfl
    | heartbeatInjectFailure => exact absurd heq (by simp [PauseKey.name])
  · rintro ⟨rfl, hlive⟩ fuel r w hrun
    have hw : Injected _ _ w := wp_post (hinjected fuel) hrun
    rwa [Injected, if_neg hlive] at hw

/-- **Pauses.** A pause that `choose_action` selects sets the option it was added for exactly when this is
the last option of the loop and there is an OSD to set it on. -/
theorem pause_sets_key_iff (t : Thrasher) (hstarted : Started t) (val : ℚ) (a : Action) (key : PauseKey)
    (hchosen : Chooses t val (some a)) (ha : a.addedFor = some key) :
    (SetsExactly t val key ↔ key = .filestoreInjectStall ∧ t.liveOsds ≠ []) ∧
    ∀ fuel r w, Exec (drawing val) (chooseAction >>= runChosen fuel) ⟨t, (), []⟩ r w →
      ∀ set ∈ optionsSet w.log, PauseKey.heartbeatInjectFailure.name ∉ set.2 := by
  refine ⟨setsExactly_iff hstarted hchosen ha, fun fuel r w hrun set hset => ?_⟩
  have hw : Injected t.liveOsds PauseKey.filestoreInjectStall.name w :=
    wp_post (wp_chosen_pause hstarted hchosen ha fuel) hrun
  unfold Injected at hw
  split at hw
  · simp [hw] at hset
  · obtain ⟨osd, _, hsets⟩ := hw
    rw [hsets, mem_singleton] at hset
    rw [hset]
    show PauseKey.heartbeatInjectFailure.name ∉ [PauseKey.filestoreInjectStall.name]
    decide

theorem fourOsds_chooses_heartbeat :
    Chooses (fourOsds {}) 5 (some (.injectPauseShort .heartbeatInjectFailure)) :=
  (chooses_iff (ready_started _ _ _ _ _ _)).mpr
    ⟨⟨(min_le_left _ _).trans (by decide), le_max_of_le_right (by decide +kernel)⟩, by decide +kernel⟩

theorem pause_sets_key_iff_fourOsds :
    Chooses (fourOsds {}) 5 (some (.injectPauseShort .heartbeatInjectFailure)) ∧
    ¬ SetsExactly (fourOsds {}) 5 .heartbeatInjectFailure :=
  ⟨fourOsds_chooses_heartbeat, fun h => nomatch ((pause_sets_key_iff (fourOsds {})
    (ready_started _ _ _ _ _ _) 5 _ _ fourOsds_chooses_heartbeat rfl).1.mp h).1⟩

/-- A run of that pause sets the other option. -/
theorem heartbeat_pause_stalls :
    ∃ r w osd, Exec (drawing 5) (chooseAction >>= runChosen 0) ⟨fourOsds {}, (), []⟩ r w ∧
      Chooses (fourOsds {}) 5 (some (.injectPauseShort .heartbeatInjectFailure)) ∧
      optionsSet w.log = [(osd, ["filestore_inject_stall"])] := by
  have hinjected := wp_chosen_pause (ready_started _ _ _ _ _ _) fourOsds_chooses_heartbeat rfl 0
  obtain ⟨r, w, hrun⟩ := exists_exec_of_wp (fun o t x ho => ho.step t x) hinjected
  have hw : Injected _ _ w := wp_post hinjected hrun
  obtain ⟨osd, _, hset⟩ := hw
  exact ⟨r, w, osd, hrun, fourOsds_chooses_heartbeat, hset⟩

end ZbkcTasks
