import ZbkcTasks.MdsMaxMds

/-! Which MDSs are down because of the thrasher. `do_thrash` starts a daemon that it has stopped before it
goes on. With `powercycle` whole hosts are switched off, with every daemon they have. -/

namespace ZbkcTasks.MdsThrash

open List Prog
open scoped List

def Op.kills : Op → Bool
  | .stopDaemon _ => true
  | _ => false

/-- The MDSs that were told to stop and have not been started since. -/
def Op.down : (o : Op) → o.Ans → List String → List String
  | .stopDaemon mds, _, down => mds :: down
  | .restartDaemon mds, .ok _, down => down.filter (· ≠ mds)
  | _, _, down => down

/-- Every answer may come. -/
def watching : Env mdsSig Unit (List String) := fun o _ down a _ down' => down' = o.down a down

/-- An MDS is killed, and the event is tested, only while none is down. -/
def oneDown : Op → Unit → List String → Prop := fun o _ down =>
  down.length ≤ 1 ∧ (o.kills = true ∨ o = .isSet → down = [])

abbrev Watched := World mdsSig Unit (List String)

variable {α : Type} {p : M α} {o : Op} {t : MDSThrasher} {w : Watched} {fuel : Nat} {mds : String}
  {down : List String}

theorem Op.down_sublist (ho : o.kills = false) (a : o.Ans) : o.down a down <+ down := by
  cases o with
  | stopDaemon => cases ho
  | restartDaemon mds =>
    cases a with
    | ok => exact filter_sublist
    | error => exact List.Sublist.refl _
  | _ => exact List.Sublist.refl _

theorem Op.kills_of_idle (ho : o.idle = true) : o.kills = false := by
  cases o <;> first | rfl | cases ho

theorem oneDown_nil (hw : w.ext = []) : oneDown o () w.ext := ⟨hw ▸ Nat.zero_le 1, fun _ => hw⟩

theorem oneDown_idle (hdown : down.length ≤ 1) (ho : o.idle = true) : oneDown o () down := by
  refine ⟨hdown, ?_⟩
  rintro (h | rfl)
  · rw [Op.kills_of_idle ho] at h
    cases h
  · cases ho

/-! ### One MDS -/

theorem wp_idle_down (hdown : down.length ≤ 1) (hp : Uses idle p) (hw : w.ext <+ down) :
    wp watching oneDown p (gives (fun _ w' => w'.ext <+ down) fun w' => w'.ext <+ down) w := by
  refine wp_gives_of_settles
    (Uses.wp (U := idle) (fun _ h => h) (fun _ _ => trivial) ?_ (fun _ _ h => h.elim) hp w hw)
  refine fun o w' ho hw' => ⟨oneDown_idle (hw'.length_le.trans hdown) ho, ?_⟩
  rintro a s x rfl
  exact (Op.down_sublist (Op.kills_of_idle ho) a).trans hw'

variable (hpower : t.powercycle = false)

include hpower

theorem wp_killMds_down (mds : String) (hw : w.ext = []) : wp watching oneDown (killMds t mds)
      (gives (fun _ w' => w'.ext <+ [mds]) fun w' => w'.ext <+ [mds]) w := by
  rw [killMds, if_neg (by rw [hpower]; nofun)]
  refine ⟨oneDown_nil hw, ?_⟩
  rintro (e | _) s x rfl <;> exact hw ▸ List.Sublist.refl _

theorem wp_reviveMds_down (hw : w.ext <+ [mds]) : wp watching oneDown (reviveMds t mds)
      (gives (fun _ w' => w'.ext <+ []) fun w' => w'.ext <+ [mds]) w := by
  rw [reviveMds, if_neg (by rw [hpower]; nofun)]
  refine ⟨oneDown_idle hw.length_le rfl, ?_⟩
  rintro (e | _) s x rfl
  · exact hw
  · exact sublist_nil.mpr
      (filter_eq_nil_iff.mpr fun a ha => by simpa using mem_singleton.mp (hw.subset ha))

theorem wp_thrashMds_down (info : MdsInfo) (hw : w.ext = []) : wp watching oneDown (thrashMds t fuel info)
      (gives (fun _ w' => w'.ext <+ []) fun w' => w'.ext <+ [info.name]) w := by
  have hdown : Uses idle (do
      let status ← fsStatus; let down ← seenDown t info.name status; .ret (!down)) :=
    uses_fsStatus.bind fun status => (uses_seenDown t _ status).bind fun _ => .ret _
  have hstandby : Uses idle (do
      let status ← fsStatus; .ret (!seenStandby info.name status)) := uses_fsStatus.bind fun _ => .ret _
  refine wp_seq (wp_killMds_down hpower info.name hw) fun _ w1 h1 => ?_
  refine wp_seq (wp_idle_down le_rfl (hdown.whileDo (uses_sleep 2) fuel) h1) fun _ w2 h2 => ?_
  refine wp_seq (wp_idle_down le_rfl (uses_waitForStable t fuel _) h2) fun _ w3 h3 => ?_
  refine wp_seq (wp_idle_down le_rfl (uses_drawDelay t _) h3) fun delay w4 h4 => ?_
  refine wp_seq (wp_idle_down le_rfl (uses_sleep delay) h4) fun _ w5 h5 => ?_
  refine wp_seq (wp_reviveMds_down hpower h5) fun _ w6 h6 => ?_
  exact wp_weaken (fun _ _ h => h) (fun _ h => h.trans (nil_sublist _))
    (wp_idle_down (Nat.zero_le 1) (hstandby.whileDo (uses_sleep 2) fuel) h6)

omit hpower

/-! ### The loop -/

/-- What `do_thrash` is made of: turns at one MDS, and operations that kill none. -/
def sparing (t : MDSThrasher) (fuel : Nat) : Usage mdsSig Unit PyError where
  ops o := o.kills = false
  acts m := ∃ info, m = thrashMds t fuel info
  throws _ := True
  reads _ := True

theorem uses_sparing (hp : Uses idle p) : Uses (sparing t fuel) p := by
  apply hp.mono
  · exact fun _ => Op.kills_of_idle
  · exact fun _ h => h.elim
  all_goals exact fun _ h => h

theorem uses_drawn (population : List α) (k : Int) :
    Uses (sparing t fuel) (sample samplePositions population k) := by
  refine .ite (.bind (.op rfl fun r => .ret r) fun drawn => ?_) (.throw trivial)
  cases drawn with
  | picked s => exact .ret _
  | refused h => exact .throw trivial

theorem uses_changeMaxMds (maxMds : Int) : Uses (sparing t fuel) (changeMaxMds t fuel maxMds) := by
  have hcommand : ∀ r : Except CommandError Unit, Uses (sparing t fuel) (ofCommand r) :=
    uses_ofCommand fun _ => trivial
  have hdeactivate : ∀ rank, Uses (sparing t fuel) (deactivate rank) := fun rank =>
    .ite (.throw trivial) (.ite (.throw trivial) (.bind (.op rfl .ret) hcommand))
  exact (uses_drawn _ 1).bind fun _ => (Uses.bind (.op rfl .ret) hcommand).bind fun _ =>
    (uses_drawn _ _).bind fun ranks => (Uses.forEach hdeactivate ranks).bind fun _ =>
    (uses_sparing (uses_waitForStable t fuel none)).bind fun _ => .ret _

theorem uses_turns (count : Int) (infos : List MdsInfo) :
    Uses (sparing t fuel) (thrashRanks t fuel count infos) := by
  induction infos generalizing count with
  | nil => exact .ret ()
  | cons info infos ih =>
    exact .ite (.ret ()) ((uses_sparing (uses_randrange_below _ _)).bind fun _ =>
      .ite (ih _) ((Uses.step (U := sparing t fuel) ⟨info, rfl⟩).bind fun _ => ih _))

theorem uses_doThrash (n : Nat) : Uses (sparing t fuel) (doThrash t fuel n) := by
  have hmax : ∀ status, Uses (sparing t fuel) (thrashMaxMds t fuel status) := fun status =>
    (uses_sparing (uses_randrange_below _ _)).bind fun _ =>
      .ite ((uses_sparing (uses_orThrow idle_throws _)).bind fun _ => .ite (uses_changeMaxMds _) (.ret _))
        (.ret _)
  have hfs : Uses (sparing t fuel) (thrashFs t fuel) :=
    (uses_sparing uses_fsStatus).bind fun status => (hmax status).bind fun status =>
      (uses_sparing (uses_orThrow idle_throws _)).bind fun infos => uses_turns 0 infos
  refine .whileDo (.op rfl fun _ => .ret _) ((uses_sparing (uses_drawDelay t _)).bind fun _ => ?_) n
  exact .ite (.op rfl fun _ => .op rfl fun _ => .ite (.ret ()) hfs) hfs

/-- **One at a time.** Without `powercycle`, wherever a command raises, at most one MDS is down at any
operation; an MDS is killed only while no other is down, and at every turn of the loop all are up again. -/
theorem one_mds_down (t : MDSThrasher) (hpower : t.powercycle = false) (fuel n : Nat)
    {r : Outcome PyError Unit} {w : Watched}
    (hrun : Exec watching (doThrash t fuel n) ⟨(), [], []⟩ r w) :
    (∀ e ∈ w.log, oneDown e.op e.st e.ext) ∧ w.ext.length ≤ 1 ∧ (r = .ret () → w.ext = []) := by
  have hwp : wp watching oneDown (doThrash t fuel n)
      (settles (fun w => w.ext = []) (fun w => w.ext.length ≤ 1) fun _ => True) ⟨(), [], []⟩ := by
    refine Uses.wp (U := sparing t fuel) (fun w h => h ▸ Nat.zero_le 1) (fun _ _ => trivial) ?_ ?_
      (uses_doThrash n) _ rfl
    · refine fun o w ho hw => ⟨oneDown_nil hw, ?_⟩
      rintro a s x rfl
      exact sublist_nil.mp (hw ▸ Op.down_sublist ho a)
    · rintro m w ⟨info, rfl⟩ hw
      refine wp_mono ?_ (wp_thrashMds_down hpower info hw)
      rintro (_ | e | _) w' h'
      · exact sublist_nil.mp h'
      · exact ⟨trivial, h'.length_le⟩
      · exact h'.length_le
  refine ⟨wp_events hwp hrun rfl, ?_⟩
  have hpost := wp_post hwp hrun
  cases r with
  | ret => exact ⟨hpost ▸ Nat.zero_le 1, fun _ => hpost⟩
  | exn e => exact ⟨hpost.2, fun h => nomatch h⟩
  | cut => exact ⟨hpost, fun h => nomatch h⟩

/-- An MDS that is never seen to be down after it was stopped. -/
theorem one_mds_down_stopped :
    let t : MDSThrasher := .ofConfig 0 1 { randomize := some false, thrashDelay := some (.int 0) }
    t.powercycle = false ∧ ∃ r w, Exec watching (doThrash t 1 1) ⟨(), [], []⟩ r w ∧ w.ext = ["a"] ∧
      ∀ e ∈ w.log, oneDown e.op e.st e.ext := by
  intro t
  let reply (o : Op) := (obliging t o () ⟨1, []⟩).1
  let answer (o : Op) (s : Unit) (down : List String) := (reply o, s, o.down (reply o) down)
  have hanswer : ∀ o s down,
      watching o s down (answer o s down).1 (answer o s down).2.1 (answer o s down).2.2 := fun _ _ _ => rfl
  have hrun := exec_runWith hanswer (doThrash t 1 1) ⟨(), [], []⟩
  exact ⟨rfl, _, _, hrun, by decide +kernel, (one_mds_down t rfl 1 1 hrun).1⟩

end ZbkcTasks.MdsThrash
