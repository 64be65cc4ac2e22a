import ZbkcTasks.ThrasherLoop

/-! What each method of the thrasher is made of. Apart from the five mutators and the start of a scrubber,
a method only reads, draws, sleeps and issues commands that mark no OSD. -/

namespace ZbkcTasks

open Prog

/-- Commands that neither kill, revive, mark out nor mark in an OSD. -/
def Cmd.quiet : Cmd → Bool
  | .killOsd _ => false
  | .blackholeKillOsd _ => false
  | .reviveOsd _ _ _ => false
  | .markOutOsd _ => false
  | .markInOsd _ => false
  | _ => true

def Op.quiet : Op → Bool
  | .cmd c => c.quiet
  | .sleep _ => true
  | .randIndex _ => true
  | .random => true
  | .uniform _ _ => true
  | .spawn _ => false
  | .join _ => false
  | .get _ => false
  | .testBody => false

/-- A usage under which the text of the methods can be read: quiet operations may be issued and exceptions
raised, an `AttributeError` only where the attribute is missing. -/
structure Fits (U : Usage taskSig Thrasher PyError) : Prop where
  ops : ∀ o : Op, o.quiet = true → U.ops o
  attr : ∀ (a : Attr) (t : Thrasher), a.handle = false → U.reads t →
    a ∈ t.assigned ∨ U.throws (.attributeError a.name)
  throws : ∀ e : PyError, (∀ name, e ≠ .attributeError name) → U.throws e

def Allows (U : Usage taskSig Thrasher PyError) (μ : Mutator) : Prop := ∀ osd, U.acts (μ.run osd)

variable {β : Type}

section Basic

variable {U : Usage taskSig Thrasher PyError} (hU : Fits U)
include hU

theorem uses_attr_bind {γ : Type} {a : Attr} {f : Thrasher → β} {k : β → M γ} (ha : a.handle = false)
    (hk : ∀ t, U.reads t → Uses U (k (f t))) : Uses U (attr a f >>= k) := by
  refine .read fun t ht => ?_
  by_cases hmem : a ∈ t.assigned
  · change Uses U ((if a ∈ t.assigned then .ret (f t) else _) >>= k)
    rw [if_pos hmem]
    exact hk t ht
  · change Uses U ((if a ∈ t.assigned then .ret (f t) else .throw (.attributeError a.name)) >>= k)
    rw [if_neg hmem]
    exact .throw ((hU.attr a t ha ht).resolve_left hmem)

theorem uses_attr (a : Attr) (f : Thrasher → β) (ha : a.handle = false) : Uses U (attr a f) := by
  rw [← bind_pure (attr a f)]
  exact uses_attr_bind hU ha fun t _ => .ret (f t)

theorem uses_issue (o : Op) (ho : o.quiet = true) : Uses U (issue o) :=
  .op (hU.ops o ho) fun a => .ret a

theorem uses_raising (r : Except CommandError β) : Uses U (raising r) := by
  cases r with
  | error e => exact .throw (hU.throws _ (by simp))
  | ok a => exact .ret a

theorem uses_callOf {c : Cmd} (hc : U.ops (.cmd c)) : Uses U (call c) :=
  .bind (.op hc .ret) fun r => uses_raising hU r

theorem uses_call (c : Cmd) (hc : c.quiet = true) : Uses U (call c) :=
  uses_callOf hU (hU.ops (.cmd c) hc)

theorem uses_manager (c : Cmd) (hc : c.quiet = true) : Uses U (manager c) :=
  (uses_attr hU _ _ rfl).bind fun _ => uses_call hU c hc

theorem uses_log : Uses U log := (uses_attr hU _ _ rfl).bind fun _ => uses_attr hU _ _ rfl

theorem uses_sleep (t : ℚ) : Uses U (sleep t) :=
  (uses_issue hU (.sleep t) rfl).bind fun r => uses_raising hU r

theorem uses_choice (xs : List β) : Uses U (choice xs) := by
  cases xs with
  | nil => exact .throw (hU.throws _ (by simp))
  | cons x xs => exact (uses_issue hU (.randIndex xs.length) rfl).bind fun _ => .ret _

theorem uses_uniform (a b : ℚ) : Uses U (uniform a b) :=
  (uses_issue hU (.uniform a b) rfl).bind fun _ => .ret _

theorem uses_random : Uses U random := (uses_issue hU .random rfl).bind fun _ => .ret _

theorem uses_divide (a b : ℚ) : Uses U (divide a b) :=
  .ite (.throw (hU.throws _ (by simp))) (.ret _)

omit hU in
theorem uses_when {c : Prop} [Decidable c] {m : M Unit} (hm : Uses U m) : Uses U (when c m) :=
  .ite hm (.ret ())

theorem uses_osds (l : OsdList) : Uses U (osds l) := uses_attr hU _ _ (by cases l <;> rfl)

theorem uses_given (osd : Option Osd) (l : OsdList) : Uses U (given osd l) := by
  cases osd with
  | some osd => exact .ret osd
  | none => exact (uses_osds hU l).bind fun xs => uses_choice hU xs

theorem uses_checkStatus (tool step : String) (status : Int) : Uses U (checkStatus tool step status) :=
  uses_when (.throw (hU.throws _ (by simp)))

/-! ### The object store tool -/

theorem uses_waitForTool (remote : Remote) (tries : Nat) : Uses U (waitForTool remote tries) := by
  induction tries with
  | zero => exact .throw (hU.throws _ (by simp))
  | succ tries ih =>
    exact (uses_call hU (.typeTool remote) rfl).bind fun (status : Int) =>
      .ite (c := status = 0) (.ret ()) ((uses_when (uses_sleep hU 15)).bind fun _ => ih)

theorem uses_chooseExporter (osd : Osd) (remote : Remote) : Uses U (chooseExporter osd remote) := by
  refine (uses_osds hU .dead).bind fun deadOsds => .ite ?_ (.ret _)
  refine (uses_random hU).bind fun u => (uses_attr hU _ _ rfl).bind fun chance => .ite ?_ (.ret _)
  exact (uses_osds hU .dead).bind fun xs => (uses_choice hU _).bind fun expOsd =>
    (uses_manager hU (.findRemote expOsd) rfl).bind fun _ => .ret _

theorem uses_chooseImporter (file : ExportPath) (osd : Osd) (remote expRemote : Remote) :
    Uses U (chooseImporter file osd remote expRemote) := by
  refine .ite ?_ (.ret _)
  refine (uses_call hU (.tool remote osd .listPgs) rfl).bind fun listed =>
    (uses_checkStatus hU _ _ _).bind fun _ => .ite ?_ (.ret _)
  have hcopy : Uses U (do
      log
      call (.getFile expRemote file)
      call (.putFile remote file)
      call (.removeTmp file)) :=
    (uses_log hU).bind fun _ => (uses_call hU (.getFile expRemote file) rfl).bind fun _ =>
      (uses_call hU (.putFile remote file) rfl).bind fun _ => uses_call hU (.removeTmp file) rfl
  exact (uses_log hU).bind fun _ => (uses_when hcopy).bind fun _ => .ret _

theorem uses_applyLayoutSettings (osd : Osd) (remote : Remote) :
    Uses U (applyLayoutSettings osd remote) := by
  refine (uses_manager hU .listPools rfl).bind fun pools => .forEach (fun pool => ?_) pools
  exact (uses_call hU (.tool remote osd (.applyLayoutSettings pool)) rfl).bind fun result =>
    uses_when (.throw (hU.throws _ (by simp)))

theorem uses_checkImport (status : Int) : Uses U (checkImport status) :=
  .ite (uses_log hU) (uses_checkStatus hU _ _ _)

theorem uses_movePgBy (file : ExportPath) (osd : Osd) (remote expRemote : Remote) :
    Uses U (movePgBy file osd remote expRemote) :=
  (uses_call hU (.tool expRemote file.id (.export file.pg file)) rfl).bind fun _ =>
    (uses_checkStatus hU _ _ _).bind fun _ =>
    (uses_call hU (.tool expRemote file.id (.remove file.pg)) rfl).bind fun _ =>
    (uses_checkStatus hU _ _ _).bind fun _ =>
    (uses_chooseImporter hU file osd remote expRemote).bind fun importer =>
    (uses_call hU (.tool importer.2 importer.1 (.import file)) rfl).bind fun status =>
    (uses_checkImport hU status).bind fun _ =>
    (uses_call hU (.rmFile expRemote file) rfl).bind fun _ =>
    (uses_when (uses_call hU (.rmFile importer.2 file) rfl)).bind fun _ =>
    uses_applyLayoutSettings hU osd remote

theorem uses_movePg (osd : Osd) (remote : Remote) (expOsd : Osd) (expRemote : Remote)
    (pgs : List Pgid) : Uses U (movePg osd remote expOsd expRemote pgs) :=
  (uses_choice hU pgs).bind fun _ => (uses_attr hU _ _ rfl).bind fun _ => uses_movePgBy hU _ _ _ _

theorem uses_testObjectstoreTool (osd : Osd) : Uses U (testObjectstoreTool osd) :=
  (uses_log hU).bind fun _ => (uses_manager hU (.findRemote osd) rfl).bind fun remote =>
    (uses_chooseExporter hU osd remote).bind fun exporter => (uses_attr hU _ _ rfl).bind fun _ =>
    (uses_waitForTool hU exporter.2 40).bind fun _ =>
    (uses_call hU (.tool exporter.2 exporter.1 .listPgs) rfl).bind fun _ =>
    (uses_checkStatus hU _ _ _).bind fun _ => .ite (uses_log hU) (uses_movePg hU _ _ _ _ _)

theorem uses_rmPastIntervals (osd : Option Osd) : Uses U (rmPastIntervals osd) := by
  refine (uses_attr hU _ _ rfl).bind fun _ => uses_when ?_
  refine (uses_given hU osd .dead).bind fun osd => (uses_log hU).bind fun _ =>
    (uses_manager hU (.findRemote osd) rfl).bind fun remote =>
    (uses_call hU (.tool remote osd .listPgs) rfl).bind fun listed =>
    (uses_checkStatus hU _ _ _).bind fun _ => .ite (uses_log hU) ?_
  exact (uses_choice hU _).bind fun pg =>
    (uses_call hU (.tool remote osd (.rmPastIntervals pg)) rfl).bind fun _ =>
    uses_checkStatus hU _ _ _

/-! ### Actions that run no mutator -/

theorem uses_givenOrFlip (osd : Option Osd) : Uses U (givenOrFlip osd) := by
  cases osd with
  | some _ => exact .ret true
  | none => exact uses_choice hU [true, false]

theorem uses_reweightOsdOrByUtil (osd : Option Osd) : Uses U (reweightOsdOrByUtil osd) := by
  refine (uses_givenOrFlip hU osd).bind fun one => ?_
  cases one with
  | true =>
    exact (uses_given hU osd .in_).bind fun osd => (uses_uniform hU _ _).bind fun val =>
      (uses_log hU).bind fun _ => uses_manager hU (.rawClusterCmd (.osdReweight osd val)) rfl
  | false =>
    refine .forEach (fun _ => ?_) _
    exact (uses_choice hU _).bind fun maxChange => (uses_choice hU _).bind fun overage =>
      (uses_choice hU _).bind fun type => (uses_log hU).bind fun _ =>
      uses_manager hU (.rawClusterCmd (.osdReweightBy type overage maxChange)) rfl

theorem uses_drawAffinity : Uses U drawAffinity :=
  (uses_random hU).bind fun _ => .ite (uses_random hU)
    ((uses_random hU).bind fun _ => .ite (.ret 1) (.ret 0))

theorem uses_primaryAffinity (osd : Option Osd) : Uses U (primaryAffinity osd) :=
  (uses_given hU osd .in_).bind fun osd => (uses_drawAffinity hU).bind fun pa =>
    (uses_log hU).bind fun _ => uses_manager hU (.rawClusterCmd (.osdPrimaryAffinity osd pa)) rfl

theorem uses_growPool : Uses U growPool :=
  (uses_manager hU .getPool rfl).bind fun pool => (uses_log hU).bind fun _ =>
    (uses_attr hU _ _ rfl).bind fun config => (uses_attr hU _ _ rfl).bind fun maxPgs =>
    uses_manager hU (.expandPool pool (config.poolGrowBy.getD 10) maxPgs) rfl

theorem uses_fixPgpNum : Uses U fixPgpNum :=
  (uses_manager hU .getPool rfl).bind fun pool => (uses_log hU).bind fun _ =>
    uses_manager hU (.setPoolPgpnum pool) rfl

theorem uses_injectPause (confKey : String) (duration checkAfter : ℚ) (shouldBeDown : Bool) :
    Uses U (injectPause confKey duration checkAfter shouldBeDown) :=
  ((uses_osds hU .live).bind fun xs => uses_choice hU xs).bind fun theOne =>
    (uses_log hU).bind fun _ => (uses_log hU).bind fun _ => (uses_log hU).bind fun _ =>
    (uses_manager hU (.setConfig theOne [(confKey, .num duration)]) rfl).bind fun _ =>
    uses_when ((uses_sleep hU _).bind fun _ => (uses_manager hU .getOsdStatus rfl).bind fun _ =>
      (uses_when (.throw (hU.throws _ (by simp)))).bind fun _ => (uses_sleep hU _).bind fun _ =>
      (uses_manager hU .getOsdStatus rfl).bind fun _ => uses_when (.throw (hU.throws _ (by simp))))

theorem uses_waitForBackfills (tries : Nat) : Uses U (waitForBackfills tries) := by
  induction tries with
  | zero => exact .ret ()
  | succ tries ih =>
    exact (uses_manager hU .compilePgStatus rfl).bind fun status =>
      .ite (.ret ()) ((uses_log hU).bind fun _ => (uses_sleep hU 1).bind fun _ => ih)

theorem uses_testBackfillFull : Uses U testBackfillFull :=
  (uses_log hU).bind fun _ => (uses_osds hU .live).bind fun liveOsds =>
    (Uses.forEach (fun i => (uses_choice hU _).bind fun skip => uses_manager hU (.setConfig i _) rfl)
      liveOsds).bind fun _ =>
    (uses_waitForBackfills hU 30).bind fun _ => (uses_manager hU .compilePgStatus rfl).bind fun _ =>
    (uses_when (.throw (hU.throws _ (by simp)))).bind fun _ => (uses_osds hU .live).bind fun liveOsds =>
    .forEach (fun i => uses_manager hU (.setConfig i _) rfl) liveOsds

theorem uses_chooseAction : Uses U chooseAction :=
  (uses_attr hU _ _ rfl).bind fun _ => (uses_attr hU _ _ rfl).bind fun _ =>
    (uses_log hU).bind fun _ => (uses_attr hU _ _ rfl).bind fun _ =>
    (uses_attr hU _ _ rfl).bind fun _ => (uses_attr hU _ _ rfl).bind fun _ =>
    (uses_attr hU _ _ rfl).bind fun _ => (uses_uniform hU _ _).bind fun _ => .ret _

/-! ### Methods that run mutators -/

theorem uses_outOsd (hout : Allows U .out) (osd : Option Osd) : Uses U (outOsd osd) :=
  (uses_given hU osd .in_).bind fun osd => (uses_log hU).bind fun _ => .step (hout osd)

theorem uses_reviveOsd {skip : Bool} (hrevive : Allows U (.revive skip)) (osd : Option Osd) :
    Uses U (reviveOsd osd skip) :=
  (uses_given hU osd .dead).bind fun osd => (uses_log hU).bind fun _ => .step (hrevive osd)

theorem uses_inOsd (hrevive : Allows U (.revive false)) (hin : Allows U .in_) (osd : Option Osd) :
    Uses U (inOsd osd) :=
  (uses_given hU osd .out).bind fun osd => (uses_osds hU .dead).bind fun _ =>
    .ite (uses_reviveOsd hU hrevive _)
      ((uses_log hU).bind fun _ => (Uses.step (hin osd)).bind fun _ => uses_log hU)

theorem uses_killOsd (hkill : Allows U .kill) (osd : Option Osd) (markDown : Bool) {markOut : Bool}
    (hout : markOut = true → Allows U .out) : Uses U (killOsd osd markDown markOut) := by
  refine (uses_given hU osd .live).bind fun osd => (uses_log hU).bind fun _ =>
    (Uses.step (hkill osd)).bind fun _ =>
    (uses_when (uses_manager hU (.markDownOsd osd) rfl)).bind fun _ => Uses.bind ?_ fun _ =>
    (uses_attr hU _ _ rfl).bind fun _ => uses_when (uses_testObjectstoreTool hU osd)
  unfold when
  split_ifs with hmark
  · exact (uses_osds hU .in_).bind fun _ => uses_when (uses_outOsd hU (hout hmark) _)
  · exact .ret ()

theorem uses_allUp (hrevive : Allows U (.revive false)) (hin : Allows U .in_) (fuel : Nat) :
    Uses U (allUp fuel) := by
  refine Uses.bind (.whileDo ?_ ?_ fuel) fun _ => .whileDo ?_ ?_ fuel
  · exact (uses_osds hU .dead).bind fun _ => .ret _
  · exact (uses_log hU).bind fun _ => uses_reviveOsd hU hrevive _
  · exact (uses_osds hU .out).bind fun _ => .ret _
  · exact (uses_log hU).bind fun _ => uses_inOsd hU hrevive hin _

/-- The call of `self.log` with two arguments raises, so nothing after it is used. -/
theorem uses_testPoolMinSize (hrevive : Allows U (.revive false)) (hin : Allows U .in_)
    (fuel : Nat) : Uses U (testPoolMinSize fuel) := by
  refine (uses_log hU).bind fun _ => (uses_allUp hU hrevive hin fuel).bind fun _ =>
    (uses_attr hU _ _ rfl).bind fun config =>
    (uses_manager hU (.waitForRecovery config.timeout) rfl).bind fun _ =>
    ((uses_osds hU .in_).bind fun xs => uses_choice hU xs).bind fun theOne => ?_
  rw [LogFunction.call, bind_assoc]
  exact (uses_attr hU _ _ rfl).bind fun _ => .throw (hU.throws _ (by simp))

theorem uses_testMapDiscontinuity (hkill : Allows U .kill) (hrevive : Allows U (.revive false))
    (hout : Allows U .out) (hin : Allows U .in_) (fuel : Nat) : Uses U (testMapDiscontinuity fuel) := by
  refine Uses.bind (.whileDo ?_ (uses_inOsd hU hrevive hin _) fuel) fun _ => ?_
  · exact (uses_osds hU .in_).bind fun _ => (uses_attr hU _ _ rfl).bind fun _ => .ret _
  · exact (uses_log hU).bind fun _ => (uses_attr hU _ _ rfl).bind fun config =>
      (uses_manager hU (.waitForAllUp config.timeout) rfl).bind fun _ => (uses_sleep hU _).bind fun _ =>
      (uses_manager hU (.waitForClean config.timeout) rfl).bind fun _ => (uses_sleep hU _).bind fun _ =>
      (uses_log hU).bind fun _ => (uses_killOsd hU hkill none true fun _ => hout).bind fun _ =>
      (uses_log hU).bind fun _ => (uses_attr hU _ _ rfl).bind fun config =>
      (uses_manager hU (.waitForClean config.timeout) rfl).bind fun _ => (uses_log hU).bind fun _ =>
      (uses_sleep hU _).bind fun _ => uses_reviveOsd hU hrevive none

theorem uses_scrubber (hscrub : ∀ up, U.acts (addScrubber up)) : Uses U scrubber :=
  (uses_attr hU _ _ rfl).bind fun _ => (uses_attr hU _ _ rfl).bind fun _ =>
    (uses_call hU (.waitForClean none) rfl).bind fun _ =>
    (uses_call hU .getOsdStatus rfl).bind fun status => .step (hscrub status.up)

end Basic

/-! ### The actions and the loop -/

/-- Every mutator of the loop but marking out may be run. -/
structure Acts (U : Usage taskSig Thrasher PyError) : Prop where
  fits : Fits U
  kill : Allows U .kill
  revive : Allows U (.revive false)
  in_ : Allows U .in_

variable {U : Usage taskSig Thrasher PyError}

theorem uses_run (hU : Acts U) (fuel : Nat) (a : Action) (hout : a = .outOsd → Allows U .out) :
    Uses U (a.run fuel) := by
  have h := hU.fits
  cases a with
  | outOsd => exact uses_outOsd h (hout rfl) none
  | killOsd => exact uses_killOsd h hU.kill none false (by simp)
  | rmPastIntervals => exact uses_rmPastIntervals h none
  | inOsd => exact uses_inOsd h hU.revive hU.in_ none
  | reviveOsd => exact uses_reviveOsd h hU.revive none
  | primaryAffinity => exact uses_primaryAffinity h none
  | reweightOsdOrByUtil => exact uses_reweightOsdOrByUtil h none
  | growPool => exact uses_growPool h
  | fixPgpNum => exact uses_fixPgpNum h
  | testPoolMinSize => exact uses_testPoolMinSize h hU.revive hU.in_ fuel
  | testBackfillFull => exact uses_testBackfillFull h
  | injectPauseShort | injectPauseLong =>
    exact (uses_attr h _ _ rfl).bind fun _ => uses_injectPause h _ _ _ _

/-- What the loop of `do_thrash` is made of; scrubbers are started only at a positive interval. -/
structure Rounds (U : Usage taskSig Thrasher PyError) (fuel : Nat) (c : ThrashSettings) : Prop where
  acts : Acts U
  scrub : 0 < c.scrubint → ∀ up, U.acts (addScrubber up)
  discontinuity : Uses U (testMapDiscontinuity fuel)
  chosen : Uses U (chooseAction >>= runChosen fuel)

theorem uses_runChosen (hU : Acts U) (fuel : Nat) (a : Option Action)
    (hout : a = some .outOsd → Allows U .out) : Uses U (runChosen fuel a) := by
  cases a with
  | some a => exact uses_run hU fuel a fun h => hout (congrArg some h)
  | none => exact .throw (hU.fits.throws _ (by simp))

theorem Acts.rounds (hU : Acts U) (hout : Allows U .out) {c : ThrashSettings}
    (hscrub : 0 < c.scrubint → ∀ up, U.acts (addScrubber up)) (fuel : Nat) : Rounds U fuel c where
  acts := hU
  scrub := hscrub
  discontinuity := uses_testMapDiscontinuity hU.fits hU.kill hU.revive hout hU.in_ fuel
  chosen := (uses_chooseAction hU.fits).bind fun a => uses_runChosen hU fuel a fun _ => hout

section Loop

variable {fuel : Nat} {c : ThrashSettings} (hU : Rounds U fuel c)

section

include hU

theorem uses_clean : Uses U (clean fuel c) := by
  have h := hU.acts.fits
  have hscrub : Uses U (when (0 < c.scrubint) do
      let u ← uniform 0 1
      let chance ← divide c.delay c.scrubint
      when (u < chance) do
        log
        scrubber) := by
    unfold when
    split
    next hpos =>
      exact (uses_uniform h _ _).bind fun _ => (uses_divide h _ _).bind fun _ =>
        uses_when ((uses_log h).bind fun _ => uses_scrubber h (hU.scrub hpos))
    next => exact .ret ()
  exact Uses.bind (.whileDo ((uses_osds h .dead).bind fun _ => .ret _)
      (uses_reviveOsd h hU.acts.revive none) fuel) fun _ =>
    (uses_osds h .in_).bind fun inOsds =>
    (Uses.forEach (fun osd => uses_manager h (.rawClusterCmd (.osdReweight osd 1)) rfl) inOsds).bind
      fun _ => (uses_uniform h _ _).bind fun u => (uses_attr h _ _ rfl).bind fun config =>
    Uses.bind (.ite hU.discontinuity (uses_manager h (.waitForRecovery config.timeout) rfl)) fun _ =>
    (uses_attr h _ _ rfl).bind fun _ => (uses_sleep h _).bind fun _ => hscrub

theorem uses_thrashRound : Uses U (thrashRound fuel c) := by
  have h := hU.acts.fits
  have hchosen : Uses U (chooseAction >>= fun action =>
      runChosen fuel action >>= fun _ => sleep c.delay) := by
    rw [← bind_assoc]
    exact hU.chosen.bind fun _ => uses_sleep h _
  exact (uses_attr h _ _ rfl).bind fun _ => (uses_attr h _ _ rfl).bind fun _ =>
    (uses_attr h _ _ rfl).bind fun _ => (uses_attr h _ _ rfl).bind fun _ => (uses_log h).bind fun _ =>
    (uses_uniform h _ _).bind fun _ => (uses_divide h _ _).bind fun _ =>
    (uses_when (uses_clean hU)).bind fun _ => hchosen

theorem uses_thrashRounds (n : Nat) : Uses U (thrashRounds fuel c n) := by
  induction n with
  | zero => exact .ret true
  | succ n ih =>
    exact (uses_attr hU.acts.fits _ _ rfl).bind fun stopping =>
      .ite (.ret false) ((uses_thrashRound hU).bind fun _ => ih)

end

theorem uses_doThrash (hacts : Acts U)
    (hU : ∀ t, U.reads t → Rounds U fuel (thrashSettings t.config)) (n : Nat) : Uses U (do
    let config ← attr .config (·.config)
    log
    let goesOn ← thrashRounds fuel (thrashSettings config) n
    if goesOn then .cut else allUp fuel : M Unit) := by
  have h := hacts.fits
  refine uses_attr_bind h rfl fun t ht => ?_
  exact (uses_log h).bind fun _ => (uses_thrashRounds (hU t ht) n).bind fun _ =>
    .ite .cut (uses_allUp h hacts.revive hacts.in_ fuel)

end Loop

/-! ### The other greenlets

The bodies inside `log_exc`. -/

section Helpers

variable (hU : Fits U)
include hU

theorem uses_untilStopping {body : M Unit} (hbody : Uses U body) (n : Nat) :
    Uses U (untilStopping body n) :=
  .whileDo ((uses_attr hU _ _ rfl).bind fun _ => .ret _) hbody n

theorem uses_doSighup (n : Nat) : Uses U (do
    let delay ← attr .sighupDelay (·.sighupDelay.getD 0)
    log
    untilStopping (do
      let osd ← osds .live >>= choice
      manager (.signalOsd osd)
      sleep delay) n : M Unit) :=
  (uses_attr hU _ _ rfl).bind fun _ => (uses_log hU).bind fun _ => uses_untilStopping hU
    (((uses_osds hU .live).bind fun xs => uses_choice hU xs).bind fun osd =>
      (uses_manager hU (.signalOsd osd) rfl).bind fun _ => uses_sleep hU _) n

theorem uses_optrackLoop (delay : ℚ) (osdState : String) (n : Nat) :
    Uses U (optrackLoop delay osdState n) := by
  induction n generalizing osdState with
  | zero => exact .cut
  | succ n ih =>
    exact (uses_attr hU _ _ rfl).bind fun _ => .ite (.ret ()) <|
      (uses_manager hU (.rawClusterCmdResult (.enableOpTracker _)) rfl).bind fun _ =>
      (uses_sleep hU _).bind fun _ => ih _

theorem uses_dumpOpsFrom (i n : Nat) : Uses U (dumpOpsFrom i n) := by
  induction n generalizing i with
  | zero => exact .cut
  | succ n ih =>
    refine (uses_osds hU .live).bind fun liveOsds => ?_
    cases liveOsds[i]? with
    | none => exact .ret ()
    | some osd =>
      exact (uses_manager hU (.osdAdminSocket osd _) rfl).bind fun _ =>
        (uses_manager hU (.osdAdminSocket osd _) rfl).bind fun _ =>
        (uses_manager hU (.osdAdminSocket osd _) rfl).bind fun _ => ih _

theorem uses_noscrubLoop (delay : ℚ) (scrubState : ScrubState) (n : Nat) :
    Uses U (noscrubLoop delay scrubState n) := by
  induction n generalizing scrubState with
  | zero => exact .cut
  | succ n ih =>
    have hunset : Uses U (do
        manager (.rawClusterCmd (.osdUnset "noscrub"))
        manager (.rawClusterCmd (.osdUnset "nodeep-scrub"))) :=
      (uses_manager hU (.rawClusterCmd (.osdUnset "noscrub")) rfl).bind fun _ =>
        uses_manager hU (.rawClusterCmd (.osdUnset "nodeep-scrub")) rfl
    exact (uses_attr hU _ _ rfl).bind fun _ => .ite hunset <|
      (uses_manager hU (.rawClusterCmd scrubState.toggle.1) rfl).bind fun _ =>
      (uses_sleep hU _).bind fun _ => ih _

theorem uses_doScrub (i n : Nat) : Uses U (doScrub i n) := by
  refine .read fun t _ => .whileDo (.read fun _ _ => .ret _) (.read fun _ _ => ?_) n
  exact (uses_choice hU _).bind fun osd =>
    (uses_call hU (.rawClusterCmd (.osdScrub _ osd)) rfl).bind fun _ => uses_sleep hU _

end Helpers

end ZbkcTasks
