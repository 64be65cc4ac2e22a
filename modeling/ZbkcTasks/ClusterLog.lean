import Mathlib.Algebra.Order.Ring.Rat
import Mathlib.Tactic.Linarith
import ZbkcTasks.ManagerOps

/-! `assert_cluster_log` of `tasks/zbkc_test_case.py`, which watches the cluster log while a block runs
and then looks for a pattern in what the watcher printed. The log is given with its times. -/

namespace ZbkcTasks.ClusterLog

open List Prog

/-! ### The context manager -/

inductive Op
  | runZbkcW
  | block
  | finished
  | getvalue
  | sleep (seconds : ℚ)
  | closeStdin
  | wait
  deriving DecidableEq

@[reducible] def Op.Ans : Op → Type
  | .runZbkcW => Unit
  | .block => Option PyError
  | .finished => Bool
  | .getvalue => String
  | .sleep _ => Unit
  | .closeStdin => Unit
  | .wait => Except CommandError Unit

abbrev sig : Sig := ⟨Op, Op.Ans⟩

abbrev M := Prog sig Unit PyError

def issue (o : Op) : M o.Ans := .op o .ret

structure Assertion where
  expectedPattern : String
  invertMatch : Bool := false
  timeout : ℚ := 10

def Assertion.accepts (a : Assertion) (text : String) : Bool :=
  if a.invertMatch then !contains text a.expectedPattern else contains text a.expectedPattern

def isMatch (a : Assertion) : M Bool := do
  let text ← issue .getvalue
  return a.accepts text

/-- `time.sleep`, which refuses a negative number with an `IOError`. -/
def sleep (seconds : ℚ) : M Unit :=
  if seconds < 0 then .throw (.exception "[Errno 22] Invalid argument") else issue (.sleep seconds)

def waitAnyStatus : M Unit := do
  match ← issue .wait with
  | .ok () => return
  | .error (.failed _) => return
  | .error e => .throw (.command e)

def Assertion.verdict (a : Assertion) (accepted : Bool) : M Unit :=
  if accepted then .ret ()
  else .throw (.assertionError ("Expected log message not found: '" ++ a.expectedPattern ++ "'"))

/-- The watcher is stopped before the verdict. -/
def conclude (a : Assertion) : M Unit := do
  issue .closeStdin
  waitAnyStatus
  a.verdict (← isMatch a)

/-- A match ends it at once, with the watcher left alone. -/
def exitRunning (a : Assertion) : M Unit := do
  if ← isMatch a then return
  sleep (5 + a.timeout)
  conclude a

def contextExit (a : Assertion) : M Unit := do
  if ← issue .finished then conclude a else exitRunning a

def reraise : Option PyError → M Unit
  | none => .ret ()
  | some e => .throw e

/-- `with self.assert_cluster_log(...)` around a block. `__exit__` swallows no exception. -/
def assertClusterLog (a : Assertion) : M Unit := do
  issue .runZbkcW
  let raised ← issue .block
  contextExit a
  reraise raised

/-! ### The log and the watcher -/

/-- A line of the cluster log with its time. -/
structure Entry where
  time : ℚ
  text : String

/-- A timed cluster log, the time of the block in it, and what the watcher does by itself. -/
structure Scene where
  log : List Entry
  sorted : log.Pairwise fun e e' => e.time ≤ e'.time
  entered : ℚ
  blockEnd : ℚ
  entered_le : entered ≤ blockEnd
  raised : Option PyError
  quits : Option ℚ
  grace : ℚ
  grace_nonneg : 0 ≤ grace

/-- The time, and when the watcher was asked to stop. -/
structure Moment where
  now : ℚ
  asked : Option ℚ

namespace Scene

/-- The log since the watcher was started. -/
def logged (s : Scene) (t : ℚ) : String :=
  .ofList ((s.log.filter fun e => s.entered < e.time ∧ e.time ≤ t).flatMap fun e => e.text.toList)

def Appeared (s : Scene) (pattern : String) (t : ℚ) : Prop := contains (s.logged t) pattern = true

instance (s : Scene) (pattern : String) (t : ℚ) : Decidable (s.Appeared pattern t) :=
  inferInstanceAs (Decidable (_ = _))

/-- When a watcher that is asked to stop has ended. -/
def endAsked (s : Scene) (asked : ℚ) : ℚ := s.quits.elim (asked + s.grace) (min (asked + s.grace))

def watcherEnd (s : Scene) (x : Moment) : Option ℚ := x.asked.elim s.quits fun c => some (s.endAsked c)

def watcherEnded (s : Scene) (x : Moment) : Bool :=
  (s.watcherEnd x).any fun e => decide (e ≤ x.now)

/-- What the watcher has printed by now. -/
def printed (s : Scene) (x : Moment) : String := s.logged ((s.watcherEnd x).elim x.now (min x.now))

def env (s : Scene) : Env sig Unit Moment := fun o _ x ans _ x' =>
  match o, ans with
  | .runZbkcW, _ => x' = x
  | .block, raised => raised = s.raised ∧ x' = { x with now := s.blockEnd }
  | .finished, ended => ended = s.watcherEnded x ∧ x' = x
  | .getvalue, text => text = s.printed x ∧ x' = x
  | .sleep seconds, _ => x' = { x with now := x.now + seconds }
  | .closeStdin, _ => x' = { x with asked := x.asked <|> some x.now }
  | .wait, _ => ∃ e, s.watcherEnd x = some e ∧ x' = { x with now := max x.now e }

def before (s : Scene) : World sig Unit Moment := ⟨(), ⟨s.entered, none⟩, []⟩

/-- The block's end, five seconds, and the timeout. -/
def deadline (s : Scene) (a : Assertion) : ℚ := s.blockEnd + (5 + a.timeout)

/-- The log bears the assertion out. -/
def BornOut (s : Scene) (a : Assertion) : Prop :=
  if a.invertMatch then ¬ s.Appeared a.expectedPattern (s.deadline a)
  else s.Appeared a.expectedPattern (s.deadline a)

/-- Left normally only if the log bears the assertion out, and with the watcher asked to stop. -/
structure Left (s : Scene) (a : Assertion) (r : Outcome PyError Unit) (w : World sig Unit Moment) :
    Prop where
  sound : s.raised = none → r = .ret () → s.BornOut a
  asked : w.ext.asked ≠ none

def Alive (s : Scene) : Prop := s.watcherEnded ⟨s.blockEnd, none⟩ = false

instance (s : Scene) : Decidable s.Alive := inferInstanceAs (Decidable (_ = _))

def stopped (s : Scene) (a : Assertion) : ℚ := s.endAsked (if s.Alive then s.deadline a else s.blockEnd)

/-- When the block is left as it should be: an expected pattern has not appeared by its end and does not
first appear while the watcher is being stopped; an unexpected one has, unless the watcher has ended and
has not missed it. -/
def Kept (s : Scene) (a : Assertion) : Prop :=
  (s.Alive → 0 ≤ 5 + a.timeout) ∧
  if a.invertMatch then
    (s.Alive → s.Appeared a.expectedPattern s.blockEnd) ∧
    (s.raised = none → ¬ s.Alive → s.Appeared a.expectedPattern (s.deadline a) →
      s.Appeared a.expectedPattern (s.stopped a))
  else
    (s.Alive → ¬ s.Appeared a.expectedPattern s.blockEnd) ∧
    (s.raised = none → s.Appeared a.expectedPattern (s.stopped a) →
      s.Appeared a.expectedPattern (s.deadline a))

end Scene

/-! ### One operation -/

variable {now e : ℚ}

section Operations

variable {s : Scene} {a : Assertion} {Q : Outcome PyError Unit → World sig Unit Moment → Prop}
  {w : World sig Unit Moment} {f : Unit → M Unit}

abbrev Scene.always (s : Scene) (p : M Unit) (Q : Outcome PyError Unit → World sig Unit Moment → Prop)
    (w : World sig Unit Moment) : Prop :=
  wp s.env (fun _ _ _ => True) p Q w

theorem always_issue {o : Op} {f : o.Ans → M Unit} : s.always (issue o >>= f) Q w ↔
    ∀ ans x, s.env o w.st w.ext ans () x → s.always (f ans) Q (w.push o ans () x) := by
  constructor
  · exact fun h ans x hx => h.2 ans () x hx
  · exact fun h => ⟨trivial, fun ans _ x hx => h ans x hx⟩

theorem always_finished {f : Bool → M Unit} : s.always (issue .finished >>= f) Q w ↔
    s.always (f (s.watcherEnded w.ext)) Q (w.push .finished (s.watcherEnded w.ext) () w.ext) := by
  rw [always_issue]
  exact ⟨fun h => h _ _ ⟨rfl, rfl⟩, fun h ans x hx => by obtain ⟨rfl, rfl⟩ := hx; exact h⟩

theorem always_isMatch {f : Bool → M Unit} : s.always (isMatch a >>= f) Q w ↔
    s.always (f (a.accepts (s.printed w.ext))) Q (w.push .getvalue (s.printed w.ext) () w.ext) := by
  have hget : isMatch a >>= f = issue .getvalue >>= fun text => f (a.accepts text) := rfl
  rw [hget, always_issue]
  exact ⟨fun h => h _ _ ⟨rfl, rfl⟩, fun h ans x hx => by obtain ⟨rfl, rfl⟩ := hx; exact h⟩

theorem always_sleep {seconds : ℚ} (h : 0 ≤ seconds) : s.always (sleep seconds >>= f) Q w ↔
      s.always (f ()) Q (w.push (.sleep seconds) () () { w.ext with now := w.ext.now + seconds }) := by
  rw [sleep, if_neg (not_lt.mpr h), always_issue]
  exact ⟨fun h => h _ _ rfl, fun h _ x hx => by subst hx; exact h⟩

theorem always_closeStdin (hw : w.ext = ⟨now, none⟩) : s.always (issue .closeStdin >>= f) Q w ↔
      s.always (f ()) Q (w.push .closeStdin () () ⟨now, some now⟩) := by
  rw [always_issue, hw]
  exact ⟨fun h => h _ _ rfl, fun h _ x hx => by subst hx; exact h⟩

def waited (w : World sig Unit Moment) (ans : Except CommandError Unit) (e : ℚ) : World sig Unit Moment :=
  w.push .wait ans () { w.ext with now := max w.ext.now e }

theorem always_wait (he : s.watcherEnd w.ext = some e) : s.always (waitAnyStatus >>= f) Q w ↔
      s.always (f ()) Q (waited w (.ok ()) e) ∧
      (∀ n, s.always (f ()) Q (waited w (.error (.failed n)) e)) ∧
      ∀ msg, Q (.exn (.command (.other msg))) (waited w (.error (.other msg)) e) := by
  rw [waitAnyStatus, bind_assoc, always_issue]
  constructor
  · intro h
    exact ⟨h (.ok ()) _ ⟨e, he, rfl⟩, fun n => h (.error (.failed n)) _ ⟨e, he, rfl⟩,
      fun msg => h (.error (.other msg)) _ ⟨e, he, rfl⟩⟩
  · rintro ⟨hok, hfailed, hother⟩ ans x ⟨e', he', rfl⟩
    obtain rfl : e = e' := Option.some.inj (he.symm.trans he')
    cases ans with
    | ok u => exact hok
    | error err =>
      cases err with
      | failed n => exact hfailed n
      | other msg => exact hother msg

end Operations

/-! ### `__exit__` -/

section Exit

variable {s : Scene} {a : Assertion} {w : World sig Unit Moment}

theorem left_exn {e : PyError} (hasked : w.ext.asked ≠ none) : s.Left a (.exn e) w where
  sound _ h := nomatch h
  asked := hasked

theorem always_verdict (hasked : w.ext.asked ≠ none) (accepted : Bool) :
    s.always (a.verdict accepted >>= fun _ => reraise s.raised) (s.Left a) w ↔
      (s.raised = none → accepted = true → s.BornOut a) := by
  cases accepted with
  | false => exact ⟨fun _ _ h => (nomatch h), fun _ => left_exn hasked⟩
  | true =>
    cases hr : s.raised with
    | none => exact ⟨fun h _ _ => h.sound hr rfl, fun h => ⟨fun _ _ => h rfl rfl, hasked⟩⟩
    | some e => exact ⟨fun _ h => (nomatch h), fun _ => left_exn hasked⟩

theorem printed_waited {ans : Except CommandError Unit} (he : s.watcherEnd w.ext = some e) :
    s.printed (waited w ans e).ext = s.logged e := by
  have he' : s.watcherEnd (waited w ans e).ext = some e := he
  rw [Scene.printed, he']
  exact congrArg s.logged (min_eq_right (le_max_right _ _))

theorem always_judge (he : s.watcherEnd w.ext = some e) (hasked : w.ext.asked ≠ none)
    (ans : Except CommandError Unit) :
    s.always (isMatch a >>= fun accepted => a.verdict accepted >>= fun _ => reraise s.raised) (s.Left a)
        (waited w ans e) ↔ (s.raised = none → a.accepts (s.logged e) = true → s.BornOut a) := by
  have hafter : ((waited w ans e).push .getvalue (s.logged e) () (waited w ans e).ext).ext.asked ≠ none :=
    hasked
  rw [always_isMatch, printed_waited he]
  exact always_verdict hafter _

theorem always_conclude (hw : w.ext = ⟨now, none⟩) :
    s.always (conclude a >>= fun _ => reraise s.raised) (s.Left a) w ↔
      (s.raised = none → a.accepts (s.logged (s.endAsked now)) = true → s.BornOut a) := by
  have hsome : some now ≠ none := nofun
  rw [conclude, bind_assoc, always_closeStdin hw]
  simp only [bind_assoc]
  rw [always_wait (e := s.endAsked now) rfl, always_judge rfl hsome]
  constructor
  · exact fun h => h.1
  · intro h
    exact ⟨h, fun n => (always_judge rfl hsome _).mpr h, fun msg => left_exn hsome⟩

theorem asked_of_always_reraise {raised : Option PyError} (h : s.always (reraise raised) (s.Left a) w) :
    w.ext.asked ≠ none := by
  cases raised with
  | none | some => exact h.asked

theorem always_exitRunning (hw : w.ext = ⟨now, none⟩) :
    s.always (exitRunning a >>= fun _ => reraise s.raised) (s.Left a) w ↔
      a.accepts (s.printed ⟨now, none⟩) = false ∧ 0 ≤ 5 + a.timeout ∧
        (s.raised = none → a.accepts (s.logged (s.endAsked (now + (5 + a.timeout)))) = true →
          s.BornOut a) := by
  rw [exitRunning, bind_assoc, always_isMatch, hw]
  cases hearly : a.accepts (s.printed ⟨now, none⟩) with
  | true =>
    constructor
    · intro h
      exact absurd rfl (asked_of_always_reraise h)
    · exact fun h => (nomatch h.1)
  | false =>
    simp only [Bool.false_eq_true, if_false, bind_assoc, true_and]
    by_cases htimeout : 0 ≤ 5 + a.timeout
    · rw [always_sleep htimeout, always_conclude rfl]
      exact ⟨fun h => ⟨htimeout, h⟩, fun h => h.2⟩
    · constructor
      · intro h
        rw [sleep, if_pos (not_le.mp htimeout)] at h
        exact absurd rfl h.asked
      · exact fun h => absurd h.1 htimeout

end Exit

/-! ### The whole block -/

section Block

variable {s : Scene} {a : Assertion}

def Scene.Accepts (s : Scene) (a : Assertion) (t : ℚ) : Prop := a.accepts (s.logged t) = true

theorem accepts_of_invert (h : a.invertMatch = true) (t : ℚ) :
    s.Accepts a t ↔ ¬ s.Appeared a.expectedPattern t := by
  simp [Scene.Accepts, Assertion.accepts, Scene.Appeared, h]

theorem accepts_of_not_invert (h : ¬ a.invertMatch = true) (t : ℚ) :
    s.Accepts a t ↔ s.Appeared a.expectedPattern t := by
  simp [Scene.Accepts, Assertion.accepts, Scene.Appeared, h]

theorem bornOut_iff : s.BornOut a ↔ s.Accepts a (s.deadline a) := by
  unfold Scene.BornOut
  split
  · rename_i h
    exact (accepts_of_invert h _).symm
  · rename_i h
    exact (accepts_of_not_invert h _).symm

def Scene.atExit (s : Scene) : World sig Unit Moment :=
  (s.before.push .runZbkcW () () s.before.ext).push .block s.raised () ⟨s.blockEnd, none⟩

theorem printed_of_alive (h : s.Alive) : s.printed ⟨s.blockEnd, none⟩ = s.logged s.blockEnd := by
  have hend : s.watcherEnd ⟨s.blockEnd, none⟩ = s.quits := rfl
  rw [Scene.Alive, Scene.watcherEnded, hend] at h
  rw [Scene.printed, hend]
  cases hq : s.quits with
  | none => rfl
  | some q =>
    have hlt : s.blockEnd < q := by simpa [hq] using h
    exact congrArg s.logged (min_eq_left hlt.le)

theorem always_assertClusterLog : s.always (assertClusterLog a) (s.Left a) s.before ↔
    s.always (contextExit a >>= fun _ => reraise s.raised) (s.Left a) s.atExit := by
  rw [assertClusterLog, always_issue]
  constructor
  · intro h
    exact always_issue.mp (h () _ rfl) s.raised _ ⟨rfl, rfl⟩
  · rintro h _ x rfl
    refine always_issue.mpr ?_
    rintro ans x ⟨rfl, rfl⟩
    exact h

theorem always_left_iff : s.always (assertClusterLog a) (s.Left a) s.before ↔
    (s.Alive → ¬ s.Accepts a s.blockEnd ∧ 0 ≤ 5 + a.timeout) ∧
      (s.raised = none → s.Accepts a (s.stopped a) → s.Accepts a (s.deadline a)) := by
  rw [← bornOut_iff, always_assertClusterLog, contextExit, bind_assoc, always_finished]
  by_cases halive : s.Alive
  · have hrunning : s.watcherEnded s.atExit.ext = false := halive
    rw [hrunning, if_neg Bool.false_ne_true, always_exitRunning rfl, printed_of_alive halive]
    simp only [Scene.stopped, Scene.Accepts, Scene.deadline, halive, if_true, true_imp_iff, and_assoc,
      Bool.not_eq_true]
  · have hended : s.watcherEnded s.atExit.ext = true := Bool.of_not_eq_false halive
    rw [hended, if_pos rfl, always_conclude rfl]
    simp only [Scene.stopped, Scene.Accepts, halive, if_false, false_imp_iff, true_and]

theorem filter_prefix_filter {p : Entry → Prop} [DecidablePred p] {log : List Entry}
    (hlog : log.Pairwise fun e e' => e.time ≤ e'.time) {t t' : ℚ} (ht : t ≤ t') :
    (log.filter fun e => p e ∧ e.time ≤ t) <+: log.filter fun e => p e ∧ e.time ≤ t' := by
  induction log with
  | nil => exact prefix_refl _
  | cons e rest ih =>
    obtain ⟨hfirst, hrest⟩ := pairwise_cons.mp hlog
    by_cases he : e.time ≤ t
    · have he' : e.time ≤ t' := he.trans ht
      by_cases hp : p e
      · simpa [filter_cons, he, he', hp] using ih hrest
      · simpa [filter_cons, hp] using ih hrest
    · have hnone : ((e :: rest).filter fun e => p e ∧ e.time ≤ t) = [] := by
        apply filter_eq_nil_iff.mpr
        intro e' hmem
        have hle : e.time ≤ e'.time := by
          rcases mem_cons.mp hmem with rfl | hmem
          · exact le_rfl
          · exact hfirst e' hmem
        simp [(not_le.mp he).trans_le hle]
      rw [hnone]
      exact nil_prefix

theorem Scene.Appeared.mono {pattern : String} {t t' : ℚ} (h : s.Appeared pattern t) (ht : t ≤ t') :
    s.Appeared pattern t' := by
  obtain ⟨more, hmore⟩ := filter_prefix_filter (p := fun e => s.entered < e.time) s.sorted ht
  have hlogged : (s.logged t').toList = (s.logged t).toList ++ more.flatMap fun e => e.text.toList := by
    simp only [Scene.logged, String.toList_ofList, ← hmore, flatMap_append]
  simp only [Scene.Appeared, contains, decide_eq_true_eq] at h ⊢
  rw [hlogged]
  exact h.trans (prefix_append _ _).isInfix

theorem blockEnd_le_stopped (halive : s.Alive) (htimeout : 0 ≤ 5 + a.timeout) :
    s.blockEnd ≤ s.stopped a := by
  have hlate : s.blockEnd ≤ s.deadline a + s.grace := by
    unfold Scene.deadline
    linarith [s.grace_nonneg]
  rw [Scene.stopped, if_pos halive, Scene.endAsked]
  cases hq : s.quits with
  | none => exact hlate
  | some q =>
    have hlt : s.blockEnd < q := by
      simpa [Scene.Alive, Scene.watcherEnded, Scene.watcherEnd, hq] using halive
    exact le_min hlate hlt.le

theorem kept_iff : s.Kept a ↔ (s.Alive → ¬ s.Accepts a s.blockEnd ∧ 0 ≤ 5 + a.timeout) ∧
    (s.raised = none → s.Accepts a (s.stopped a) → s.Accepts a (s.deadline a)) := by
  unfold Scene.Kept
  split
  · rename_i h
    simp only [accepts_of_invert h, not_not]
    constructor
    · rintro ⟨htimeout, hearly, hmissed⟩
      refine ⟨fun halive => ⟨hearly halive, htimeout halive⟩, fun hraised hstopped hdeadline => ?_⟩
      by_cases halive : s.Alive
      -- the watcher that has printed the pattern when the block ends has still printed it in the end
      · exact hstopped (Scene.Appeared.mono (hearly halive) (blockEnd_le_stopped halive (htimeout halive)))
      · exact hstopped (hmissed hraised halive hdeadline)
    · rintro ⟨hearly, hend⟩
      refine ⟨fun halive => (hearly halive).2, fun halive => (hearly halive).1, ?_⟩
      intro hraised _ hdeadline
      by_contra hstopped
      exact hend hraised hstopped hdeadline
  · rename_i h
    simp only [accepts_of_not_invert h]
    constructor
    · rintro ⟨htimeout, hearly, hend⟩
      exact ⟨fun halive => ⟨hearly halive, htimeout halive⟩, hend⟩
    · rintro ⟨hearly, hend⟩
      exact ⟨fun halive => (hearly halive).2, fun halive => (hearly halive).1, hend⟩

/-- **When the assertion means something.** Every way of leaving the block is as it should be exactly in
the scenes that `Kept` describes. -/
theorem cluster_log_asserted_iff (s : Scene) (a : Assertion) :
    (∀ r w, Exec s.env (assertClusterLog a) s.before r w → s.Left a r w) ↔ s.Kept a := by
  rw [← wp_iff_exec, kept_iff]
  exact always_left_iff

theorem leads_issue {o : Op} {ans : o.Ans} {x x' : Moment} (h : s.env o () x ans () x') :
    Leads s.env (issue o : M o.Ans) () x (.ret ans) () x' :=
  .op h (.ret ans)

theorem leads_early_match (halive : s.Alive) (hearly : s.Accepts a s.blockEnd) (hraised : s.raised = none) :
    Leads s.env (assertClusterLog a) () ⟨s.entered, none⟩ (.ret ()) () ⟨s.blockEnd, none⟩ := by
  have hstart : s.env .runZbkcW () ⟨s.entered, none⟩ () () ⟨s.entered, none⟩ := rfl
  have hblock : s.env .block () ⟨s.entered, none⟩ none () ⟨s.blockEnd, none⟩ := ⟨hraised.symm, rfl⟩
  have hfinished : s.env .finished () ⟨s.blockEnd, none⟩ false () ⟨s.blockEnd, none⟩ := ⟨halive.symm, rfl⟩
  have hprinted : s.env .getvalue () ⟨s.blockEnd, none⟩ (s.logged s.blockEnd) () ⟨s.blockEnd, none⟩ :=
    ⟨(printed_of_alive halive).symm, rfl⟩
  have hmatch : Leads s.env (isMatch a) () ⟨s.blockEnd, none⟩ (.ret true) () ⟨s.blockEnd, none⟩ := by
    refine (leads_issue hprinted).bind ?_
    rw [show a.accepts (s.logged s.blockEnd) = true from hearly]
    exact .ret true
  have hexit : Leads s.env (contextExit a) () ⟨s.blockEnd, none⟩ (.ret ()) () ⟨s.blockEnd, none⟩ :=
    (leads_issue hfinished).bind (hmatch.bind (.ret ()))
  exact (leads_issue hstart).bind ((leads_issue hblock).bind (hexit.bind (.ret ())))

def slowAfterBlock : Scene where
  log := [⟨6, "slow request"⟩]
  sorted := pairwise_singleton _ _
  entered := 0
  blockEnd := 5
  entered_le := by decide
  raised := none
  quits := none
  grace := 0
  grace_nonneg := le_rfl

def noSlowRequest : Assertion := ⟨"slow request", true, 10⟩

/-- With `invert_match` the block is left at once, and the pattern comes up before the deadline. -/
theorem inverted_match_leaves_early :
    ∃ w, Exec slowAfterBlock.env (assertClusterLog noSlowRequest) slowAfterBlock.before (.ret ()) w ∧
      ¬ slowAfterBlock.BornOut noSlowRequest ∧ w.ext.asked = none := by
  have halive : slowAfterBlock.Alive := rfl
  have hearly : ¬ slowAfterBlock.Appeared noSlowRequest.expectedPattern slowAfterBlock.blockEnd := by
    decide +kernel
  have hlater :
      slowAfterBlock.Appeared noSlowRequest.expectedPattern (slowAfterBlock.deadline noSlowRequest) := by
    decide +kernel
  obtain ⟨log, hrun⟩ := leads_early_match halive ((accepts_of_invert rfl _).mpr hearly) rfl []
  exact ⟨_, hrun, fun hout => hout hlater, rfl⟩

end Block

end ZbkcTasks.ClusterLog
