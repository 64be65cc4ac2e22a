import ZbkcTasks.FuseMount

/-! `teardown` of a fuse mount, from any state of the mount point and of the daemon. The fallbacks of
unmounting may fail unseen, but one last look at the mount point guards the removal. -/

namespace ZbkcTasks.FuseMount

open Prog

/-! ### The client's host -/

inductive Point
  | mounted
  | stale
  | unmounted
  | absent
  deriving DecidableEq

inductive Daemon
  | neverStarted
  | running
  | exited (status : Int)
  deriving DecidableEq

structure Client where
  point : Point
  daemon : Daemon
  deriving DecidableEq

namespace Point

def attached : Point → Bool
  | mounted => true
  | stale => true
  | unmounted => false
  | absent => false

def faded : Point → Point
  | mounted => stale
  | p => p

def detached : Point → Point
  | absent => absent
  | _ => unmounted

@[simp] theorem attached_faded (p : Point) : p.faded.attached = p.attached := by cases p <;> rfl

@[simp] theorem attached_detached (p : Point) : p.detached.attached = false := by cases p <;> rfl

end Point

def Tells : Point → StatResult → Prop
  | .mounted, .printed stdout => stdout = "fuseblk\n".toList
  | .unmounted, .printed stdout => TextLines.rstripNewlines stdout ≠ "fuseblk".toList
  | .stale, .failed _ stderr => notConnected <:+: stderr ∨ connectionAbort <:+: stderr
  | .absent, .failed _ stderr => ¬ notConnected <:+: stderr ∧ ¬ connectionAbort <:+: stderr
  | _, .other _ => True
  | _, _ => False

/-- What comes of unmounting: a success unmounts, a failure leaves the mount as it is. -/
def Unmounts (x : Client) : Except CommandError Unit → Client → Prop
  | .ok (), y => y = { x with point := x.point.detached }
  | .error (.failed _), y => y = x
  | .error (.other _), y => y = x ∨ y = { x with point := x.point.detached }

/-- `wait` returns when the daemon has exited, and raises if that was not with status zero. -/
inductive Waits : Client → Except CommandError Unit → Client → Prop
  | done (p : Point) : Waits ⟨p, .exited 0⟩ (.ok ()) ⟨p, .exited 0⟩
  | failed (p : Point) {status : Int} : status ≠ 0 →
      Waits ⟨p, .exited status⟩ (.error (.failed status)) ⟨p, .exited status⟩
  | exits (p : Point) (status : Int) {ans : Except CommandError Unit} {y : Client} :
      Waits ⟨p.faded, .exited status⟩ ans y → Waits ⟨p, .running⟩ ans y
  | lost (x : Client) (msg : String) : Waits x (.error (.other msg)) x

def Command.Effect (x : Client) : Command → Except CommandError Unit → Client → Prop
  | .fusermount, ans, y => Unmounts x ans y
  | .umountForce, ans, y => Unmounts x ans y
  | .abort _, _, y => y = x ∨ y = { x with point := x.point.faded }
  | .waitDaemon, ans, y => Waits x ans y
  | .removeAll, ans, y => y.daemon = x.daemon ∧
      (y.point = x.point ∨ x.point.attached = false ∧ y.point = .absent) ∧
      (ans = .ok () → x.point.attached = false → y.point = .absent)
  | _, _, y => y = x

def Effect (x : Client) : (o : Op) → Ans o → Client → Prop
  | .command c, ans, y => c.Effect x ans y
  | .finished, ans, y => y = x ∧ (ans = true ↔ ∃ status, x.daemon = .exited status)
  | .stat, ans, y => y = x ∧ Tells x.point ans
  | _, _, y => y = x

/-- The daemon may exit at any time. -/
inductive Fades : Client → Client → Prop
  | stays (x : Client) : Fades x x
  | exits (p : Point) (status : Int) : Fades ⟨p, .running⟩ ⟨p.faded, .exited status⟩

/-- The commands have their effect, and nothing else changes but that the daemon may exit. -/
def clientEnv : Env sig Self Client := fun o s x ans s' x' => s' = s ∧ ∃ y, Effect x o ans y ∧ Fades y x'

/-! ### What only goes one way -/

/-- Nothing is mounted that was not, and no daemon runs that did not. -/
structure Declines (x y : Client) : Prop where
  attached : x.point.attached = false → y.point.attached = false
  not_running : x.daemon ≠ .running → y.daemon ≠ .running

theorem Declines.refl (x : Client) : Declines x x := ⟨id, id⟩

variable {x : Client} {c : Command} {s : Self}

theorem Declines.trans {y z : Client} (h : Declines x y) (h' : Declines y z) : Declines x z :=
  ⟨h'.attached ∘ h.attached, h'.not_running ∘ h.not_running⟩

theorem declines_detached (x : Client) : Declines x { x with point := x.point.detached } :=
  ⟨fun _ => x.point.attached_detached, id⟩

theorem declines_faded (x : Client) : Declines x { x with point := x.point.faded } :=
  ⟨x.point.attached_faded.trans, id⟩

variable {y : Client} {ans : Except CommandError Unit} {o : Op} {w : W}

theorem Fades.attached (h : Fades x y) : y.point.attached = x.point.attached := by
  cases h with
  | stays => rfl
  | exits p status => exact p.attached_faded

theorem Fades.declines (h : Fades x y) : Declines x y := by
  refine ⟨h.attached.trans, ?_⟩
  cases h with
  | stays => exact id
  | exits p status => exact fun hx => absurd rfl hx

theorem Unmounts.declines (h : Unmounts x ans y) : Declines x y := by
  match ans, h with
  | .ok (), h =>
      rw [show y = _ from h]
      exact declines_detached x
  | .error (.failed _), h =>
      rw [show y = x from h]
      exact .refl x
  | .error (.other _), h =>
      rcases h with rfl | rfl
      · exact .refl y
      · exact declines_detached x

theorem Waits.declines (h : Waits x ans y) : Declines x y := by
  induction h with
  | done | failed => exact .refl _
  | exits p status _ ih => exact (Fades.exits p status).declines.trans ih
  | lost x msg => exact .refl x

theorem Waits.exited (h : Waits x ans y) (hans : ∀ msg, ans ≠ .error (.other msg)) :
    ∃ status, y.daemon = .exited status := by
  induction h with
  | done p => exact ⟨0, rfl⟩
  | failed p _ => exact ⟨_, rfl⟩
  | exits p status _ ih => exact ih hans
  | lost x msg => exact absurd rfl (hans msg)

theorem Command.Effect.declines (h : c.Effect x ans y) : Declines x y := by
  cases c with
  | fusermount | umountForce => exact Unmounts.declines h
  | waitDaemon => exact Waits.declines h
  | abort conn =>
    rcases h with rfl | rfl
    · exact .refl y
    · exact declines_faded x
  | removeAll =>
    obtain ⟨hdaemon, hpoint, -⟩ := h
    constructor
    · intro hx
      rcases hpoint with hsame | ⟨-, habsent⟩
      · rw [hsame, hx]
      · rw [habsent, Point.attached]
    · rw [hdaemon]
      exact id
  | mkdir | mountFusectl | startDaemon | waitBackground => exact h ▸ .refl x

/-- **One way.** No operation of a teardown mounts the file system or starts the daemon. -/
theorem Effect.declines {ans : Ans o} (h : Effect x o ans y) : Declines x y := by
  cases o with
  | command c => exact Command.Effect.declines h
  | finished | stat => exact h.1 ▸ .refl x
  | lsConnections | closeStdin | closeBackground | sleep => exact h ▸ .refl x

theorem declines_of_env {s' : Self} {x' : Client} {ans : Ans o} (h : clientEnv o s x ans s' x') :
    Declines x x' := by
  obtain ⟨-, y, heffect, hfades⟩ := h
  exact heffect.declines.trans hfades.declines

/-! ### The programs -/

/-- The directory is removed only if nothing is mounted there. -/
def RemovesSafely (o : Op) (_ : Self) (x : Client) : Prop :=
  o = .command .removeAll → x.point.attached = false

abbrev W := World sig Self Client

def Known (w : W) : Prop := w.st.fuseDaemon = false → w.ext.daemon ≠ .running

def Clear (w : W) : Prop := Known w ∧ w.ext.point.attached = false

theorem known_step {ans : Ans o} (hw : Known w) (hE : clientEnv o w.st w.ext ans s x) :
    Known (w.push o ans s x) := by
  have hdeclines := declines_of_env hE
  obtain ⟨rfl, -⟩ := hE
  exact fun hnone => hdeclines.not_running (hw hnone)

theorem clear_step {ans : Ans o} (hw : Clear w) (hE : clientEnv o w.st w.ext ans s x) :
    Clear (w.push o ans s x) :=
  ⟨known_step hw.1 hE, (declines_of_env hE).attached hw.2⟩

abbrev keepsKnown {α : Type} (p : M α) : Prop := Always clientEnv RemovesSafely Known p

theorem known_op {α : Type} (ho : o ≠ .command .removeAll) {k : Ans o → M α}
    (hk : ∀ ans, keepsKnown (k ans)) : keepsKnown (.op o k) :=
  .op (fun _ hw => ⟨fun heq => absurd heq ho, fun _ _ _ hE => known_step hw hE⟩) hk

theorem known_ofCommand {α : Type} (r : Except CommandError α) : keepsKnown (ofCommand r : M α) := by
  cases r with
  | ok a => exact .ret a
  | error e => exact .throw _

theorem known_run (hc : c ≠ .removeAll) : keepsKnown (run c) :=
  known_op (fun heq => hc (Op.command.inj heq)) known_ofCommand

theorem known_exceptFailed {p : M Unit} {handler : PyError → M Unit} (hp : keepsKnown p)
    (hhandler : ∀ e, keepsKnown (handler e)) : keepsKnown (exceptFailed p handler) := by
  apply hp.catching
  intro e
  split
  next => exact hhandler _
  next => exact .throw _

theorem known_isMounted : keepsKnown isMounted := by
  apply known_op (by decide)
  intro ans
  cases ans with
  | printed | failed => exact .ret _
  | other msg => exact .throw _

theorem known_abortConn : keepsKnown abortConn := by
  apply Always.read
  intro s
  cases s.fuseConn with
  | none => exact .ret ()
  | some conn => exact .ite ((known_run (by simp)).bind fun _ => .modify fun _ hw => hw) (.ret ())

theorem known_forceUmount : keepsKnown forceUmount := by
  apply known_abortConn.bind
  intro _
  apply known_exceptFailed (known_run (by decide))
  intro e
  exact known_isMounted.bind fun _ => .ite (.throw e) (.ret ())

theorem known_killBackground (p : BackgroundProc) : keepsKnown (killBackground p) := by
  apply Always.ite _ (.ret ())
  apply (known_op (by simp) .ret).bind
  intro _
  apply (known_run (by simp)).catching
  intro e
  split
  next => exact .ret ()
  next => exact .ite (.ret ()) (.throw _)

theorem known_baseTeardown : keepsKnown baseTeardown := by
  apply Always.bind (.read fun s => .forEach known_killBackground s.backgroundProcs)
  exact fun _ => .modify fun _ hw => hw

abbrev yields {α : Type} (p : M α) (P : α → W → Prop) (w : W) : Prop :=
  wp clientEnv RemovesSafely p (gives P fun _ => True) w

theorem Tells.printed {p : Point} {stdout : Text} (h : Tells p (.printed stdout)) :
    p.attached = decide (TextLines.rstripNewlines stdout = "fuseblk".toList) := by
  cases p with
  | mounted =>
    rw [show stdout = "fuseblk\n".toList from h]
    rfl
  | unmounted => exact (decide_eq_false h).symm
  | stale | absent => exact h.elim

theorem Tells.failed {p : Point} {status : Int} {stderr : Text} (h : Tells p (.failed status stderr)) :
    p.attached = tellsStale stderr := by
  cases p with
  | stale => simpa [Point.attached, tellsStale] using show _ ∨ _ from h
  | absent => simpa [Point.attached, tellsStale] using show _ ∧ _ from h
  | mounted | unmounted => exact h.elim

theorem yields_isMounted (hw : Known w) :
    yields isMounted (fun mounted w' => Known w' ∧ w'.ext.point.attached = mounted) w := by
  refine ⟨(nomatch ·), fun ans s x hE => ?_⟩
  have hknown := known_step hw hE
  obtain ⟨-, y, ⟨rfl, htells⟩, hfades⟩ := hE
  cases ans with
  | printed stdout => exact ⟨hknown, hfades.attached.trans htells.printed⟩
  | failed status stderr => exact ⟨hknown, hfades.attached.trans htells.failed⟩
  | other msg => exact trivial

/-- **Unmounting.** If `umount` returns, nothing is mounted. -/
theorem yields_umount (hw : Known w) : yields umount (fun _ w' => Clear w') w := by
  apply wp_seq
    ((known_exceptFailed (known_run (by decide)) fun _ => known_forceUmount).gives hw)
  intro _ w1 hw1
  apply wp_seq (yields_isMounted hw1)
  rintro mounted w2 ⟨hw2, hattached⟩
  cases mounted with
  | true => exact trivial
  | false => exact ⟨hw2, hattached⟩

theorem yields_stopDaemon (hw : Clear w) :
    yields stopDaemon (fun _ w' => Clear w' ∧ w'.ext.daemon ≠ .running) w := by
  show yields (onlyIf (w.st.fuseDaemon = true) _) _ w
  rw [onlyIf]
  split
  next hdaemon =>
    refine ⟨(nomatch ·), fun finished s x hE => ?_⟩
    have hw1 := clear_step hw hE
    obtain ⟨-, y, ⟨rfl, hfinished⟩, hfades⟩ := hE
    cases finished with
    | true =>
      obtain ⟨status, hexited⟩ := hfinished.mp rfl
      refine ⟨hw1, hfades.declines.not_running ?_⟩
      rw [hexited]
      exact (nomatch ·)
    | false =>
      refine ⟨(nomatch ·), fun _ s2 x2 hE2 => ?_⟩
      have hw2 := clear_step hw1 hE2
      refine wp_catching ⟨(nomatch ·), fun ans s3 x3 hE3 => ?_⟩
      have hw3 := clear_step hw2 hE3
      obtain ⟨-, z, hwaits, hfades3⟩ := hE3
      have hgone : (∀ msg, ans ≠ .error (.other msg)) → x3.daemon ≠ .running := by
        intro hans
        obtain ⟨status, hexited⟩ := Waits.exited hwaits hans
        refine hfades3.declines.not_running ?_
        rw [hexited]
        exact (nomatch ·)
      match ans with
      | .ok () => exact ⟨hw3, hgone fun _ => (nomatch ·)⟩
      | .error (.failed status) => exact ⟨hw3, hgone fun _ => (nomatch ·)⟩
      | .error (.other msg) => exact trivial
  next hnone => exact ⟨hw, hw.1 (Bool.not_eq_true _ ▸ hnone)⟩

theorem yields_removeAll (hw : Clear w) (hdaemon : w.ext.daemon ≠ .running) :
    yields (run .removeAll) (fun _ w' => w'.ext.point = .absent ∧ w'.ext.daemon ≠ .running) w := by
  refine ⟨fun _ => hw.2, fun ans s x hE => ?_⟩
  have hdeclines := declines_of_env hE
  obtain ⟨-, y, ⟨-, -, hremoved⟩, hfades⟩ := hE
  cases ans with
  | error e => exact trivial
  | ok _ =>
    refine ⟨?_, hdeclines.not_running hdaemon⟩
    have hpoint := hremoved rfl hw.2
    cases hfades with
    | stays => exact hpoint
    | exits p status =>
      rw [show p = .absent from hpoint]
      rfl

theorem yields_teardown (hw : Known w) :
    yields teardown (fun _ w' => w'.ext.point = .absent ∧ w'.ext.daemon ≠ .running) w := by
  apply wp_seq (known_baseTeardown.gives hw)
  intro _ w1 hw1
  apply wp_seq (yields_umount hw1)
  intro _ w2 hw2
  apply wp_seq (yields_stopDaemon hw2)
  rintro _ w3 ⟨hw3, hdaemon⟩
  exact yields_removeAll hw3 hdaemon

/-- **Teardown.** Whatever comes of the commands, the directory is removed only while nothing is mounted
there; if `teardown` returns, it is gone and no daemon runs. -/
theorem teardown_safe {s : Self} {x : Client} (hdaemon : s.fuseDaemon = false → x.daemon = .neverStarted)
    {r : Outcome PyError Unit} {w : W} (hrun : Exec clientEnv teardown ⟨s, x, []⟩ r w) :
    (∀ e ∈ w.log, e.op = .command .removeAll → e.ext.point.attached = false) ∧
      (r = .ret () → w.ext.point = .absent ∧ w.ext.daemon ≠ .running) := by
  have hknown : Known ⟨s, x, []⟩ := by
    intro hnone
    rw [hdaemon hnone]
    exact (nomatch ·)
  have hwp := yields_teardown hknown
  constructor
  · exact wp_events hwp hrun rfl
  · rintro rfl
    exact wp_post hwp hrun

def waitAnswer : Daemon → Except CommandError Unit
  | .neverStarted => .error (.other "")
  | .running => .ok ()
  | .exited status => if status = 0 then .ok () else .error (.failed status)

def waited : Client → Client
  | ⟨p, .running⟩ => ⟨p.faded, .exited 0⟩
  | x => x

def removed (x : Client) : Client := if x.point.attached = true then x else { x with point := .absent }

def hasExited : Daemon → Bool
  | .exited _ => true
  | _ => false

def statAnswer : Point → StatResult
  | .mounted => .printed "fuseblk\n".toList
  | .stale => .failed 1 notConnected
  | .unmounted => .printed "tmpfs\n".toList
  | .absent => .failed 1 []

def stubborn : (o : Op) → Self → Client → Ans o × Self × Client
  | .command .fusermount, s, x => (.error (.failed 1), s, x)
  | .command .umountForce, s, x => (.ok (), s, { x with point := x.point.detached })
  | .command .waitDaemon, s, x => (waitAnswer x.daemon, s, waited x)
  | .command .removeAll, s, x => (.ok (), s, removed x)
  | .command _, s, x => (.ok (), s, x)
  | .lsConnections, s, x => (.ok (0, []), s, x)
  | .finished, s, x => (hasExited x.daemon, s, x)
  | .stat, s, x => (statAnswer x.point, s, x)
  | .closeStdin, s, x => ((), s, x)
  | .closeBackground _, s, x => ((), s, x)
  | .sleep _, s, x => ((), s, x)

theorem waits_stubborn (x : Client) : Waits x (waitAnswer x.daemon) (waited x) := by
  obtain ⟨p, daemon⟩ := x
  cases daemon with
  | neverStarted => exact .lost _ _
  | running => exact .exits p 0 (.done _)
  | exited status =>
    rw [waitAnswer]
    split
    next hzero =>
      rw [hzero]
      exact .done p
    next hstatus => exact .failed p hstatus

theorem tells_stubborn (p : Point) : Tells p (statAnswer p) := by
  cases p with
  | mounted => rfl
  | stale => exact .inl (List.infix_refl _)
  | unmounted =>
    show TextLines.rstripNewlines "tmpfs\n".toList ≠ "fuseblk".toList
    decide
  | absent =>
    show ¬ notConnected <:+: [] ∧ ¬ connectionAbort <:+: []
    decide

theorem effect_stubborn (o : Op) (s : Self) (x : Client) :
    Effect x o (stubborn o s x).1 (stubborn o s x).2.2 := by
  cases o with
  | command c =>
    cases c with
    | waitDaemon => exact waits_stubborn x
    | abort conn => exact .inl rfl
    | removeAll =>
      show (removed x).daemon = x.daemon ∧
        ((removed x).point = x.point ∨ x.point.attached = false ∧ (removed x).point = .absent) ∧
        (_ → x.point.attached = false → (removed x).point = .absent)
      cases hpoint : x.point.attached with
      | true | false => simp [removed, hpoint]
    | _ => rfl
  | finished =>
    refine ⟨rfl, ?_⟩
    show hasExited x.daemon = true ↔ _
    cases x.daemon with
    | neverStarted | running | exited => simp [hasExited]
  | stat => exact ⟨rfl, tells_stubborn x.point⟩
  | lsConnections | closeStdin | closeBackground | sleep => rfl

theorem clientEnv_stubborn (o : Op) (s : Self) (x : Client) :
    clientEnv o s x (stubborn o s x).1 (stubborn o s x).2.1 (stubborn o s x).2.2 := by
  refine ⟨?_, _, effect_stubborn o s x, .stays _⟩
  cases o with
  | command c => cases c <;> rfl
  | _ => rfl

def busy : Self := ⟨true, some 41, [⟨0, true⟩]⟩

theorem teardown_safe_busy : ∃ w, Exec clientEnv teardown ⟨busy, ⟨.mounted, .running⟩, []⟩ (.ret ()) w ∧
      (∀ e ∈ w.log, e.op = .command .removeAll → e.ext.point.attached = false) ∧
      w.ext.point = .absent ∧ w.ext.daemon ≠ .running := by
  have hrun := exec_runWith clientEnv_stubborn teardown ⟨busy, ⟨.mounted, .running⟩, []⟩
  have hdaemon : busy.fuseDaemon = false → Daemon.running = .neverStarted := fun hnone => by cases hnone
  have hsafe := teardown_safe hdaemon hrun
  exact ⟨_, hrun, hsafe.1, hsafe.2 rfl⟩

end ZbkcTasks.FuseMount
