import ZbkcTasks.PyProg
import ZbkcTasks.PyText

/-! `LocalDaemon` of `tasks/vstart_runner.py`. `_get_pid` takes the first line of `ps` in which the
command of the daemon stands: that of `zbkc-osd -i 10` will do for `osd.1`. -/

namespace ZbkcTasks.VstartDaemon

open List Prog

abbrev Text := List Char

structure LocalDaemon where
  daemonType : Text
  daemonId : Text

def LocalDaemon.text (d : LocalDaemon) : Text :=
  "zbkc-".toList ++ d.daemonType ++ " -i ".toList ++ d.daemonId

/-! ### The listing -/

def psLines (out : Text) : List Text := ((strip out).splitOn '\n').tail

def pidOf (line : Text) : Except PyError Int := (words line)[1]?.elim (.error .indexError) pyInt

def pidIn (d : LocalDaemon) (out : Text) : Except PyError (Option Int) :=
  ((psLines out).find? fun line => d.text <:+: line).elim (.ok none) fun line => (pidOf line).map some

/-! ### The methods -/

inductive Op
  | ps
  | kill (pid : Int)
  | sleep (seconds : Int)
  | run (args : List Text)

@[reducible] def Op.Ans : Op → Type
  | .ps => Except CommandError Text
  | .kill _ => Except CommandError Unit
  | .sleep _ => Unit
  | .run _ => Except CommandError Unit

abbrev sig : Sig := ⟨Op, Op.Ans⟩

abbrev M := Prog sig Unit PyError

def sleep (seconds : Int) : M Unit := .op (S := sig) (.sleep seconds) .ret

def kill (pid : Int) : M Unit := .op (S := sig) (.kill pid) ofCommand

def run (args : List Text) : M Unit := .op (S := sig) (.run args) ofCommand

section Methods

variable (d : LocalDaemon)

def getPid : M (Option Int) :=
  .op (S := sig) .ps fun ans => ofCommand ans >>= fun out => orThrow (pidIn d out)

def running : M Bool := do
  let pid ← getPid d
  return pid.isSome

def timedOut : PyError :=
  .maxWhileTries ("Timed out waiting for daemon " ++ String.ofList (d.daemonType ++ '.' :: d.daemonId))

def waitLoop : Nat → M Unit
  | 0 => do
      let pid ← getPid d
      -- `waited` is greater than the timeout
      if pid.isSome then .throw (timedOut d) else .ret ()
  | tries + 1 => do
      let pid ← getPid d
      if pid.isSome then sleep 1 >>= fun _ => waitLoop tries else .ret ()

def wait (timeout : Int) : M Unit := waitLoop d (timeout + 1).toNat

/-- `os.kill` of what was found; it takes no `None`. -/
def killPid (pid : Option Int) : M Unit := pid.elim (.throw .typeError) kill

def stop (timeout : Int) : M Unit := do
  let runs ← running d
  if runs then
    let pid ← getPid d
    killPid pid
    wait d timeout
  -- tried to stop a non-running daemon
  else .ret ()

def restart (binPrefix : Text) : M Unit := do
  let pid ← getPid d
  onlyIf (pid.isSome = true) (stop d 300)
  run [binPrefix ++ "./zbkc-".toList ++ d.daemonType, "-i".toList, d.daemonId]

/-! ### The right daemon -/

/-- The line is the daemon's own: the words of its command are followed by a space or by the end. -/
def Own (line : Text) : Prop :=
  ∃ before after, line = before ++ d.text ++ after ∧ (after = [] ∨ after.head? = some ' ')

/-- What is taken for granted of a listing: every process has its own pid, and a daemon that runs has one
line. -/
structure Listing (out : Text) : Prop where
  pid : ∀ line ∈ psLines out, ∃ pid, pidOf line = .ok pid
  nodup : ((psLines out).map pidOf).Nodup
  unique : ∀ (d : LocalDaemon), ∀ line ∈ psLines out, ∀ line' ∈ psLines out, Own d line → Own d line' →
    line = line'

def Right (out : Text) (found : Option Int) : Prop :=
  ∀ pid, found = some pid ↔ ∃ line ∈ psLines out, Own d line ∧ pidOf line = .ok pid

/-- A line in which the command of the daemon stands is its own, or comes after it. -/
def OwnFirst (out : Text) : Prop :=
  ∀ before line after, psLines out = before ++ line :: after → d.text <:+: line →
    Own d line ∨ ∃ own ∈ before, Own d own

end Methods

variable {d : LocalDaemon} {line out : Text}

theorem Own.infix (h : Own d line) : d.text <:+: line := by
  obtain ⟨before, after, rfl, -⟩ := h
  exact ⟨before, after, rfl⟩

/-- **One listing.** The right pid is found if and only if the daemon's own line is the first that
matches. -/
theorem pidIn_right_iff (hout : Listing out) :
    (∃ found, pidIn d out = .ok found ∧ Right d out found) ↔ OwnFirst d out := by
  unfold pidIn
  cases hfind : (psLines out).find? fun line => d.text <:+: line with
  | none =>
    have hnone : ∀ line ∈ psLines out, ¬ d.text <:+: line := by
      intro line hline hmatch
      exact absurd hmatch (of_decide_eq_false (by simpa using find?_eq_none.mp hfind line hline))
    refine iff_of_true ⟨none, rfl, fun pid => ?_⟩ ?_
    · refine iff_of_false (fun h => nomatch h) ?_
      rintro ⟨line, hline, hown, -⟩
      exact hnone line hline hown.infix
    · intro before line after heq hmatch
      exact absurd hmatch (hnone line (heq ▸ mem_append_right before (.head _)))
  | some line =>
    obtain ⟨hmatch, before, after, heq, hbefore⟩ := find?_eq_some_iff_append.mp hfind
    have hmem : line ∈ psLines out := heq ▸ mem_append_right before (.head _)
    have hnone : ∀ l ∈ before, ¬ d.text <:+: l :=
      fun l hl => of_decide_eq_false (by simpa using hbefore l hl)
    obtain ⟨pid, hpid⟩ := hout.pid line hmem
    have hfound : (∃ found, (pidOf line).map some = .ok found ∧ Right d out found) ↔
        Right d out (some pid) := by
      rw [hpid]
      exact ⟨fun ⟨_, hok, hright⟩ => Except.ok.inj hok ▸ hright, fun h => ⟨_, rfl, h⟩⟩
    rw [Option.elim_some, hfound]
    constructor
    · intro hright before' line' after' heq' hmatch'
      obtain ⟨own, hown, howns, hsame⟩ := (hright pid).mp rfl
      obtain rfl := inj_on_of_nodup_map hout.nodup hown hmem (hsame.trans hpid.symm)
      -- a line that matches is this one or stands behind it
      have hsplit := append_eq_append_iff.mp (heq.symm.trans heq')
      rcases hsplit with ⟨mid, hmid, htail⟩ | ⟨mid, hmid, htail⟩
      · cases mid with
        | nil =>
          rw [nil_append, List.cons.injEq] at htail
          exact .inl (htail.1 ▸ howns)
        | cons a mid =>
          rw [cons_append, List.cons.injEq] at htail
          refine .inr ⟨own, ?_, howns⟩
          rw [hmid, ← htail.1]
          exact mem_append_right before (.head _)
      · cases mid with
        | nil =>
          rw [nil_append, List.cons.injEq] at htail
          exact .inl (htail.1 ▸ howns)
        | cons a mid =>
          rw [cons_append, List.cons.injEq] at htail
          refine absurd hmatch' (hnone line' ?_)
          rw [hmid, htail.1]
          exact mem_append_right before' (.head _)
    · intro hfirst
      have hown : Own d line := by
        rcases hfirst before line after heq (of_decide_eq_true hmatch) with hown | ⟨own, hmem', hown⟩
        · exact hown
        · exact absurd hown.infix (hnone own hmem')
      intro pid'
      constructor
      · intro hsome
        exact ⟨line, hmem, hown, Option.some.inj hsome ▸ hpid⟩
      · rintro ⟨line', hmem', hown', hpid'⟩
        rw [hout.unique d line' hmem' line hmem hown' hown, hpid] at hpid'
        rw [Except.ok.inj hpid']

/-! ### Runs -/

def Op.listing? : (o : Op) → o.Ans → Option Text
  | .ps, .ok out => some out
  | _, _ => none

section Runs

variable {η : Type} {E : Env sig Unit η}

def Prints (E : Env sig Unit η) (out : Text) : Prop := ∃ s x s' x', E .ps s x (.ok out) s' x'

def lastListing (log : List (Event sig Unit η)) : Option Text :=
  log.head?.bind fun e => e.op.listing? e.ans

def RunsWith (d : LocalDaemon) (log : List (Event sig Unit η)) (pid : Int) : Prop :=
  ∃ out, lastListing log = some out ∧ ∃ line ∈ psLines out, Own d line ∧ pidOf line = .ok pid

/-- A KILL goes to the daemon only, and it is only waited as long as the daemon runs. -/
structure Sound (d : LocalDaemon) (e : Event sig Unit η) (before : List (Event sig Unit η)) : Prop where
  kill : ∀ pid, e.op = .kill pid → RunsWith d before pid
  sleep : ∀ seconds, e.op = .sleep seconds → ∃ pid, RunsWith d before pid

def OnlyOwn (d : LocalDaemon) (log : List (Event sig Unit η)) : Prop :=
  ∀ later e before, log = later ++ e :: before → Sound d e before

theorem onlyOwn_cons {e : Event sig Unit η} {log : List (Event sig Unit η)} (h : OnlyOwn d log)
    (he : Sound d e log) : OnlyOwn d (e :: log) := by
  intro later e' before heq
  cases later with
  | nil =>
    rw [nil_append, List.cons.injEq] at heq
    rw [← heq.1, ← heq.2]
    exact he
  | cons a later =>
    rw [cons_append, List.cons.injEq] at heq
    exact h later e' before heq.2

def Looked (d : LocalDaemon) (found : Option Int) (w : World sig Unit η) : Prop :=
  OnlyOwn d w.log ∧ ∀ pid, found = some pid → RunsWith d w.log pid

variable (hE : ∀ out, Prints E out → Listing out ∧ OwnFirst d out) {w : World sig Unit η}
include hE

theorem wp_getPid (hw : OnlyOwn d w.log) :
    wp E (fun _ _ _ => True) (getPid d) (gives (Looked d) fun w' => OnlyOwn d w'.log) w := by
  refine ⟨trivial, fun ans s x hstep => ?_⟩
  have hpush : OnlyOwn d (w.push .ps ans s x).log :=
    onlyOwn_cons hw ⟨fun _ => (nomatch ·), fun _ => (nomatch ·)⟩
  cases ans with
  | error e => exact hpush
  | ok out =>
    obtain ⟨hlisting, hfirst⟩ := hE out ⟨_, _, _, _, hstep⟩
    obtain ⟨found, hfound, hright⟩ := (pidIn_right_iff hlisting).mpr hfirst
    show wp E _ (orThrow (pidIn d out)) _ _
    rw [hfound]
    exact ⟨hpush, fun pid hpid => ⟨out, rfl, (hright pid).mp hpid⟩⟩

theorem wp_waitLoop (tries : Nat) (hw : OnlyOwn d w.log) :
    wp E (fun _ _ _ => True) (waitLoop d tries) (gives (fun _ w' => OnlyOwn d w'.log)
      fun w' => OnlyOwn d w'.log) w := by
  induction tries generalizing w with
  | zero =>
    refine wp_seq (wp_getPid hE hw) fun found w' hlooked => ?_
    split
    all_goals exact hlooked.1
  | succ tries ih =>
    refine wp_seq (wp_getPid hE hw) fun found w' hlooked => ?_
    split
    · rename_i hsome
      obtain ⟨pid, rfl⟩ := Option.isSome_iff_exists.mp hsome
      refine ⟨trivial, fun _ s x _ => ih (onlyOwn_cons hlooked.1 ?_)⟩
      exact ⟨fun _ => (nomatch ·), fun _ _ => ⟨pid, hlooked.2 pid rfl⟩⟩
    · exact hlooked.1

theorem wp_stop (timeout : Int) (hw : OnlyOwn d w.log) :
    wp E (fun _ _ _ => True) (stop d timeout) (gives (fun _ w' => OnlyOwn d w'.log)
      fun w' => OnlyOwn d w'.log) w := by
  have hruns : wp E (fun _ _ _ => True) (running d) (gives (fun _ w' => OnlyOwn d w'.log)
      fun w' => OnlyOwn d w'.log) w := wp_seq (wp_getPid hE hw) fun _ _ hlooked => hlooked.1
  refine wp_seq hruns fun runs w1 h1 => ?_
  cases runs with
  | false => exact h1
  | true =>
    refine wp_seq (wp_getPid hE h1) fun found w2 hlooked => ?_
    cases found with
    | none => exact hlooked.1
    | some pid =>
      have hkilled : ∀ ans s x, OnlyOwn d (w2.push (.kill pid) ans s x).log := by
        intro ans s x
        refine onlyOwn_cons hlooked.1 ⟨fun pid' h => ?_, fun _ => (nomatch ·)⟩
        exact Op.kill.inj h ▸ hlooked.2 pid rfl
      refine ⟨trivial, fun ans s x _ => ?_⟩
      cases ans with
      | error e => exact hkilled _ s x
      | ok _ => exact wp_waitLoop hE _ (hkilled _ s x)

theorem wp_restart (binPrefix : Text) (hw : OnlyOwn d w.log) :
    wp E (fun _ _ _ => True) (restart d binPrefix) (gives (fun _ w' => OnlyOwn d w'.log)
      fun w' => OnlyOwn d w'.log) w := by
  refine wp_seq (wp_getPid hE hw) fun found w1 hlooked => ?_
  refine wp_seq (P := fun _ w' => OnlyOwn d w'.log) ?_ fun _ w2 h2 => ?_
  · unfold onlyIf
    split
    · exact wp_stop hE 300 hlooked.1
    · exact hlooked.1
  · refine ⟨trivial, fun ans s x _ => ?_⟩
    have hrun : OnlyOwn d (w2.push (.run _) ans s x).log :=
      onlyOwn_cons h2 ⟨fun _ => (nomatch ·), fun _ => (nomatch ·)⟩
    cases ans with
    | error | ok => exact hrun

omit hE in
/-- **The daemon alone.** `_get_pid` returns the pid of the daemon if it runs, and `stop` and `restart`
kill and wait for no other, exactly if in every listing its own line comes before those in which its
command has neither a space nor the end after it. -/
theorem only_own_daemon_iff (hlisting : ∀ out, Prints E out → Listing out) :
    ((∀ out, Prints E out → ∃ found, pidIn d out = .ok found ∧ Right d out found) ∧
      (∀ timeout x r w, Exec E (stop d timeout) ⟨(), x, []⟩ r w → OnlyOwn d w.log) ∧
      (∀ binPrefix x r w, Exec E (restart d binPrefix) ⟨(), x, []⟩ r w → OnlyOwn d w.log)) ↔
    ∀ out, Prints E out → OwnFirst d out := by
  constructor
  · rintro ⟨hright, -, -⟩ out hout
    exact (pidIn_right_iff (hlisting out hout)).mp (hright out hout)
  · intro hfirst
    have hE : ∀ out, Prints E out → Listing out ∧ OwnFirst d out :=
      fun out hout => ⟨hlisting out hout, hfirst out hout⟩
    have hnil : ∀ x : η, OnlyOwn d (⟨(), x, []⟩ : World sig Unit η).log := by
      intro x later e before heq
      simp at heq
    have hends : ∀ {r : Outcome PyError Unit} {w : World sig Unit η},
        gives (fun _ w' => OnlyOwn d w'.log) (fun w' => OnlyOwn d w'.log) r w → OnlyOwn d w.log := by
      rintro (_ | _ | _) w h
      · exact h
      · exact h
      · exact h
    refine ⟨fun out hout => (pidIn_right_iff (hlisting out hout)).mpr (hfirst out hout), ?_, ?_⟩
    · intro timeout x r w hrun
      exact hends (wp_post (wp_stop hE timeout (hnil x)) hrun)
    · intro binPrefix x r w hrun
      exact hends (wp_post (wp_restart hE binPrefix (hnil x)) hrun)

end Runs

/-! ### A host with one daemon or two -/

def osd1 : LocalDaemon := ⟨"osd".toList, "1".toList⟩

def heading : Text := "USER PID COMMAND\n".toList

/-- `ps` prints the line until the process is killed, and then the heading alone. -/
def answer (line : Text) : (o : Op) → Unit → Bool → o.Ans × Unit × Bool
  | .ps, s, killed => (.ok (heading ++ if killed then [] else line), s, killed)
  | .kill _, s, _ => (.ok (), s, true)
  | .sleep _, s, killed => ((), s, killed)
  | .run _, s, killed => (.ok (), s, killed)

def Host (line : Text) : Env sig Unit Bool := fun o s x a s' x' => (a, s', x') = answer line o s x

def osd1Line : Text := "me 4711 zbkc-osd -i 1 -c zbkc.conf".toList

def osd10Line : Text := "me 4712 zbkc-osd -i 10 -c zbkc.conf".toList

theorem prints_host (h : Prints (Host line) out) : out = heading ++ line ∨ out = heading := by
  obtain ⟨s, killed, s', x', heq⟩ := h
  have hout : Except.ok out = (answer line .ps s killed).1 := congrArg (·.1) heq
  cases killed with
  | false => exact .inl (Except.ok.inj hout)
  | true => exact .inr (Except.ok.inj hout)

theorem psLines_osd10 : psLines (heading ++ osd10Line) = [osd10Line] := by decide

theorem psLines_heading : psLines heading = [] := by decide

theorem listing_of_singleton (pid : Int) (hlines : psLines out = [line]) (hpid : pidOf line = .ok pid) :
    Listing out := by
  refine ⟨fun l hl => ⟨pid, ?_⟩, ?_, fun d l hl l' hl' _ _ => ?_⟩
  · rw [hlines, mem_singleton] at hl
    rw [hl, hpid]
  · rw [hlines]
    exact nodup_singleton _
  · rw [hlines, mem_singleton] at hl hl'
    rw [hl, hl']

theorem listing_heading : Listing heading := by
  refine ⟨?_, ?_, ?_⟩
  all_goals simp [psLines_heading]

/-- What the command of a daemon may be in a line that is its own. -/
def commands (line : Text) : List Text :=
  (line.tails.filter "zbkc-".toList.isPrefixOf).flatMap fun tail =>
    tail.inits.filter fun text =>
      decide (" -i ".toList <:+: text) && (tail.drop text.length).head?.all (· == ' ')

theorem Own.mem_commands (h : Own d line) : d.text ∈ commands line := by
  obtain ⟨before, after, rfl, hafter⟩ := h
  have htail : d.text ++ after ∈ (before ++ d.text ++ after).tails :=
    (mem_tails _ _).mpr ⟨before, by rw [append_assoc]⟩
  have hdash : " -i ".toList <:+: d.text := ⟨"zbkc-".toList ++ d.daemonType, d.daemonId, rfl⟩
  refine mem_flatMap.mpr ⟨_, mem_filter.mpr ⟨htail, rfl⟩, mem_filter.mpr ⟨?_, ?_⟩⟩
  · exact (mem_inits _ _).mpr (prefix_append _ _)
  · rw [drop_left, decide_eq_true hdash]
    rcases hafter with rfl | hafter
    · rfl
    · rw [hafter]
      rfl

def bothLines : Text := osd1Line ++ '\n' :: osd10Line

/-- `osd.1` and `osd.10` on one host, in this order. -/
theorem only_own_before_osd10 : (∃ found, pidIn osd1 (heading ++ bothLines) = .ok found ∧
      Right osd1 (heading ++ bothLines) found) ∧
    (∀ x r w, Exec (Host bothLines) (stop osd1 300) ⟨(), x, []⟩ r w → OnlyOwn osd1 w.log) := by
  have hlines : psLines (heading ++ bothLines) = [osd1Line, osd10Line] := by decide
  have hown : Own osd1 osd1Line := ⟨"me 4711 ".toList, " -c zbkc.conf".toList, rfl, .inr rfl⟩
  have hlisting : ∀ out, Prints (Host bothLines) out → Listing out := by
    intro out hout
    rcases prints_host hout with rfl | rfl
    · have hapart : ∀ text ∈ commands osd1Line, text ∉ commands osd10Line := by decide
      refine ⟨?_, ?_, ?_⟩
      · simp only [hlines, forall_mem_cons]
        exact ⟨⟨4711, rfl⟩, ⟨4712, rfl⟩, by simp⟩
      · rw [hlines]
        exact nodup_cons.mpr ⟨by simp [show pidOf osd1Line = .ok 4711 from rfl,
          show pidOf osd10Line = .ok 4712 from rfl], nodup_singleton _⟩
      · intro d l hl l' hl' h h'
        rw [hlines, mem_pair] at hl hl'
        rcases hl with rfl | rfl <;> rcases hl' with rfl | rfl
        · rfl
        · exact absurd h'.mem_commands (hapart _ h.mem_commands)
        · exact absurd h.mem_commands (hapart _ h'.mem_commands)
        · rfl
    · exact listing_heading
  have hfirst : ∀ out, Prints (Host bothLines) out → OwnFirst osd1 out := by
    intro out hout before line after heq _
    rcases prints_host hout with rfl | rfl
    · rw [hlines] at heq
      cases before with
      | nil => exact .inl ((List.cons.inj heq).1 ▸ hown)
      | cons own before => exact .inr ⟨own, .head _, (List.cons.inj heq).1 ▸ hown⟩
    · rw [psLines_heading] at heq
      simp at heq
  obtain ⟨hright, hstop, -⟩ := (only_own_daemon_iff hlisting).mpr hfirst
  exact ⟨hright _ ⟨(), false, (), false, rfl⟩, hstop 300⟩

/-- With `osd.10` alone on the host, `osd.1` is not running, and to stop it kills `osd.10`. -/
theorem stop_osd1_kills_osd10 : Listing (heading ++ osd10Line) ∧
    ¬ Own osd1 osd10Line ∧ pidIn osd1 (heading ++ osd10Line) = .ok (some 4712) ∧
    ∃ w, Exec (Host osd10Line) (stop osd1 300) ⟨(), false, []⟩ (.ret ()) w ∧
      ∃ e ∈ w.log, e.op = .kill 4712 := by
  refine ⟨listing_of_singleton 4712 psLines_osd10 rfl, ?_, rfl, ?_⟩
  · have hnot : osd1.text ∉ commands osd10Line := by decide
    exact fun h => hnot h.mem_commands
  · have hanswer : ∀ o s x, Host osd10Line o s x (answer osd10Line o s x).1 (answer osd10Line o s x).2.1
        (answer osd10Line o s x).2.2 := fun _ _ _ => rfl
    have hrun := exec_runWith hanswer (stop osd1 300) ⟨(), false, []⟩
    exact ⟨_, hrun, _, .tail _ (.head _), rfl⟩

end ZbkcTasks.VstartDaemon
