import ZbkcTasks.ProgPool
import ZbkcTasks.ThrasherInit

/-! The greenlets of a thrashing run as a pool of threads, under every schedule. One invariant relates
what `main` has started and joined to where the others are. -/

namespace ZbkcTasks

open List Prog

def Cmd.waits : Cmd → Bool
  | .findRemote _ => false
  | .removeTmp _ => false
  | _ => true

/-- The operations at which another greenlet may get its turn. -/
def Op.waits : Op → Bool
  | .cmd c => c.waits
  | .sleep _ => true
  | .randIndex _ => false
  | .random => false
  | .uniform _ _ => false
  | .spawn _ => false
  | .join _ => true
  | .get _ => true
  | .testBody => true

def Op.starts : Op → Option Greenlet
  | .spawn g => some g
  | _ => none

def task (config : ThrasherConfig) (remotes : List Remote) : M Unit := do
  init config remotes
  issue .testBody
  doJoin

/-- What the greenlets run, their loops cut after the given numbers of rounds. -/
def Greenlet.body (config : ThrasherConfig) (remotes : List Remote) (fuel n : Nat) :
    Greenlet → M Unit
  | .main => task config remotes
  | .thrash => doThrash fuel n
  | .sighup => doSighup n
  | .optrackToggle => doOptrackToggle n
  | .dumpOps => doDumpOps n
  | .noscrubToggle => doNoscrubToggle n
  | .scrub i => doScrub i n

abbrev GreenletThread := Thread taskSig Thrasher PyError

def EndedWith (r : Except PyError Unit) : GreenletThread → Prop
  | .done r' => r' = r
  | _ => False

variable {th : GreenletThread} {o : Op} {t : Thrasher} {a : o.Ans} {h : Helper} {g : Greenlet}
  {w : W Thrasher}

theorem EndedWith.eq {r : Except PyError Unit} (h : EndedWith r th) : th = .done r := by
  cases th with
  | done r' => exact congrArg _ h
  | _ => exact h.elim

instance (r : Except PyError Unit) (th : GreenletThread) : Decidable (EndedWith r th) :=
  match th with
  | .done r' => inferInstanceAs (Decidable (r' = r))
  | .idle => isFalse id
  | .ready _ => isFalse id
  | .waits _ _ => isFalse id

/-- A greenlet is joined when it has ended; `get` also raises what it has raised. -/
def joinAnswers (threads : Greenlet → GreenletThread) : (o : Op) → o.Ans → Prop
  | .join g, _ => ∃ r, EndedWith r (threads g)
  | .get g, r => EndedWith r (threads g)
  | _, _ => True

instance (threads : Greenlet → GreenletThread) (o : Op) (a : o.Ans) :
    Decidable (joinAnswers threads o a) :=
  match o, a with
  | .join g, _ =>
      match h : threads g with
      | .done r => isTrue ⟨r, by rw [h]; rfl⟩
      | .idle => isFalse fun ⟨r, hr⟩ => by rw [h] at hr; exact hr
      | .ready _ => isFalse fun ⟨r, hr⟩ => by rw [h] at hr; exact hr
      | .waits _ _ => isFalse fun ⟨r, hr⟩ => by rw [h] at hr; exact hr
  | .get g, r => inferInstanceAs (Decidable (EndedWith r (threads g)))
  | .cmd _, _ => isTrue trivial
  | .sleep _, _ => isTrue trivial
  | .randIndex _, _ => isTrue trivial
  | .random, _ => isTrue trivial
  | .uniform _ _, _ => isTrue trivial
  | .spawn _, _ => isTrue trivial
  | .testBody, _ => isTrue trivial

def greenlets (config : ThrasherConfig) (remotes : List Remote) (fuel n : Nat) :
    Sched taskSig Thrasher PyError Greenlet where
  waits := Op.waits
  starts := Op.starts
  body := Greenlet.body config remotes fuel n
  answers := joinAnswers

instance (config : ThrasherConfig) (remotes : List Remote) (fuel n : Nat)
    (threads : Greenlet → GreenletThread) (o : taskSig.Op) (a : taskSig.Ans o) :
    Decidable ((greenlets config remotes fuel n).answers threads o a) :=
  inferInstanceAs (Decidable (joinAnswers threads o a))

abbrev GreenletPool := Pool taskSig Thrasher PyError Greenlet

def Thrasher.new : Thrasher where
  assigned := []
  inOsds := []
  liveOsds := []
  outOsds := []
  deadOsds := []
  stopping := false
  config := {}
  reviveTimeout := 0
  cleanWait := 0
  minin := 0
  chanceMovePg := 0
  sighupDelay := none
  optrackToggleDelay := none
  dumpOpsEnable := none
  noscrubToggleDelay := none
  maxPgs := .list []
  zbkcObjectstoreTool := false
  testRmPastIntervals := false
  scrubbers := []

def pool (config : ThrasherConfig) (remotes : List Remote) : GreenletPool where
  st := .new
  threads g := if g = .main then .ready (task config remotes) else .idle
  issued := []

/-! ### What `main` does -/

/-- The greenlets that `main` has started and joined so far. -/
structure Progress where
  spawned : List Greenlet
  joined : List Greenlet

def Progress.note : Op → Progress → Progress
  | .spawn g, x => { x with spawned := g :: x.spawned }
  | .join g, x => { x with joined := g :: x.joined }
  | .get g, x => { x with joined := g :: x.joined }
  | _, x => x

/-- While `main` waits, the others leave the settings alone. -/
def mainEnv : Env taskSig Thrasher Progress := fun o t x _ t' x' =>
  SameSettings t t' ∧ x' = x.note o

section Main

variable (config : ThrasherConfig) (remotes : List Remote)

/-- What a greenlet finds: the configuration, and all attributes unless `__init__` asks the hosts. -/
structure Found (t : Thrasher) : Prop where
  sameConfig : t.config = config
  initialised : Prompt config remotes → Initialised t

/-- The greenlets started are those that the settings ask for. -/
structure Accounted (t : Thrasher) (x : Progress) : Prop where
  expected : ∀ g ∈ x.spawned, Expected t g
  found : x.spawned ≠ [] → Found config remotes t

def mainAsserts (o : Op) (t : Thrasher) (x : Progress) : Prop :=
  (o.waits = true → Accounted config remotes t x) ∧ (o.starts ≠ none → x.joined = [])

def mainPost : Outcome PyError Unit → World taskSig Thrasher Progress → Prop :=
  gives (fun _ w => Accounted config remotes w.st w.ext ∧ ∀ g, Expected w.st g → g ∈ w.ext.joined)
    fun w => Accounted config remotes w.st w.ext

variable {config remotes} {w : W Progress} {helpers : List Helper} {t' : Thrasher}

theorem Found.same (h : Found config remotes t) (ht : SameSettings t t') : Found config remotes t' :=
  ⟨ht.config.trans h.sameConfig, fun hprompt => ht.initialised (h.initialised hprompt)⟩

theorem Accounted.same {x x' : Progress} (h : Accounted config remotes t x) (ht : SameSettings t t')
    (hx : x'.spawned = x.spawned) : Accounted config remotes t' x' where
  expected g hg := ht.expected (h.expected g (hx ▸ hg))
  found hne := (h.found (hx ▸ hne)).same ht

theorem accounted_nil (t : Thrasher) (joined : List Greenlet) :
    Accounted config remotes t ⟨[], joined⟩ :=
  ⟨by simp, fun hne => absurd rfl hne⟩

theorem wp_attr_gives {η β : Type} {E : Env taskSig Thrasher η} {A : Op → Thrasher → η → Prop}
    {w : W η} {P : β → W η → Prop} {K : W η → Prop} {a : Attr} {f : Thrasher → β} (hP : P (f w.st) w)
    (hK : K w) : wp E A (attr a f) (gives P K) w := by
  change wp E A (if a ∈ w.st.assigned then _ else _) _ w
  split
  · exact hP
  · exact hK

theorem wp_log_gives {η : Type} {E : Env taskSig Thrasher η} {A : Op → Thrasher → η → Prop}
    {w : W η} {P : Unit → W η → Prop}
    {K : W η → Prop} (hP : P () w) (hK : K w) : wp E A log (gives P K) w :=
  wp_seq (P := fun _ w' => w' = w) (wp_attr_gives rfl hK) fun _ _ h => by
    rw [h]
    exact wp_attr_gives hP hK

/-- The helpers in the list are joined as far as they were started, and so is the thrash loop. -/
structure Joining (config : ThrasherConfig) (remotes : List Remote) (helpers : List Helper)
    (w : World taskSig Thrasher Progress) : Prop where
  accounted : Accounted config remotes w.st w.ext
  thrash : .thrash ∈ w.ext.joined
  helper : ∀ h ∈ helpers, h.enabled w.st = true → h.greenlet ∈ w.ext.joined

theorem Joining.skip (hw : Joining config remotes helpers w) (hh : h.enabled w.st ≠ true) :
    Joining config remotes (h :: helpers) w where
  accounted := hw.accounted
  thrash := hw.thrash
  helper := forall_mem_cons.mpr ⟨fun henabled => absurd henabled hh, hw.helper⟩

theorem Joining.joined (hw : Joining config remotes helpers w)
    (hnote : w.ext.note o = ⟨w.ext.spawned, h.greenlet :: w.ext.joined⟩) (ht : SameSettings w.st t) :
    Joining config remotes (h :: helpers) (w.push (S := taskSig) o a t (w.ext.note o)) := by
  rw [hnote]
  refine ⟨hw.accounted.same ht rfl, .tail _ hw.thrash, forall_mem_cons.mpr ⟨fun _ => .head _, ?_⟩⟩
  intro h' hmem henabled
  exact .tail _ (hw.helper h' hmem ((ht.enabled h').symm.trans henabled))

theorem wp_join (hw : Joining config remotes helpers w) (h : Helper) :
    wp mainEnv (mainAsserts config remotes) h.join
      (gives (fun _ => Joining config remotes (h :: helpers))
        fun w' => Accounted config remotes w'.st w'.ext) w := by
  have hasserts : ∀ o : Op, o.starts = none → mainAsserts config remotes o w.st w.ext :=
    fun o ho => ⟨fun _ => hw.accounted, fun hne => absurd ho hne⟩
  cases h with
  | sighup =>
    refine ⟨hasserts _ rfl, ?_⟩
    rintro (e | a) t x ⟨ht, rfl⟩
    · exact hw.accounted.same ht rfl
    · exact hw.joined (h := .sighup) rfl ht
  | optrackToggle =>
    refine ⟨hasserts _ rfl, ?_⟩
    rintro a t x ⟨ht, rfl⟩
    exact hw.joined (h := .optrackToggle) rfl ht
  | dumpOps =>
    refine ⟨hasserts _ rfl, ?_⟩
    rintro a t x ⟨ht, rfl⟩
    exact hw.joined (h := .dumpOps) rfl ht
  | noscrubToggle =>
    refine ⟨hasserts _ rfl, ?_⟩
    rintro a t x ⟨ht, rfl⟩
    exact hw.joined (h := .noscrubToggle) rfl ht

theorem wp_joinHelper (hw : Joining config remotes helpers w) (h : Helper) :
    wp mainEnv (mainAsserts config remotes) (joinHelper h)
      (gives (fun _ => Joining config remotes (h :: helpers))
        fun w' => Accounted config remotes w'.st w'.ext) w := by
  refine wp_seq (P := fun enabled w' => enabled = h.enabled w.st ∧ w' = w)
    (wp_attr_gives ⟨rfl, rfl⟩ hw.accounted) ?_
  rintro enabled w' ⟨rfl, rfl⟩
  unfold when
  split
  next =>
    refine wp_seq (P := fun _ w'' => w'' = w') (wp_log_gives rfl hw.accounted) ?_
    rintro _ w'' rfl
    refine wp_seq (P := fun _ w' => w' = w'') (wp_attr_gives rfl hw.accounted) ?_
    rintro _ w' rfl
    exact wp_join hw h
  next hdisabled => exact hw.skip hdisabled

theorem wp_doJoin (hw : Accounted config remotes w.st w.ext) :
    wp mainEnv (mainAsserts config remotes) doJoin (mainPost config remotes) w := by
  let w1 : W Progress := { w with st := { w.st with stopping := true } }
  have hw1 : Accounted config remotes w1.st w1.ext :=
    hw.same ⟨List.Subset.refl _, rfl, rfl, rfl, rfl, rfl, rfl⟩ rfl
  have hthrash : wp mainEnv (mainAsserts config remotes) (getGreenlet .thrash)
      (gives (fun _ => Joining config remotes []) fun w' => Accounted config remotes w'.st w'.ext) w1 := by
    refine ⟨⟨fun _ => hw1, fun hne => absurd rfl hne⟩, ?_⟩
    rintro (e | a) t x ⟨ht, rfl⟩
    · exact hw1.same ht rfl
    · exact ⟨hw1.same ht rfl, .head _, by simp⟩
  change wp mainEnv (mainAsserts config remotes) (attr .thread (fun _ => ()) >>= fun _ => _) _ w1
  refine wp_seq (P := fun _ w' => w' = w1) (wp_attr_gives rfl hw1) ?_
  rintro _ w' rfl
  refine wp_seq hthrash fun _ w2 h2 => ?_
  refine wp_seq (wp_joinHelper h2 .sighup) fun _ w3 h3 => ?_
  refine wp_seq (wp_joinHelper h3 .optrackToggle) fun _ w4 h4 => ?_
  refine wp_seq (wp_joinHelper h4 .dumpOps) fun _ w5 h5 => ?_
  refine wp_result (fun _ w6 h6 => ⟨h6.accounted, ?_⟩)
    (wp_joinHelper h5 .noscrubToggle)
  rintro g (_ | @⟨h, henabled⟩)
  · exact h6.thrash
  · exact h6.helper h (by cases h <;> decide) henabled

/-- **What `main` does**, whatever the others do meanwhile to the rest of the object. -/
theorem wp_task (hw : w.ext = ⟨[], []⟩) :
    wp mainEnv (mainAsserts config remotes) (task config remotes) (mainPost config remotes) w := by
  have hinit := wp_init config remotes (E := mainEnv) (A := mainAsserts config remotes) (x := ⟨[], []⟩)
    (J := fun t x => (∀ g ∈ x.spawned, Expected t g) ∧ x.joined = [] ∧ t.config = config)
    (fun _ _ _ _ _ _ h => h.1) (fun _ _ _ _ _ h => h.2)
    (fun c t => ⟨fun _ => accounted_nil t [], fun hne => absurd rfl hne⟩) hw
    (fun t t' x ht h => ⟨fun g hg => ht.expected (h.1 g hg), h.2.1, ht.config.trans h.2.2⟩)
    (fun _ _ _ h => ⟨by simp, rfl, h.sameConfig⟩) ?_ ?_
  · refine wp_seq (wp_weaken (fun _ _ h => h.2) ?_ hinit) ?_
    · rintro w' (hx | ⟨hprompt, hexpected, -, hconfig⟩)
      · exact hx ▸ accounted_nil _ []
      · exact ⟨hexpected, fun _ => ⟨hconfig, fun h => absurd h hprompt⟩⟩
    · rintro _ w1 ⟨hall, hexpected, -, hconfig⟩
      have haccounted : Accounted config remotes w1.st w1.ext :=
        ⟨hexpected, fun _ => ⟨hconfig, fun _ => hall⟩⟩
      refine ⟨⟨fun _ => haccounted, fun hne => absurd rfl hne⟩, ?_⟩
      rintro a t x ⟨ht, rfl⟩
      exact wp_doJoin (haccounted.same ht rfl)
  · rintro g t x hg ⟨hexpected, hjoined, hconfig⟩
    refine ⟨⟨fun h => absurd h Bool.false_ne_true, fun _ => hjoined⟩, ?_⟩
    rintro a t' x' ⟨ht, rfl⟩
    refine ⟨forall_mem_cons.mpr ⟨ht.expected hg, fun g' hg' => ?_⟩, hjoined,
      ht.config.trans hconfig⟩
    exact ht.expected (hexpected g' hg')
  · rintro hprompt c t x ⟨hexpected, hjoined, hconfig⟩
    have haccounted : Accounted config remotes t x :=
      ⟨hexpected, fun _ => ⟨hconfig, fun h => absurd h hprompt⟩⟩
    refine ⟨⟨fun _ => haccounted, fun hne => absurd rfl hne⟩, ?_⟩
    rintro a t' x' ⟨ht, rfl⟩
    exact ⟨fun g hg => ht.expected (hexpected g hg), hjoined, ht.config.trans hconfig⟩

end Main

/-! ### What the others do -/

section Others

variable (config : ThrasherConfig) (remotes : List Remote)

/-- The object may change while a greenlet waits; it is remembered as it is found again. -/
def otherEnv : Env taskSig Thrasher Thrasher := fun o t x _ t' x' =>
  if o.waits = true then Found config remotes t' ∧ x' = t' else t' = t ∧ x' = x

def Scrubs : Prop := 0 < (thrashSettings config).scrubint

def otherAsserts (o : Op) (t x : Thrasher) : Prop :=
  (o.waits = true → SameSettings x t) ∧
    ∀ g, o.starts = some g → Scrubs config ∧ ∃ i, g = .scrub i

structure Fair (w : World taskSig Thrasher Thrasher) : Prop where
  same : SameSettings w.ext w.st
  found : Found config remotes w.st

/-- An `AttributeError` is raised only if `__init__` has waited. -/
def Tolerates (e : PyError) : Prop := Prompt config remotes → ∀ name, e ≠ .attributeError name

def otherPost : Outcome PyError Unit → World taskSig Thrasher Thrasher → Prop :=
  settles (Fair config remotes) (Fair config remotes) (Tolerates config remotes)

variable {config remotes}

theorem otherEnv_wait (ho : o.waits = true) {x t' : Thrasher} (a : o.Ans) (ht : Found config remotes t') :
    otherEnv config remotes o t x a t' t' := by
  rw [otherEnv, if_pos ho]
  exact ⟨ht, rfl⟩

theorem otherEnv_draw (ho : o.waits = false) (t x : Thrasher) (a : o.Ans) :
    otherEnv config remotes o t x a t x := by
  rw [otherEnv, if_neg (by simp [ho])]
  exact ⟨rfl, rfl⟩

theorem Fair.push (hw : Fair config remotes w) {x : Thrasher}
    (h : otherEnv config remotes o w.st w.ext a t x) :
    Fair config remotes (w.push (S := taskSig) o a t x) := by
  unfold otherEnv at h
  split at h
  · obtain ⟨hfound, rfl⟩ := h
    exact ⟨.refl _, hfound⟩
  · obtain ⟨rfl, rfl⟩ := h
    exact ⟨hw.same, hw.found⟩

theorem Fair.write (hw : Fair config remotes w) (ht : SameSettings w.st t) :
    Fair config remotes { w with st := t } :=
  ⟨hw.same.trans ht, hw.found.same ht⟩

variable (config remotes) in
def calmUsage : Usage taskSig Thrasher PyError where
  ops o := o.starts = none
  acts _ := False
  throws := Tolerates config remotes
  reads := Found config remotes

variable (config remotes) in
/-- What a greenlet may use: it may also change the lists and start scrubbers. -/
def greenletUsage : Usage taskSig Thrasher PyError :=
  { calmUsage config remotes with
    acts := fun m => (∃ μ osd, m = Mutator.run μ osd) ∨ Scrubs config ∧ ∃ up, m = addScrubber up }

theorem fits_of_found {U : Usage taskSig Thrasher PyError} (hops : ∀ o, o.starts = none → U.ops o)
    (hthrows : U.throws = Tolerates config remotes) (hreads : U.reads = Found config remotes) :
    Fits U where
  ops o ho := hops o (by cases o <;> first | rfl | cases ho)
  attr a t ha ht := by
    rw [hreads] at ht
    by_cases h : Prompt config remotes
    · exact .inl (ht.initialised h a ha)
    · exact .inr (hthrows ▸ fun hprompt => absurd hprompt h)
  throws e he := hthrows ▸ fun _ => he

theorem calm_fits : Fits (calmUsage config remotes) := fits_of_found (fun _ h => h) rfl rfl

theorem greenlet_fits : Fits (greenletUsage config remotes) := fits_of_found (fun _ h => h) rfl rfl

theorem fair_op (ho : o.starts = none) (hw : Fair config remotes w) :
    otherAsserts config o w.st w.ext ∧ ∀ a t x, otherEnv config remotes o w.st w.ext a t x →
        Fair config remotes (w.push (S := taskSig) o a t x) :=
  ⟨⟨fun _ => hw.same, fun g hg => absurd (ho.symm.trans hg) (by simp)⟩, fun _ _ _ => hw.push⟩

theorem fair_calm {α : Type} {p : M α} (hp : Uses (calmUsage config remotes) p)
    (hw : Fair config remotes w) : wp (otherEnv config remotes) (otherAsserts config) p
      (settles (Fair config remotes) (Fair config remotes) (Tolerates config remotes)) w :=
  hp.wp (fun _ h => h) (fun _ h => h.found) (fun _ _ ho h => fair_op ho h)
    (fun _ _ (h : False) _ => h.elim) w hw

theorem SameSettings.setOsds (t : Thrasher) (l : OsdList) (xs : List Osd) :
    SameSettings t (t.setOsds l xs) := by
  cases l <;> exact ⟨List.Subset.refl _, rfl, rfl, rfl, rfl, rfl, rfl⟩

theorem fair_remove (l : OsdList) (osd : Osd) (hw : Fair config remotes w) :
    wp (otherEnv config remotes) (otherAsserts config) (remove l osd) (otherPost config remotes) w := by
  refine wp_bind_settles (fair_calm (uses_osds calm_fits l) hw) fun xs w' h' => ?_
  split
  · exact h'.write (.setOsds _ l _)
  · exact ⟨fun _ => by simp, h'⟩

theorem fair_append (l : OsdList) (osd : Osd) (hw : Fair config remotes w) :
    wp (otherEnv config remotes) (otherAsserts config) (append l osd) (otherPost config remotes) w :=
  wp_bind_settles (fair_calm (uses_osds calm_fits l) hw) fun _ _ h' => h'.write (.setOsds _ l _)

theorem fair_transfer (src dst : OsdList) (osd : Osd) (hw : Fair config remotes w) :
    wp (otherEnv config remotes) (otherAsserts config) (transfer src dst osd)
      (otherPost config remotes) w :=
  wp_bind_settles (fair_remove src osd hw) fun _ _ h' => fair_append dst osd h'

theorem fair_manager (c : Cmd) (hw : Fair config remotes w) :
    wp (otherEnv config remotes) (otherAsserts config) (manager c)
      (settles (Fair config remotes) (Fair config remotes) (Tolerates config remotes)) w :=
  fair_calm ((uses_attr calm_fits _ _ rfl).bind fun _ => uses_callOf calm_fits rfl) hw

theorem fair_run (μ : Mutator) (osd : Osd) (hw : Fair config remotes w) :
    wp (otherEnv config remotes) (otherAsserts config) (μ.run osd) (otherPost config remotes) w := by
  cases μ with
  | kill | blackholeKill | in_ =>
    exact wp_bind_settles (fair_transfer _ _ osd hw) fun _ _ h => fair_manager _ h
  | revive skip =>
    refine wp_bind_settles (fair_calm (uses_attr calm_fits _ _ rfl) hw) fun _ _ h => ?_
    exact wp_bind_settles (fair_manager _ h) fun _ _ h' => fair_transfer _ _ osd h'
  | out => exact wp_bind_settles (fair_manager _ hw) fun _ _ h => fair_transfer _ _ osd h

theorem fair_addScrubber (hscrubs : Scrubs config) (up : List Osd) (hw : Fair config remotes w) :
    wp (otherEnv config remotes) (otherAsserts config) (addScrubber up) (otherPost config remotes) w := by
  have hw' : Fair config remotes
      { w with st := { w.st with scrubbers := w.st.scrubbers ++ [⟨up, false⟩] } } :=
    hw.write ⟨List.Subset.refl _, rfl, rfl, rfl, rfl, rfl, rfl⟩
  refine ⟨⟨fun _ => hw'.same, ?_⟩, fun _ _ _ => hw'.push⟩
  rintro g ⟨⟩
  exact ⟨hscrubs, _, rfl⟩

theorem fair_of_uses {α : Type} {p : M α} (hp : Uses (greenletUsage config remotes) p)
    (hw : Fair config remotes w) : wp (otherEnv config remotes) (otherAsserts config) p
      (settles (Fair config remotes) (Fair config remotes) (Tolerates config remotes)) w := by
  refine hp.wp (fun _ h => h) (fun _ h => h.found) (fun _ _ ho h => fair_op ho h) ?_ w hw
  rintro m w (⟨μ, osd, rfl⟩ | ⟨hscrubs, up, rfl⟩) h
  · exact fair_run μ osd h
  · exact fair_addScrubber hscrubs up h

theorem fair_logExc {m : M Unit} (hm : Uses (greenletUsage config remotes) m) (hw : Fair config remotes w) :
    wp (otherEnv config remotes) (otherAsserts config) (logExc m) (otherPost config remotes) w := by
  refine wp_catching (wp_mono ?_ (fair_of_uses hm hw))
  rintro (a | e | _) w' h'
  · exact h'
  · exact fair_of_uses ((uses_log greenlet_fits).bind fun _ => .throw h'.1) h'.2
  · exact h'

theorem greenlet_acts : Acts (greenletUsage config remotes) :=
  ⟨greenlet_fits, fun osd => .inl ⟨.kill, osd, rfl⟩, fun osd => .inl ⟨.revive false, osd, rfl⟩,
    fun osd => .inl ⟨.in_, osd, rfl⟩⟩

theorem greenlet_rounds (fuel : Nat) :
    Rounds (greenletUsage config remotes) fuel (thrashSettings config) :=
  greenlet_acts.rounds (fun osd => .inl ⟨.out, osd, rfl⟩) (fun h up => .inr ⟨h, up, rfl⟩) fuel

/-- **What the others do.** In no turn does a greenlet touch the settings. -/
theorem fair_body (fuel n : Nat) (hg : g ≠ .main) (hw : Fair config remotes w) :
    wp (otherEnv config remotes) (otherAsserts config) (g.body config remotes fuel n)
      (otherPost config remotes) w := by
  have h : Fits (greenletUsage config remotes) := greenlet_fits
  cases g with
  | main => exact absurd rfl hg
  | thrash =>
    have hrounds : ∀ t, Found config remotes t →
        Rounds (greenletUsage config remotes) fuel (thrashSettings t.config) :=
      fun t ht => ht.sameConfig ▸ greenlet_rounds fuel
    exact fair_logExc (uses_doThrash greenlet_acts hrounds n) hw
  | sighup => exact fair_logExc (uses_doSighup h n) hw
  | optrackToggle =>
    exact fair_logExc ((uses_attr h _ _ rfl).bind fun _ => (uses_log h).bind fun _ =>
      uses_optrackLoop h _ _ n) hw
  | dumpOps =>
    exact fair_logExc ((uses_log h).bind fun _ => uses_untilStopping h
      ((uses_dumpOpsFrom h 0 n).bind fun _ => uses_sleep h 0) n) hw
  | noscrubToggle =>
    exact fair_logExc ((uses_attr h _ _ rfl).bind fun _ => (uses_log h).bind fun _ =>
      uses_noscrubLoop h _ _ n) hw
  | scrub i => exact fair_of_uses (uses_doScrub h i n) hw

end Others

/-! ### The invariant of the pool -/

def Greenlet.own : Greenlet → Bool
  | .main => false
  | .scrub _ => false
  | _ => true

theorem Expected.own (h : Expected t g) : g.own = true := by
  cases h with
  | thrash => rfl
  | @helper h _ => cases h <;> rfl

section Progress

variable {x : Progress} {l : List Op}

theorem Op.starts_of_waits (h : o.waits = true) : o.starts = none := by
  cases o <;> first | rfl | cases h

theorem Progress.spawned_note (h : o.starts = none) : (x.note o).spawned = x.spawned := by
  cases o <;> first | rfl | cases h

theorem Progress.joined_note (h : o.waits = false) : (x.note o).joined = x.joined := by
  cases o <;> first | rfl | cases h

theorem Progress.joined_answered {threads : Greenlet → GreenletThread} (ha : joinAnswers threads o a)
    (hg : g ∈ (x.note o).joined) : g ∈ x.joined ∨ ∃ r, threads g = .done r := by
  cases o with
  | join g' =>
    rcases mem_cons.mp hg with rfl | hg
    · exact .inr (ha.imp fun _ hr => hr.eq)
    · exact .inl hg
  | get g' =>
    rcases mem_cons.mp hg with rfl | hg
    · exact .inr ⟨a, EndedWith.eq ha⟩
    · exact .inl hg
  | _ => exact .inl hg

abbrev Progress.notes (x : Progress) (l : List Op) : Progress := l.foldl (fun x o => x.note o) x

theorem Progress.mem_spawned_notes :
    g ∈ (x.notes l).spawned ↔ g ∈ l.filterMap Op.starts ∨ g ∈ x.spawned := by
  induction l generalizing x with
  | nil => simp
  | cons o l ih =>
    rw [Progress.notes, foldl_cons, ih, filterMap_cons]
    cases o with
    | spawn g' => simp [Op.starts, Progress.note, or_left_comm, or_assoc]
    | _ => exact Iff.rfl

theorem Progress.joined_notes (hl : ∀ o ∈ l, o.waits = false) : (x.notes l).joined = x.joined := by
  induction l generalizing x with
  | nil => rfl
  | cons o l ih =>
    obtain ⟨ho, hl⟩ := forall_mem_cons.mp hl
    rw [Progress.notes, foldl_cons, ih hl, Progress.joined_note ho]

end Progress

def Resumable (config : ThrasherConfig) (remotes : List Remote) (p : M Unit) : Prop :=
  ∀ t, Found config remotes t → ∃ log,
    wp (otherEnv config remotes) (otherAsserts config) p (otherPost config remotes) ⟨t, t, log⟩

def ThreadFine (config : ThrasherConfig) (remotes : List Remote) : GreenletThread → Prop
  | .idle => True
  | .ready p => Resumable config remotes p
  | .waits _ k => ∀ a, Resumable config remotes (k a)
  | .done (.ok _) => True
  | .done (.error e) => Tolerates config remotes e

section Invariant

variable {config : ThrasherConfig} {remotes : List Remote} {fuel n : Nat}

theorem resumable_body (hg : g ≠ .main) : Resumable config remotes (g.body config remotes fuel n) :=
  fun t ht => ⟨[], fair_body fuel n hg ⟨.refl t, ht⟩⟩

theorem fine_of_meets
    (h : th.Meets (greenlets config remotes fuel n) (otherEnv config remotes) (otherAsserts config)
      (otherPost config remotes) w) : ThreadFine config remotes th := by
  cases th with
  | idle => trivial
  | ready p => exact h.elim
  | waits o k =>
    intro a t ht
    exact ⟨_, h.2.2 a t t (otherEnv_wait h.1 a ht)⟩
  | done r =>
    cases r with
    | ok a => trivial
    | error e => exact h.1

theorem same_of_meets
    (h : th.Meets (greenlets config remotes fuel n) (otherEnv config remotes) (otherAsserts config)
      (otherPost config remotes) w) : SameSettings w.ext w.st := by
  cases th with
  | idle | ready => exact h.elim
  | waits o k => exact h.2.1.1 h.1
  | done r =>
    cases r with
    | ok a => exact h.same
    | error e => exact h.2.same

theorem accounted_of_meets {w : W Progress}
    (h : th.Meets (greenlets config remotes fuel n) mainEnv (mainAsserts config remotes)
      (mainPost config remotes) w) : Accounted config remotes w.st w.ext := by
  cases th with
  | idle | ready => exact h.elim
  | waits o k => exact h.2.1.1 h.1
  | done r =>
    cases r with
    | ok a => exact h.1
    | error e => exact h

theorem resumable_of_goes {P : GreenletPool} {p : M Unit} (hfine : ThreadFine config remotes (P.threads g))
    (h : Goes (greenlets config remotes fuel n) P g p) : Resumable config remotes p := by
  cases h with
  | ready hp =>
    rw [hp] at hfine
    exact hfine
  | answered ho _ =>
    rw [ho] at hfine
    exact hfine _

/-- The pool, and the world `w` as `main` has seen it last. -/
structure Sound (config : ThrasherConfig) (remotes : List Remote) (fuel n : Nat) (P : GreenletPool)
    (w : World taskSig Thrasher Progress) : Prop where
  main : P.threads .main = .ready (task config remotes) ∧ w.ext = ⟨[], []⟩ ∨
    (P.threads .main).Meets (greenlets config remotes fuel n) mainEnv
      (mainAsserts config remotes) (mainPost config remotes) w
  view : SameSettings w.st P.st
  accounted : Accounted config remotes w.st w.ext
  started : ∀ g, g ≠ .main → P.threads g ≠ .idle → w.ext.spawned ≠ []
  known : ∀ g, g.own = true → P.threads g ≠ .idle → g ∈ w.ext.spawned
  joined : ∀ g ∈ w.ext.joined, g.own = true → ∃ r, P.threads g = .done r
  others : ∀ g, g ≠ .main → ThreadFine config remotes (P.threads g)
  scrubs : ∀ i, P.threads (.scrub i) ≠ .idle → Scrubs config

theorem sound_pool : Sound config remotes fuel n (pool config remotes) ⟨.new, ⟨[], []⟩, []⟩ where
  main := .inl ⟨rfl, rfl⟩
  view := .refl _
  accounted := accounted_nil _ _
  started g hg hne := absurd (if_neg hg) hne
  known g hg hne := absurd (if_neg fun h => by cases h; cases hg) hne
  joined := by simp
  others g hg := by
    rw [show (pool config remotes).threads g = .idle from if_neg hg]
    trivial
  scrubs i hne := absurd rfl hne

variable {P : GreenletPool} {w : W Progress} {p : M Unit} {l : List Op}

theorem Sound.goes_main (h : Sound config remotes fuel n P w)
    (hgoes : Goes (greenlets config remotes fuel n) P .main p) :
    ∃ w1, w1.st = P.st ∧ w1.ext.spawned = w.ext.spawned ∧
      (∀ g ∈ w1.ext.joined, g.own = true → ∃ r, P.threads g = .done r) ∧
      wp mainEnv (mainAsserts config remotes) p (mainPost config remotes) w1 := by
  cases hgoes with
  | ready hp =>
    rcases h.main with ⟨hready, hx⟩ | hmeets
    · rw [hready] at hp
      cases hp
      exact ⟨⟨P.st, ⟨[], []⟩, []⟩, rfl, by rw [hx], by simp, wp_task rfl⟩
    · rw [hp] at hmeets
      exact hmeets.elim
  | @answered o k a ho ha =>
    rcases h.main with ⟨hready, -⟩ | hmeets
    · rw [hready] at ho
      cases ho
    · rw [ho] at hmeets
      obtain ⟨hwaits, -, hnext⟩ := hmeets
      refine ⟨w.push o a P.st (w.ext.note o), rfl, ?_, fun g hg hown => ?_, ?_⟩
      · exact Progress.spawned_note (Op.starts_of_waits hwaits)
      · exact (Progress.joined_answered ha hg).elim (fun hg => h.joined g hg hown) id
      · exact hnext a P.st _ ⟨h.view, rfl⟩

theorem Sound.turn_main (h : Sound config remotes fuel n P w)
    (hgoes : Goes (greenlets config remotes fuel n) P .main p)
    (hseg : Seg (greenlets config remotes fuel n) p P.st l t th) :
    ∃ w', Sound config remotes fuel n (P.after (greenlets config remotes fuel n) .main l t th) w' := by
  obtain ⟨w1, hst1, hspawned1, hjoined1, hwp⟩ := h.goes_main hgoes
  obtain ⟨⟨w', hst, hext, hmeets⟩, hasserts⟩ :=
    hseg.wp Progress.note (fun _ _ _ _ _ => ⟨.refl _, rfl⟩) w1 hst1 hwp
  have haccounted := accounted_of_meets hmeets
  have hspawned : ∀ g, g ∈ w'.ext.spawned ↔ g ∈ l.filterMap Op.starts ∨ g ∈ w.ext.spawned := by
    intro g
    rw [hext, ← hspawned1]
    exact Progress.mem_spawned_notes
  have hjoined : w'.ext.joined = w1.ext.joined := by
    rw [hext]
    exact Progress.joined_notes hseg.not_waits
  have hmain : .main ∉ l.filterMap Op.starts := fun hmem =>
    absurd (haccounted.expected _ ((hspawned _).mpr (.inl hmem))).own (by decide)
  refine ⟨w', ⟨.inr ?_, ?_, haccounted, fun g hg hne => ?_, fun g hg hne => ?_, fun g hg hown => ?_,
    fun g hg => ?_, fun i hne => ?_⟩⟩
  · rw [Pool.after_self hmain]
    exact hmeets
  · rw [hst]
    exact .refl _
  · by_cases hstart : g ∈ l.filterMap Op.starts
    · exact ne_nil_of_mem ((hspawned g).mpr (.inl hstart))
    · rw [Pool.after_other hstart hg] at hne
      obtain ⟨g', hg'⟩ := exists_mem_of_ne_nil _ (h.started g hg hne)
      exact ne_nil_of_mem ((hspawned g').mpr (.inr hg'))
  · by_cases hstart : g ∈ l.filterMap Op.starts
    · exact (hspawned g).mpr (.inl hstart)
    · rw [Pool.after_other hstart (by rintro rfl; cases hg)] at hne
      exact (hspawned g).mpr (.inr (h.known g hg hne))
  · rw [hjoined] at hg
    by_cases hstart : g ∈ l.filterMap Op.starts
    -- nothing is started once something is joined
    · obtain ⟨o, ho, hog⟩ := mem_filterMap.mp hstart
      obtain ⟨l1, l2, rfl⟩ := append_of_mem ho
      obtain ⟨t', -, hnone⟩ := hasserts l1 o l2 rfl
      have hempty : (w1.ext.notes l1).joined = [] := hnone (by rw [hog]; simp)
      rw [Progress.joined_notes fun o ho => hseg.not_waits o (by simp [ho])] at hempty
      rw [hempty] at hg
      cases hg
    · rw [Pool.after_other hstart (by rintro rfl; cases hown)]
      exact hjoined1 g hg hown
  · by_cases hstart : g ∈ l.filterMap Op.starts
    · rw [Pool.after_started hstart]
      exact resumable_body hg
    · rw [Pool.after_other hstart hg]
      exact h.others g hg
  · have hstart : .scrub i ∉ l.filterMap Op.starts := fun hmem =>
      absurd (haccounted.expected _ ((hspawned _).mpr (.inl hmem))).own Bool.false_ne_true
    rw [Pool.after_other hstart (by simp)] at hne
    exact h.scrubs i hne

theorem Sound.turn_other (h : Sound config remotes fuel n P w) (hg : g ≠ .main)
    (hgoes : Goes (greenlets config remotes fuel n) P g p)
    (hseg : Seg (greenlets config remotes fuel n) p P.st l t th) :
    Sound config remotes fuel n (P.after (greenlets config remotes fuel n) g l t th) w := by
  have hlive : P.threads g ≠ .idle := fun hidle => by
    have halive := hgoes.alive
    rw [hidle] at halive
    cases halive
  have hfound : Found config remotes P.st := (h.accounted.found (h.started g hg hlive)).same h.view
  obtain ⟨log, hwp⟩ := resumable_of_goes (h.others g hg) hgoes P.st hfound
  obtain ⟨⟨w', hst, hext, hmeets⟩, hasserts⟩ :=
    hseg.wp (fun _ x => x) (fun _ s x a ho => otherEnv_draw ho s x a) ⟨P.st, P.st, log⟩ rfl hwp
  have hsame : SameSettings P.st t := by
    have hsame := same_of_meets hmeets
    rwa [hst, hext, foldl_fixed] at hsame
  have hscrub : ∀ g', g' ∈ l.filterMap Op.starts → Scrubs config ∧ ∃ i, g' = .scrub i := by
    intro g' hstart
    obtain ⟨o, ho, hog⟩ := mem_filterMap.mp hstart
    obtain ⟨l1, l2, rfl⟩ := append_of_mem ho
    obtain ⟨t', -, hscrub⟩ := hasserts l1 o l2 rfl
    exact hscrub g' hog
  have hown : ∀ g' : Greenlet, g'.own = true → g' ∉ l.filterMap Op.starts := by
    intro g' hg' hstart
    obtain ⟨-, i, rfl⟩ := hscrub g' hstart
    cases hg'
  have hmain : .main ∉ l.filterMap Op.starts := fun hstart => by
    obtain ⟨-, i, hi⟩ := hscrub _ hstart
    cases hi
  refine ⟨?_, h.view.trans hsame, h.accounted, fun _ _ _ => h.started g hg hlive, fun g' hg' hne => ?_,
    fun g' hmem hg' => ?_, fun g' hg' => ?_, fun i hne => ?_⟩
  · rw [Pool.after_other hmain (Ne.symm hg)]
    exact h.main
  · by_cases heq : g' = g
    · exact heq ▸ h.known g (heq ▸ hg') hlive
    · rw [Pool.after_other (hown g' hg') heq] at hne
      exact h.known g' hg' hne
  · obtain ⟨r, hr⟩ := h.joined g' hmem hg'
    have hne : g' ≠ g := by
      rintro rfl
      have halive := hgoes.alive
      rw [hr] at halive
      cases halive
    exact ⟨r, by rw [Pool.after_other (hown g' hg') hne, hr]⟩
  · by_cases hstart : g' ∈ l.filterMap Op.starts
    · rw [Pool.after_started hstart]
      exact resumable_body hg'
    · by_cases heq : g' = g
      · rw [heq, Pool.after_self (heq ▸ hstart)]
        exact fine_of_meets hmeets
      · rw [Pool.after_other hstart heq]
        exact h.others g' hg'
  · by_cases hstart : .scrub i ∈ l.filterMap Op.starts
    · exact (hscrub _ hstart).1
    · by_cases heq : .scrub i = g
      · exact h.scrubs i (heq ▸ hlive)
      · rw [Pool.after_other hstart heq] at hne
        exact h.scrubs i hne

/-- **Every schedule keeps the invariant.** -/
theorem sound_of_reaches (h : Reaches (greenlets config remotes fuel n) (pool config remotes) P) :
    ∃ w, Sound config remotes fuel n P w := by
  induction h with
  | refl => exact ⟨_, sound_pool⟩
  | tail _ hstep ih =>
    obtain ⟨w, hw⟩ := ih
    obtain @⟨g, p, l, t, th, hgoes, hseg⟩ := hstep
    by_cases hg : g = .main
    · subst hg
      exact hw.turn_main hgoes hseg
    · exact ⟨w, hw.turn_other hg hgoes hseg⟩

end Invariant

end ZbkcTasks
