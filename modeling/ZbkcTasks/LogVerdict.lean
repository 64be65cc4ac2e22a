import ZbkcTasks.PyProg
import ZbkcTasks.PyValue
import ZbkcTasks.TextLines

/-! The end of the task `cluster` of `tasks/zbkc.py`: it looks for lines that no pattern of the whitelist
matches, writes its verdict and cleans up. What a pattern matches is left open. -/

namespace ZbkcTasks.LogVerdict

open List Prog TextLines

abbrev Text := List Char

/-! ### Searching the log -/

/-- The tags of bad lines, the worst first. -/
inductive Tag
  | sec
  | err
  | wrn
  deriving DecidableEq

def Tag.text : Tag → Text
  | .sec => "[SEC]".toList
  | .err => "[ERR]".toList
  | .wrn => "[WRN]".toList

def Tag.pattern : Tag → Text
  | .sec => "\\[SEC\\]".toList
  | .err => "\\[ERR\\]".toList
  | .wrn => "\\[WRN\\]".toList

def anyTag : Text := "\\[ERR\\]|\\[WRN\\]|\\[SEC\\]".toList

/-- What `egrep` makes of a pattern and a line. Only the patterns for the tags are known. -/
structure Egrep where
  accepts : Text → Text → Bool
  accepts_tag : ∀ tag line, accepts (Tag.pattern tag) line = true ↔ tag.text <:+: line
  accepts_anyTag : ∀ line, accepts anyTag line = true ↔ ∃ tag : Tag, tag.text <:+: line

structure TextFile where
  lines : List Text
  newline_notMem : ∀ line ∈ lines, '\n' ∉ line

/-- A part of the pipeline. -/
inductive Stage
  | egrep (pattern : Text)
  | egrepV (pattern : Text)
  | head (count : Nat)

def Stage.lines (egrep : Egrep) : Stage → List Text → List Text
  | .egrep pattern, lines => lines.filter fun line => egrep.accepts pattern line
  | .egrepV pattern, lines => lines.filter fun line => !egrep.accepts pattern line
  | .head count, lines => lines.take count

/-- What the pipeline prints of a file. -/
def output (egrep : Egrep) (file : TextFile) (stages : List Stage) : Text :=
  joinLines '\n' (stages.foldl (fun lines stage => stage.lines egrep lines) file.lines)

/-! ### The task -/

inductive Op (Host : Type)
  | pipe (remote : Host) (file : Text) (stages : List Stage)
  | umount (remote : Host) (dir : Text)
  | diagnose (remote : Host)
  | umountTmpfs (remote : Host)
  | makedirs (path : Text)
  | pullDirectoryTarball (remote : Host) (dir path : Text)
  | remove (paths : List Text)

inductive Made
  | made
  | alreadyThere
  | failed (msg : String)

@[reducible] def Op.Ans {Host : Type} : Op Host → Type
  | .pipe _ _ _ => Except CommandError Text
  | .makedirs _ => Made
  | _ => Except CommandError Unit

abbrev sig (Host : Type) : Sig := ⟨Op Host, Op.Ans⟩

abbrev M (Host α : Type) := Prog (sig Host) PyDict PyError α

structure Ctx (Host : Type) where
  cluster : Text
  firstMonRemotes : List Host
  logWhitelist : List Text
  devsToClean : List (Host × List Text)
  tmpfsJournal : Bool
  osdRemotes : List Host
  archive : Option Text
  archiveOnError : Bool
  monRemotes : List (Host × List (Text × Option Text))
  paths : List Text

variable {Host : Type}

def setSummary (key : String) (v : PyValue) : M Host Unit :=
  .read fun summary => .write (summary.set key v) (.ret ())

def logPath (cluster : Text) : Text := "/var/log/zbkc/".toList ++ cluster ++ ".log".toList

/-- The first line found, or `None`. -/
def firstInZbkcLog (remote : Host) (cluster pattern : Text) (excludes : List Text) :
    M Host (Option Text) :=
  .op (.pipe remote (logPath cluster) (.egrep pattern :: (excludes.map .egrepV ++ [.head 1]))) fun r => do
    let stdout ← ofCommand r
    return if stdout ≠ [] then some stdout else none

def failureReason (found : Text) : PyValue :=
  .atom (.str ("\"" ++ String.ofList (rstripNewlines found) ++ "\" in cluster log"))

/-- The patterns are tried in turn. -/
def findReason (remote : Host) (cluster : Text) (excludes : List Text) : List Text → M Host Unit
  | [] => .ret ()
  | pattern :: patterns => do
      let found ← firstInZbkcLog remote cluster pattern excludes
      found.elim (findReason remote cluster excludes patterns) fun found =>
        setSummary "failure_reason" (failureReason found)

def bySeverity : List Text := [Tag.sec, Tag.err, Tag.wrn].map Tag.pattern

/-- The run has failed; a reason that is there stays. -/
def condemn (remote : Host) (cluster : Text) (excludes : List Text) : M Host Unit := do
  setSummary "success" (.atom (.bool false))
  .read fun summary =>
    if (summary.get? "failure_reason").isNone = true then findReason remote cluster excludes bySeverity
    else .ret ()

def checkLog (remote : Host) (cluster : Text) (excludes : List Text) : M Host Unit := do
  let found ← firstInZbkcLog remote cluster anyTag excludes
  found.elim (.ret ()) fun _ => condemn remote cluster excludes

def umountDir (remote : Host) (dir : Text) : M Host Unit :=
  .op (.umount remote dir) fun r => match r with
    | .ok () => .ret ()
    | .error e => .op (.diagnose remote) fun r => do
        ofCommand r
        .throw (.command e)

def truthy : PyValue → Bool
  | .atom a => a.truthy
  | .list xs => !xs.isEmpty
  | .dict items => !items.isEmpty

/-- `ctx.config.get('archive-on-error') and ctx.summary['success']`. -/
def sparesArchive (ctx : Ctx Host) : M Host Bool :=
  if ctx.archiveOnError = true then
    .read fun summary =>
      (summary.get? "success").elim (.throw (.keyError "success")) fun v => .ret (truthy v)
  else .ret false

def makeArchive (path : Text) : M Host Unit :=
  .op (.makedirs path) fun r => match r with
    | .made => .ret ()
    | .alreadyThere => .ret ()
    | .failed msg => .throw (.exception msg)

def archiveMon (ctx : Ctx Host) (path : Text) (remote : Host) (role : Text × Option Text) : M Host Unit :=
  role.2.elim (.ret ()) fun id =>
    let monDir := "/var/lib/zbkc/mon/".toList ++ ctx.cluster ++ '-' :: id
    .op (.pullDirectoryTarball remote monDir (path ++ '/' :: role.1 ++ ".tgz".toList)) ofCommand

def archiveMons (ctx : Ctx Host) (archive : Text) : M Host Unit := do
  let spared ← sparesArchive ctx
  onlyIf (spared = false) do
    let path := archive ++ "/data".toList
    makeArchive path
    forEach ctx.monRemotes fun host => forEach host.2 (archiveMon ctx path host.1)

def tidyUp (ctx : Ctx Host) : M Host Unit := do
  forEach ctx.devsToClean fun host => forEach host.2 (umountDir host.1)
  onlyIf (ctx.tmpfsJournal = true)
    (forEach ctx.osdRemotes fun remote => .op (.umountTmpfs remote) ofCommand)
  ctx.archive.elim (.ret ()) (archiveMons ctx)
  .op (.remove ctx.paths) ofCommand

def cleanup (ctx : Ctx Host) : M Host Unit := do
  let mon0Remote ← theOnly ctx.firstMonRemotes
  checkLog mon0Remote ctx.cluster ctx.logWhitelist
  tidyUp ctx

def resume (raised : Option PyError) : M Host Unit := raised.elim (.ret ()) .throw

def afterYield (ctx : Ctx Host) (raised : Option PyError) : M Host Unit :=
  ((resume raised).catching fun e => do
    setSummary "success" (.atom (.bool false))
    .throw e).finallyDo (cleanup ctx)

/-! ### Runs -/

abbrev W (Host : Type) := World (sig Host) PyDict Unit

/-- A pipeline prints what it does with the file; the other commands leave the summary alone. -/
def Answered (egrep : Egrep) (files : Text → TextFile) : (o : Op Host) → o.Ans → Prop
  | .pipe _ file stages, ans => ans = .ok (output egrep (files file) stages)
  | .umount _ _, _ => True
  | .diagnose _, _ => True
  | .umountTmpfs _, _ => True
  | .makedirs _, _ => True
  | .pullDirectoryTarball _ _ _, _ => True
  | .remove _, _ => True

def env (egrep : Egrep) (files : Text → TextFile) : Env (sig Host) PyDict Unit :=
  fun o s _ ans s' _ => Answered egrep files o ans ∧ s' = s

theorem env_total (egrep : Egrep) (files : Text → TextFile) (o : Op Host) (s : PyDict) (x : Unit) :
    ∃ ans s' x', env egrep files o s x ans s' x' := by
  cases o with
  | pipe remote file stages => exact ⟨.ok (output egrep (files file) stages), s, (), rfl, rfl⟩
  | umount | diagnose | umountTmpfs | pullDirectoryTarball | remove =>
    exact ⟨.ok (), s, (), trivial, rfl⟩
  | makedirs path => exact ⟨.made, s, (), trivial, rfl⟩

variable {ctx : Ctx Host} {remote : Host} {w : W Host} {line : Text} {tag : Tag}

section Runs

variable {α β : Type} {egrep : Egrep} {files : Text → TextFile} {s s' : PyDict}

def Sets (egrep : Egrep) (files : Text → TextFile) (p : M Host α) (s : PyDict) (a : α) (s' : PyDict) :
    Prop :=
  ∀ w : W Host, w.st = s →
    wp (env egrep files) (fun _ _ _ => True) p (returns fun b w' => b = a ∧ w'.st = s') w

theorem sets_ret (a : α) : Sets egrep files (.ret a : M Host α) s a s :=
  fun _ hw => ⟨rfl, hw⟩

theorem sets_read {k : PyDict → M Host α} {a : α} (h : Sets egrep files (k s) s a s') :
    Sets egrep files (.read k) s a s' := by
  rintro w rfl
  exact h w rfl

variable {p : M Host α}

theorem sets_bind {f : α → M Host β} {a : α} {b : β} {s1 : PyDict} (hp : Sets egrep files p s a s1)
    (hf : Sets egrep files (f a) s1 b s') : Sets egrep files (p >>= f) s b s' := by
  intro w hw
  refine wp_seq (hp w hw) fun a' w' hw' => ?_
  obtain ⟨rfl, hst⟩ := hw'
  exact hf w' hst

theorem sets_setSummary (key : String) (v : PyValue) :
    Sets egrep files (setSummary key v : M Host Unit) s () (s.set key v) := by
  rintro w rfl
  exact ⟨rfl, rfl⟩

/-- The first line that a pattern matches and no pattern of a whitelist does. -/
def firstLine (egrep : Egrep) (file : TextFile) (excludes : List Text) (pattern : Text) : Option Text :=
  file.lines.find? fun line => egrep.accepts pattern line && excludes.all fun e => !egrep.accepts e line

theorem foldl_egrepV (egrep : Egrep) (excludes : List Text) (lines : List Text) :
    (excludes.map Stage.egrepV).foldl (fun lines stage => stage.lines egrep lines) lines =
      lines.filter fun line => excludes.all fun e => !egrep.accepts e line := by
  induction excludes generalizing lines with
  | nil => simp
  | cons e excludes ih =>
    rw [map_cons, foldl_cons, ih, Stage.lines, filter_filter]
    apply filter_congr
    intro line _
    rw [all_cons, Bool.and_comm]

theorem output_firstInZbkcLog (egrep : Egrep) (file : TextFile) (excludes : List Text) (pattern : Text) :
    output egrep file (.egrep pattern :: (excludes.map .egrepV ++ [.head 1])) =
      (firstLine egrep file excludes pattern).elim [] (· ++ ['\n']) := by
  rw [output, foldl_cons, foldl_append, foldl_egrepV, Stage.lines, filter_filter,
    foldl_cons, foldl_nil, Stage.lines, firstLine, ← head?_filter]
  have hboth : (fun line => (excludes.all fun e => !egrep.accepts e line) && egrep.accepts pattern line) =
      fun line => egrep.accepts pattern line && excludes.all fun e => !egrep.accepts e line :=
    funext fun line => Bool.and_comm _ _
  rw [hboth]
  cases List.filter _ file.lines with
  | nil => rfl
  | cons line lines => simp [joinLines]

theorem sets_firstInZbkcLog (remote : Host) (cluster pattern : Text) (excludes : List Text) :
    Sets egrep files (firstInZbkcLog remote cluster pattern excludes) s
      ((firstLine egrep (files (logPath cluster)) excludes pattern).map (· ++ ['\n'])) s := by
  intro w hw
  refine ⟨trivial, fun ans s' x hans => ?_⟩
  obtain ⟨hans, hst⟩ := hans
  obtain rfl : ans = .ok _ := hans
  rw [output_firstInZbkcLog]
  cases firstLine egrep (files (logPath cluster)) excludes pattern with
  | none => exact ⟨rfl, hst.trans hw⟩
  | some line =>
    refine ⟨?_, hst.trans hw⟩
    rw [if_pos (by simp)]
    rfl

/-! ### The verdict -/

def withReason (egrep : Egrep) (file : TextFile) (excludes patterns : List Text) (s : PyDict) : PyDict :=
  (patterns.findSome? (firstLine egrep file excludes)).elim s fun line =>
    s.set "failure_reason" (failureReason (line ++ ['\n']))

theorem sets_findReason (remote : Host) (cluster : Text) (excludes patterns : List Text) :
    Sets egrep files (findReason remote cluster excludes patterns) s ()
      (withReason egrep (files (logPath cluster)) excludes patterns s) := by
  induction patterns with
  | nil => exact sets_ret ()
  | cons pattern patterns ih =>
    apply sets_bind (sets_firstInZbkcLog remote cluster pattern excludes)
    rw [withReason, findSome?_cons]
    cases firstLine egrep (files (logPath cluster)) excludes pattern with
    | none => exact ih
    | some line => exact sets_setSummary _ _

def condemned (egrep : Egrep) (file : TextFile) (excludes : List Text) (s : PyDict) : PyDict :=
  if (s.get? "failure_reason").isNone = true then
    withReason egrep file excludes bySeverity (s.set "success" (.atom (.bool false)))
  else s.set "success" (.atom (.bool false))

def judged (egrep : Egrep) (file : TextFile) (excludes : List Text) (s : PyDict) : PyDict :=
  if (firstLine egrep file excludes anyTag).isSome = true then condemned egrep file excludes s else s

theorem sets_condemn (remote : Host) (cluster : Text) (excludes : List Text) :
    Sets egrep files (condemn remote cluster excludes) s ()
      (condemned egrep (files (logPath cluster)) excludes s) := by
  apply sets_bind (sets_setSummary "success" (.atom (.bool false)))
  apply sets_read
  have hkey : (s.set "success" (.atom (.bool false))).get? "failure_reason" = s.get? "failure_reason" := by
    rw [PyDict.get?_set, if_neg (by decide)]
  rw [hkey, condemned]
  split
  · exact sets_findReason remote cluster excludes bySeverity
  · exact sets_ret ()

theorem sets_checkLog (remote : Host) (cluster : Text) (excludes : List Text) :
    Sets egrep files (checkLog remote cluster excludes) s ()
      (judged egrep (files (logPath cluster)) excludes s) := by
  apply sets_bind (sets_firstInZbkcLog remote cluster anyTag excludes)
  rw [judged]
  cases firstLine egrep (files (logPath cluster)) excludes anyTag with
  | none => exact sets_ret ()
  | some line => exact sets_condemn remote cluster excludes

/-! ### The rest of the clean-up -/

def readOnly (Host : Type) : Usage (sig Host) PyDict PyError :=
  ⟨fun _ => True, fun _ => False, fun _ => True, fun _ => True⟩

theorem uses_command {o : Op Host} {k : o.Ans → M Host α} (hk : ∀ ans, Uses (readOnly Host) (k ans)) :
    Uses (readOnly Host) (.op o k) :=
  .op trivial hk

theorem uses_answer {β : Type} (r : Except CommandError β) : Uses (readOnly Host) (ofCommand r) :=
  uses_ofCommand (fun _ => trivial) r

theorem uses_umountDir (remote : Host) (dir : Text) : Uses (readOnly Host) (umountDir remote dir) := by
  apply uses_command
  intro r
  cases r with
  | ok _ => exact .ret ()
  | error e => exact uses_command fun r => (uses_answer r).bind fun _ => .throw trivial

theorem uses_sparesArchive (ctx : Ctx Host) : Uses (readOnly Host) (sparesArchive ctx) := by
  apply Uses.ite
  · apply Uses.read
    intro summary _
    cases summary.get? "success" with
    | none => exact .throw trivial
    | some v => exact .ret _
  · exact .ret false

theorem uses_archiveMons (ctx : Ctx Host) (archive : Text) :
    Uses (readOnly Host) (archiveMons ctx archive) := by
  apply (uses_sparesArchive ctx).bind
  intro spared
  apply uses_onlyIf
  have hmake : Uses (readOnly Host) (makeArchive (archive ++ "/data".toList) : M Host Unit) := by
    apply uses_command
    intro r
    cases r with
    | made | alreadyThere => exact .ret ()
    | failed msg => exact .throw trivial
  apply hmake.bind
  intro _
  apply Uses.forEach
  intro host
  apply Uses.forEach
  intro role
  rw [archiveMon]
  cases role.2 with
  | none => exact .ret ()
  | some id => exact uses_command uses_answer

theorem uses_tidyUp (ctx : Ctx Host) : Uses (readOnly Host) (tidyUp ctx) := by
  apply (Uses.forEach (fun host => Uses.forEach (uses_umountDir host.1) host.2) ctx.devsToClean).bind
  intro _
  apply (uses_onlyIf (Uses.forEach (fun _ => uses_command uses_answer) ctx.osdRemotes)).bind
  intro _
  have harchive : Uses (readOnly Host) (ctx.archive.elim (.ret ()) (archiveMons ctx)) := by
    cases ctx.archive with
    | none => exact .ret ()
    | some archive => exact uses_archiveMons ctx archive
  exact harchive.bind fun _ => uses_command uses_answer

theorem keeps_of_uses (hp : Uses (readOnly Host) p) (hw : w.st = s) :
    wp (env egrep files) (fun _ _ _ => True) p (fun _ w' => w'.st = s) w := by
  have hinv := hp.wp (E := env egrep files) (A := fun _ _ _ => True) (I := fun w => w.st = s)
    (K := fun w => w.st = s) (fun _ h => h) (fun _ _ => trivial)
    (fun o w _ hw => ⟨trivial, fun a s' x hE => hE.2.trans hw⟩) (fun _ _ h => False.elim h) w hw
  exact wp_mono (fun r w' h => settles_always.mp h) hinv

theorem wp_cleanup (hmon : ctx.firstMonRemotes = [remote]) (hw : w.st = s) :
    wp (env egrep files) (fun _ _ _ => True) (cleanup ctx)
      (fun _ w' => w'.st = judged egrep (files (logPath ctx.cluster)) ctx.logWhitelist s) w := by
  rw [cleanup, hmon, theOnly, ret_bind]
  refine wp_bind.mpr (wp_mono ?_ (sets_checkLog remote ctx.cluster ctx.logWhitelist w hw))
  rintro (_ | e | _) w' h'
  · exact keeps_of_uses (uses_tidyUp ctx) h'.2
  · exact h'.elim
  · exact h'.elim

def resumed (raised : Option PyError) (s : PyDict) : PyDict :=
  if raised.isSome = true then s.set "success" (.atom (.bool false)) else s

theorem wp_afterYield (hmon : ctx.firstMonRemotes = [remote]) (raised : Option PyError) (s : PyDict) :
    wp (env egrep files) (fun _ _ _ => True) (afterYield ctx raised)
      (fun _ w' => w'.st = judged egrep (files (logPath ctx.cluster)) ctx.logWhitelist (resumed raised s))
      ⟨s, (), []⟩ := by
  have hend : ∀ (P : W Host → Prop) (r : Outcome PyError Unit) (w' : W Host), P w' →
      chain (fun _ => P) (fun _ : Outcome PyError Unit => P) r w' := by
    rintro P (_ | e | _) w' h'
    · exact h'
    · exact h'
    · exact h'
  rw [afterYield, wp_finallyDo]
  cases raised with
  | none =>
    show wp _ _ (cleanup ctx) _ ⟨s, (), []⟩
    exact wp_mono (hend _) (wp_cleanup hmon rfl)
  | some e =>
    show wp _ _ (cleanup ctx) _ ⟨s.set "success" (.atom (.bool false)), (), []⟩
    exact wp_mono (hend _) (wp_cleanup hmon rfl)

end Runs

/-! ### What the verdict says -/

section Verdict

variable {egrep : Egrep} {file : TextFile} {whitelist : List Text}

def Shows (egrep : Egrep) (whitelist : List Text) (tag : Tag) (line : Text) : Prop :=
  tag.text <:+: line ∧ ∀ pattern ∈ whitelist, egrep.accepts pattern line = false

def Problem (egrep : Egrep) (file : TextFile) (whitelist : List Text) : Prop :=
  ∃ line ∈ file.lines, ∃ tag, Shows egrep whitelist tag line

def Tag.rank : Tag → Nat
  | .sec => 0
  | .err => 1
  | .wrn => 2

/-- The earliest line with the most severe tag, among the lines that are not excused. -/
def Worst (egrep : Egrep) (file : TextFile) (whitelist : List Text) (line : Text) : Prop :=
  ∃ tag before after, file.lines = before ++ line :: after ∧ Shows egrep whitelist tag line ∧
    (∀ other ∈ before, ¬ Shows egrep whitelist tag other) ∧
    ∀ tag', tag'.rank < tag.rank → ∀ other ∈ file.lines, ¬ Shows egrep whitelist tag' other

theorem excused_iff : (whitelist.all fun e => !egrep.accepts e line) = true ↔
      ∀ pattern ∈ whitelist, egrep.accepts pattern line = false := by
  simp

theorem shows_iff :
    (egrep.accepts tag.pattern line && whitelist.all fun e => !egrep.accepts e line) = true ↔
      Shows egrep whitelist tag line := by
  rw [Bool.and_eq_true, egrep.accepts_tag, excused_iff, Shows]

theorem firstLine_anyTag :
    (firstLine egrep file whitelist anyTag).isSome = true ↔ Problem egrep file whitelist := by
  rw [firstLine, find?_isSome]
  apply exists_congr
  intro line
  rw [Bool.and_eq_true, egrep.accepts_anyTag, excused_iff]
  exact and_congr_right fun _ => ⟨fun ⟨⟨tag, htag⟩, hline⟩ => ⟨tag, htag, hline⟩,
    fun ⟨tag, htag, hline⟩ => ⟨⟨tag, htag⟩, hline⟩⟩

theorem firstLine_eq_none : firstLine egrep file whitelist tag.pattern = none ↔
      ∀ line ∈ file.lines, ¬ Shows egrep whitelist tag line := by
  rw [firstLine, find?_eq_none]
  apply forall_congr'
  intro line
  rw [shows_iff]

theorem firstLine_eq_some (h : firstLine egrep file whitelist tag.pattern = some line) :
    ∃ before after, file.lines = before ++ line :: after ∧ Shows egrep whitelist tag line ∧
      ∀ other ∈ before, ¬ Shows egrep whitelist tag other := by
  obtain ⟨hline, before, after, hsplit, hbefore⟩ := find?_eq_some_iff_append.mp h
  refine ⟨before, after, hsplit, shows_iff.mp hline, ?_⟩
  intro other hother hshows
  have hnot := hbefore other hother
  rw [shows_iff.mpr hshows] at hnot
  cases hnot

theorem worst_of_findSome (h : bySeverity.findSome? (firstLine egrep file whitelist) = some line) :
    Worst egrep file whitelist line := by
  rw [bySeverity, findSome?_map, findSome?_eq_some_iff] at h
  obtain ⟨worse, tag, rest, htags, hline, hnone⟩ := h
  obtain ⟨before, after, hsplit, hshows, hbefore⟩ := firstLine_eq_some hline
  refine ⟨tag, before, after, hsplit, hshows, hbefore, ?_⟩
  intro tag' hrank
  have hsorted : [Tag.sec, Tag.err, Tag.wrn].Pairwise fun a b => a.rank < b.rank := by decide
  have hall : tag' ∈ [Tag.sec, Tag.err, Tag.wrn] := by cases tag' <;> decide
  rw [htags, pairwise_append, pairwise_cons] at hsorted
  rw [htags, mem_append, mem_cons] at hall
  rcases hall with hworse | rfl | hmilder
  · exact firstLine_eq_none.mp (hnone tag' hworse)
  · exact absurd hrank (lt_irrefl _)
  · exact absurd hrank (hsorted.2.1.1 tag' hmilder).asymm

theorem findSome_isSome (h : Problem egrep file whitelist) :
    ∃ line, bySeverity.findSome? (firstLine egrep file whitelist) = some line := by
  obtain ⟨line, hline, tag, hshows⟩ := h
  have htag : tag ∈ [Tag.sec, Tag.err, Tag.wrn] := by cases tag <;> decide
  apply Option.isSome_iff_exists.mp
  rw [findSome?_isSome_iff]
  refine ⟨tag.pattern, mem_map_of_mem htag, ?_⟩
  rw [Option.isSome_iff_ne_none]
  intro hnone
  exact firstLine_eq_none.mp hnone line hline hshows

theorem rstripNewlines_append (h : '\n' ∉ line) : rstripNewlines (line ++ ['\n']) = line := by
  have hlast : line.reverse.dropWhile (· = '\n') = line.reverse := by
    cases hrev : line.reverse with
    | nil => rfl
    | cons c cs =>
      have hc : c ∈ line := mem_reverse.mp (hrev ▸ (.head _))
      have hne : c ≠ '\n' := fun heq => h (heq ▸ hc)
      rw [dropWhile_cons_of_neg (by simpa using hne)]
  rw [rstripNewlines, reverse_append, reverse_singleton, singleton_append,
    dropWhile_cons_of_pos (by simp), hlast, reverse_reverse]

/-- `success` is set to `False` for a problem, and without one nothing is written at all. -/
structure Verdict (egrep : Egrep) (file : TextFile) (whitelist : List Text) (before after : PyDict) :
    Prop where
  failed : Problem egrep file whitelist → after.get? "success" = some (.atom (.bool false))
  clean : ¬ Problem egrep file whitelist → after = before
  reason : Problem egrep file whitelist → before.get? "failure_reason" = none →
    ∃ line, Worst egrep file whitelist line ∧
      after.get? "failure_reason" = some (.atom (.str ("\"" ++ String.ofList line ++ "\" in cluster log")))
  kept : Problem egrep file whitelist → before.get? "failure_reason" ≠ none →
    after.get? "failure_reason" = before.get? "failure_reason"

theorem get?_withReason_success (patterns : List Text) (s : PyDict) :
    (withReason egrep file whitelist patterns s).get? "success" = s.get? "success" := by
  rw [withReason]
  cases patterns.findSome? (firstLine egrep file whitelist) with
  | none => rfl
  | some line => rw [Option.elim_some, PyDict.get?_set, if_neg (by decide)]

theorem get?_set_success (s : PyDict) (v : PyValue) : (s.set "success" v).get? "success" = some v := by
  rw [PyDict.get?_set, if_pos rfl]

theorem get?_judged_of_problem (h : Problem egrep file whitelist) (s : PyDict) :
    (judged egrep file whitelist s).get? "success" = some (.atom (.bool false)) := by
  rw [judged, if_pos (firstLine_anyTag.mpr h), condemned]
  split
  · rw [get?_withReason_success, get?_set_success]
  · rw [get?_set_success]

theorem judged_of_not_problem (h : ¬ Problem egrep file whitelist) (s : PyDict) :
    judged egrep file whitelist s = s := by
  rw [judged, if_neg (mt firstLine_anyTag.mp h)]

theorem verdict_judged (egrep : Egrep) (file : TextFile) (whitelist : List Text) (s : PyDict) :
    Verdict egrep file whitelist s (judged egrep file whitelist s) := by
  refine ⟨fun h => get?_judged_of_problem h s, fun h => judged_of_not_problem h s, ?_, ?_⟩
  · intro h hnone
    obtain ⟨line, hfound⟩ := findSome_isSome h
    have hworst := worst_of_findSome hfound
    have hline : line ∈ file.lines := by
      obtain ⟨tag, before, after, hsplit, -⟩ := hworst
      rw [hsplit]
      exact mem_append_right _ (.head _)
    refine ⟨line, hworst, ?_⟩
    rw [judged, if_pos (firstLine_anyTag.mpr h), condemned,
      if_pos (Option.isNone_iff_eq_none.mpr hnone), withReason, hfound, Option.elim_some, PyDict.get?_set,
      if_pos rfl, failureReason, rstripNewlines_append (file.newline_notMem line hline)]
  · intro h hsome
    rw [judged, if_pos (firstLine_anyTag.mpr h), condemned, if_neg (mt Option.isNone_iff_eq_none.mp hsome),
      PyDict.get?_set, if_neg (by decide)]

end Verdict

/-- **The verdict on the cluster log.** After a body that did not raise, the run is a failure exactly if a
line of the log has one of the tags and matches no pattern of the whitelist; the worst such line is the
reason. -/
theorem afterYield_verdict {ctx : Ctx Host} {remote : Host} (hmon : ctx.firstMonRemotes = [remote])
    (egrep : Egrep) (files : Text → TextFile) (summary : PyDict) :
    (∃ r w, Exec (env egrep files) (afterYield ctx none) ⟨summary, (), []⟩ r w) ∧
      ∀ r w, Exec (env egrep files) (afterYield ctx none) ⟨summary, (), []⟩ r w →
        Verdict egrep (files (logPath ctx.cluster)) ctx.logWhitelist summary w.st := by
  constructor
  · exact exists_exec (env_total egrep files) (afterYield ctx none) ⟨summary, (), []⟩
  · intro r w hrun
    have hst : w.st = judged egrep (files (logPath ctx.cluster)) ctx.logWhitelist summary :=
      wp_post (wp_afterYield hmon none summary) hrun
    rw [hst]
    exact verdict_judged egrep (files (logPath ctx.cluster)) ctx.logWhitelist summary

/-- An `egrep` that takes the other patterns for texts to be found. -/
def literalEgrep : Egrep where
  accepts pattern line :=
    if pattern = anyTag then decide (∃ tag ∈ [Tag.sec, Tag.err, Tag.wrn], tag.text <:+: line)
    else if pattern = Tag.pattern .sec then decide (Tag.text .sec <:+: line)
    else if pattern = Tag.pattern .err then decide (Tag.text .err <:+: line)
    else if pattern = Tag.pattern .wrn then decide (Tag.text .wrn <:+: line)
    else decide (pattern <:+: line)
  accepts_tag tag line := by
    have hany : ∀ tag : Tag, tag.pattern ≠ anyTag := by
      intro tag
      cases tag <;> decide +kernel
    have herr : Tag.pattern .err ≠ Tag.pattern .sec := by decide +kernel
    have hwrn : Tag.pattern .wrn ≠ Tag.pattern .sec ∧ Tag.pattern .wrn ≠ Tag.pattern .err := by
      decide +kernel
    cases tag with
    | sec => rw [if_neg (hany _), if_pos rfl, decide_eq_true_iff]
    | err => rw [if_neg (hany _), if_neg herr, if_pos rfl, decide_eq_true_iff]
    | wrn => rw [if_neg (hany _), if_neg hwrn.1, if_neg hwrn.2, if_pos rfl, decide_eq_true_iff]
  accepts_anyTag line := by
    have hall : ∀ tag : Tag, tag ∈ [Tag.sec, Tag.err, Tag.wrn] := by
      intro tag
      cases tag <;> decide
    rw [if_pos rfl, decide_eq_true_iff]
    exact ⟨fun ⟨tag, _, htag⟩ => ⟨tag, htag⟩, fun ⟨tag, htag⟩ => ⟨tag, hall tag, htag⟩⟩

def sampleCtx : Ctx Unit where
  cluster := "zbkc".toList
  firstMonRemotes := [()]
  logWhitelist := ["slow request".toList]
  devsToClean := []
  tmpfsJournal := false
  osdRemotes := []
  archive := none
  archiveOnError := false
  monRemotes := []
  paths := []

def sampleLog : TextFile where
  lines := ["[ERR] slow request".toList, "[WRN] clock skew".toList, "[ERR] scrub mismatch".toList]
  newline_notMem := by decide +kernel

theorem afterYield_verdict_sample :
    (∃ r w, Exec (env literalEgrep fun _ => sampleLog) (afterYield sampleCtx none) ⟨[], (), []⟩ r w) ∧
      ∀ r w, Exec (env literalEgrep fun _ => sampleLog) (afterYield sampleCtx none) ⟨[], (), []⟩ r w →
        Verdict literalEgrep sampleLog sampleCtx.logWhitelist [] w.st :=
  afterYield_verdict (show sampleCtx.firstMonRemotes = [()] from rfl) literalEgrep (fun _ => sampleLog) []

end ZbkcTasks.LogVerdict
