import Mathlib.Data.List.AList
import Mathlib.Data.List.DropRight
import ZbkcTasks.PyProg
import ZbkcTasks.PyText

/-! The test of `list-attrs` and `get-attr` in `tasks/zbkc_objectstore_tool.py`. A listed key is stripped
of underscores and taken out of a copy of the recorded attributes; what is left there is only logged. -/

namespace ZbkcTasks.ObjectAttrs

open List Option Prog

abbrev Text := List Char

abbrev Xattrs := AList fun _ : Text => Text

/-- An argument of a command. The shell sees a raw one as it is. -/
inductive Arg
  | text (s : Text)
  | raw (s : Text)
  deriving DecidableEq

structure Proc where
  exitstatus : Int
  stdout : Text
  stderr : Text

inductive Op (Host : Type)
  | run (remote : Host) (args : List Arg)
  | log (msg : Text)
  | logValues (values : Xattrs)

@[reducible] def Op.Ans {Host : Type} : Op Host → Type
  | .run _ _ => Proc
  | .log _ => Unit
  | .logValues _ => Unit

@[reducible] def sig (Host : Type) : Sig where
  Op := Op Host
  Ans := Op.Ans

abbrev M (Host : Type) := Prog (sig Host) Nat PyError

/-- One PG on one OSD, with the object as the tool names it there. -/
structure Target (Host : Type) where
  remote : Host
  osdid : Int
  pg : Text
  json : Text

variable {Host : Type}

def countError (msg : Text) : M Host Unit :=
  .op (.log msg) fun _ => .read fun errors => .write (errors + 1) (.ret ())

def toolPrefix (osdid : Int) : Text :=
  "sudo zbkc-objectstore-tool --data-path /var/lib/zbkc/osd/zbkc-".toList ++ (toString osdid).toList ++
    " --journal-path /var/lib/zbkc/osd/zbkc-".toList ++ (toString osdid).toList ++ "/journal ".toList

namespace Target

variable (t : Target Host)

def args : List Arg :=
  (words (toolPrefix t.osdid ++ "--pgid ".toList ++ t.pg)).map Arg.text ++
    [.raw ("'".toList ++ t.json ++ "'".toList)]

def listAttrs : List Arg := t.args ++ [.text "list-attrs".toList]

/-- The key comes from a word of a listing, so the command is split before it and nowhere else. -/
def getAttr (key : Text) : List Arg := t.args ++ [.text "get-attr".toList, .text key]

def scriptTool : Text :=
  toolPrefix t.osdid ++ " --pgid ".toList ++ t.pg ++ " '".toList ++ t.json ++ "' ".toList

def hinfoScript : Text :=
  "\n      expected=$(".toList ++ t.scriptTool ++ "get-attr hinfo_key | base64)".toList ++
  "\n      echo placeholder | ".toList ++ t.scriptTool ++ "set-attr hinfo_key -".toList ++
  "\n      test $(".toList ++ t.scriptTool ++ "get-attr hinfo_key) = placeholder".toList ++
  "\n      echo $expected | base64 --decode |          ".toList ++ t.scriptTool ++
    "set-attr hinfo_key -".toList ++
  "\n      test $(".toList ++ t.scriptTool ++ "get-attr hinfo_key | base64) = $expected".toList ++
  "\n                            ".toList

end Target

def stripUnderscores (key : Text) : Text := (key.dropWhile (· == '_')).rdropWhile (· == '_')

def isSystemKey (key : Text) : Bool :=
  key == "_".toList || key == "snapset".toList || key == "hinfo_key".toList

def checkValue (t : Target Host) (key exp : Text) : M Host Unit :=
  .op (.run t.remote (t.getAttr ('_' :: key))) fun proc =>
    if proc.exitstatus ≠ 0 then
      countError ("get-attr failed with ".toList ++ (toString proc.exitstatus).toList)
    else
      onlyIf (exp ≠ proc.stdout) (countError ("For key ".toList ++ key ++ " got value ".toList ++
        proc.stdout ++ " instead of ".toList ++ exp))

def popAttr (t : Target Host) (key : Text) (values : Xattrs) : M Host Xattrs :=
  (values.lookup key).elim
    (countError ("The key ".toList ++ key ++ " should be present".toList) >>= fun _ => .ret values)
    fun exp => checkValue t key exp >>= fun _ => .ret (values.erase key)

def attrRound (t : Target Host) (key : Text) (values : Xattrs) : M Host Xattrs :=
  if isSystemKey key = true then .ret values else popAttr t (stripUnderscores key) values

def attrLoop (t : Target Host) : List Text → Xattrs → M Host Xattrs
  | [], values => .ret values
  | key :: keys, values => attrRound t key values >>= attrLoop t keys

def hinfoCheck (t : Target Host) : M Host Unit :=
  .op (.log t.hinfoScript) fun _ =>
    .op (.run t.remote (["bash".toList, "-e".toList, "-x".toList, "-c".toList, t.hinfoScript].map Arg.text))
      fun proc =>
        onlyIf (proc.exitstatus ≠ 0)
          (.op (.log ("failed with ".toList ++ (toString proc.exitstatus).toList)) fun _ =>
            countError (proc.stdout ++ " ".toList ++ proc.stderr))

def checkAttrs (t : Target Host) (xattr : Xattrs) : M Host Unit :=
  .op (.run t.remote t.listAttrs) fun proc =>
    if proc.exitstatus ≠ 0 then
      countError ("Bad exit status ".toList ++ (toString proc.exitstatus).toList)
    else do
      let keys := words proc.stdout
      let values ← attrLoop t keys xattr
      onlyIf (keys.contains "hinfo_key".toList = true) (hinfoCheck t)
      onlyIf (values.entries.length ≠ 0) (.op (.log "Not all keys found, remaining keys:".toList) fun _ =>
        .op (.logValues values) .ret)

/-- What `db` holds of an object. One that no list of the tool has named has no `pg2json`. -/
structure Entry where
  xattr : Xattrs
  pg2json : Option (List (Text × Text))

def osdidOf (role : Text) : M Host Int :=
  (role.splitOn '.')[1]?.elim (.throw .indexError) fun part => orThrow (pyInt part)

/-- The whole test: `osds` are the remotes with their roles, `pgs` the PGs of each OSD. -/
def testAttrs (osds : List (Host × List Text)) (pgs : List (Int × List Text)) (db : List (Text × Entry)) :
    M Host Unit :=
  forEach db fun entry => forEach osds fun host => forEach host.2 fun role =>
    onlyIf ("osd.".toList.isPrefixOf role = true) do
      let osdid ← osdidOf role
      (pgs.lookup osdid).elim (.ret ()) fun held =>
        entry.2.pg2json.elim (.throw (.keyError "pg2json")) fun items => forEach items fun item =>
          onlyIf (held.contains item.1 = true) (checkAttrs ⟨host.1, osdid, item.1, item.2⟩ entry.2.xattr)

/-! ### One object in one PG on one OSD -/

def userKeys (keys : List Text) : List Text := keys.filter fun key => !isSystemKey key

def strippedKeys (keys : List Text) : List Text := (userKeys keys).map stripUnderscores

/-- The names are recorded, no name comes twice, and `answer` has their values. -/
def Agrees (answer : Text → Text) (values : Xattrs) (names : List Text) : Prop :=
  names.Nodup ∧ ∀ name ∈ names, values.lookup name = some (answer name)

theorem agrees_cons {answer : Text → Text} {values : Xattrs} {name : Text} {names : List Text} :
    Agrees answer values (name :: names) ↔
      values.lookup name = some (answer name) ∧ Agrees answer (values.erase name) names := by
  constructor
  · rintro ⟨hnodup, hvalues⟩
    obtain ⟨hname, hnodup⟩ := nodup_cons.mp hnodup
    refine ⟨hvalues name (.head _), hnodup, fun other hother => ?_⟩
    rw [AList.lookup_erase_ne (ne_of_mem_of_not_mem hother hname)]
    exact hvalues other (.tail _ hother)
  · rintro ⟨hvalue, hnodup, hvalues⟩
    have hne : ∀ other ∈ names, other ≠ name := by
      rintro other hother rfl
      have herased := hvalues other hother
      rw [AList.lookup_erase] at herased
      cases herased
    refine ⟨nodup_cons.mpr ⟨fun hmem => hne name hmem rfl, hnodup⟩, ?_⟩
    rw [forall_mem_cons]
    refine ⟨hvalue, fun other hother => ?_⟩
    rw [← AList.lookup_erase_ne (hne other hother)]
    exact hvalues other hother

/-- Every command exits with 0, and `reply` is what it prints. -/
def toolEnv (reply : Host → List Arg → Text) : Env (sig Host) Nat Unit
  | .run remote args, s, _, proc, s', _ => s' = s ∧ proc.exitstatus = 0 ∧ proc.stdout = reply remote args
  | .log _, s, _, _, s', _ => s' = s
  | .logValues _, s, _, _, s', _ => s' = s

theorem toolEnv_total (reply : Host → List Arg → Text) :
    ∀ o s x, ∃ a s' x', toolEnv reply o s x a s' x' := by
  intro o s x
  cases o with
  | run remote args => exact ⟨⟨0, reply remote args, []⟩, s, x, rfl, rfl, rfl⟩
  | log | logValues => exact ⟨(), s, x, rfl⟩

def answerOf (reply : Host → List Arg → Text) (t : Target Host) (name : Text) : Text :=
  reply t.remote (t.getAttr ('_' :: name))

section Run

variable {reply : Host → List Arg → Text} {t : Target Host} {α : Type} {w : World (sig Host) Nat Unit}

abbrev does (reply : Host → List Arg → Text) (p : M Host α)
    (P : α → World (sig Host) Nat Unit → Prop) (w : World (sig Host) Nat Unit) : Prop :=
  wp (toolEnv reply) (fun _ _ _ => True) p (returns P) w

theorem does_run {remote : Host} {args : List Arg} {k : Proc → M Host α}
    {P : α → World (sig Host) Nat Unit → Prop}
    (hk : ∀ proc w', proc.exitstatus = 0 → proc.stdout = reply remote args → w'.st = w.st →
      does reply (k proc) P w') : does reply (.op (.run remote args) k) P w :=
  ⟨trivial, fun proc _ _ hstep => hk proc _ hstep.2.1 hstep.2.2 hstep.1⟩

theorem does_countError (msg : Text) :
    does reply (countError msg : M Host Unit) (fun _ w' => w'.st = w.st + 1) w := by
  refine ⟨trivial, fun _ s x hstep => ?_⟩
  show s + 1 = w.st + 1
  rw [show s = w.st from hstep]

theorem does_checkValue (key exp : Text) :
    does reply (checkValue t key exp)
      (fun _ w' => w'.st = if exp = answerOf reply t key then w.st else w.st + 1) w := by
  apply does_run
  intro proc w' hexit hstdout hst
  have hok : ¬ proc.exitstatus ≠ 0 := not_not.mpr hexit
  have hprints : proc.stdout = answerOf reply t key := hstdout
  rw [if_neg hok, onlyIf, hprints, ← hst]
  by_cases hvalue : exp = answerOf reply t key
  · rw [if_neg (not_not.mpr hvalue), if_pos hvalue]
    rfl
  · rw [if_pos hvalue, if_neg hvalue]
    exact does_countError _

/-- How a listed key is counted: it is passed over, it agrees and is taken out, or it is an error. -/
inductive Round (answer : Text → Text) (key : Text) (values : Xattrs) (errors : Nat) : Xattrs → Nat → Prop
  | system : isSystemKey key = true → Round answer key values errors values errors
  | agrees : isSystemKey key = false →
      values.lookup (stripUnderscores key) = some (answer (stripUnderscores key)) →
      Round answer key values errors (values.erase (stripUnderscores key)) errors
  | error {values' : Xattrs} : isSystemKey key = false →
      values.lookup (stripUnderscores key) ≠ some (answer (stripUnderscores key)) →
      Round answer key values errors values' (errors + 1)

theorem does_attrRound (key : Text) (values : Xattrs) : does reply (attrRound t key values)
      (fun values' w' => Round (answerOf reply t) key values w.st values' w'.st) w := by
  rw [attrRound]
  split
  next hsystem => exact .system hsystem
  next huser =>
    have huser := Bool.eq_false_iff.mpr huser
    rw [popAttr]
    cases hlookup : values.lookup (stripUnderscores key) with
    | none =>
      apply wp_seq (does_countError _)
      intro _ w' hst
      show Round _ _ _ _ _ w'.st
      rw [hst]
      exact .error huser (by rw [hlookup]; nofun)
    | some exp =>
      apply wp_seq (does_checkValue _ exp)
      intro _ w' hst
      show Round _ _ _ _ _ w'.st
      rw [hst]
      split
      next heq => exact .agrees huser (by rw [hlookup, heq])
      next hne => exact .error huser (by rw [hlookup]; exact fun h => hne (some.inj h))

/-- **The loop.** No error is counted exactly when the stripped keys agree with `values`. -/
theorem does_attrLoop (keys : List Text) (values : Xattrs) :
    does reply (attrLoop t keys values) (fun _ w' => w.st ≤ w'.st ∧
      (w'.st = w.st ↔ Agrees (answerOf reply t) values (strippedKeys keys))) w := by
  induction keys generalizing values w with
  | nil => exact ⟨le_rfl, iff_of_true rfl ⟨nodup_nil, by simp [strippedKeys, userKeys]⟩⟩
  | cons key keys ih =>
    apply wp_seq (does_attrRound key values)
    intro values' w1 hround
    apply wp_result _ (ih values')
    rintro _ w2 ⟨hle, hiff⟩
    generalize w1.st = errors at hround hle hiff
    cases hround with
    | system hsystem =>
      have hskip : strippedKeys (key :: keys) = strippedKeys keys := by
        simp [strippedKeys, userKeys, hsystem]
      rw [hskip]
      exact ⟨hle, hiff⟩
    | agrees huser hvalue =>
      have hcons : strippedKeys (key :: keys) = stripUnderscores key :: strippedKeys keys := by
        simp [strippedKeys, userKeys, huser]
      rw [hcons, agrees_cons, and_iff_right hvalue]
      exact ⟨hle, hiff⟩
    | error huser hvalue =>
      have hcons : strippedKeys (key :: keys) = stripUnderscores key :: strippedKeys keys := by
        simp [strippedKeys, userKeys, huser]
      rw [hcons, agrees_cons]
      exact ⟨by omega, iff_of_false (by omega) fun h => hvalue h.1⟩

theorem does_hinfoCheck : does reply (hinfoCheck t) (fun _ w' => w'.st = w.st) w := by
  refine ⟨trivial, fun _ s x hlog => does_run fun proc w' hexit _ hst => ?_⟩
  rw [onlyIf, if_neg (not_not.mpr hexit)]
  exact hst.trans hlog

/-- The program returns, no error is taken back, and none is counted exactly if `P` holds. -/
def Counts (reply : Host → List Arg → Text) (p : M Host Unit) (P : Prop) : Prop :=
  ∀ w, does reply p (fun _ w' => w.st ≤ w'.st ∧ (w'.st = w.st ↔ P)) w

theorem counts_checkAttrs (xattr : Xattrs) : Counts reply (checkAttrs t xattr)
      (Agrees (answerOf reply t) xattr (strippedKeys (words (reply t.remote t.listAttrs)))) := by
  intro w
  apply does_run
  intro proc w1 hexit hstdout hst1
  have hok : ¬ proc.exitstatus ≠ 0 := not_not.mpr hexit
  rw [if_neg hok, hstdout]
  apply wp_seq (does_attrLoop _ xattr)
  intro values w2 hcount
  have hhinfo : does reply (onlyIf ((words (reply t.remote t.listAttrs)).contains "hinfo_key".toList = true)
      (hinfoCheck t)) (fun _ w' => w'.st = w2.st) w2 := by
    rw [onlyIf]
    split
    · exact does_hinfoCheck
    · exact rfl
  apply wp_seq hhinfo
  intro _ w3 hst3
  have hleft : does reply (onlyIf (values.entries.length ≠ 0)
      (.op (.log "Not all keys found, remaining keys:".toList) fun _ => .op (.logValues values) .ret))
      (fun _ w' => w'.st = w3.st) w3 := by
    rw [onlyIf]
    split
    · exact ⟨trivial, fun _ _ _ hlog => ⟨trivial, fun _ _ _ hvalues => hvalues.trans hlog⟩⟩
    · exact rfl
  apply wp_result _ hleft
  intro _ w4 hst4
  rw [hst4, hst3, ← hst1]
  exact hcount

/-! ### The whole test -/

theorem counts_ret {P : Prop} (h : P) : Counts reply (.ret ()) P := fun _ => ⟨le_rfl, iff_of_true rfl h⟩

theorem counts_onlyIf {c P : Prop} [Decidable c] {p : M Host Unit} (hp : c → Counts reply p P) :
    Counts reply (onlyIf c p) (c → P) := by
  unfold onlyIf
  split
  next hc => simpa only [forall_prop_of_true hc] using hp hc
  next hc => exact counts_ret fun h => absurd h hc

theorem counts_forEach {β : Type} {f : β → M Host Unit} {P : β → Prop} {xs : List β}
    (hf : ∀ x ∈ xs, Counts reply (f x) (P x)) : Counts reply (forEach xs f) (∀ x ∈ xs, P x) := by
  induction xs with
  | nil => exact counts_ret (forall_mem_nil P)
  | cons x xs ih =>
    rw [forall_mem_cons] at hf
    intro w
    refine wp_seq (hf.1 w) ?_
    rintro _ w1 ⟨hle1, hiff1⟩
    refine wp_result ?_ (ih hf.2 w1)
    rintro _ w2 ⟨hle2, hiff2⟩
    rw [forall_mem_cons, ← hiff1, ← hiff2]
    exact ⟨hle1.trans hle2, by omega⟩

/-- Wherever an OSD holds an object, what the tool lists and returns agrees with what was recorded. -/
def AllAgree (reply : Host → List Arg → Text) (osds : List (Host × List Text))
    (pgs : List (Int × List Text)) (db : List (Text × Entry)) : Prop :=
  ∀ entry ∈ db, ∀ host ∈ osds, ∀ role ∈ host.2, "osd.".toList.isPrefixOf role = true →
    ∀ osdid, (osdidOf role : M Host Int) = .ret osdid → ∀ held, pgs.lookup osdid = some held →
      ∀ items, entry.2.pg2json = some items → ∀ item ∈ items, held.contains item.1 = true →
        let t : Target Host := ⟨host.1, osdid, item.1, item.2⟩
        Agrees (answerOf reply t) entry.2.xattr (strippedKeys (words (reply t.remote t.listAttrs)))

/-- **The verdict of the whole test.** While the commands succeed, the test goes through all objects, OSDs
and PGs, and counts no error exactly if every copy agrees with what was recorded of its object. -/
theorem test_attrs_counts (reply : Host → List Arg → Text) (osds : List (Host × List Text))
    (pgs : List (Int × List Text)) (db : List (Text × Entry))
    (hnamed : ∀ entry ∈ db, entry.2.pg2json.isSome = true)
    (hroles : ∀ host ∈ osds, ∀ role ∈ host.2, "osd.".toList.isPrefixOf role = true →
      ∃ osdid, (osdidOf role : M Host Int) = .ret osdid) {errors : Nat} {r : Outcome PyError Unit}
    (hrun : Exec (toolEnv reply) (testAttrs osds pgs db) ⟨errors, (), []⟩ r w) :
    r = .ret () ∧ errors ≤ w.st ∧ (w.st = errors ↔ AllAgree reply osds pgs db) := by
  have hcounts : Counts reply (testAttrs osds pgs db) (AllAgree reply osds pgs db) := by
    refine counts_forEach fun entry hentry => counts_forEach fun host hhost =>
      counts_forEach fun role hrole => counts_onlyIf fun hosd => ?_
    obtain ⟨items, hitems⟩ := isSome_iff_exists.mp (hnamed entry hentry)
    obtain ⟨osdid, hosdid⟩ := hroles host hhost role hrole hosd
    simp only [hosdid, hitems, Prog.ret.injEq, elim_some, some.injEq, forall_eq']
    show Counts reply ((pgs.lookup osdid).elim _ _) _
    cases pgs.lookup osdid with
    | none => exact counts_ret nofun
    | some held =>
      simp only [some.injEq, forall_eq']
      exact counts_forEach fun item _ => counts_onlyIf fun _ => counts_checkAttrs _
  have hpost := wp_post (hcounts _) hrun
  cases r with
  | ret => exact ⟨rfl, hpost⟩
  | exn | cut => exact hpost.elim

def oneXattr : Xattrs := AList.singleton "color".toList "red".toList

/-- An attribute that was recorded and is listed, on the OSD that holds the object. -/
theorem test_attrs_counts_color :
    let reply (_ : Unit) (args : List Arg) :=
      if args.getLast? = some (.text "list-attrs".toList) then "_\n_color\n".toList else "red".toList
    let db : List (Text × Entry) := [("obj".toList, ⟨oneXattr, some [("1.0".toList, "[]".toList)]⟩)]
    let osds := [((), ["osd.0".toList])]
    let pgs := [((0 : Int), ["1.0".toList])]
    ∃ r w, Exec (toolEnv reply) (testAttrs osds pgs db) ⟨0, (), []⟩ r w ∧
      r = .ret () ∧ 0 ≤ w.st ∧ (w.st = 0 ↔ AllAgree reply osds pgs db) := by
  intro reply db osds pgs
  obtain ⟨r, w, hrun⟩ := exists_exec (toolEnv_total reply) (testAttrs osds pgs db) ⟨0, (), []⟩
  refine ⟨r, w, hrun, test_attrs_counts reply osds pgs db ?_ ?_ hrun⟩
  · simp [db]
  · simp only [osds, forall_mem_singleton]
    exact fun _ => ⟨0, rfl⟩

end Run

/-! ### Recorded and listed -/

theorem stripUnderscores_idem (key : Text) :
    stripUnderscores (stripUnderscores key) = stripUnderscores key := by
  have hfront : (stripUnderscores key).dropWhile (· == '_') = stripUnderscores key := by
    rw [dropWhile_eq_self_iff]
    intro hpos
    have hpre : stripUnderscores key <+: key.dropWhile (· == '_') := rdropWhile_prefix _ _
    have hlong : 0 < (key.dropWhile (· == '_')).length := hpos.trans_le hpre.length_le
    have hhead := dropWhile_eq_self_iff.mp (dropWhile_idempotent (· == '_') key) hlong
    rwa [hpre.getElem]
  rw [stripUnderscores, hfront, stripUnderscores, rdropWhile_idempotent]

theorem stripUnderscores_cons (name : Text) : stripUnderscores ('_' :: name) = stripUnderscores name := rfl

/-- The listed keys of the user are exactly the recorded names, each with a `_` before it. -/
def Listed (xattr : Xattrs) (keys : List Text) : Prop :=
  ∀ key, key ∈ userKeys keys ↔ ∃ name ∈ xattr, key = '_' :: name

/-- Each stripped key is a recorded name, and no two of them are the same. -/
def Accepted (xattr : Xattrs) (keys : List Text) : Prop :=
  (strippedKeys keys).Nodup ∧ ∀ name ∈ strippedKeys keys, name ∈ xattr

def Plain (xattr : Xattrs) : Prop := ∀ name ∈ xattr, stripUnderscores name = name

def Returned (answer : Text → Text) (xattr : Xattrs) : Prop :=
  ∀ name ∈ xattr, xattr.lookup name = some (answer name)

section Compare

variable {answer : Text → Text} {xattr : Xattrs} {keys : List Text}

theorem accepted_of_agrees (h : Agrees answer xattr (strippedKeys keys)) : Accepted xattr keys :=
  ⟨h.1, fun name hname => AList.lookup_isSome.mp (by rw [h.2 name hname]; rfl)⟩

theorem agrees_of_accepted (h : Accepted xattr keys) (hvalues : Returned answer xattr) :
    Agrees answer xattr (strippedKeys keys) :=
  ⟨h.1, fun name hname => hvalues name (h.2 name hname)⟩

/-- Where the listing is right, the test takes a name for the one that it is stripped to. -/
theorem plain_of_accepted (hlisted : Listed xattr keys) (h : Accepted xattr keys) : Plain xattr := by
  intro name hname
  have hkey : '_' :: name ∈ userKeys keys := (hlisted _).mpr ⟨name, hname, rfl⟩
  have hstripped : stripUnderscores ('_' :: name) ∈ xattr := h.2 _ (mem_map_of_mem hkey)
  rw [stripUnderscores_cons] at hstripped
  have hkey' : '_' :: stripUnderscores name ∈ userKeys keys := (hlisted _).mpr ⟨_, hstripped, rfl⟩
  have heq : '_' :: stripUnderscores name = '_' :: name :=
    inj_on_of_nodup_map h.1 hkey' hkey (stripUnderscores_idem name)
  exact cons_injective heq

theorem accepted_of_plain (hdistinct : keys.Nodup) (hlisted : Listed xattr keys) (hplain : Plain xattr) :
    Accepted xattr keys := by
  have hstrip : ∀ key ∈ userKeys keys, ∃ name ∈ xattr, key = '_' :: name ∧ stripUnderscores key = name := by
    intro key hkey
    obtain ⟨name, hname, rfl⟩ := (hlisted key).mp hkey
    exact ⟨name, hname, rfl, hplain name hname⟩
  constructor
  · apply (hdistinct.filter _).map_on
    intro key hkey key' hkey' heq
    obtain ⟨name, -, rfl, hname⟩ := hstrip key hkey
    obtain ⟨name', -, rfl, hname'⟩ := hstrip key' hkey'
    rw [← hname, ← hname', heq]
  · intro name hname
    obtain ⟨key, hkey, rfl⟩ := mem_map.mp hname
    obtain ⟨name, hname, -, heq⟩ := hstrip key hkey
    rwa [heq]

theorem returned_of_agrees (hlisted : Listed xattr keys) (hplain : Plain xattr)
    (h : Agrees answer xattr (strippedKeys keys)) : Returned answer xattr := by
  intro name hname
  have hkey : '_' :: name ∈ userKeys keys := (hlisted _).mpr ⟨name, hname, rfl⟩
  have hstripped : stripUnderscores ('_' :: name) ∈ strippedKeys keys := mem_map_of_mem hkey
  rw [stripUnderscores_cons, hplain name hname] at hstripped
  exact h.2 name hstripped

theorem agrees_iff_iff (hdistinct : keys.Nodup) (hvalues : ∃ answer, Returned answer xattr) :
    (∀ answer, Agrees answer xattr (strippedKeys keys) ↔ Listed xattr keys ∧ Returned answer xattr) ↔
      (Listed xattr keys ∧ Plain xattr) ∨ (¬ Listed xattr keys ∧ ¬ Accepted xattr keys) := by
  obtain ⟨right, hright⟩ := hvalues
  by_cases hlisted : Listed xattr keys
  · constructor
    · intro h
      have hagrees := (h right).mpr ⟨hlisted, hright⟩
      exact .inl ⟨hlisted, plain_of_accepted hlisted (accepted_of_agrees hagrees)⟩
    · rintro (⟨-, hplain⟩ | ⟨hnot, -⟩) answer
      · refine ⟨fun h => ⟨hlisted, returned_of_agrees hlisted hplain h⟩, fun h => ?_⟩
        exact agrees_of_accepted (accepted_of_plain hdistinct hlisted hplain) h.2
      · exact absurd hlisted hnot
  · constructor
    · intro h
      refine .inr ⟨hlisted, fun haccepted => ?_⟩
      exact hlisted ((h right).mp (agrees_of_accepted haccepted hright)).1
    · rintro (⟨hyes, -⟩ | ⟨-, hnot⟩) answer
      · exact absurd hyes hlisted
      · exact iff_of_false (fun h => hnot (accepted_of_agrees h)) fun h => hlisted h.1

end Compare

theorem exists_returned (xattr : Xattrs) : ∃ answer, Returned answer xattr := by
  refine ⟨fun name => (xattr.lookup name).getD [], fun name hname => ?_⟩
  obtain ⟨value, hvalue⟩ := isSome_iff_exists.mp (AList.lookup_isSome.mpr hname)
  show xattr.lookup name = some ((xattr.lookup name).getD [])
  rw [hvalue, getD_some]

def Arg.name : Arg → Text
  | .text key => key.tail
  | .raw _ => []

def replyWith (t : Target Host) (listing : Text) (answer : Text → Text) (_ : Host) (args : List Arg) :
    Text :=
  if args = t.listAttrs then listing else args.getLast?.elim [] fun arg => answer arg.name

theorem answerOf_replyWith (t : Target Host) (listing : Text) (answer : Text → Text) :
    answerOf (replyWith t listing answer) t = answer := by
  funext name
  have hne : t.getAttr ('_' :: name) ≠ t.listAttrs := by simp [Target.getAttr, Target.listAttrs]
  have hlast : (t.getAttr ('_' :: name)).getLast? = some (.text ('_' :: name)) := by simp [Target.getAttr]
  rw [answerOf, replyWith, if_neg hne, hlast]
  rfl

/-- **One object in one PG on one OSD.** `ERRORS` is left alone exactly for the right keys with the right
values if and only if no recorded name begins or ends with an underscore, or the keys are wrong and some
stripped key is not recorded or comes twice. -/
theorem errors_unchanged_iff (t : Target Host) (xattr : Xattrs) (listing : Text)
    (hdistinct : (words listing).Nodup) : (∀ reply errors r w, reply t.remote t.listAttrs = listing →
        Exec (toolEnv reply) (checkAttrs t xattr) ⟨errors, (), []⟩ r w → r = .ret () ∧ (w.st = errors ↔
          Listed xattr (words listing) ∧ Returned (answerOf reply t) xattr)) ↔
      (Listed xattr (words listing) ∧ Plain xattr) ∨
        (¬ Listed xattr (words listing) ∧ ¬ Accepted xattr (words listing)) := by
  rw [← agrees_iff_iff hdistinct (exists_returned xattr)]
  constructor
  · intro h answer
    have hlisting : replyWith t listing answer t.remote t.listAttrs = listing := if_pos rfl
    obtain ⟨r, w, hrun⟩ := exists_exec (toolEnv_total (replyWith t listing answer)) (checkAttrs t xattr)
      ⟨0, (), []⟩
    obtain ⟨rfl, hiff⟩ := h _ 0 r w hlisting hrun
    have hcount := wp_post (counts_checkAttrs xattr _) hrun
    rw [hlisting, answerOf_replyWith] at hcount
    rw [answerOf_replyWith] at hiff
    exact hcount.2.symm.trans hiff
  · intro h reply errors r w hlisting hrun
    have hcount := wp_post (counts_checkAttrs xattr _) hrun
    cases r with
    | ret u =>
      rw [← h, ← hlisting]
      exact ⟨rfl, hcount.2⟩
    | exn | cut => exact hcount.elim

def someTarget : Target Unit := ⟨(), 0, "1.0".toList, "[]".toList⟩

theorem errors_unchanged_iff_color : (words "_\n_color\nsnapset\n".toList).Nodup ∧
      ∀ reply errors r w, reply () someTarget.listAttrs = "_\n_color\nsnapset\n".toList →
        Exec (toolEnv reply) (checkAttrs someTarget oneXattr) ⟨errors, (), []⟩ r w →
        r = .ret () ∧ (w.st = errors ↔ Listed oneXattr (words "_\n_color\nsnapset\n".toList) ∧
          Returned (answerOf reply someTarget) oneXattr) := by
  have hdistinct : (words "_\n_color\nsnapset\n".toList).Nodup := by decide
  have hlisted : Listed oneXattr (words "_\n_color\nsnapset\n".toList) := by
    intro key
    have hkeys : userKeys (words "_\n_color\nsnapset\n".toList) = ["_color".toList] := by decide
    rw [hkeys, mem_singleton]
    constructor
    · rintro rfl
      exact ⟨"color".toList, by decide, rfl⟩
    · rintro ⟨name, hname, rfl⟩
      rw [mem_singleton.mp hname]
      rfl
  have hplain : Plain oneXattr := by
    intro name hname
    rw [mem_singleton.mp hname]
    decide
  exact ⟨hdistinct, (errors_unchanged_iff someTarget oneXattr _ hdistinct).mpr (.inl ⟨hlisted, hplain⟩)⟩

/-- The attribute is missing from the listing, and no error is counted. -/
theorem missing_xattr_not_counted :
    ∃ w, Exec (toolEnv fun _ _ => "_\nsnapset\n".toList) (checkAttrs someTarget oneXattr) ⟨0, (), []⟩
        (.ret ()) w ∧ w.st = 0 ∧ ¬ Listed oneXattr (words "_\nsnapset\n".toList) := by
  obtain ⟨r, w, hrun⟩ := exists_exec (toolEnv_total fun _ _ => "_\nsnapset\n".toList)
    (checkAttrs someTarget oneXattr) ⟨0, (), []⟩
  have hcount := wp_post (counts_checkAttrs oneXattr _) hrun
  have hkeys : userKeys (words "_\nsnapset\n".toList) = [] := by decide
  cases r with
  | ret u =>
    refine ⟨w, hrun, hcount.2.mpr ?_, fun hlisted => ?_⟩
    · rw [strippedKeys, hkeys]
      exact ⟨nodup_nil, by simp⟩
    · have hmem := (hlisted "_color".toList).mpr ⟨"color".toList, by decide, rfl⟩
      rw [hkeys] at hmem
      cases hmem
  | exn | cut => exact hcount.elim

end ZbkcTasks.ObjectAttrs
