import ZbkcTasks.ListGap
import ZbkcTasks.ProgRefine
import ZbkcTasks.PyProg
import ZbkcTasks.PyText
import ZbkcTasks.SectionMap
import ZbkcTasks.TextLines

/-! How `tasks/mon_seesaw.py` gives a new monitor its address. `_get_next_port` looks at the monitors of
the role list only, so a monitor that was set up before is not seen. -/

namespace ZbkcTasks.MonSeesaw

open Finmap List Prog SectionMap

/-! ### The free port -/

abbrev Text := List Char

abbrev Conf := SectionMap String String Text

def monAddr (conf : Conf) (name : String) : Except PyError Text :=
  if name ∉ conf then .error (.keyError name)
  else ((inSection conf name).lookup "mon addr").elim (.error (.keyError "mon addr")) .ok

def splitAddr (addr : Text) : Except PyError (Text × Text) :=
  match addr.splitOn ':' with
  | [ip, port] => .ok (ip, port)
  | _ => .error .valueError

def usedPorts (conf : Conf) (ip : Text) : List String → Except PyError (List Int)
  | [] => .ok []
  | name :: names => do
      let addr ← monAddr conf name
      let (monIp, monPort) ← splitAddr addr
      if monIp ≠ ip then usedPorts conf ip names
      else
        let port ← pyInt monPort
        let used ← usedPorts conf ip names
        return port :: used

def getNextPort (monNames : List String) (conf : Conf) (ip : Text) : Except PyError Int := do
  let used ← usedPorts conf ip monNames
  return ListGap.firstGap 6789 used

/-! ### Setting a monitor up -/

structure Remote where
  name : String
  ipAddress : Text
  deriving DecidableEq

structure Manager where
  cluster : String
  controller : Remote
  monNames : List String
  testdir : String

inductive Cmd
  | run (remote : Remote) (args : List String)
  | rawClusterCmd (args : List String)
  | getFile (remote : Remote) (path : String)
  | writeFile (remote : Remote) (path data : String)
  | deleteFile (remote : Remote) (path : String) (asRoot : Bool)
  | writeConf (path cluster : String)

@[reducible] def Cmd.Result : Cmd → Type
  | .getFile _ _ => String
  | _ => Unit

abbrev cmdSig : Sig := ⟨Cmd, fun c => Except CommandError c.Result⟩

abbrev M := Prog cmdSig Conf PyError

def command (c : Cmd) : M c.Result := .op (S := cmdSig) c ofCommand

def decimal (n : Int) : Text := if n < 0 then '-' :: numeral n.natAbs else numeral n.natAbs

def addrText (ip : Text) (port : Int) : Text := ip ++ ':' :: decimal port

def monSection (addr : Text) : Finmap fun _ : String => Text := singleton "mon addr" addr

def addSection (m : Manager) (remote : Remote) (name confPath : String) : M Unit :=
  .read fun conf => do
    let port ← orThrow (getNextPort m.monNames conf remote.ipAddress)
    .write (insert name (monSection (addrText remote.ipAddress port)) conf)
      (command (.writeConf confPath m.cluster))

def monmapPath (m : Manager) : String := m.testdir ++ "/" ++ m.cluster ++ ".monmap"

def copyMonmap (m : Manager) (remote : Remote) : M Unit := do
  let monmap ← command (.getFile m.controller (monmapPath m))
  command (.writeFile remote (monmapPath m) monmap)

def makeMon (m : Manager) (remote : Remote) (mon dataPath : String) : M Unit := do
  command (.run remote ["sudo", "mkdir", "-p", dataPath])
  command (.rawClusterCmd ["mon", "getmap", "-o", monmapPath m])
  onlyIf (m.controller ≠ remote) (copyMonmap m remote)
  command (.run remote ["sudo", "zbkc-mon", "--cluster", m.cluster, "--mkfs", "-i", mon, "--monmap",
    monmapPath m, "--keyring", "/etc/zbkc/" ++ m.cluster ++ ".keyring"])
  onlyIf (m.controller ≠ remote) (command (.deleteFile remote (monmapPath m) false))
  command (.deleteFile m.controller (monmapPath m) true)

def setupMon (m : Manager) (remote : Remote) (mon name dataPath : String) (confPath : Option String) :
    M Unit := do
  makeMon m remote mon dataPath
  -- an empty path is false
  (confPath.filter (· ≠ "")).elim (.ret ()) (addSection m remote name)

def teardownMon (m : Manager) (remote : Remote) (name dataPath confPath : String) : M Unit :=
  .read fun conf =>
    if name ∉ conf then .throw (.keyError name)
    else .write (conf.erase name) do
      command (.writeConf confPath m.cluster)
      command (.run remote ["sudo", "rm", "-rf", dataPath])

/-! ### Addresses -/

theorem colon_notMem_decimal (n : Int) : ':' ∉ decimal n := by
  have hdigits : ':' ∉ numeral n.natAbs := fun h => absurd (isDigit_of_mem_numeral h) (by decide)
  rw [decimal]
  split
  · exact fun h => (mem_cons.mp h).elim (by decide) hdigits
  · exact hdigits

theorem pyInt_decimal (n : Int) : pyInt (decimal n) = .ok n := by
  rw [decimal]
  split
  · rename_i hneg
    have hblank : ∀ c ∈ '-' :: numeral n.natAbs, isBlank c = false := by
      rintro c (_ | ⟨_, hc⟩)
      · decide
      · exact isBlank_of_isDigit (isDigit_of_mem_numeral hc)
    rw [pyInt, strip_eq_self hblank]
    have hvalue : Nat.ofDigitChars 10 (numeral n.natAbs) 0 = n.natAbs := Nat.ofDigitChars_ten_toDigits
    simp only [intOfDigits, isDigits_numeral, if_true, hvalue]
    congr 1
    omega
  · rename_i hpos
    rw [pyInt_numeral]
    congr 1
    omega

variable {ip : Text} {conf : Conf} {names : List String}

theorem splitAddr_addrText (h : ':' ∉ ip) (port : Int) :
    splitAddr (addrText ip port) = .ok (ip, decimal port) := by
  rw [splitAddr, addrText, TextLines.splitOn_append_cons, TextLines.splitOn_of_notMem h,
    TextLines.splitOn_of_notMem (colon_notMem_decimal port)]
  rfl

theorem addrText_inj {ip' : Text} {port port' : Int} (h : addrText ip port = addrText ip' port') :
    ip = ip' ∧ port = port' := by
  obtain ⟨hip, hport⟩ := TextLines.append_sep_inj (colon_notMem_decimal port) (colon_notMem_decimal port') h
  refine ⟨hip, ?_⟩
  have hint := pyInt_decimal port
  rw [hport, pyInt_decimal port'] at hint
  exact (Except.ok.inj hint).symm

/-! ### The monitors of a configuration -/

def Used (conf : Conf) (ip : Text) (port : Int) : Prop :=
  ∃ name, valueOf conf name "mon addr" = some (addrText ip port)

def Apart (conf : Conf) (names : List String) : Prop :=
  ∀ name ∈ names, ∀ name' ∈ names,
    valueOf conf name "mon addr" = valueOf conf name' "mon addr" → name = name'

/-- The monitors of the role list have an address, no two the same, and there are no others. -/
structure Initial (monNames : List String) (conf : Conf) : Prop where
  nodup : monNames.Nodup
  addr : ∀ name ∈ monNames, ∃ ip port, ':' ∉ ip ∧ valueOf conf name "mon addr" = some (addrText ip port)
  distinct : Apart conf monNames
  only : ∀ name ∉ monNames, valueOf conf name "mon addr" = none

theorem monAddr_of_value {name : String} {addr : Text} (h : valueOf conf name "mon addr" = some addr) :
    monAddr conf name = .ok addr := by
  have hmem : name ∈ conf := by
    by_contra hname
    rw [valueOf, inSection_of_notMem hname] at h
    cases h
  rw [monAddr, if_neg (not_not.mpr hmem)]
  rw [valueOf] at h
  rw [h]
  rfl

theorem usedPorts_eq (ip : Text)
    (h : ∀ name ∈ names, ∃ ip port, ':' ∉ ip ∧ valueOf conf name "mon addr" = some (addrText ip port)) :
    ∃ used, usedPorts conf ip names = .ok used ∧
      (∀ port, port ∈ used ↔ ∃ name ∈ names, valueOf conf name "mon addr" = some (addrText ip port)) ∧
      (names.Nodup → Apart conf names → used.Nodup) := by
  induction names with
  | nil => exact ⟨[], rfl, by simp, fun _ _ => nodup_nil⟩
  | cons name names ih =>
    obtain ⟨⟨ip', port', hcolon, hvalue⟩, hnames⟩ := forall_mem_cons.mp h
    obtain ⟨used, hused, hmem, hnodup⟩ := ih hnames
    have hloop : usedPorts conf ip (name :: names) =
        if ip' ≠ ip then .ok used else .ok (port' :: used) := by
      rw [usedPorts, monAddr_of_value hvalue]
      show (splitAddr (addrText ip' port') >>= _) = _
      rw [splitAddr_addrText hcolon]
      show (if ip' ≠ ip then _ else _) = _
      rw [pyInt_decimal, hused]
      rfl
    have hrest : Apart conf (name :: names) → Apart conf names := fun hapart a ha b hb =>
      hapart a (mem_cons_of_mem name ha) b (mem_cons_of_mem name hb)
    by_cases hip : ip' = ip
    · subst hip
      rw [hloop, if_neg (not_not.mpr rfl)]
      refine ⟨port' :: used, rfl, fun port => ?_, fun hnames' hapart => ?_⟩
      · rw [mem_cons, hmem, exists_mem_cons_iff, hvalue]
        refine or_congr_left ⟨fun heq => by rw [heq], fun heq => ?_⟩
        exact (addrText_inj (Option.some.inj heq)).2.symm
      · obtain ⟨hname, hnames'⟩ := nodup_cons.mp hnames'
        refine nodup_cons.mpr ⟨fun hport => ?_, hnodup hnames' (hrest hapart)⟩
        obtain ⟨other, hother, hsame⟩ := (hmem port').mp hport
        have heq := hapart name (.head _) other (mem_cons_of_mem name hother)
          (hvalue.trans hsame.symm)
        exact hname (heq ▸ hother)
    · rw [hloop, if_pos hip]
      refine ⟨used, rfl, fun port => ?_, fun hnames' hapart => ?_⟩
      · rw [hmem, exists_mem_cons_iff, hvalue, or_iff_right]
        exact fun heq => hip (addrText_inj (Option.some.inj heq)).1
      · exact hnodup (nodup_cons.mp hnames').2 (hrest hapart)

theorem usedPorts_congr {conf' : Conf} (ip : Text)
    (h : ∀ name ∈ names, monAddr conf name = monAddr conf' name) :
    usedPorts conf ip names = usedPorts conf' ip names := by
  induction names with
  | nil => rfl
  | cons name names ih =>
    obtain ⟨hname, hnames⟩ := forall_mem_cons.mp h
    rw [usedPorts, usedPorts, hname, ih hnames]

/-! ### Calls -/

inductive Call
  | setup (remote : Remote) (mon name dataPath : String) (confPath : Option String)
  | teardown (remote : Remote) (name dataPath confPath : String)

def Call.name : Call → String
  | .setup _ _ name _ _ => name
  | .teardown _ name _ _ => name

def Call.run (m : Manager) : Call → M Unit
  | .setup remote mon name dataPath confPath => setupMon m remote mon name dataPath confPath
  | .teardown remote name dataPath confPath => teardownMon m remote name dataPath confPath

section Calls

variable {η : Type} {m : Manager} {E : Env cmdSig Conf η}

def KeepsConf (E : Env cmdSig Conf η) : Prop := ∀ o s x a s' x', E o s x a s' x' → s' = s

/-- The configurations that calls lead to, for monitors that are not in the role list. -/
inductive Reached (m : Manager) (E : Env cmdSig Conf η) (start : Conf) : Conf → Prop
  | start : Reached m E start start
  | call {conf : Conf} (c : Call) {x : η} {log : List (Event cmdSig Conf η)} {r : Outcome PyError Unit}
      {w : World cmdSig Conf η} : Reached m E start conf → c.name ∉ m.monNames →
      Exec E (c.run m) ⟨conf, x, log⟩ r w → Reached m E start w.st

inductive Change (m : Manager) (conf : Conf) (name : String) : Conf → Prop
  | none : Change m conf name conf
  | added {ip : Text} {port : Int} : getNextPort m.monNames conf ip = .ok port →
      Change m conf name (insert name (monSection (addrText ip port)) conf)
  | removed : Change m conf name (conf.erase name)

def commandsOnly : Usage cmdSig Conf PyError :=
  ⟨fun _ => True, fun _ => False, fun _ => True, fun _ => True⟩

theorem uses_command (c : Cmd) : Uses commandsOnly (command c) :=
  .op trivial fun a => uses_ofCommand (fun _ => trivial) a

theorem uses_makeMon (remote : Remote) (mon dataPath : String) :
    Uses commandsOnly (makeMon m remote mon dataPath) := by
  have hcopy : Uses commandsOnly (copyMonmap m remote) :=
    (uses_command (.getFile m.controller (monmapPath m))).bind fun monmap => uses_command _
  exact (uses_command _).bind fun _ => (uses_command _).bind fun _ => (uses_onlyIf hcopy).bind fun _ =>
    (uses_command _).bind fun _ => (uses_onlyIf (uses_command _)).bind fun _ => uses_command _

theorem wp_of_uses {α : Type} (hE : KeepsConf E) {p : M α} (hp : Uses commandsOnly p)
    (w : World cmdSig Conf η) : wp E (fun _ _ _ => True) p (fun _ w' => w'.st = w.st) w := by
  have hop : ∀ o (w' : World cmdSig Conf η), commandsOnly.ops o → w'.st = w.st →
      True ∧ ∀ a s x, E o w'.st w'.ext a s x → (w'.push o a s x).st = w.st :=
    fun o w' _ h => ⟨trivial, fun a s x hstep => (hE _ _ _ _ _ _ hstep).trans h⟩
  have hact : ∀ q (w' : World cmdSig Conf η), commandsOnly.acts q → w'.st = w.st →
      wp E (fun _ _ _ => True) q (settles (·.st = w.st) (·.st = w.st) commandsOnly.throws) w' :=
    fun _ _ h => False.elim h
  exact wp_mono (fun _ _ h => settles_always.mp h)
    (Uses.wp (fun _ h => h) (fun _ _ => trivial) hop hact hp w rfl)

theorem wp_addSection (hE : KeepsConf E) (remote : Remote) (name confPath : String)
    (w : World cmdSig Conf η) : wp E (fun _ _ _ => True) (addSection m remote name confPath)
      (fun _ w' => Change m w.st name w'.st) w := by
  show wp E _ (orThrow (getNextPort m.monNames w.st remote.ipAddress) >>= _) _ w
  cases hport : getNextPort m.monNames w.st remote.ipAddress with
  | error e => exact Change.none
  | ok port =>
    have huses := uses_command (.writeConf confPath m.cluster)
    refine wp_mono (fun _ w' h => ?_) (wp_of_uses hE huses { w with st := insert name _ w.st })
    rw [h]
    exact .added hport

/-- **One call** makes one of three changes, whatever it raises. -/
theorem wp_call (hE : KeepsConf E) (c : Call) (w : World cmdSig Conf η) :
    wp E (fun _ _ _ => True) (c.run m) (fun _ w' => Change m w.st c.name w'.st) w := by
  cases c with
  | setup remote mon name dataPath confPath =>
    rw [Call.run, setupMon, wp_bind]
    refine wp_mono ?_ (wp_of_uses hE (uses_makeMon remote mon dataPath) w)
    have hsame : ∀ {w' : World cmdSig Conf η}, w'.st = w.st → Change m w.st name w'.st :=
      fun hst => hst.symm ▸ Change.none
    rintro (_ | e | _) w' hst
    · rw [chain_ret]
      cases confPath.filter (· ≠ "") with
      | none => exact hsame hst
      | some path =>
        have hadd := wp_addSection (m := m) hE remote name path w'
        rw [hst] at hadd
        exact hadd
    all_goals exact hsame hst
  | teardown remote name dataPath confPath =>
    show wp E _ (if name ∉ w.st then _ else _) _ _
    split
    · exact Change.none
    · have huses : Uses commandsOnly (do
          command (.writeConf confPath m.cluster)
          command (.run remote ["sudo", "rm", "-rf", dataPath])) :=
        (uses_command _).bind fun _ => uses_command _
      refine wp_mono (fun _ w' hst => ?_) (wp_of_uses hE huses { w with st := w.st.erase name })
      rw [hst]
      exact Change.removed

end Calls

/-! ### Histories -/

section Histories

variable {η : Type} {m : Manager} {E : Env cmdSig Conf η} {start : Conf}

theorem valueOf_insert_section (conf : Conf) (name other : String) (addr : Text) :
    valueOf (insert name (monSection addr) conf) other "mon addr" =
      if other = name then some addr else valueOf conf other "mon addr" := by
  rw [valueOf, inSection_insert, valueOf]
  split
  · exact lookup_singleton_eq
  · rfl

theorem valueOf_erase (conf : Conf) (name other : String) :
    valueOf (conf.erase name) other "mon addr" =
      if other = name then none else valueOf conf other "mon addr" := by
  rw [valueOf, inSection_erase, valueOf]
  split
  · exact lookup_empty _
  · rfl

/-- Each monitor that was added has the port that `_get_next_port` gives for its ip. -/
structure Grown (m : Manager) (start conf : Conf) : Prop where
  kept : ∀ name ∈ m.monNames, valueOf conf name "mon addr" = valueOf start name "mon addr"
  added : ∀ name ∉ m.monNames, ∀ addr, valueOf conf name "mon addr" = some addr →
    ∃ ip port, addr = addrText ip port ∧ getNextPort m.monNames start ip = .ok port

theorem Grown.getNextPort_eq (hstart : Initial m.monNames start) (h : Grown m start conf) (ip : Text) :
    getNextPort m.monNames conf ip = getNextPort m.monNames start ip := by
  have hsame : ∀ name ∈ m.monNames, monAddr conf name = monAddr start name := by
    intro name hname
    obtain ⟨ip', port', -, hvalue⟩ := hstart.addr name hname
    rw [monAddr_of_value hvalue, monAddr_of_value ((h.kept name hname).trans hvalue)]
  rw [getNextPort, getNextPort, usedPorts_congr ip hsame]

theorem Grown.change (hstart : Initial m.monNames start) (h : Grown m start conf) {name : String}
    (hname : name ∉ m.monNames) {conf' : Conf} (hchange : Change m conf name conf') :
    Grown m start conf' := by
  have hother_ne : ∀ {other}, other ∈ m.monNames → other ≠ name := fun hother heq => hname (heq ▸ hother)
  cases hchange with
  | none => exact h
  | @added ip port hport =>
    rw [h.getNextPort_eq hstart] at hport
    constructor
    · intro other hother
      rw [valueOf_insert_section, if_neg (hother_ne hother), h.kept other hother]
    · intro other hother addr haddr
      rw [valueOf_insert_section] at haddr
      split at haddr
      · exact ⟨ip, port, (Option.some.inj haddr).symm, hport⟩
      · exact h.added other hother addr haddr
  | removed =>
    constructor
    · intro other hother
      rw [valueOf_erase, if_neg (hother_ne hother), h.kept other hother]
    · intro other hother addr haddr
      rw [valueOf_erase] at haddr
      split at haddr
      · cases haddr
      · exact h.added other hother addr haddr

/-- **Every history** keeps to it. -/
theorem Reached.grown (hstart : Initial m.monNames start) (hE : KeepsConf E) (h : Reached m E start conf) :
    Grown m start conf := by
  induction h with
  | start =>
    refine ⟨fun _ _ => rfl, fun name hname addr haddr => ?_⟩
    exact nomatch (hstart.only name hname).symm.trans haddr
  | call c _ hname hrun ih => exact ih.change hstart hname (wp_post (wp_call hE c _) hrun)

theorem Initial.usedPorts (hstart : Initial m.monNames start) (ip : Text) :
    ∃ used, MonSeesaw.usedPorts start ip m.monNames = .ok used ∧ used.Nodup ∧
      ∀ port, port ∈ used ↔ Used start ip port := by
  obtain ⟨used, hused, hmem, hnodup⟩ := usedPorts_eq ip hstart.addr
  refine ⟨used, hused, hnodup hstart.nodup hstart.distinct, fun port => (hmem port).trans ?_⟩
  constructor
  · rintro ⟨name, -, hvalue⟩
    exact ⟨name, hvalue⟩
  · rintro ⟨name, hvalue⟩
    refine ⟨name, ?_, hvalue⟩
    by_contra hname
    exact nomatch (hstart.only name hname).symm.trans hvalue

theorem Grown.used_iff (hstart : Initial m.monNames start) (h : Grown m start conf) {port : Int} :
    Used conf ip port ↔ Used start ip port ∨
      ∃ name ∉ m.monNames, valueOf conf name "mon addr" = some (addrText ip port) := by
  constructor
  · rintro ⟨name, hvalue⟩
    by_cases hname : name ∈ m.monNames
    · exact .inl ⟨name, (h.kept name hname).symm.trans hvalue⟩
    · exact .inr ⟨name, hname, hvalue⟩
  · rintro (⟨name, hvalue⟩ | ⟨name, -, hvalue⟩)
    · by_cases hname : name ∈ m.monNames
      · exact ⟨name, (h.kept name hname).trans hvalue⟩
      · exact nomatch (hstart.only name hname).symm.trans hvalue
    · exact ⟨name, hvalue⟩

/-- **The next port.** `_get_next_port` returns the least free port from 6789 on exactly if no monitor that
was added on that ip is left, and none of the role list has 6789 there while another one is below it. -/
theorem next_port_least_free_iff (hstart : Initial m.monNames start) (hE : KeepsConf E)
    (h : Reached m E start conf) (ip : Text) :
    (∃ port, getNextPort m.monNames conf ip = .ok port ∧ IsLeast {p | 6789 ≤ p ∧ ¬ Used conf ip p} port) ↔
      (∀ name ∉ m.monNames, ∀ p, valueOf conf name "mon addr" ≠ some (addrText ip p)) ∧
        ((∃ p < 6789, Used start ip p) → ¬ Used start ip 6789) := by
  have hgrown := h.grown hstart hE
  obtain ⟨used, hused, hnodup, hmem⟩ := hstart.usedPorts ip
  have hport : getNextPort m.monNames start ip = .ok (ListGap.firstGap 6789 used) := by
    rw [getNextPort, hused]
    rfl
  have hgap := ListGap.firstGap_notMem_iff 6789 hnodup
  simp only [hmem] at hgap
  rw [hgrown.getNextPort_eq hstart, hport]
  constructor
  · rintro ⟨port, heq, ⟨-, hfree⟩, -⟩
    rw [Except.ok.inj heq.symm, hgrown.used_iff hstart, not_or] at hfree
    refine ⟨fun name hname p hvalue => ?_, ?_⟩
    · obtain ⟨ip', p', haddr, hp'⟩ := hgrown.added name hname _ hvalue
      obtain ⟨rfl, rfl⟩ := addrText_inj haddr
      rw [hport] at hp'
      exact hfree.2 ⟨name, hname, by rw [hvalue, Except.ok.inj hp']⟩
    · rintro ⟨p, hp, hlow⟩
      exact hgap.mp hfree.1 ⟨p, hlow, hp⟩
  · rintro ⟨hadded, hlow⟩
    have hused_iff : ∀ p, Used conf ip p ↔ Used start ip p := by
      intro p
      rw [hgrown.used_iff hstart]
      exact or_iff_left fun ⟨name, hname, hvalue⟩ => hadded name hname p hvalue
    refine ⟨_, rfl, ⟨ListGap.le_firstGap, ?_⟩, ?_⟩
    · rw [hused_iff]
      exact hgap.mpr fun ⟨p, hlow', hp⟩ => hlow ⟨p, hp, hlow'⟩
    · rintro p ⟨hp, hfree⟩
      by_contra hlt
      rw [hused_iff, ← hmem] at hfree
      exact hfree (ListGap.mem_of_lt_firstGap hp (not_le.mp hlt))

end Histories

def host : Remote := ⟨"ubuntu@host", "10.0.0.1".toList⟩

def oneMon : Manager := ⟨"zbkc", host, ["mon.a"], "/home/ubuntu/zbkctest"⟩

def oneMonConf : Conf := put ∅ "mon.a" "mon addr" (addrText host.ipAddress 6789)

theorem valueOf_oneMonConf (name : String) : valueOf oneMonConf name "mon addr" =
    if name = "mon.a" then some (addrText host.ipAddress 6789) else none := by
  rw [oneMonConf, valueOf_put]
  simp only [Prod.mk.injEq, and_true]
  rfl

theorem initial_oneMonConf : Initial oneMon.monNames oneMonConf where
  nodup := nodup_singleton _
  addr := by
    intro name hname
    rw [mem_singleton.mp hname]
    exact ⟨host.ipAddress, 6789, by decide, valueOf_oneMonConf "mon.a"⟩
  distinct := by
    intro name hname name' hname' _
    rw [mem_singleton.mp hname, mem_singleton.mp hname']
  only := by
    intro name hname
    rw [valueOf_oneMonConf, if_neg fun heq => hname (mem_singleton.mpr heq)]

theorem next_port_of_one_monitor :
    ∃ port, getNextPort oneMon.monNames oneMonConf host.ipAddress = .ok port ∧
      IsLeast {p | 6789 ≤ p ∧ ¬ Used oneMonConf host.ipAddress p} port := by
  have hE : KeepsConf (fun _ s x _ s' x' => s' = s ∧ x' = x : Env cmdSig Conf Unit) :=
    fun _ _ _ _ _ _ h => h.1
  apply (next_port_least_free_iff initial_oneMonConf hE .start host.ipAddress).mpr
  constructor
  · intro name hname p hvalue
    exact nomatch (initial_oneMonConf.only name hname).symm.trans hvalue
  · rintro ⟨p, hp, name, hvalue⟩
    rw [valueOf_oneMonConf] at hvalue
    split at hvalue
    · obtain ⟨-, rfl⟩ := addrText_inj (Option.some.inj hvalue)
      omega
    · cases hvalue

def allWell : (c : Cmd) → Except CommandError c.Result
  | .getFile _ _ => .ok "monmap"
  | .run _ _ | .rawClusterCmd _ | .writeFile _ _ _ | .deleteFile _ _ _ | .writeConf _ _ => .ok ()

def Smooth : Env cmdSig Conf Unit := fun o s x a s' x' => a = allWell o ∧ s' = s ∧ x' = x

def addB : Call := .setup host "b" "mon.b" "/var/lib/zbkc/mon/zbkc-b" (some "/etc/zbkc/zbkc.conf")

/-- The next monitor on that host would get the port of `mon.b`. -/
theorem next_port_of_added_monitor : ∃ conf, Reached oneMon Smooth oneMonConf conf ∧
    getNextPort oneMon.monNames conf host.ipAddress = .ok 6790 ∧ Used conf host.ipAddress 6790 := by
  have hwell : ∀ o s x, Smooth o s x (allWell o, s, x).1 (allWell o, s, x).2.1 (allWell o, s, x).2.2 :=
    fun _ _ _ => ⟨rfl, rfl, rfl⟩
  have hrun := exec_runWith hwell (addB.run oneMon) ⟨oneMonConf, (), []⟩
  have hreached : Reached oneMon Smooth oneMonConf
      (insert "mon.b" (monSection (addrText host.ipAddress 6790)) oneMonConf) :=
    .call addB .start (by decide) hrun
  have hkeeps : KeepsConf Smooth := fun _ _ _ _ _ _ h => h.2.1
  refine ⟨_, hreached, ?_, "mon.b", valueOf_insert_section _ _ _ _⟩
  rw [(hreached.grown initial_oneMonConf hkeeps).getNextPort_eq initial_oneMonConf]
  rfl

end ZbkcTasks.MonSeesaw
