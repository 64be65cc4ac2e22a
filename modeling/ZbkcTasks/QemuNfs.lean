import ZbkcTasks.MountTree
import ZbkcTasks.PyProg
import ZbkcTasks.TextLines

/-! `run_qemu` of `tasks/qemu.py`: every guest gets its log directory exported from its host, through a
bind mount and a line in `/etc/exports`. The commands for services and devices change nothing here. -/

namespace ZbkcTasks.QemuNfs

open Function List Prog TextLines

/-- The name of a role, which is also a name of a directory. -/
structure Client where
  name : String
  plain : '\n' ∉ name.toList ∧ '/' ∉ name.toList
  deriving DecidableEq

/-- What the commands change on a host: the files, and the text of `/etc/exports`. -/
structure Machine where
  tree : MountTree String
  exports : List Char

inductive Cmd
  | file (c : MountTree.Cmd String)
  /-- `sed -i '/^start/d' /etc/exports`. -/
  | sedDelete (start : List Char)
  /-- `sed -i '$ d' /etc/exports`. -/
  | sedDeleteLast
  | tee (line : List Char)
  | service (words : String)
  deriving DecidableEq

def Machine.exec (m : Machine) : Cmd → Bool × Machine
  | .file c => ((m.tree.exec c).1, { m with tree := (m.tree.exec c).2 })
  | .sedDelete start =>
      (true, { m with exports := deleteLines '\n' (fun l => decide (start <+: l)) m.exports })
  | .sedDeleteLast => (true, { m with exports := deleteLast '\n' m.exports })
  | .tee line => (true, { m with exports := appendLine '\n' line m.exports })
  | .service _ => (true, m)

/-- A command on the host of a client, or the time during which the guests run. -/
inductive Op
  | run (client : Client) (cmd : Cmd)
  | guests
  deriving DecidableEq

@[reducible] def Op.Ans : Op → Type
  | .run _ _ => Bool
  | .guests => Unit

abbrev sig : Sig := ⟨Op, Op.Ans⟩

abbrev M := Prog sig Unit PyError

def run (client : Client) (cmds : List Cmd) : M Unit :=
  forEach cmds fun cmd => .op (.run client cmd) ofStatus

/-- The test directory, the one host of every client and its kind of packages. -/
structure Site (Host : Type) where
  testdir : List String
  outside : ¬ ["export"] <+: testdir
  place : Client → Host
  deb : Host → Bool

def exportDir (client : Client) : List String := ["export", client.name]

def exportStart : List Char := "/export/".toList

def exportOptions : List Char := " *(rw,no_root_squash,no_subtree_check,insecure)".toList

def exportLine (client : Client) : List Char := exportStart ++ (client.name.toList ++ exportOptions)

namespace Site

variable {Host : Type} (s : Site Host)

def logs : List String := s.testdir ++ ["archive", "qemu"]

def logDir (client : Client) : List String := s.logs ++ [client.name]

def nfs (client : Client) (action : String) : Cmd :=
  if s.deb (s.place client) then .service ("service nfs-kernel-server " ++ action)
  else .service ("systemctl " ++ action ++ " nfs")

def setupNfsMount (client : Client) (mountDir : List String) : List Cmd :=
  [.file (.mkdirs (exportDir client)), .file (.bind mountDir (exportDir client)), .sedDelete exportStart,
    .tee (exportLine client), s.nfs client "restart"]

def teardownNfsMount (client : Client) : List Cmd :=
  [s.nfs client "stop", .file (.umount (exportDir client)), .file (.removeTree ["export"]), .sedDeleteLast,
    s.nfs client "start"]

def startGuest (client : Client) : M Unit := do
  run client [.file (.mkdir (s.logDir client)), .service "modprobe kvm"]
  run client (s.setupNfsMount client (s.logDir client))
  run client [.service "udevadm control --reload", .service "udevadm trigger /dev/kvm",
    .service "ls -l /dev/kvm"]

def finishGuest (client : Client) : M Unit := do
  run client (s.teardownNfsMount client)
  run client [.file (.test (s.logDir client ++ ["success"]))]

def runQemu (clients : List Client) : M Unit := do
  forEach clients s.startGuest
  finallyDo (.op .guests .ret) (forEach clients s.finishGuest)

end Site

/-! ### The hosts -/

abbrev Machines (Host : Type) := Host → Machine

abbrev W (Host : Type) := World sig Unit (Machines Host)

namespace Site

variable {Host : Type} (s : Site Host)

/-- While the guests run, they change what is below their own log directories. -/
def GuestsWrite (clients : List Client) (x y : Machines Host) : Prop :=
  ∀ host, (y host).exports = (x host).exports ∧ (y host).tree.mounts = (x host).tree.mounts ∧
    ∀ p, (∀ client ∈ clients, s.place client = host → s.logDir client <+: p → p = s.logDir client) →
      (p ∈ (y host).tree.nodes ↔ p ∈ (x host).tree.nodes)

def env [DecidableEq Host] (clients : List Client) : Env sig Unit (Machines Host) := fun o _ x ans _ x' =>
  match o, ans with
  | .run client cmd, ok => ok = ((x (s.place client)).exec cmd).1 ∧
      x' = update x (s.place client) ((x (s.place client)).exec cmd).2
  | .guests, _ => s.GuestsWrite clients x x'

/-! ### What is asked of a run -/

/-- Every host still has its first lines in `/etc/exports`, and one for each of its clients. -/
def Exported (clients : List Client) (x₀ x : Machines Host) : Prop :=
  (∀ client ∈ clients, exportLine client ∈ lines '\n' (x (s.place client)).exports) ∧
    ∀ host, ∀ l ∈ lines '\n' (x₀ host).exports, l ∈ lines '\n' (x host).exports

def InPlace (client : Client) (x : Machines Host) : Prop :=
  exportLine client ∈ lines '\n' (x (s.place client)).exports ∧
    (exportDir client, s.logDir client) ∈ (x (s.place client)).tree.mounts

/-- All logs and the exports of the other clients are left. -/
def Leaves (clients : List Client) (client : Client) (x x' : Machines Host) : Prop :=
  (∀ host p, s.logs <+: p → p ∈ (x host).tree.nodes → p ∈ (x' host).tree.nodes) ∧
    ∀ other ∈ clients, other ≠ client → s.InPlace other x → s.InPlace other x'

def TornDown (client : Client) (w : World sig Unit (Machines Host)) : Prop :=
  ∃ e ∈ w.log, e.op = .run client .sedDeleteLast

end Site

def Cmd.TearsDown : Cmd → Prop
  | .file (.umount _) => True
  | .file (.removeTree _) => True
  | .sedDeleteLast => True
  | _ => False

namespace Site

variable {Host : Type} [DecidableEq Host] (s : Site Host)

def Asserts (clients : List Client) (x₀ : Machines Host) : Op → Unit → Machines Host → Prop
  | .guests, _, x => s.Exported clients x₀ x
  | .run client cmd, _, x => cmd.TearsDown → ((x (s.place client)).exec cmd).1 = true ∧
      s.Leaves clients client x (update x (s.place client) ((x (s.place client)).exec cmd).2)

structure Isolated (clients : List Client) (x₀ : Machines Host) (w : World sig Unit (Machines Host)) :
    Prop where
  asserts : ∀ e ∈ w.log, s.Asserts clients x₀ e.op e.st e.ext
  /-- A guest that has failed keeps the clients behind it from being torn down. -/
  restored : (∀ client ∈ clients, TornDown client w) → ∀ host, (w.ext host).exports = (x₀ host).exports

/-- Nothing is in the way of a client: no log directory, and no mount that shows it. -/
structure Clear (client : Client) (m : Machine) : Prop where
  logs_mem : s.logs ∈ m.tree.nodes
  log_notMem : s.logDir client ∉ m.tree.nodes
  below : ∀ mount ∈ m.tree.mounts, ["export"] <+: mount.1
  hidden : ∀ mount ∈ m.tree.mounts, ¬ mount.2 <+: s.logDir client

structure Fresh (client : Client) (m : Machine) : Prop extends s.Clear client m where
  line_notMem : exportLine client ∉ lines '\n' m.exports

structure Alone (clients : List Client) (x : Machines Host) (client : Client) : Prop where
  only : ∀ other ∈ clients, s.place other = s.place client → other = client
  no_exports : ∀ l ∈ lines '\n' (x (s.place client)).exports, ¬ exportStart <+: l
  ended : unended '\n' (x (s.place client)).exports = []
  no_mounts : (x (s.place client)).tree.mounts = []

end Site

/-! ### Paths and lines -/

variable {Host : Type} {s : Site Host} {client other : Client} {clients : List Client}
  {x₀ x y : Machines Host}
  {w : W Host} {m m' : Machine}

theorem Site.not_export_above_logs : ¬ ["export"] <+: s.logs := by
  intro h
  cases htestdir : s.testdir with
  | nil => simp [Site.logs, htestdir] at h
  | cons a rest =>
    refine s.outside ?_
    simpa [Site.logs, htestdir] using h

theorem Site.not_export_above_logDir : ¬ ["export"] <+: s.logDir client := by
  intro h
  refine s.not_export_above_logs ((prefix_concat_iff.mp h).resolve_left ?_)
  intro heq
  have hlen := congrArg List.length heq
  simp [Site.logs] at hlen

theorem Site.not_export_above_of_logs {p : List String} (h : s.logs <+: p) : ¬ ["export"] <+: p := by
  intro hexport
  rcases prefix_or_prefix_of_prefix h hexport with hlogs | hlogs
  · have hlen := hlogs.length_le
    simp [Site.logs] at hlen
  · exact s.not_export_above_logs hlogs

theorem Site.logDir_inj (h : s.logDir client = s.logDir other) : client = other := by
  have hname : client.name = other.name := by simpa [Site.logDir] using h
  cases client
  cases other
  congr

theorem exportLine_inj (h : exportLine client = exportLine other) : client = other := by
  have hname : client.name = other.name :=
    String.toList_inj.mp (append_cancel_right (append_cancel_left h))
  cases client
  cases other
  congr

theorem newline_notMem_exportLine (client : Client) : '\n' ∉ exportLine client := by
  have hstart : '\n' ∉ exportStart := by decide +kernel
  have hoptions : '\n' ∉ exportOptions := by decide +kernel
  simp only [exportLine, mem_append, not_or]
  exact ⟨hstart, client.plain.1, hoptions⟩

theorem exportStart_exportLine (client : Client) : exportStart <+: exportLine client :=
  prefix_append _ _

/-! ### Commands that all succeed -/

def Machine.doAll (m : Machine) : List Cmd → Option Machine
  | [] => some m
  | cmd :: cmds => if (m.exec cmd).1 = true then (m.exec cmd).2.doAll cmds else none

variable {t : MountTree String} {cmds : List Cmd} {cmd : Cmd} {Q : Outcome PyError Unit → W Host → Prop}
  {order others : List Client} {p : M Unit}

theorem Machine.exec_file {c : MountTree.Cmd String} (h : m.tree.exec c = (true, t)) :
    m.exec (.file c) = (true, { m with tree := t }) := by
  rw [Machine.exec, h]

theorem Machine.doAll_cons (h : m.exec cmd = (true, m')) : m.doAll (cmd :: cmds) = m'.doAll cmds := by
  rw [Machine.doAll, h, if_pos rfl]

section Commands

variable [DecidableEq Host]

omit [DecidableEq Host] in
theorem tornDown_of_push {ok : Bool} (hcmd : other ≠ client ∨ ¬ cmd.TearsDown)
    (h : Site.TornDown other (w.push (.run client cmd) ok () x)) : Site.TornDown other w := by
  obtain ⟨e, he, hop⟩ := h
  rcases mem_cons.mp he with rfl | he
  · cases hop
    rcases hcmd with hne | hcmd
    · exact absurd rfl hne
    · exact absurd trivial hcmd
  · exact ⟨e, he, hop⟩

abbrev Site.keeps (s : Site Host) (clients : List Client) (x₀ : Machines Host) (p : M Unit)
    (Q : Outcome PyError Unit → World sig Unit (Machines Host) → Prop)
    (w : World sig Unit (Machines Host)) :
    Prop :=
  wp (s.env clients) (s.Asserts clients x₀) p Q w

theorem keeps_cmd (hassert : s.Asserts clients x₀ (.run client cmd) () w.ext)
    (hok : ((w.ext (s.place client)).exec cmd).1 = true → Q (.ret ()) (w.push (.run client cmd) true ()
        (update w.ext (s.place client) ((w.ext (s.place client)).exec cmd).2)))
    (hfails : ((w.ext (s.place client)).exec cmd).1 = false →
      Q (.exn (.command (.failed 1))) (w.push (.run client cmd) false ()
        (update w.ext (s.place client) ((w.ext (s.place client)).exec cmd).2))) :
    s.keeps clients x₀ (.op (.run client cmd) ofStatus) Q w := by
  refine ⟨hassert, ?_⟩
  rintro ok _ x ⟨hstatus, rfl⟩
  cases ok with
  | true => exact hok hstatus.symm
  | false => exact hfails hstatus.symm

theorem keeps_run (hcmds : ∀ cmd ∈ cmds, ¬ cmd.TearsDown)
    (hm : (w.ext (s.place client)).doAll cmds = some m) :
    s.keeps clients x₀ (run client cmds) (fun r w' => r = .ret () ∧
      w'.ext = update w.ext (s.place client) m ∧
        ∀ other, Site.TornDown other w' → Site.TornDown other w) w := by
  induction cmds generalizing w with
  | nil =>
    cases hm
    exact ⟨rfl, (update_eq_self _ _).symm, fun _ h => h⟩
  | cons cmd cmds ih =>
    obtain ⟨hcmd, hcmds⟩ := forall_mem_cons.mp hcmds
    rw [Machine.doAll] at hm
    split at hm
    · rename_i hworks
      refine wp_bind.mpr (keeps_cmd (fun h => absurd h hcmd) (fun _ => ?_) fun h => ?_)
      · refine wp_mono ?_ (ih hcmds (by rw [World.push_ext, update_self]; exact hm))
        rintro r w' ⟨hr, hw', hdown⟩
        refine ⟨hr, ?_, fun other h => tornDown_of_push (.inr hcmd) (hdown other h)⟩
        rw [hw', World.push_ext, update_idem]
      · rw [hworks] at h
        cases h
    · cases hm

end Commands

/-! ### Starting the guests -/

namespace Site

def startCmds (s : Site Host) (client : Client) : List Cmd :=
  [.file (.mkdir (s.logDir client)), .service "modprobe kvm"] ++
    (s.setupNfsMount client (s.logDir client) ++ [.service "udevadm control --reload",
      .service "udevadm trigger /dev/kvm", .service "ls -l /dev/kvm"])

theorem startGuest_eq : s.startGuest client = run client (s.startCmds client) := by
  rw [startGuest, startCmds, run, run, run, run, forEach_append, forEach_append]

def withoutExports (text : List Char) : List Char :=
  deleteLines '\n' (fun l => decide (exportStart <+: l)) text

def started (s : Site Host) (client : Client) (m : Machine) : Machine where
  tree :=
    { nodes := insert (s.logDir client) m.tree.nodes ∪
        ((exportDir client).inits.map m.tree.resolve).toFinset
      mounts := (exportDir client, s.logDir client) :: m.tree.mounts }
  exports := appendLine '\n' (exportLine client) (withoutExports m.exports)

theorem exec_nfs (action : String) : m.exec (s.nfs client action) = (true, m) := by
  unfold nfs
  split <;> rfl

theorem nfs_not_tearsDown (action : String) : ¬ (s.nfs client action).TearsDown := by
  unfold nfs
  split <;> exact not_false

theorem startCmds_build : ∀ cmd ∈ s.startCmds client, ¬ cmd.TearsDown := by
  have hnfs : ¬ (s.nfs client "restart").TearsDown := s.nfs_not_tearsDown _
  simpa [startCmds, setupNfsMount, Cmd.TearsDown] using hnfs

theorem Clear.resolve_logDir (h : s.Clear client m) : m.tree.resolve (s.logDir client) = s.logDir client :=
  MountTree.resolve_of_outside fun mount hmount habove =>
    s.not_export_above_logDir ((h.below mount hmount).trans habove)

theorem Clear.resolve_logs (h : s.Clear client m) : m.tree.resolve s.logs = s.logs :=
  MountTree.resolve_of_outside fun mount hmount habove =>
    s.not_export_above_logs ((h.below mount hmount).trans habove)

theorem doAll_startCmds (h : s.Clear client m) :
    m.doAll (s.startCmds client) = some (s.started client m) := by
  have hdropLast : (s.logDir client).dropLast = s.logs := dropLast_concat
  have hmkdir : m.exec (.file (.mkdir (s.logDir client))) =
      (true, { m with tree := { m.tree with nodes := insert (s.logDir client) m.tree.nodes } }) := by
    have hexec := MountTree.exec_mkdir (t := m.tree) (p := s.logDir client)
      (by rw [h.resolve_logDir]; exact h.log_notMem) (by rw [hdropLast, h.resolve_logs]; exact h.logs_mem)
    rw [h.resolve_logDir] at hexec
    exact Machine.exec_file hexec
  have hbind : ({ m with tree := { m.tree with nodes := (s.started client m).tree.nodes } } : Machine).exec
        (.file (.bind (s.logDir client) (exportDir client))) =
      (true, { m with tree := (s.started client m).tree }) := by
    have hdir : m.tree.resolve (s.logDir client) ∈ (s.started client m).tree.nodes := by
      rw [h.resolve_logDir]
      exact Finset.mem_union_left _ (Finset.mem_insert_self _ _)
    have hpoint : m.tree.resolve (exportDir client) ∈ (s.started client m).tree.nodes := by
      refine Finset.mem_union_right _ (mem_toFinset.mpr (mem_map.mpr ⟨exportDir client, ?_, rfl⟩))
      exact (mem_inits _ _).mpr prefix_rfl
    have hexec := MountTree.exec_bind (t := { m.tree with nodes := (s.started client m).tree.nodes })
      hdir hpoint
    have hlog : ({ m.tree with nodes := (s.started client m).tree.nodes } : MountTree String).resolve
        (s.logDir client) = s.logDir client := h.resolve_logDir
    rw [hlog] at hexec
    exact Machine.exec_file hexec
  refine (Machine.doAll_cons hmkdir).trans ?_
  refine (Machine.doAll_cons rfl).trans ((Machine.doAll_cons rfl).trans ?_)
  refine (Machine.doAll_cons hbind).trans ?_
  refine (Machine.doAll_cons rfl).trans ((Machine.doAll_cons rfl).trans ?_)
  exact (Machine.doAll_cons (exec_nfs _)).trans rfl

theorem Clear.started (h : s.Clear other m) (hne : other ≠ client) :
    s.Clear other (s.started client m) where
  logs_mem := Finset.mem_union_left _ (Finset.mem_insert_of_mem h.logs_mem)
  log_notMem := by
    simp only [Site.started, Finset.mem_union, Finset.mem_insert, mem_toFinset, mem_map,
      mem_inits, not_or]
    refine ⟨⟨fun heq => hne (s.logDir_inj heq), h.log_notMem⟩, ?_⟩
    rintro ⟨q, hq, hresolve⟩
    rcases m.tree.resolve_eq_or q with hself | ⟨mount, hmount, -, habove⟩
    · -- a log directory lies deeper than an export directory
      have hlen := hq.length_le
      rw [← hself, hresolve] at hlen
      simp [Site.logDir, Site.logs, exportDir] at hlen
    · rw [hresolve] at habove
      exact h.hidden mount hmount habove
  below := by
    intro mount hmount
    rcases mem_cons.mp hmount with rfl | hmount
    · exact prefix_append ["export"] [client.name]
    · exact h.below mount hmount
  hidden := by
    intro mount hmount
    rcases mem_cons.mp hmount with rfl | hmount
    · intro habove
      have heq : s.logDir client = s.logDir other := habove.eq_of_length (by simp [Site.logDir])
      exact hne (s.logDir_inj heq).symm
    · exact h.hidden mount hmount

variable [DecidableEq Host]

def startOne (s : Site Host) (x : Machines Host) (client : Client) : Machines Host :=
  update x (s.place client) (s.started client (x (s.place client)))

def startAll (s : Site Host) (x : Machines Host) (order : List Client) : Machines Host :=
  order.foldl s.startOne x

theorem clear_startOne (h : s.Clear other (x (s.place other))) (hne : other ≠ client) :
    s.Clear other (s.startOne x client (s.place other)) := by
  by_cases hplace : s.place other = s.place client
  · rw [startOne, hplace, update_self]
    rw [hplace] at h
    exact h.started hne
  · rw [startOne, update_of_ne hplace]
    exact h

theorem startAll_of_elsewhere {host : Host} (h : ∀ client ∈ order, s.place client ≠ host) :
    s.startAll x order host = x host := by
  induction order generalizing x with
  | nil => rfl
  | cons client order ih =>
    obtain ⟨hhead, hrest⟩ := forall_mem_cons.mp h
    rw [startAll, foldl_cons, ← startAll, ih hrest, startOne, update_of_ne (Ne.symm hhead)]

theorem startAll_of_only (hnodup : order.Nodup) (hmem : client ∈ order)
    (honly : ∀ other ∈ order, s.place other = s.place client → other = client) :
    s.startAll x order (s.place client) = s.started client (x (s.place client)) := by
  obtain ⟨done, rest, rfl⟩ := append_of_mem hmem
  obtain ⟨-, hrest, hdisjoint⟩ := nodup_append.mp hnodup
  have hdone : ∀ other ∈ done, s.place other ≠ s.place client := fun other hother hplace =>
    hdisjoint other hother client (.head _) (honly other (mem_append_left _ hother) hplace)
  have hrest : ∀ other ∈ rest, s.place other ≠ s.place client := fun other hother hplace =>
    (nodup_cons.mp hrest).1
      (honly other (mem_append_right _ (.tail _ hother)) hplace ▸ hother)
  rw [startAll, foldl_append, foldl_cons, ← startAll, ← startAll, startAll_of_elsewhere hrest,
    startOne, update_self, startAll_of_elsewhere hdone]

theorem keeps_startAll (order : List Client) (hnodup : order.Nodup) (hw : w.ext = x)
    (hclear : ∀ client ∈ order, s.Clear client (x (s.place client))) :
    s.keeps clients x₀ (forEach order s.startGuest) (fun r w' => r = .ret () ∧
      w'.ext = s.startAll x order ∧ ∀ other, TornDown other w' → TornDown other w) w := by
  induction order generalizing w x with
  | nil => exact ⟨rfl, hw, fun _ h => h⟩
  | cons client order ih =>
    obtain ⟨hnotMem, hnodup⟩ := nodup_cons.mp hnodup
    obtain ⟨hclient, horder⟩ := forall_mem_cons.mp hclear
    subst hw
    rw [forEach, startGuest_eq]
    refine wp_bind.mpr (wp_mono ?_ (keeps_run startCmds_build (doAll_startCmds hclient)))
    rintro r w1 ⟨rfl, hw1, hdown1⟩
    have hrest := ih hnodup hw1 fun other hother =>
      clear_startOne (horder other hother) fun heq => hnotMem (heq ▸ hother)
    refine wp_mono ?_ hrest
    rintro r w2 ⟨hr, hw2, hdown2⟩
    exact ⟨hr, hw2, fun other h => hdown1 other (hdown2 other h)⟩

end Site

/-! ### What the guests find -/

theorem not_start_of_mem_withoutExports {text l : List Char}
    (h : l ∈ lines '\n' (Site.withoutExports text)) : ¬ exportStart <+: l := by
  rw [Site.withoutExports, lines_deleteLines (by decide +kernel)] at h
  simpa using (mem_filter.mp h).2

theorem ended_subset_lines (text : List Char) : ended '\n' text ⊆ lines '\n' text := by
  intro l hl
  unfold lines
  split
  · exact hl
  · exact mem_append_left _ hl

theorem ended_of_exported (h : exportLine client ∈ lines '\n' (s.started client m).exports) :
    unended '\n' (Site.withoutExports m.exports) = [] := by
  rw [Site.started, lines_appendLine (newline_notMem_exportLine client)] at h
  rcases mem_append.mp h with hmem | hmem
  · exact absurd (exportStart_exportLine client)
      (not_start_of_mem_withoutExports (ended_subset_lines _ hmem))
  · have hlen := congrArg List.length (mem_singleton.mp hmem)
    rw [length_append] at hlen
    exact eq_nil_of_length_eq_zero (by omega)

theorem mem_lines_started (hended : unended '\n' (Site.withoutExports m.exports) = []) {l : List Char}
    (h : l ∈ lines '\n' (s.started client m).exports) : ¬ exportStart <+: l ∨ l = exportLine client := by
  rw [Site.started, lines_appendLine (newline_notMem_exportLine client), hended, nil_append] at h
  rcases mem_append.mp h with hmem | hmem
  · exact .inl (not_start_of_mem_withoutExports (ended_subset_lines _ hmem))
  · exact .inr (mem_singleton.mp hmem)

theorem withoutExports_of_none {text : List Char} (h : ∀ l ∈ lines '\n' text, ¬ exportStart <+: l) :
    Site.withoutExports text = text :=
  deleteLines_eq_self (fun l hl => by simpa using h l hl) (by decide +kernel)

section Needed

variable [DecidableEq Host]

theorem env_total (s : Site Host) (clients : List Client) (o : Op) (u : Unit) (x : Machines Host) :
    ∃ a u' x', s.env clients o u x a u' x' := by
  cases o with
  | run client cmd => exact ⟨_, (), _, rfl, rfl⟩
  | guests => exact ⟨(), (), x, fun host => ⟨rfl, rfl, fun _ _ => Iff.rfl⟩⟩

theorem keeps_after_start (hnodup : order.Nodup)
    (hclear : ∀ client ∈ order, s.Clear client (x (s.place client)))
    (h : s.keeps clients x (s.runQemu order) (fun _ _ => True) ⟨(), x, []⟩) :
    ∃ w : W Host, w.ext = s.startAll x order ∧
      s.keeps clients x (finallyDo (.op .guests .ret) (forEach order s.finishGuest))
        (fun _ _ => True) w := by
  have hstart : s.keeps clients x (forEach order s.startGuest) (fun r w => r = .ret () ∧
      w.ext = s.startAll x order ∧ ∀ other, Site.TornDown other w → _) ⟨(), x, []⟩ :=
    s.keeps_startAll order hnodup rfl hclear
  obtain ⟨r, w, hrun⟩ := exists_exec (env_total s clients) (forEach order s.startGuest)
    (⟨(), x, []⟩ : W Host)
  obtain ⟨rfl, hw, -⟩ := wp_post hstart hrun
  exact ⟨w, hw, wp_post (wp_bind.mp h) hrun⟩

theorem alone_of_exported (hfresh : s.Fresh client (x (s.place client))) (hnotMem : client ∉ others)
    (hclients : ∀ other ∈ others, other ∈ clients) (hclient : client ∈ clients)
    (h : s.Exported clients x (s.startAll x (others ++ [client]))) :
    (∀ other ∈ clients, s.place other = s.place client → other = client) ∧
      (∀ l ∈ lines '\n' (x (s.place client)).exports, ¬ exportStart <+: l) ∧
      unended '\n' (x (s.place client)).exports = [] := by
  have hlast : s.startAll x (others ++ [client]) = s.startOne (s.startAll x others) client := by
    rw [Site.startAll, foldl_append]
    rfl
  have hhere : s.startAll x (others ++ [client]) (s.place client) =
      s.started client (s.startAll x others (s.place client)) := by
    rw [hlast, Site.startOne, update_self]
  have hown := h.1 client hclient
  rw [hhere] at hown
  have hended := ended_of_exported hown
  have honly : ∀ other ∈ clients, s.place other = s.place client → other = client := by
    intro other hother hplace
    have hline := h.1 other hother
    rw [hplace, hhere] at hline
    rcases mem_lines_started hended hline with hstart | heq
    · exact absurd (exportStart_exportLine other) hstart
    · exact exportLine_inj heq
  have helsewhere : s.startAll x others (s.place client) = x (s.place client) :=
    s.startAll_of_elsewhere fun other hother hplace =>
      hnotMem (honly other (hclients other hother) hplace ▸ hother)
  rw [helsewhere] at hhere hended
  have hnone : ∀ l ∈ lines '\n' (x (s.place client)).exports, ¬ exportStart <+: l := by
    intro l hl
    have hkept := h.2 (s.place client) l hl
    rw [hhere] at hkept
    rcases mem_lines_started hended hkept with hstart | rfl
    · exact hstart
    · exact absurd hl hfresh.line_notMem
  rw [withoutExports_of_none hnone] at hended
  exact ⟨honly, hnone, hended⟩

theorem keeps_next (h : s.keeps clients x (run client (cmd :: cmds) >>= fun _ => p) (fun _ _ => True) w)
    (hm : w.ext (s.place client) = m) (hcmd : m.exec cmd = (true, m')) :
    ∃ w' : W Host, w'.ext (s.place client) = m' ∧
      s.keeps clients x (run client cmds >>= fun _ => p) (fun _ _ => True) w' := by
  subst hm
  refine ⟨_, ?_, h.2 true () _ ⟨(congrArg Prod.fst hcmd).symm, rfl⟩⟩
  rw [World.push_ext, update_self, hcmd]

theorem no_mounts_of_keeps (hfresh : s.Fresh client (x (s.place client)))
    (hhere : w.ext (s.place client) = s.started client (x (s.place client)))
    (h : s.keeps clients x (finallyDo (.op .guests .ret) (forEach (client :: others) s.finishGuest))
      (fun _ _ => True) w) : (x (s.place client)).tree.mounts = [] := by
  have hclosing : wp (s.env clients) (s.Asserts clients x) (forEach (client :: others) s.finishGuest)
      (chain (fun _ _ => True) fun _ _ => True) (w.push .guests () () w.ext) :=
    (wp_finallyDo.mp h).2 () () w.ext fun host => ⟨rfl, rfl, fun _ _ => Iff.rfl⟩
  have hfinish : s.keeps clients x (forEach (client :: others) s.finishGuest) (fun _ _ => True)
      (w.push .guests () () w.ext) := wp_mono (fun _ _ _ => trivial) hclosing
  rw [forEach, Site.finishGuest, bind_assoc] at hfinish
  -- the service stops, and the mount of the client goes
  obtain ⟨w1, hw1, hstopped⟩ := keeps_next hfinish hhere (s.exec_nfs _)
  obtain ⟨w2, hw2, hunmounted⟩ := keeps_next hstopped hw1
    (Machine.exec_file (MountTree.exec_umount (t := (s.started client (x (s.place client))).tree) rfl))
  have hremove := (hunmounted.1 trivial).1
  rw [hw2] at hremove
  have hnone := (of_decide_eq_true hremove).2
  exact eq_nil_iff_forall_not_mem.mpr fun mount hmount =>
    hnone mount hmount (hfresh.below mount hmount)

end Needed

/-! ### Taking one client down -/

section Enough

variable [DecidableEq Host]

/-- A host with a client that is alone there, while its guest runs: `m₀` is the host before. -/
structure Site.Up (s : Site Host) (client : Client) (m₀ m : Machine) : Prop where
  ended : unended '\n' m₀.exports = []
  exports_eq : m.exports = appendLine '\n' (exportLine client) m₀.exports
  mounts_eq : m.tree.mounts = [(exportDir client, s.logDir client)]
  export_mem : ["export"] ∈ m.tree.nodes

theorem keeps_cons (hm : w.ext (s.place client) = m) (hcmd : m.exec cmd = (true, m'))
    (hassert : cmd.TearsDown → s.Leaves clients client w.ext (update w.ext (s.place client) m'))
    (hnext : ∀ w' : W Host, w'.ext = update w.ext (s.place client) m' →
      (∀ other, other ≠ client → Site.TornDown other w' → Site.TornDown other w) →
      s.keeps clients x₀ (run client cmds >>= fun _ => p) Q w') :
    s.keeps clients x₀ (run client (cmd :: cmds) >>= fun _ => p) Q w := by
  subst hm
  refine ⟨fun hdown => ?_, ?_⟩
  · rw [hcmd]
    exact ⟨rfl, hassert hdown⟩
  · rintro ok _ x' ⟨rfl, rfl⟩
    rw [hcmd]
    exact hnext _ rfl fun other hne h => tornDown_of_push (.inl hne) h

theorem leaves_update (honly : ∀ other ∈ clients, s.place other = s.place client → other = client)
    (hlogs : ∀ p, s.logs <+: p → p ∈ (x (s.place client)).tree.nodes → p ∈ m'.tree.nodes) :
    s.Leaves clients client x (update x (s.place client) m') := by
  constructor
  · intro host p hp hmem
    by_cases hhost : host = s.place client
    · subst hhost
      rw [update_self]
      exact hlogs p hp hmem
    · rw [update_of_ne hhost]
      exact hmem
  · intro other hother hne hplace
    have hhost : s.place other ≠ s.place client := fun heq => hne (honly other hother heq)
    rw [Site.InPlace, update_of_ne hhost]
    exact hplace

def takenDown (m₀ m : Machine) : Machine where
  tree := { nodes := m.tree.nodes.filter fun p => ¬ ["export"] <+: p, mounts := [] }
  exports := m₀.exports

theorem exec_removeTree_export (hmounts : t.mounts = []) (hmem : ["export"] ∈ t.nodes) :
    t.exec (.removeTree ["export"]) =
      (true, { nodes := t.nodes.filter fun p => ¬ ["export"] <+: p, mounts := [] }) := by
  have hresolve : t.resolve ["export"] = ["export"] := MountTree.resolve_of_outside (by simp [hmounts])
  have htakes : ∀ p, t.Takes ["export"] p ↔ ["export"] <+: p := fun _ =>
    MountTree.takes_of_no_mounts hmounts
  simp [MountTree.exec, hresolve, hmem, hmounts, htakes]

theorem keeps_finishGuest {m0 : Machine}
    (honly : ∀ other ∈ clients, s.place other = s.place client → other = client)
    (hm : w.ext (s.place client) = m) (hup : s.Up client m0 m) :
    s.keeps clients x₀ (s.finishGuest client) (fun _ w' =>
      w'.ext = update w.ext (s.place client) (takenDown m0 m) ∧
        ∀ other, other ≠ client → Site.TornDown other w' → Site.TornDown other w) w := by
  have hstop : ¬ (s.nfs client "stop").TearsDown := s.nfs_not_tearsDown _
  have hstart : ¬ (s.nfs client "start").TearsDown := s.nfs_not_tearsDown _
  refine keeps_cons hm (s.exec_nfs _) (fun h => absurd h hstop) fun w1 hw1 hdown1 => ?_
  have hm1 : w1.ext (s.place client) = m := by rw [hw1, update_self]
  refine keeps_cons hm1 (Machine.exec_file (MountTree.exec_umount hup.mounts_eq)) (fun _ => ?_)
    fun w2 hw2 hdown2 => ?_
  · refine leaves_update honly fun p _ hp => ?_
    rw [hm1] at hp
    exact hp
  have hm2 : w2.ext (s.place client) = { m with tree := { m.tree with mounts := [] } } := by
    rw [hw2, update_self]
  refine keeps_cons hm2 (Machine.exec_file (exec_removeTree_export rfl hup.export_mem)) (fun _ => ?_)
    fun w3 hw3 hdown3 => ?_
  · refine leaves_update honly fun p hlogs hp => ?_
    rw [hm2] at hp
    exact Finset.mem_filter.mpr ⟨hp, s.not_export_above_of_logs hlogs⟩
  have hm3 : w3.ext (s.place client) = { takenDown m0 m with exports := m.exports } := by
    rw [hw3, update_self]
    rfl
  have hdelete : ({ takenDown m0 m with exports := m.exports } : Machine).exec .sedDeleteLast =
      (true, takenDown m0 m) := by
    have htext : deleteLast '\n' m.exports = m0.exports := by
      rw [hup.exports_eq, deleteLast_appendLine (newline_notMem_exportLine client) hup.ended]
    rw [Machine.exec, htext]
    rfl
  refine keeps_cons hm3 hdelete (fun _ => ?_) fun w4 hw4 hdown4 => ?_
  · refine leaves_update honly fun p _ hp => ?_
    rw [hm3] at hp
    exact hp
  have hm4 : w4.ext (s.place client) = takenDown m0 m := by rw [hw4, update_self]
  refine keeps_cons hm4 (s.exec_nfs _) (fun h => absurd h hstart) fun w5 hw5 hdown5 => ?_
  have hw : w5.ext = update w.ext (s.place client) (takenDown m0 m) := by
    rw [hw5, hw4, hw3, hw2, hw1]
    simp only [update_idem]
  have hdown : ∀ other, other ≠ client → Site.TornDown other w5 → Site.TornDown other w :=
    fun other hne h => hdown1 other hne (hdown2 other hne (hdown3 other hne (hdown4 other hne
      (hdown5 other hne h))))
  -- whether the guest has succeeded or not, all is as the teardown left it
  refine ⟨fun h => h.elim, ?_⟩
  rintro ok _ x' ⟨-, rfl⟩
  have hsame : update w5.ext (s.place client) (w5.ext (s.place client)) = w5.ext :=
    update_eq_self _ _
  cases ok with
  | true | false =>
    exact ⟨hsame.trans hw, fun other hne h => hdown other hne (tornDown_of_push (.inl hne) h)⟩

theorem keeps_finishAll (hnodup : order.Nodup)
    (honly : ∀ client ∈ order, ∀ other ∈ clients, s.place other = s.place client → other = client)
    (hclients : ∀ client ∈ order, client ∈ clients)
    (hup : ∀ client ∈ order, s.Up client (x₀ (s.place client)) (w.ext (s.place client)))
    (hothers : ∀ host, (∀ client ∈ order, s.place client ≠ host) →
      (w.ext host).exports = (x₀ host).exports) (hdown : ∀ client ∈ order, ¬ Site.TornDown client w) :
    s.keeps clients x₀ (forEach order s.finishGuest) (fun _ w' =>
      (∀ client ∈ order, Site.TornDown client w') →
        ∀ host, (w'.ext host).exports = (x₀ host).exports) w := by
  induction order generalizing w with
  | nil => exact fun _ host => hothers host (by simp)
  | cons client order ih =>
    obtain ⟨hnotMem, hnodup⟩ := nodup_cons.mp hnodup
    obtain ⟨hup, hups⟩ := forall_mem_cons.mp hup
    obtain ⟨honly, honlys⟩ := forall_mem_cons.mp honly
    obtain ⟨-, hclients⟩ := forall_mem_cons.mp hclients
    obtain ⟨-, hdowns⟩ := forall_mem_cons.mp hdown
    refine wp_bind.mpr (wp_mono ?_ (keeps_finishGuest honly rfl hup))
    rintro r w1 ⟨hw1, hdown1⟩
    have hothers1 : ∀ host, (∀ other ∈ order, s.place other ≠ host) →
        (w1.ext host).exports = (x₀ host).exports := by
      intro host hhost
      rw [hw1]
      by_cases hhere : host = s.place client
      · subst hhere
        rw [update_self]
        rfl
      · rw [update_of_ne hhere]
        exact hothers host (forall_mem_cons.mpr ⟨Ne.symm hhere, hhost⟩)
    have hdowns1 : ∀ other ∈ order, ¬ Site.TornDown other w1 := fun other hother h =>
      hdowns other hother (hdown1 other (fun heq => hnotMem (heq ▸ hother)) h)
    -- where this guest has failed, it has to be the last one
    have hlast : (∀ other ∈ client :: order, Site.TornDown other w1) →
        ∀ host, (w1.ext host).exports = (x₀ host).exports := fun hall host =>
      hothers1 host fun other hother => absurd (hall other (.tail _ hother)) (hdowns1 other hother)
    rcases r with _ | e | _
    · refine wp_mono (fun r w2 h hall => h (forall_mem_cons.mp hall).2)
        (ih hnodup honlys hclients ?_ hothers1 hdowns1)
      intro other hother
      have hplace : s.place other ≠ s.place client := fun heq =>
        hnotMem (honly other (hclients other hother) heq ▸ hother)
      rw [hw1, update_of_ne hplace]
      exact hups other hother
    · exact hlast
    · exact hlast

omit [DecidableEq Host] in
theorem lines_started_of_alone (h : s.Alone clients x client) :
    lines '\n' (s.started client (x (s.place client))).exports =
      lines '\n' (x (s.place client)).exports ++ [exportLine client] := by
  rw [Site.started, withoutExports_of_none h.no_exports,
    lines_appendLine (newline_notMem_exportLine client),
    h.ended, nil_append, lines, if_pos h.ended]

theorem up_of_guests (h : s.Alone clients x client)
    (hstarted : s.startAll x order (s.place client) = s.started client (x (s.place client)))
    (hguests : s.GuestsWrite clients (s.startAll x order) y) :
    s.Up client (x (s.place client)) (y (s.place client)) := by
  obtain ⟨hexports, hmounts, hnodes⟩ := hguests (s.place client)
  rw [hstarted] at hexports hmounts hnodes
  refine ⟨h.ended, ?_, ?_, ?_⟩
  · rw [hexports, Site.started, withoutExports_of_none h.no_exports]
  · rw [hmounts, Site.started, h.no_mounts]
  · refine (hnodes ["export"] fun other _ _ hbelow => ?_).mpr ?_
    · have hlen := hbelow.length_le
      simp [Site.logDir, Site.logs] at hlen
    · have hresolve : (x (s.place client)).tree.resolve ["export"] = ["export"] :=
        MountTree.resolve_of_outside (by simp [h.no_mounts])
      refine Finset.mem_union_right _ (mem_toFinset.mpr (mem_map.mpr ⟨["export"], ?_, hresolve⟩))
      exact (mem_inits _ _).mpr (prefix_append ["export"] [client.name])

theorem exported_of_alone (hperm : order.Perm clients) (hnodup : order.Nodup)
    (halone : ∀ client ∈ clients, s.Alone clients x client) :
    s.Exported clients x (s.startAll x order) := by
  have hstarted : ∀ client ∈ clients,
      s.startAll x order (s.place client) = s.started client (x (s.place client)) := fun client hclient =>
    s.startAll_of_only hnodup (hperm.mem_iff.mpr hclient) fun other hother hplace =>
      (halone client hclient).only other (hperm.mem_iff.mp hother) hplace
  constructor
  · intro client hclient
    rw [hstarted client hclient, lines_started_of_alone (halone client hclient)]
    exact mem_append_right _ (mem_singleton_self _)
  · intro host l hl
    by_cases hhost : ∃ client ∈ clients, s.place client = host
    · obtain ⟨client, hclient, rfl⟩ := hhost
      rw [hstarted client hclient, lines_started_of_alone (halone client hclient)]
      exact mem_append_left _ hl
    · rw [s.startAll_of_elsewhere fun client hclient hplace =>
        hhost ⟨client, hperm.mem_iff.mp hclient, hplace⟩]
      exact hl

theorem keeps_runQemu (hperm : order.Perm clients) (hnodup : order.Nodup)
    (hclear : ∀ client ∈ clients, s.Clear client (x (s.place client)))
    (halone : ∀ client ∈ clients, s.Alone clients x client) :
    s.keeps clients x (s.runQemu order) (fun _ w =>
      (∀ client ∈ clients, Site.TornDown client w) → ∀ host, (w.ext host).exports = (x host).exports)
      ⟨(), x, []⟩ := by
  refine wp_bind.mpr (wp_mono ?_ (s.keeps_startAll order hnodup rfl fun client hclient =>
    hclear client (hperm.mem_iff.mp hclient)))
  rintro r w1 ⟨rfl, hw1, hdown1⟩
  refine wp_finallyDo.mpr ⟨?_, ?_⟩
  · rw [hw1]
    exact exported_of_alone hperm hnodup halone
  · intro _ _ y hguests
    have hguests : s.GuestsWrite clients (s.startAll x order) y := hw1 ▸ hguests
    have honly : ∀ client ∈ order, ∀ other ∈ clients, s.place other = s.place client → other = client :=
      fun client hclient => (halone client (hperm.mem_iff.mp hclient)).only
    have hup : ∀ client ∈ order, s.Up client (x (s.place client)) (y (s.place client)) :=
      fun client hclient => up_of_guests (halone client (hperm.mem_iff.mp hclient))
        (s.startAll_of_only hnodup hclient fun other hother =>
          honly client hclient other (hperm.mem_iff.mp hother)) hguests
    have hothers : ∀ host, (∀ client ∈ order, s.place client ≠ host) →
        (y host).exports = (x host).exports := by
      intro host hhost
      rw [(hguests host).1, s.startAll_of_elsewhere hhost]
    have hdown : ∀ client ∈ order, ¬ Site.TornDown client (w1.push .guests () () y) := by
      rintro client - ⟨e, he, hop⟩
      rcases mem_cons.mp he with rfl | he
      · cases hop
      · obtain ⟨_, hnil, -⟩ := hdown1 client ⟨e, he, hop⟩
        cases hnil
    show s.keeps clients x (forEach order s.finishGuest) (chain _ _) (w1.push .guests () () y)
    refine wp_mono ?_ (keeps_finishAll hnodup honly (fun client hclient => hperm.mem_iff.mp hclient)
      hup hothers hdown)
    have hback : ∀ w2 : W Host, (∀ client ∈ clients, Site.TornDown client w2) →
        ∀ client ∈ order, Site.TornDown client w2 := fun _ h client hclient =>
      h client (hperm.mem_iff.mp hclient)
    rintro (_ | e | _) w2 hw2
    · exact fun h => hw2 (hback w2 h)
    · exact fun h => hw2 (hback w2 h)
    · exact fun h => hw2 (hback w2 h)

end Enough

/-- **When exports are kept apart.** Every run exports each client, spares the others and gives
`/etc/exports` back, exactly when every client is alone on its host, `/etc/exports` has no lines below
`/export/` and no last line without an end, and nothing is mounted below `/export`. -/
theorem nfs_exports_isolated_iff {Host : Type} [DecidableEq Host] (s : Site Host) (clients : List Client)
    (hnodup : clients.Nodup) (x : Machines Host)
    (hfresh : ∀ client ∈ clients, s.Fresh client (x (s.place client))) :
    (∀ order : List Client, order.Perm clients → ∀ r w,
      Exec (s.env clients) (s.runQemu order) ⟨(), x, []⟩ r w → s.Isolated clients x w) ↔
        ∀ client ∈ clients, s.Alone clients x client := by
  constructor
  · intro h client hclient
    have hkeeps : ∀ order : List Client, order.Perm clients →
        s.keeps clients x (s.runQemu order) (fun _ _ => True) ⟨(), x, []⟩ := fun order hperm =>
      wp_of_events (env_total s clients) fun r w hrun => (h order hperm r w hrun).asserts
    have hclear : ∀ order : List Client, order.Perm clients →
        ∀ other ∈ order, s.Clear other (x (s.place other)) :=
      fun order hperm other hother => (hfresh other (hperm.mem_iff.mp hother)).toClear
    have hfront : (client :: clients.erase client).Perm clients := (perm_cons_erase hclient).symm
    have hback : (clients.erase client ++ [client]).Perm clients :=
      (perm_append_comm).trans hfront
    obtain ⟨w, hw, hlast⟩ :=
      keeps_after_start (hback.nodup_iff.mpr hnodup) (hclear _ hback) (hkeeps _ hback)
    have hexported : s.Exported clients x w.ext := (wp_finallyDo.mp hlast).1
    rw [hw] at hexported
    obtain ⟨honly, hnone, hended⟩ := alone_of_exported (hfresh client hclient)
      (List.Nodup.not_mem_erase hnodup) (fun _ hother => mem_of_mem_erase hother) hclient hexported
    obtain ⟨w', hw', hfirst⟩ := keeps_after_start (hfront.nodup_iff.mpr hnodup) (hclear _ hfront)
      (hkeeps _ hfront)
    have hhere : w'.ext (s.place client) = s.started client (x (s.place client)) := by
      rw [hw']
      exact s.startAll_of_only (hfront.nodup_iff.mpr hnodup) (.head _) fun other hother =>
        honly other (hfront.mem_iff.mp hother)
    exact ⟨honly, hnone, hended, no_mounts_of_keeps (hfresh client hclient) hhere hfirst⟩
  · intro halone order hperm r w hrun
    have hkeeps := keeps_runQemu hperm (hperm.nodup_iff.mpr hnodup)
      (fun client hclient => (hfresh client hclient).toClear) halone
    exact ⟨wp_events hkeeps hrun rfl, wp_post hkeeps hrun⟩

def firstClient : Client := ⟨"client.0", by decide +kernel⟩

def secondClient : Client := ⟨"client.1", by decide +kernel⟩

def siteAt {Host : Type} (place : Client → Host) : Site Host where
  testdir := ["zbkctest"]
  outside := by decide +kernel
  place := place
  deb := fun _ => true

def sharedSite : Site Unit := siteAt fun _ => ()

def plainMachine : Machine where
  tree := { nodes := {["zbkctest", "archive", "qemu"]}, mounts := [] }
  exports := "/srv *(ro)\n".toList

theorem fresh_plainMachine {Host : Type} (place : Client → Host)
    (h : exportLine client ∉ lines '\n' plainMachine.exports) :
    (siteAt place).Fresh client plainMachine where
  logs_mem := Finset.mem_singleton.mpr rfl
  log_notMem := by
    intro hmem
    have hlen := congrArg List.length (Finset.mem_singleton.mp hmem)
    simp [Site.logDir, Site.logs, siteAt] at hlen
  below := by simp [plainMachine]
  hidden := by simp [plainMachine]
  line_notMem := h

/-- Two clients, each alone on its host. -/
theorem nfs_exports_isolated_twoHosts :
    let clients := [firstClient, secondClient]
    let s := siteAt fun client => client.name == "client.0"
    clients.Nodup ∧ (∀ client ∈ clients, s.Fresh client plainMachine) ∧
      ∀ order : List Client, order.Perm clients → ∀ r w,
        Exec (s.env clients) (s.runQemu order) ⟨(), fun _ => plainMachine, []⟩ r w →
        s.Isolated clients (fun _ => plainMachine) w := by
  intro clients s
  have hnodup : clients.Nodup := by decide +kernel
  have hfresh : ∀ client ∈ clients, s.Fresh client plainMachine :=
    forall_mem_cons.mpr ⟨fresh_plainMachine _ (by decide +kernel),
      forall_mem_singleton.mpr (fresh_plainMachine _ (by decide +kernel))⟩
  refine ⟨hnodup, hfresh, (nfs_exports_isolated_iff s clients hnodup (fun _ => plainMachine) hfresh).mpr ?_⟩
  have hplaces : ∀ client ∈ clients, ∀ other ∈ clients, s.place other = s.place client →
      other = client := by decide +kernel
  exact fun client hclient => ⟨hplaces client hclient, by decide +kernel, by decide +kernel, rfl⟩

def quietAnswer (s : Site Unit) (o : Op) (_ : Unit) (x : Machines Unit) : o.Ans × Unit × Machines Unit :=
  match o with
  | .run client cmd => (((x (s.place client)).exec cmd).1, (),
      update x (s.place client) ((x (s.place client)).exec cmd).2)
  | .guests => ((), (), x)

theorem env_quietAnswer (s : Site Unit) (clients : List Client) (o : Op) (u : Unit) (x : Machines Unit) :
    s.env clients o u x (quietAnswer s o u x).1 (quietAnswer s o u x).2.1 (quietAnswer s o u x).2.2 := by
  cases o with
  | run client cmd => exact ⟨rfl, rfl⟩
  | guests => exact fun host => ⟨rfl, rfl, fun _ _ => Iff.rfl⟩

/-- The set-up of a second client on a host deletes the line of the first one. -/
theorem second_client_removes_export : [firstClient, secondClient].Nodup ∧
      (∀ client ∈ [firstClient, secondClient], sharedSite.Fresh client plainMachine) ∧
      ∃ r w, Exec (sharedSite.env [firstClient, secondClient])
        (sharedSite.runQemu [firstClient, secondClient]) ⟨(), fun _ => plainMachine, []⟩ r w ∧
        ∃ e ∈ w.log, e.op = .guests ∧ exportLine firstClient ∉ lines '\n' (e.ext ()).exports := by
  refine ⟨by decide +kernel, ?_, _, _, exec_runWith (env_quietAnswer _ _) _ _, ?_⟩
  · exact forall_mem_cons.mpr ⟨fresh_plainMachine _ (by decide +kernel),
      forall_mem_singleton.mpr (fresh_plainMachine _ (by decide +kernel))⟩
  · decide +kernel

end ZbkcTasks.QemuNfs
