import ZbkcTasks.Workunit

/-! Which runs of the `workunit` task leave everything as it was. Each of its two parts makes directories,
lets jobs work in them and deletes what it has made; what is there is said path by path. -/

namespace ZbkcTasks.Workunit

open DirTree List Prog

variable {Host : Type}

namespace Cluster

def mnt (c : Cluster Host) (role : String) : String := (c.splitRole role).mnt

def dir (c : Cluster Host) (role : String) : String := (c.splitRole role).dir

def Together (c : Cluster Host) (role role' : String) : Prop :=
  c.getRemoteForRole role = c.getRemoteForRole role' ∧ c.mnt role = c.mnt role'

def Missing (c : Cluster Host) (x : Trees Host) (role : String) : Prop :=
  ∃ host, c.On role host ∧ [c.mnt role] ∉ x host

def First (c : Cluster Host) (role : String) : List String → Prop
  | [] => False
  | role' :: roles => role = role' ∨ ¬ c.Together role role' ∧ c.First role roles

variable {c : Cluster Host} {role role' : String} {roles : List String} {x : Trees Host} {host : Host}

theorem Together.symm (h : c.Together role role') : c.Together role' role := ⟨h.1.symm, h.2.symm⟩

theorem Together.on (h : c.Together role role') (hon : c.On role host) : c.On role' host :=
    h.1.symm.trans hon

theorem together_of_on (hon : c.On role host) (hon' : c.On role' host) (h : c.mnt role = c.mnt role') :
    c.Together role role' := ⟨Eq.trans hon (Eq.symm hon'), h⟩

theorem Missing.notMem (h : c.Missing x role) (hon : c.On role host) : [c.mnt role] ∉ x host := by
  obtain ⟨host', hon', hmem⟩ := h
  rwa [hon.eq hon']

theorem Together.missing (h : c.Together role role') (hmissing : c.Missing x role) : c.Missing x role' := by
  obtain ⟨host, hon, hmem⟩ := hmissing
  rw [h.2] at hmem
  exact ⟨host, h.on hon, hmem⟩

theorem First.mem (h : c.First role roles) : role ∈ roles := by
  induction roles with
  | nil => exact h.elim
  | cons role' roles ih => exact h.elim (fun heq => heq ▸ (.head _)) fun h => .tail _ (ih h.2)

theorem First.eq_of_together (h : c.First role roles) (h' : c.First role' roles)
    (htogether : c.Together role role') : role = role' := by
  induction roles with
  | nil => exact h.elim
  | cons role0 roles ih =>
    rcases h with rfl | ⟨hne, h⟩
    · rcases h' with rfl | ⟨hne', -⟩
      · rfl
      · exact absurd htogether.symm hne'
    · rcases h' with rfl | ⟨-, h'⟩
      · exact absurd htogether hne
      · exact ih h h'

theorem exists_first (h : role ∈ roles) : ∃ role', c.First role' roles ∧ c.Together role role' := by
  induction roles with
  | nil => cases h
  | cons role0 roles ih =>
    by_cases htogether : c.Together role role0
    · exact ⟨role0, .inl rfl, htogether⟩
    · have hne : role ≠ role0 := fun heq => htogether (heq ▸ ⟨rfl, rfl⟩)
      obtain ⟨role', hfirst, h'⟩ := ih ((mem_cons.mp h).resolve_left hne)
      refine ⟨role', .inr ⟨fun hrole0 => htogether ?_, hfirst⟩, h'⟩
      exact ⟨h'.1.trans hrole0.1, h'.2.trans hrole0.2⟩

end Cluster

variable {s : Site Host} {subdir inner : Subdir} {swept : Prop} {role role' : String}
  {roles workers order tests : List String} {table : List (String × Bool)}
  {clients : List (String × List String)} {items : List String → List String} {x y z : Trees Host}
  {host : Host} {w : W Host}

/-! ### Commands -/

theorem Sound.push {o : Op Host} {ans : o.Ans} {u : Unit} (h : Sound w)
    (ho : ¬ o.FailsCleanUp ans) : Sound (w.push o ans u x) := forall_mem_cons.mpr ⟨ho, h⟩

variable {p rest q : List String} {mnt : String} {w₁ w2 : W Host} {listed : List (String × List String)}

section Commands

variable [DecidableEq Host] {α : Type} {Q : Outcome PyError α → W Host → Prop}
  {cmds : List (DirTree.Cmd String)} {t : DirTree String}

abbrev Site.ends (s : Site Host) (p : M Host α) (Q : Outcome PyError α → W Host → Prop) (w : W Host) :
    Prop :=
  wp s.env (fun _ _ _ => True) p Q w

abbrev Site.does (s : Site Host) (p : M Host α) (R : α → Trees Host → Prop) (w : W Host) : Prop :=
  s.ends p (returns fun a w' => R a w'.ext ∧ (Sound w → Sound w')) w

variable {R : α → Trees Host → Prop}

theorem does_ret {a : α} (h : R a w.ext) : s.does (.ret a) R w := ⟨h, fun h => h⟩

theorem does_mono {p : M Host α} {R' : α → Trees Host → Prop} (hp : s.does p R w)
    (h : ∀ a x, R a x → R' a x) : s.does p R' w :=
  wp_result (fun a w' hw' => hw'.imp_left (h a w'.ext)) hp

theorem does_bind {β : Type} {p : M Host α} {f : α → M Host β} {R' : β → Trees Host → Prop}
    (hp : s.does p R w) (hf : ∀ a w₁, R a w₁.ext → s.does (f a) R' w₁) : s.does (p >>= f) R' w := by
  refine wp_seq hp ?_
  rintro a w₁ ⟨hR, hsound1⟩
  refine wp_result ?_ (hf a w₁ hR)
  rintro b w2 ⟨hR', hsound2⟩
  exact ⟨hR', fun h => hsound2 (hsound1 h)⟩

theorem does_run (h : (w.ext host).script cmds = (true, t)) :
    s.does (run host cmds) (fun _ x => x = Function.update w.ext host t) w := by
  refine ⟨trivial, ?_⟩
  rintro ok u x ⟨rfl, rfl⟩
  rw [h]
  exact ⟨rfl, fun hsound => hsound.push fun hfails => Bool.noConfusion hfails.2⟩

theorem ends_run_fails {f : Unit → M Host α} (h : (w.ext host).script cmds = (false, t))
    (hfails : ∀ w' : W Host, w'.ext = Function.update w.ext host t → Q (.exn (.command (.failed 1))) w') :
    s.ends (run host cmds >>= f) Q w := by
  refine ⟨trivial, ?_⟩
  rintro ok u x ⟨rfl, rfl⟩
  rw [h]
  exact hfails _ rfl

theorem ends_bind_fails {β : Type} {p : M Host α} {f : α → M Host β} {P : W Host → Prop}
    (h : s.ends p (fun r w' => (∀ a, r ≠ .ret a) ∧ P w') w) :
    s.ends (p >>= f) (fun r w' => (∀ b, r ≠ .ret b) ∧ P w') w := by
  refine wp_bind.mpr (wp_mono ?_ h)
  rintro (a | e | _) w' ⟨hr, hw'⟩
  · exact absurd rfl (hr a)
  · exact ⟨nofun, hw'⟩
  · exact ⟨nofun, hw'⟩

theorem does_makeMountpoint (mnt : String) :
    s.does (makeMountpoint host mnt) (fun created x => created = decide ([mnt] ∉ w.ext host) ∧
      x = Function.update w.ext host ((w.ext host).mkdirs [mnt])) w := by
  refine wp_catching ?_
  by_cases hmem : [mnt] ∈ w.ext host
  · have hstat : (w.ext host).script [.stat [mnt]] = (true, (w.ext host).mkdirs [mnt]) := by
      rw [mkdirs_eq_self hmem]
      exact script_stat hmem
    refine wp_bind_returns (does_run hstat) ?_
    rintro _ w' ⟨hw', hsound⟩
    exact ⟨⟨by simp [hmem], hw'⟩, hsound⟩
  · have hstat : (w.ext host).script [.stat [mnt]] = (false, w.ext host) := script_cons_of_not_works hmem
    have hmkdir : (w.ext host).script [.mkdir [mnt]] = (true, (w.ext host).mkdirs [mnt]) :=
      script_mkdir hmem (w.ext host).root_mem
    refine ⟨trivial, ?_⟩
    rintro ok u x ⟨rfl, rfl⟩
    rw [hstat, Function.update_eq_self]
    have hsound : Sound w → Sound (w.push (.run host [.stat [mnt]]) false u w.ext) := fun hsound =>
      hsound.push fun hfails => by
        obtain ⟨cmd, hcmd, hremoves⟩ := hfails.1
        rw [mem_singleton.mp hcmd] at hremoves
        exact hremoves
    show s.ends (run host [.mkdir [mnt]] >>= fun _ => .ret true) _ _
    refine wp_bind_returns (does_run hmkdir) ?_
    rintro _ w' ⟨hw', hsound'⟩
    exact ⟨⟨by simp [hmem], hw'⟩, fun h => hsound' (hsound h)⟩

omit [DecidableEq Host] in
theorem makeScratchDir_eq (hon : s.On role host) :
    s.makeScratchDir subdir role = makeMountpoint host (s.mnt role) >>= fun created =>
      run host [.stat [s.mnt role], installCmd created (s.mnt role :: (s.splitRole role).sub subdir)] >>=
        fun _ => .ret created := by
  have hremote : s.getRemoteForRole role = .ok host := hon
  rw [Cluster.makeScratchDir, hremote]
  rfl

theorem length_sub_of_le (i : Instance) (h : subdir.names.length ≤ 1) : (i.sub subdir).length = 1 := by
  unfold Instance.sub
  split
  · rfl
  · rename_i hne
    have := length_pos_of_ne_nil hne
    omega

theorem sub_ne_nil (i : Instance) (subdir : Subdir) : i.sub subdir ≠ [] := by
  unfold Instance.sub
  split
  · exact cons_ne_nil _ _
  · assumption

theorem script_install (hne : p ≠ []) (h : p.length = 1 ∨ [mnt] ∈ t) :
    (t.mkdirs [mnt]).script [.stat [mnt], installCmd (decide ([mnt] ∉ t)) (mnt :: p)] =
      (true, t.mkdirs (mnt :: p)) := by
  have hmnt : [mnt] ∈ t.mkdirs [mnt] := mem_mkdirs.mpr (.inr prefix_rfl)
  have hmade : (t.mkdirs [mnt]).mkdirs (mnt :: p) = t.mkdirs (mnt :: p) := by
    ext q
    simp only [mem_mkdirs, or_assoc]
    refine or_congr_right (or_iff_right_of_imp fun hq => hq.trans ?_)
    exact cons_prefix_cons.mpr ⟨rfl, nil_prefix⟩
  rw [script_stat hmnt]
  by_cases hmem : [mnt] ∈ t
  · have hcmd : installCmd (decide ([mnt] ∉ t)) (mnt :: p) = .mkdirs (mnt :: p) := by
      simp [installCmd, hmem]
    rw [hcmd, script_mkdirs, hmade]
    rfl
  · have hcmd : installCmd (decide ([mnt] ∉ t)) (mnt :: p) = .mkdir (mnt :: p) := by simp [installCmd, hmem]
    have hlen := h.resolve_right hmem
    obtain ⟨name, rfl⟩ := length_eq_one_iff.mp hlen
    have hfresh : [mnt, name] ∉ t.mkdirs [mnt] := by
      rw [mem_mkdirs]
      rintro (hold | habove)
      · exact hmem (t.above_mem (prefix_append [mnt] [name]) hold)
      · exact absurd habove.length_le (by simp)
    rw [hcmd, script_mkdir hfresh hmnt, hmade]
    rfl

theorem script_install_fails (hmem : [mnt] ∉ t) (hlen : 1 < p.length) :
    (t.mkdirs [mnt]).script [.stat [mnt], installCmd (decide ([mnt] ∉ t)) (mnt :: p)] =
      (false, t.mkdirs [mnt]) := by
  have hmnt : [mnt] ∈ t.mkdirs [mnt] := mem_mkdirs.mpr (.inr prefix_rfl)
  have hcmd : installCmd (decide ([mnt] ∉ t)) (mnt :: p) = .mkdir (mnt :: p) := by simp [installCmd, hmem]
  rw [script_stat hmnt, hcmd]
  refine script_cons_of_not_works ?_
  rintro ⟨-, habove⟩
  have hdropLast : (mnt :: p).dropLast = mnt :: p.dropLast :=
    dropLast_cons_of_ne_nil (ne_nil_of_length_pos (by omega))
  rw [hdropLast] at habove
  rcases mem_mkdirs.mp habove with hold | habove
  · exact hmem (t.above_mem (cons_prefix_cons.mpr ⟨rfl, nil_prefix⟩) hold)
  · have := habove.length_le
    simp at this
    omega

theorem does_makeScratchDir (hon : s.On role host)
    (hok : subdir.names.length ≤ 1 ∨ [s.mnt role] ∈ w.ext host) :
    s.does (s.makeScratchDir subdir role) (fun created x => created = decide ([s.mnt role] ∉ w.ext host) ∧
      x = Function.update w.ext host
        ((w.ext host).mkdirs (s.mnt role :: (s.splitRole role).sub subdir))) w := by
  rw [makeScratchDir_eq hon]
  refine does_bind (does_makeMountpoint _) ?_
  rintro _ w₁ ⟨rfl, hw1⟩
  have hhere : w₁.ext host = (w.ext host).mkdirs [s.mnt role] := by rw [hw1, Function.update_self]
  have hscript := script_install (t := w.ext host) (sub_ne_nil (s.splitRole role) subdir)
    (hok.imp_left (length_sub_of_le _))
  refine does_bind (does_run (by rw [hhere]; exact hscript)) fun _ w2 hw2 => does_ret ⟨rfl, ?_⟩
  rw [hw2, hw1, Function.update_idem]

theorem ends_makeScratchDir_fails (hon : s.On role host) (hlen : 1 < subdir.names.length)
    (hmem : [s.mnt role] ∉ w.ext host) : s.ends (s.makeScratchDir subdir role)
      (fun r w' => (∀ created, r ≠ .ret created) ∧ [s.mnt role] ∈ w'.ext host) w := by
  have hsub : (s.splitRole role).sub subdir = subdir.names :=
    if_neg (ne_nil_of_length_pos (by omega))
  rw [makeScratchDir_eq hon]
  refine wp_bind_returns (does_makeMountpoint _) ?_
  rintro _ w₁ ⟨⟨rfl, hw1⟩, -⟩
  have hhere : w₁.ext host = (w.ext host).mkdirs [s.mnt role] := by rw [hw1, Function.update_self]
  refine ends_run_fails (by rw [hhere, hsub]; exact script_install_fails hmem hlen) fun w2 hw2 => ?_
  refine ⟨fun created h => (nomatch h), ?_⟩
  rw [hw2, Function.update_self]
  exact mem_mkdirs.mpr (.inr prefix_rfl)

end Commands

/-! ### Making directories for all roles -/

section Making

/-- All directories can be made: below a new mount point there is only one more. -/
def Site.Makes (s : Site Host) (subdir : Subdir) (roles : List String) (x : Trees Host) : Prop :=
  subdir.names.length ≤ 1 ∨ ∀ role ∈ roles, ¬ s.Missing x role

def Site.Made (s : Site Host) (subdir : Subdir) (roles : List String) (x y : Trees Host) : Prop :=
  ∀ host q, q ∈ y host ↔
    q ∈ x host ∨ ∃ role ∈ roles, s.On role host ∧ q <+: s.mnt role :: (s.splitRole role).sub subdir

theorem Site.Made.cons (h : s.Made subdir [role] x y) (hrest : s.Made subdir roles y z) :
    s.Made subdir (role :: roles) x z := by
  intro host q
  rw [hrest host q, h host q]
  simp [or_assoc]

theorem Site.Made.missing_iff (h : s.Made subdir [role] x y) :
    s.Missing y role' ↔ s.Missing x role' ∧ ¬ s.Together role' role := by
  have hmem : ∀ host, [s.mnt role'] ∈ y host ↔
      [s.mnt role'] ∈ x host ∨ s.On role host ∧ s.mnt role' = s.mnt role := by
    intro host
    rw [h host]
    simp [cons_prefix_cons]
  constructor
  · rintro ⟨host, hon, hnotMem⟩
    rw [hmem, not_or] at hnotMem
    exact ⟨⟨host, hon, hnotMem.1⟩, fun htogether => hnotMem.2 ⟨htogether.on hon, htogether.2⟩⟩
  · rintro ⟨⟨host, hon, hnotMem⟩, htogether⟩
    refine ⟨host, hon, ?_⟩
    rw [hmem]
    rintro (hold | ⟨hon', hmnt⟩)
    · exact hnotMem hold
    · exact htogether (Cluster.together_of_on hon hon' hmnt)

variable [DecidableEq Host]

theorem made_update (hon : s.On role host) : s.Made subdir [role] x
      (Function.update x host ((x host).mkdirs (s.mnt role :: (s.splitRole role).sub subdir))) := by
  intro host' q
  by_cases hhost : host' = host
  · subst hhost
    simp [hon]
  · rw [Function.update_of_ne hhost]
    simp only [mem_singleton, exists_eq_left]
    exact (or_iff_left fun h => hhost (h.1.eq hon)).symm

theorem does_tabulate (hroles : ∀ role ∈ roles, ∃ host, s.On role host) (hnodup : roles.Nodup)
    (hok : s.Makes subdir roles w.ext) :
    s.does (tabulate roles (s.makeScratchDir subdir)) (fun table x => s.Made subdir roles w.ext x ∧
      ∀ role ∈ roles, (table.lookup role).getD false = true ↔
        s.First role roles ∧ s.Missing w.ext role) w := by
  induction roles generalizing w with
  | nil => exact does_ret ⟨fun host q => by simp, by simp⟩
  | cons role roles ih =>
    obtain ⟨⟨host, hon⟩, hroles⟩ := forall_mem_cons.mp hroles
    obtain ⟨hnotMem, hnodup⟩ := nodup_cons.mp hnodup
    have hhere : subdir.names.length ≤ 1 ∨ [s.mnt role] ∈ w.ext host :=
      hok.imp_right fun hall => by_contra fun hmem => hall role (.head _) ⟨host, hon, hmem⟩
    refine does_bind (does_makeScratchDir hon hhere) ?_
    rintro _ w₁ ⟨rfl, hw1⟩
    have hmade : s.Made subdir [role] w.ext w₁.ext := hw1 ▸ made_update hon
    have hok1 : s.Makes subdir roles w₁.ext :=
      hok.imp_right fun hall role' hrole' hmissing =>
        hall role' (.tail _ hrole') (hmade.missing_iff.mp hmissing).1
    refine does_bind (ih hroles hnodup hok1) ?_
    rintro table w2 ⟨hmade2, htable⟩
    refine does_ret ⟨hmade.cons hmade2, forall_mem_cons.mpr ⟨?_, fun role' hrole' => ?_⟩⟩
    · have hmissing : s.Missing w.ext role ↔ [s.mnt role] ∉ w.ext host :=
        ⟨fun h => h.notMem hon, fun h => ⟨host, hon, h⟩⟩
      simp [hmissing, Cluster.First]
    · have hne : role' ≠ role := fun heq => hnotMem (heq ▸ hrole')
      have hlookup : List.lookup role' ((role, decide ([s.mnt role] ∉ w.ext host)) :: table) =
          List.lookup role' table := by
        rw [lookup_cons, beq_eq_false_iff_ne.mpr hne]
      rw [hlookup, htable role' hrole', hmade.missing_iff, Cluster.First]
      constructor
      · rintro ⟨hfirst, hmissing, htogether⟩
        exact ⟨.inr ⟨htogether, hfirst⟩, hmissing⟩
      · rintro ⟨hfirst, hmissing⟩
        obtain ⟨htogether, hfirst⟩ := hfirst.resolve_left hne
        exact ⟨hfirst, hmissing, htogether⟩

theorem ends_tabulate_fails (hroles : ∀ role ∈ roles, ∃ host, s.On role host)
    (hlen : 1 < subdir.names.length) (hmissing : ∃ role ∈ roles, s.Missing w.ext role) :
    s.ends (tabulate roles (s.makeScratchDir subdir)) (fun r w' => (∀ table, r ≠ .ret table) ∧
      ∃ role ∈ roles, ∃ host, [s.mnt role] ∉ w.ext host ∧ [s.mnt role] ∈ w'.ext host) w := by
  induction roles generalizing w with
  | nil =>
    obtain ⟨role, hrole, -⟩ := hmissing
    cases hrole
  | cons role roles ih =>
    obtain ⟨⟨host, hon⟩, hroles⟩ := forall_mem_cons.mp hroles
    by_cases hmem : [s.mnt role] ∈ w.ext host
    · refine wp_bind_returns (does_makeScratchDir hon (.inr hmem)) ?_
      rintro _ w₁ ⟨⟨rfl, hw1⟩, -⟩
      have hmade : s.Made subdir [role] w.ext w₁.ext := hw1 ▸ made_update hon
      have hmissing1 : ∃ role' ∈ roles, s.Missing w₁.ext role' := by
        obtain ⟨role', hrole', hmissing⟩ := hmissing
        have htogether : ¬ s.Together role' role := fun h => (h.missing hmissing).notMem hon hmem
        have hne : role' ≠ role := fun heq => htogether (heq ▸ ⟨rfl, rfl⟩)
        exact ⟨role', (mem_cons.mp hrole').resolve_left hne,
          hmade.missing_iff.mpr ⟨hmissing, htogether⟩⟩
      refine ends_bind_fails (wp_mono ?_ (ih hroles hmissing1))
      rintro _ w2 ⟨hr, role', hrole', host', hnotMem, hmem'⟩
      exact ⟨hr, role', .tail _ hrole', host', fun h => hnotMem ((hmade host' _).mpr (.inl h)), hmem'⟩
    · refine ends_bind_fails (wp_mono ?_ (ends_makeScratchDir_fails hon hlen hmem))
      exact fun _ w₁ ⟨hr, hmem'⟩ => ⟨hr, role, .head _, host, hmem, hmem'⟩

end Making

/-! ### Deleting them -/

section Deleting

def Created (table : List (String × Bool)) (role : String) : Prop := (table.lookup role).getD false = true

def Site.Sole (s : Site Host) (y : Trees Host) (role : String) : Prop :=
  ∀ host, s.On role host → [s.mnt role] ∈ y host ∧
    ∀ q ∈ y host, [s.mnt role] <+: q → q = [s.mnt role] ∨ [s.mnt role, s.dir role] <+: q

def Site.Deleted (s : Site Host) (table : List (String × Bool)) (roles : List String) (y z : Trees Host) :
    Prop :=
  ∀ host q, q ∈ z host ↔ q ∈ y host ∧ ∀ role ∈ roles, s.On role host →
    ¬ [s.mnt role, s.dir role] <+: q ∧ (Created table role → ¬ [s.mnt role] <+: q)

theorem deleteDir_eq (hon : s.On role host) :
    s.deleteDir table role = run host [.remove [s.mnt role, s.dir role]] >>= fun _ =>
      if (table.lookup role).getD false = true then run host [.rmdir [s.mnt role]] else .ret () := by
  have hremote : s.getRemoteForRole role = .ok host := hon
  rw [Cluster.deleteDir, hremote]
  rfl

theorem Site.Deleted.cons (h : s.Deleted table [role] x y) (hrest : s.Deleted table roles y z) :
    s.Deleted table (role :: roles) x z := by
  intro host q
  rw [hrest host q, h host q, and_assoc]
  refine and_congr_right fun _ => ?_
  rw [forall_mem_singleton, forall_mem_cons]

theorem Site.Sole.of_deleted (h : s.Sole x role') (hdeleted : s.Deleted table [role] x y)
    (hne : Created table role → ¬ s.Together role role') : s.Sole y role' := by
  intro host hon'
  obtain ⟨hmem, honly⟩ := h host hon'
  refine ⟨(hdeleted host _).mpr ⟨hmem, forall_mem_singleton.mpr fun hon => ⟨?_, ?_⟩⟩, ?_⟩
  · intro hbelow
    exact absurd hbelow.length_le (by simp)
  · intro hcreated hbelow
    exact hne hcreated (Cluster.together_of_on hon hon' (cons_prefix_cons.mp hbelow).1)
  · exact fun q hq => honly q ((hdeleted host q).mp hq).1

theorem script_rmdir_of_sole (hon : s.On role host) (hsole : s.Sole x role) :
    ((x host).remove [s.mnt role, s.dir role]).script [.rmdir [s.mnt role]] =
      (true, ((x host).remove [s.mnt role, s.dir role]).remove [s.mnt role]) := by
  obtain ⟨hmem, honly⟩ := hsole host hon
  refine script_rmdir ?_ (cons_ne_nil _ _) ?_
  · refine (mem_remove (cons_ne_nil _ _)).mpr ⟨hmem, fun hbelow => ?_⟩
    exact absurd hbelow.length_le (by simp)
  · rintro ⟨q, hq, hbelow, hne⟩
    obtain ⟨hq, hdir⟩ := (mem_remove (cons_ne_nil _ _)).mp hq
    exact hdir ((honly q hq hbelow).resolve_left hne)

variable [DecidableEq Host]

theorem does_deleteDir (hon : s.On role host) (hsole : Created table role → s.Sole w.ext role) :
    s.does (s.deleteDir table role) (fun _ => s.Deleted table [role] w.ext) w := by
  have hdeleted : ∀ t : DirTree String, (∀ q, q ∈ t ↔ q ∈ w.ext host ∧ ¬ [s.mnt role, s.dir role] <+: q ∧
      (Created table role → ¬ [s.mnt role] <+: q)) →
      s.Deleted table [role] w.ext (Function.update w.ext host t) := by
    intro t ht host' q
    rw [forall_mem_singleton]
    by_cases hhost : host' = host
    · subst hhost
      rw [Function.update_self, ht q]
      exact and_congr_right fun _ => ⟨fun h _ => h, fun h => h hon⟩
    · rw [Function.update_of_ne hhost]
      exact (and_iff_left fun hon' => absurd (hon'.eq hon) hhost).symm
  rw [deleteDir_eq hon]
  refine does_bind (does_run script_remove) fun _ w₁ hw1 => ?_
  split
  · rename_i hcreated
    have hscript : (w₁.ext host).script [.rmdir [s.mnt role]] =
        (true, ((w.ext host).remove [s.mnt role, s.dir role]).remove [s.mnt role]) := by
      rw [hw1, Function.update_self]
      exact script_rmdir_of_sole hon (hsole hcreated)
    refine does_mono (does_run hscript) fun _ x2 hx2 => ?_
    rw [hx2, hw1, Function.update_idem]
    refine hdeleted _ fun q => ?_
    rw [mem_remove (cons_ne_nil _ _), mem_remove (cons_ne_nil _ _), and_assoc]
    exact and_congr_right fun _ => and_congr_right fun _ => ⟨fun h _ => h, fun h => h hcreated⟩
  · rename_i hcreated
    refine does_ret ?_
    rw [hw1]
    refine hdeleted _ fun q => ?_
    rw [mem_remove (cons_ne_nil _ _)]
    exact and_congr_right fun _ => (and_iff_left fun h => absurd h hcreated).symm

theorem does_deleteDirs (hroles : ∀ role ∈ roles, ∃ host, s.On role host) (hnodup : roles.Nodup)
    (hsole : ∀ role ∈ roles, Created table role → s.Sole w.ext role)
    (hcreators : ∀ role ∈ roles, ∀ role' ∈ roles, Created table role → Created table role' →
      s.Together role role' → role = role') :
    s.does (forEach roles (s.deleteDir table)) (fun _ => s.Deleted table roles w.ext) w := by
  induction roles generalizing w with
  | nil => exact does_ret fun host q => by simp
  | cons role roles ih =>
    obtain ⟨⟨host, hon⟩, hroles⟩ := forall_mem_cons.mp hroles
    obtain ⟨hnotMem, hnodup⟩ := nodup_cons.mp hnodup
    obtain ⟨hsole, hsoles⟩ := forall_mem_cons.mp hsole
    refine does_bind (does_deleteDir hon hsole) fun _ w₁ hdeleted => ?_
    have hsoles1 : ∀ role' ∈ roles, Created table role' → s.Sole w₁.ext role' := by
      intro role' hrole' hcreated'
      refine (hsoles role' hrole' hcreated').of_deleted hdeleted fun hcreated htogether => ?_
      have heq := hcreators role (.head _) role' (.tail _ hrole') hcreated hcreated' htogether
      exact hnotMem (heq ▸ hrole')
    refine does_mono (ih hroles hnodup hsoles1 fun role1 h1 role2 h2 =>
      hcreators role1 (.tail _ h1) role2 (.tail _ h2)) fun _ x2 hdeleted2 => ?_
    exact hdeleted.cons hdeleted2

theorem sole_of_ends {Q : Outcome PyError Unit → W Host → Prop} (hon : s.On role host)
    (hcreated : Created table role) (h : s.ends (forEach (role :: roles) (s.deleteDir table)) Q w)
    (hQ : ∀ e w', Q (.exn e) w' → Sound w') : s.Sole w.ext role := by
  have hcreated : (table.lookup role).getD false = true := hcreated
  rw [forEach, deleteDir_eq hon, if_pos hcreated, bind_assoc] at h
  have hremoved : (w.ext host).script [.remove [s.mnt role, s.dir role]] =
      (true, (w.ext host).remove [s.mnt role, s.dir role]) := script_remove
  have hnext := h.2 true () (Function.update w.ext host ((w.ext host).remove [s.mnt role, s.dir role]))
    ⟨by rw [hremoved], by rw [hremoved]⟩
  by_cases hworks : (DirTree.Cmd.rmdir [s.mnt role]).Works ((w.ext host).remove [s.mnt role, s.dir role])
  · obtain ⟨hmem, -, hempty⟩ := hworks
    intro host' hon'
    rw [← hon.eq hon']
    refine ⟨mem_of_mem_remove hmem, fun q hq hbelow => ?_⟩
    by_contra hother
    rw [not_or] at hother
    exact hempty ⟨q, (mem_remove (cons_ne_nil _ _)).mpr ⟨hq, hother.2⟩, hbelow, hother.1⟩
  · have hfails : ((w.ext host).remove [s.mnt role, s.dir role]).script [.rmdir [s.mnt role]] =
        (false, (w.ext host).remove [s.mnt role, s.dir role]) := script_cons_of_not_works hworks
    have hunsound := hnext.2 false () _
      ⟨by rw [World.push_ext, Function.update_self, hfails],
        by rw [World.push_ext, Function.update_self, hfails]⟩
    exact absurd ⟨⟨.rmdir [s.mnt role], mem_singleton_self _, trivial⟩, rfl⟩
      (hQ _ _ hunsound _ (.head _))

end Deleting

/-! ### One part of the task -/

section Part

variable {x₁ : Trees Host}

def Site.part (s : Site Host) (roles order : List String) (subdir : Subdir) (jobs : M Host Unit) :
    M Host Unit :=
  tabulate roles (s.makeScratchDir subdir) >>= fun table => jobs >>= fun _ =>
    forEach order (s.deleteDir table)

def Site.Below (s : Site Host) (roles : List String) (subdir : Subdir) (x : Trees Host) (host : Host)
    (q : List String) : Prop :=
  subdir.names ≠ [] ∧ ∃ role ∈ roles, s.On role host ∧ [s.mnt role] ∈ x host ∧
    q <+: s.mnt role :: subdir.names

/-- After one part: `inner` leads to the scratch directories of its jobs, which are gone if they are
`swept`. -/
structure Site.Cleared (s : Site Host) (roles workers : List String) (subdir inner : Subdir) (swept : Prop)
    (x z : Trees Host) : Prop where
  upper : ∀ host q, q ∈ z host → q ∈ x host ∨ s.Below roles subdir x host q
  lower : ∀ host q, ¬ Aside q → q ∈ x host ∨ s.Below roles subdir x host q →
    (∀ role ∈ roles, s.On role host → ¬ [s.mnt role, s.dir role] <+: q) →
    (∀ role ∈ workers, s.On role host → ¬ (s.splitRole role).scratch inner <+: q) → q ∈ z host
  gone : ∀ host q, q ∈ z host → ∀ role ∈ roles, s.On role host → ¬ [s.mnt role, s.dir role] <+: q
  clean : swept → ∀ host q, q ∈ z host → ∀ role ∈ workers, s.On role host →
    ¬ (s.splitRole role).scratch inner <+: q

theorem below_ne_nil {i : Instance} (h : inner ≠ .path []) : i.below inner ≠ [] := by
  cases inner with
  | unset | off => exact cons_ne_nil _ _
  | path names => exact fun hnil => h (congrArg Subdir.path hnil)

theorem not_scratch_prefix_mnt (hinner : inner ≠ .path []) (i : Instance) (mnt : String) :
    ¬ i.scratch inner <+: [mnt] := by
  intro hbelow
  have hlen := hbelow.length_le
  have hpos := length_pos_of_ne_nil (below_ne_nil (i := i) hinner)
  rw [Instance.scratch, length_cons, length_singleton] at hlen
  omega

/-- All that is made below the mount point and not removed by the jobs lies in the directory of the role. -/
def Site.Owns (s : Site Host) (roles workers : List String) (subdir inner : Subdir) (swept : Prop)
    (role : String) : Prop :=
  ∀ role' ∈ roles, s.Together role role' → ∀ p,
    p <+: (s.splitRole role').sub subdir ∨ role' ∈ workers ∧ p <+: (s.splitRole role').below inner →
    (swept → role' ∈ workers → ¬ (s.splitRole role').below inner <+: p) → p = [] ∨ [s.dir role] <+: p

theorem sole_of_worked (hmade : s.Made subdir roles x x₁) (hworked : s.Worked workers inner swept x₁ y)
    (hworkers : ∀ role ∈ workers, role ∈ roles) (hinner : inner ≠ .path []) (hrole : role ∈ roles)
    (hmissing : s.Missing x role) (hown : s.Owns roles workers subdir inner swept role) :
    s.Sole y role := by
  intro host hon
  constructor
  · refine hworked.lower host _ (not_aside_mountpoint _ _ _)
      ((hmade host _).mpr (.inr ⟨role, hrole, hon, ?_⟩)) ?_
    · exact cons_prefix_cons.mpr ⟨rfl, nil_prefix⟩
    · exact fun _ _ _ => not_scratch_prefix_mnt hinner _ _
  · intro q hq hbelow
    obtain ⟨p, rfl⟩ := hbelow
    -- whoever made it has the same mount point
    have howner : ∀ role' ∈ roles, s.On role' host → ∀ below, [s.mnt role] ++ p <+: s.mnt role' :: below →
        s.Together role role' ∧ p <+: below := by
      intro role' _ hon' below h
      obtain ⟨hmnt, hp⟩ := cons_prefix_cons.mp h
      exact ⟨Cluster.together_of_on hon hon' hmnt, hp⟩
    have hthere : ∃ role' ∈ roles, s.Together role role' ∧ s.On role' host ∧
        (p <+: (s.splitRole role').sub subdir ∨
          role' ∈ workers ∧ p <+: (s.splitRole role').below inner) := by
      rcases hworked.upper host _ hq with hx1 | ⟨role', hrole', hon', habove⟩
      · rcases (hmade host _).mp hx1 with hx | ⟨role', hrole', hon', habove⟩
        · exact absurd ((x host).above_mem (prefix_append _ _) hx) (hmissing.notMem hon)
        · obtain ⟨htogether, hp⟩ := howner role' hrole' hon' _ habove
          exact ⟨role', hrole', htogether, hon', .inl hp⟩
      · obtain ⟨htogether, hp⟩ := howner role' (hworkers role' hrole') hon' _ habove
        exact ⟨role', hworkers role' hrole', htogether, hon', .inr ⟨hrole', hp⟩⟩
    obtain ⟨role', hrole', htogether, hon', hp⟩ := hthere
    have hclean : swept → role' ∈ workers → ¬ (s.splitRole role').below inner <+: p :=
      fun hswept hworker hbelow => hworked.gone hswept host _ hq role' hworker hon'
        (cons_prefix_cons.mpr ⟨htogether.2.symm, hbelow⟩)
    rcases hown role' hrole' htogether p hp hclean with rfl | hdir
    · exact .inl rfl
    · exact .inr (cons_prefix_cons.mpr ⟨rfl, hdir⟩)

/-- A path above what lies in the directory of a role, but not in it, is the mount point or above it. -/
theorem above_mnt (h : q <+: s.mnt role :: s.dir role :: rest) (hout : ¬ [s.mnt role, s.dir role] <+: q) :
    q <+: [s.mnt role] := by
  rcases prefix_or_prefix_of_prefix h
    (show [s.mnt role, s.dir role] <+: s.mnt role :: s.dir role :: rest from ⟨rest, rfl⟩)
    with habove | hbelow
  · rcases prefix_concat_iff.mp (show q <+: [s.mnt role] ++ [s.dir role] from habove) with heq | habove
    · exact absurd (heq ▸ prefix_rfl) hout
    · exact habove
  · exact absurd hbelow hout

theorem cleared_of_deleted (hmade : s.Made subdir roles x x₁) (hworked : s.Worked workers inner swept x₁ y)
    (hworkers : ∀ role ∈ workers, role ∈ roles) (hdeleted : s.Deleted table roles y z)
    (hinner : inner ≠ .path []) (hpath : inner = .unset ∨ inner = subdir)
    (htable : ∀ role ∈ roles, Created table role ↔ s.First role roles ∧ s.Missing x role) :
    s.Cleared roles workers subdir inner swept x z := by
  have hgone : ∀ host q, q ∈ z host → ∀ role ∈ roles, s.On role host → ¬ [s.mnt role, s.dir role] <+: q :=
    fun host q hq role hrole hon => (((hdeleted host q).mp hq).2 role hrole hon).1
  -- nothing is left of a mount point that was made
  have hnil : ∀ host q, q ∈ z host → ∀ role ∈ roles, s.On role host → [s.mnt role] ∉ x host →
      ∀ p, q <+: s.mnt role :: p → q = [] := by
    intro host q hq role hrole hon hmem p hqp
    obtain ⟨role', hfirst, htogether⟩ := s.exists_first hrole
    have hcreated := (htable role' hfirst.mem).mpr ⟨hfirst, htogether.missing ⟨host, hon, hmem⟩⟩
    have hout := (((hdeleted host q).mp hq).2 role' hfirst.mem (htogether.on hon)).2 hcreated
    cases q with
    | nil => rfl
    | cons name q =>
      obtain ⟨hname, -⟩ := cons_prefix_cons.mp hqp
      exact absurd (cons_prefix_cons.mpr ⟨by rw [hname, htogether.2], nil_prefix⟩) hout
  refine ⟨?_, ?_, hgone, ?_⟩
  · intro host q hq
    -- from above a directory that was made there is nothing new, unless it is the one of `subdir`
    have hnew : ∀ role ∈ roles, s.On role host → ∀ rest, q <+: s.mnt role :: s.dir role :: rest →
      q ∈ x host := by
      intro role hrole hon rest habove
      by_cases hmem : [s.mnt role] ∈ x host
      · exact (x host).above_mem (above_mnt habove (hgone host q hq role hrole hon)) hmem
      · rw [hnil host q hq role hrole hon hmem _ habove]
        exact (x host).root_mem
    have hsub : ∀ role ∈ roles, s.On role host → subdir.names ≠ [] → q <+: s.mnt role :: subdir.names →
        q ∈ x host ∨ s.Below roles subdir x host q := by
      intro role hrole hon hne habove
      by_cases hmem : [s.mnt role] ∈ x host
      · exact .inr ⟨hne, role, hrole, hon, hmem, habove⟩
      · rw [hnil host q hq role hrole hon hmem _ habove]
        exact .inl (x host).root_mem
    rcases hworked.upper host q ((hdeleted host q).mp hq).1 with hx1 | ⟨role, hrole, hon, habove⟩
    · rcases (hmade host q).mp hx1 with hx | ⟨role, hrole, hon, habove⟩
      · exact .inl hx
      · unfold Instance.sub at habove
        split at habove
        · exact .inl (hnew role hrole hon [] habove)
        · rename_i hne
          exact hsub role hrole hon hne habove
    · have hrole := hworkers role hrole
      rcases hpath with rfl | rfl
      · exact .inl (hnew role hrole hon ["tmp"] habove)
      · cases inner with
        | unset | off => exact .inl (hnew role hrole hon ["tmp"] habove)
        | path names => exact hsub role hrole hon (fun h => hinner (congrArg Subdir.path h)) habove
  · intro host q haside hq hout hwork
    have hx1 : q ∈ x₁ host := by
      refine (hmade host q).mpr (hq.imp_right ?_)
      rintro ⟨hne, role, hrole, hon, -, habove⟩
      refine ⟨role, hrole, hon, ?_⟩
      rw [Instance.sub, if_neg hne]
      exact habove
    refine (hdeleted host q).mpr ⟨hworked.lower host q haside hx1 hwork, ?_⟩
    refine fun role hrole hon => ⟨hout role hrole hon, fun hcreated hbelow => ?_⟩
    have hmem := ((htable role hrole).mp hcreated).2.notMem hon
    rcases hq with hx | ⟨-, role', -, -, hmem', habove⟩
    · exact hmem ((x host).above_mem hbelow hx)
    · obtain ⟨hmnt, -⟩ := cons_prefix_cons.mp (hbelow.trans habove)
      exact hmem (hmnt ▸ hmem')
  · exact fun hswept host q hq role hrole hon =>
      hworked.gone hswept host q ((hdeleted host q).mp hq).1 role hrole hon

variable [DecidableEq Host] {jobs : M Host Unit}

/-- The roles of a part, those that its jobs work for, and what the jobs do. -/
structure Site.Part (s : Site Host) (roles workers : List String) (inner : Subdir) (swept : Prop)
    (jobs : M Host Unit) : Prop where
  on : ∀ role ∈ roles, ∃ host, s.On role host
  nodup : roles.Nodup
  does : ∀ w : W Host, s.does jobs (fun _ => s.Worked workers inner swept w.ext) w
  subset : ∀ role ∈ workers, role ∈ roles

/-- **One part.** It succeeds where all directories can be made and each mount point that is made becomes
empty again. -/
theorem does_part (hpart : s.Part roles workers inner swept jobs) (horder : order.Perm roles)
    (hmake : s.Makes subdir roles w.ext) (hinner : inner ≠ .path [])
    (hpath : inner = .unset ∨ inner = subdir)
    (hown : ∀ role, s.First role roles → s.Missing w.ext role →
      s.Owns roles workers subdir inner swept role) : s.does (s.part roles order subdir jobs)
      (fun _ => s.Cleared roles workers subdir inner swept w.ext) w := by
  refine does_bind (does_tabulate hpart.on hpart.nodup hmake) ?_
  rintro table w₁ ⟨hmade, htable⟩
  refine does_bind (hpart.does w₁) fun _ w2 hworked => ?_
  have hsole : ∀ role ∈ order, Created table role → s.Sole w2.ext role := by
    intro role hrole hcreated
    have hrole := horder.mem_iff.mp hrole
    obtain ⟨hfirst, hmissing⟩ := (htable role hrole).mp hcreated
    exact sole_of_worked hmade hworked hpart.subset hinner hrole hmissing (hown role hfirst hmissing)
  have hcreators : ∀ role ∈ order, ∀ role' ∈ order, Created table role → Created table role' →
      s.Together role role' → role = role' := by
    intro role hrole role' hrole' hcreated hcreated'
    have hfirst := ((htable role (horder.mem_iff.mp hrole)).mp hcreated).1
    exact hfirst.eq_of_together ((htable role' (horder.mem_iff.mp hrole')).mp hcreated').1
  refine does_mono (does_deleteDirs (fun role hrole => hpart.on role (horder.mem_iff.mp hrole))
    (horder.nodup_iff.mpr hpart.nodup) hsole hcreators) fun _ x3 hdeleted => ?_
  have hdeleted : s.Deleted table roles w2.ext x3 := by
    intro host q
    rw [hdeleted host q]
    exact and_congr_right fun _ => forall_congr' fun role => imp_congr horder.mem_iff Iff.rfl
  exact cleared_of_deleted hmade hworked hpart.subset hdeleted hinner hpath htable

end Part

/-! ### The jobs of a part -/

section Spawning

variable {swept' : Prop} {roles' : List String}

theorem Site.Worked.refl (s : Site Host) (subdir : Subdir) (swept : Prop) (x : Trees Host) :
    s.Worked [] subdir swept x x where
  upper _ _ hq := .inl hq
  lower _ _ _ hq _ := hq
  gone _ _ _ _ _ hrole := by cases hrole

theorem Site.Worked.of_nil (h : s.Worked [] subdir swept x y) : s.Worked [] inner swept x y where
  upper host q hq := (h.upper host q hq).imp_right fun ⟨_, hrole, _⟩ => by cases hrole
  lower host q haside hq _ := h.lower host q haside hq fun _ hrole => by cases hrole
  gone _ _ _ _ _ hrole := by cases hrole

theorem Site.Worked.mono (h : s.Worked roles subdir swept x y)
    (hroles : ∀ role, role ∈ roles ↔ role ∈ roles')
    (hswept : swept' → swept) : s.Worked roles' subdir swept' x y where
  upper host q hq := (h.upper host q hq).imp_right fun ⟨role, hrole, hrest⟩ =>
    ⟨role, (hroles role).mp hrole, hrest⟩
  lower host q haside hq hout := h.lower host q haside hq fun role hrole =>
    hout role ((hroles role).mp hrole)
  gone hs host q hq role hrole := h.gone (hswept hs) host q hq role ((hroles role).mpr hrole)

theorem Site.Worked.trans (h : s.Worked roles subdir swept' x y) (h' : s.Worked roles subdir swept y z) :
    s.Worked roles subdir swept x z where
  upper host q hq := (h'.upper host q hq).elim (h.upper host q) .inr
  lower host q haside hq hout := h'.lower host q haside (h.lower host q haside hq hout) hout
  gone := h'.gone

variable [DecidableEq Host]

theorem does_parallel {jobs : List Job} (hsub : ∀ job ∈ jobs, job.subdir = subdir)
    (hruns : ∀ job ∈ jobs, s.Runs job) : s.does (parallel jobs)
      (fun _ => s.Worked (jobs.map Job.role) subdir (∀ job ∈ jobs, job.tests ≠ []) w.ext) w := by
  refine ⟨trivial, ?_⟩
  intro r u x hjoins
  obtain ⟨rfl, hworked⟩ := worked_of_joins hsub hruns hjoins
  exact ⟨hworked, fun h => h.push not_false⟩

end Spawning

/-! ### When everything is as it was -/

def specificRoles (clients : List (String × List String)) : List String := (specific clients).map Prod.fst

namespace Site

variable (s : Site Host)

/-- A mount point that the role has made becomes empty. -/
def Empties (roles : List String) (subdir : Subdir) (swept : Prop) (role : String) : Prop :=
  (subdir.names = [] → ∀ role' ∈ roles, s.Together role role' → s.dir role' = s.dir role) ∧
    (subdir.names ≠ [] → subdir.names = [s.dir role] ∨ swept ∧ subdir.names.length = 1)

/-- Below a mount point that was there, `subdir` was there too, or is removed by the jobs, or with the
directory of a role. -/
def Restores (roles : List String) (subdir : Subdir) (swept : Prop) (x : Trees Host) (role : String) :
    Prop :=
  subdir.names ≠ [] → ∀ host, s.On role host → [s.mnt role] ∈ x host →
    s.mnt role :: subdir.names ∈ x host ∨ swept ∧ s.mnt role :: subdir.names.dropLast ∈ x host ∨
      ∃ role' ∈ roles, s.Together role role' ∧ subdir.names.head? = some (s.dir role')

structure FitsAll (tests : List String) (subdir : Subdir) (x : Trees Host) : Prop where
  empties : ∀ role, s.First role s.clientRoles → s.Missing x role →
    s.Empties s.clientRoles subdir (tests ≠ []) role
  restores : ∀ role ∈ s.clientRoles, s.Restores s.clientRoles subdir (tests ≠ []) x role
  /-- `False` makes every job raise, so that all directories that are made stay. -/
  off : subdir = .off → tests ≠ [] → ∀ role ∈ s.clientRoles, ∀ host, s.On role host →
    [s.mnt role, s.dir role] ∈ x host
  /-- The empty path makes the mount point itself the scratch directory. -/
  empty : subdir = .path [] → tests ≠ [] → s.clientRoles = []

structure Fits (clients : List (String × List String)) (subdir : Subdir) (x : Trees Host) : Prop where
  empties : ∀ role ∈ specificRoles clients, s.Missing x role →
    s.Empties (specificRoles clients) subdir False role
  restores : (∀ tests, ("all", tests) ∉ clients) → ∀ role ∈ specificRoles clients,
    s.Restores (specificRoles clients) subdir False x role
  all : ∀ tests, ("all", tests) ∈ clients → s.FitsAll tests subdir x

/-- A dictionary of client roles of the cluster, with specs that find workunits. -/
structure Valid (clients : List (String × List String)) : Prop where
  nodup : (clients.map Prod.fst).Nodup
  mentions : ∀ role ∈ specificRoles clients, MentionsClient role
  client : ∀ role ∈ specificRoles clients, s.isClient role = true
  on : ∀ role ∈ specificRoles clients, ∃ host, s.On role host
  specs : ∀ client ∈ clients, ∀ spec ∈ client.2, ∃ workunit ∈ s.workunits, Matches spec workunit

end Site

section Enough

theorem nil_or_below {a : String} (h : p <+: a :: rest) : p = [] ∨ [a] <+: p := by
  cases p with
  | nil => exact .inl rfl
  | cons b p =>
    obtain ⟨rfl, -⟩ := cons_prefix_cons.mp h
    exact .inr (cons_prefix_cons.mpr ⟨rfl, nil_prefix⟩)

theorem owns_of_dir
    (hsub : ∀ role' ∈ roles, s.Together role role' → (s.splitRole role').sub subdir = [s.dir role])
    (hinner : ∀ role' ∈ workers, s.Together role role' →
      ∃ rest, (s.splitRole role').below inner = s.dir role :: rest) :
    s.Owns roles workers subdir inner swept role := by
  intro role' hrole' htogether p hp _
  rcases hp with hp | ⟨hworker, hp⟩
  · rw [hsub role' hrole' htogether] at hp
    exact nil_or_below hp
  · obtain ⟨rest, hrest⟩ := hinner role' hworker htogether
    rw [hrest] at hp
    exact nil_or_below hp

theorem sub_of_empties (h : s.Empties roles subdir swept role) (hswept : ¬ swept) (hrole' : role' ∈ roles)
    (htogether : s.Together role role') : (s.splitRole role').sub subdir = [s.dir role] := by
  unfold Instance.sub
  split
  · rename_i hnil
    exact congrArg (fun d => [d]) (h.1 hnil role' hrole' htogether)
  · rename_i hne
    exact (h.2 hne).resolve_right fun hs => hswept hs.1

theorem owns_specific (h : ∀ role ∈ roles, s.Missing x role → s.Empties roles subdir False role)
    (hrole : role ∈ roles) (hmissing : s.Missing x role) : s.Owns roles roles subdir .unset False role := by
  have hempties := h role hrole hmissing
  refine owns_of_dir (fun role' hrole' => sub_of_empties hempties not_false hrole')
    fun role' hrole' htogether => ?_
  refine ⟨["tmp"], congrArg (fun d => [d, "tmp"]) ?_⟩
  by_cases hnil : subdir.names = []
  · exact hempties.1 hnil role' hrole' htogether
  · have hdir := (hempties.2 hnil).resolve_right (fun hs => hs.1)
    have hdir' := ((h role' hrole' (htogether.missing hmissing)).2 hnil).resolve_right (fun hs => hs.1)
    exact (List.cons.inj (hdir'.symm.trans hdir)).1

theorem owns_swept (h : s.Empties roles subdir True role) (hoff : subdir ≠ .off) :
    s.Owns roles roles subdir subdir True role := by
  intro role' hrole' htogether p hp hclean
  cases subdir with
  | unset =>
    have hdir := h.1 rfl role' hrole' htogether
    rcases hp with hp | ⟨-, hp⟩
    all_goals exact hdir ▸ nil_or_below hp
  | off => exact absurd rfl hoff
  | path names =>
    by_cases hnil : names = []
    · subst hnil
      exact absurd nil_prefix (hclean trivial hrole')
    · have hp : p <+: names := by
        rcases hp with hp | ⟨-, hp⟩
        · exact (congrArg (p <+: ·) (if_neg hnil)).mp hp
        · exact hp
      rcases h.2 hnil with heq | ⟨-, hlen⟩
      · have heq : names = [s.dir role] := heq
        exact nil_or_below (heq ▸ hp)
      · obtain ⟨name, hname⟩ := length_eq_one_iff.mp hlen
        have hname : names = [name] := hname
        subst hname
        rcases nil_or_below hp with hp | hp
        · exact .inl hp
        · exact absurd hp (hclean trivial hrole')

theorem Site.Cleared.mountpoint_mem (h : s.Cleared roles workers subdir inner swept x z)
    (hinner : inner ≠ .path []) (host : Host) (cluster id : String) :
    [clientMountpoint cluster id] ∈ z host ↔ [clientMountpoint cluster id] ∈ x host := by
  constructor
  · intro hz
    rcases h.upper host _ hz with hx | ⟨-, role, -, -, hmem, habove⟩
    · exact hx
    · rw [(cons_prefix_cons.mp habove).1]
      exact hmem
  · intro hx
    refine h.lower host _ (not_aside_mountpoint _ _ _) (.inl hx) ?_ ?_
    · intro role _ _ hbelow
      exact absurd hbelow.length_le (by simp)
    · exact fun _ _ _ => not_scratch_prefix_mnt hinner _ _

theorem mem_of_restores (h : s.Restores roles subdir swept x role) (hon : s.On role host)
    (hmem : [s.mnt role] ∈ x host) (hne : subdir.names ≠ []) (habove : q <+: s.mnt role :: subdir.names)
    (hgone : ∀ role' ∈ roles, s.On role' host → ¬ [s.mnt role', s.dir role'] <+: q)
    (hclean : swept → ¬ s.mnt role :: subdir.names <+: q) : q ∈ x host := by
  rcases h hne host hon hmem with hthere | ⟨hswept, hthere⟩ | ⟨role', hrole', htogether, hhead⟩
  · exact (x host).above_mem habove hthere
  · have hsplit : s.mnt role :: subdir.names =
        (s.mnt role :: subdir.names.dropLast) ++ [subdir.names.getLast hne] := by
      rw [cons_append, dropLast_append_getLast]
    rw [hsplit] at habove
    rcases prefix_concat_iff.mp habove with heq | habove
    · exact absurd (by rw [heq, hsplit]) (hclean hswept)
    · exact (x host).above_mem habove hthere
  · obtain ⟨rest, hrest⟩ := head?_eq_some_iff.mp hhead
    rw [hrest, htogether.2] at habove
    have hmnt := above_mnt habove (hgone role' hrole' (htogether.on hon))
    rw [← htogether.2] at hmnt
    exact (x host).above_mem hmnt hmem

theorem lookup_all (hnodup : (clients.map Prod.fst).Nodup) :
    clients.lookup "all" = some tests ↔ ("all", tests) ∈ clients := by
  induction clients with
  | nil => simp
  | cons client clients ih =>
    obtain ⟨role, tests'⟩ := client
    obtain ⟨hnotMem, hnodup⟩ := nodup_cons.mp hnodup
    rw [lookup_cons]
    by_cases hall : role = "all"
    · subst hall
      have hout : ("all", tests) ∉ clients := fun h => hnotMem (mem_map.mpr ⟨_, h, rfl⟩)
      simp [hout, eq_comm]
    · have hne : ("all" == role) = false := beq_eq_false_iff_ne.mpr (Ne.symm hall)
      rw [hne]
      simp only [ih hnodup, mem_cons, Prod.mk.injEq]
      exact (or_iff_right fun h => hall h.1.symm).symm

theorem exists_clientRole (hclient : s.isClient role = true) (hon : s.On role host) :
    ∃ role' ∈ s.clientRoles, s.splitRole role' = s.splitRole role := by
  have hfound : ∃ remote ∈ s.remotes, remote.2.any fun role' =>
    decide (s.splitRole role' = s.splitRole role) := by
    by_contra hnone
    have hempty : (s.remotes.filter fun remote =>
        remote.2.any fun role' => decide (s.splitRole role' = s.splitRole role)) = [] :=
      filter_eq_nil_iff.mpr fun remote hremote hany => hnone ⟨remote, hremote, hany⟩
    have hremote : s.getRemoteForRole role = .ok host := hon
    rw [Cluster.getRemoteForRole, Cluster.getRemote, hempty] at hremote
    cases hremote
  obtain ⟨remote, hremote, hany⟩ := hfound
  obtain ⟨role', hrole', hsplit⟩ := any_eq_true.mp hany
  have hsplit := of_decide_eq_true hsplit
  refine ⟨role', mem_flatMap.mpr ⟨remote, hremote, mem_filter.mpr ⟨hrole', ?_⟩⟩, hsplit⟩
  rw [Cluster.isClient, hsplit]
  exact hclient

theorem on_clientRoles : ∀ role ∈ s.clientRoles, ∃ host, s.On role host := by
  intro role h
  obtain ⟨remote, hremote, hrole⟩ := mem_flatMap.mp h
  exact ⟨remote.1, s.placed remote hremote role (mem_filter.mp hrole).1⟩

theorem isClient_of_mem_clientRoles (h : role ∈ s.clientRoles) : s.isClient role = true := by
  obtain ⟨remote, -, hrole⟩ := mem_flatMap.mp h
  exact (mem_filter.mp hrole).2

/-- Each spec finds a workunit. -/
abbrev Site.Finds (s : Site Host) (tests : List String) : Prop :=
  ∀ spec ∈ tests, ∃ workunit ∈ s.workunits, Matches spec workunit

/-- What the part for the clients that are named leaves behind. -/
abbrev Site.ClearedNamed (s : Site Host) (clients : List (String × List String)) (subdir : Subdir) :
    Trees Host → Trees Host → Prop :=
  s.Cleared (specificRoles clients) (specificRoles clients) subdir .unset False

def specificJobs (clients : List (String × List String)) : List Job :=
  (specific clients).map fun client => ⟨client.1, client.2, .unset⟩

theorem task_eq (hvalid : s.Valid clients) : s.task items clients subdir =
      s.part (specificRoles clients) (items (specificRoles clients)) subdir
        (parallel (specificJobs clients)) >>=
        fun _ => (clients.lookup "all").elim (.ret ()) (s.spawnOnAllClients items subdir) := by
  have hmake : tabulate (specificRoles clients) (fun role => do
        pyAssert (MentionsClient role) "'client' in role"
        s.makeScratchDir subdir role) =
      tabulate (specificRoles clients) (s.makeScratchDir subdir) := by
    refine tabulate_congr fun role hrole => ?_
    rw [pyAssert, if_pos (hvalid.mentions role hrole)]
    rfl
  rw [Site.part, ← hmake, bind_assoc]
  simp only [bind_assoc]
  rfl

theorem spawnOnAllClients_eq :
    s.spawnOnAllClients items subdir tests = s.part s.clientRoles (items s.clientRoles) subdir
      (forEach tests fun unit => parallel ((items s.clientRoles).map fun role =>
        ⟨role, [unit], subdir⟩)) := rfl

theorem specificRoles_nodup (hnodup : (clients.map Prod.fst).Nodup) : (specificRoles clients).Nodup :=
  hnodup.sublist (List.Sublist.map _ filter_sublist)

theorem names_short (h : ∀ role ∈ roles, s.Missing x role → s.First role roles →
    s.Empties roles subdir swept role) : s.Makes subdir roles x := by
  by_cases hmissing : ∃ role ∈ roles, s.Missing x role
  · refine .inl ?_
    obtain ⟨role, hrole, hmissing⟩ := hmissing
    obtain ⟨role', hfirst, htogether⟩ := s.exists_first hrole
    have hempties := h role' hfirst.mem (htogether.missing hmissing) hfirst
    by_cases hnil : subdir.names = []
    · simp [hnil]
    · rcases hempties.2 hnil with heq | ⟨-, hlen⟩
      · simp [heq]
      · exact hlen.le
  · exact .inr fun role hrole h => hmissing ⟨role, hrole, h⟩

variable [DecidableEq Host]

theorem does_specificJobs (hvalid : s.Valid clients) (w : W Host) :
    s.does (parallel (specificJobs clients))
      (fun _ => s.Worked (specificRoles clients) .unset False w.ext) w := by
  have hsub : ∀ job ∈ specificJobs clients, job.subdir = .unset := forall_mem_map.mpr fun _ _ => rfl
  have hruns : ∀ job ∈ specificJobs clients, s.Runs job := by
    refine forall_mem_map.mpr fun client hclient => ?_
    have hrole : client.1 ∈ specificRoles clients := mem_map_of_mem hclient
    exact ⟨hvalid.client _ hrole, hvalid.on _ hrole, by simp,
      hvalid.specs client (mem_filter.mp hclient).1⟩
  have hroles : (specificJobs clients).map Job.role = specificRoles clients := by
    rw [specificJobs, map_map]
    rfl
  refine does_mono (does_parallel hsub hruns) fun _ x2 hworked => ?_
  rw [hroles] at hworked
  exact hworked.mono (fun _ => Iff.rfl) False.elim

theorem part_specific (hvalid : s.Valid clients) : s.Part (specificRoles clients) (specificRoles clients)
    .unset False (parallel (specificJobs clients)) :=
  ⟨hvalid.on, specificRoles_nodup hvalid.nodup, does_specificJobs hvalid, fun _ h => h⟩

theorem does_specific (hvalid : s.Valid clients) (hitems : ∀ l, (items l).Perm l)
    (hempties : ∀ role ∈ specificRoles clients, s.Missing w.ext role →
      s.Empties (specificRoles clients) subdir False role) :
    s.does (s.part (specificRoles clients) (items (specificRoles clients)) subdir
      (parallel (specificJobs clients)))
      (fun _ => s.ClearedNamed clients subdir w.ext) w :=
  does_part (part_specific hvalid) (hitems _)
    (names_short fun role hrole hmissing _ => hempties role hrole hmissing) (by simp) (.inl rfl)
    fun role hfirst hmissing => owns_specific hempties hfirst.mem hmissing

omit [DecidableEq Host] in
theorem runs_unit {unit : String} (hrole : role ∈ s.clientRoles) (hoff : subdir ≠ .off)
    (hspec : ∃ workunit ∈ s.workunits, Matches unit workunit) : s.Runs ⟨role, [unit], subdir⟩ :=
  ⟨isClient_of_mem_clientRoles hrole, on_clientRoles role hrole, hoff,
    forall_mem_singleton.mpr hspec⟩

theorem does_allJobs (horder : order.Perm s.clientRoles)
    (hspecs : s.Finds tests) (hne : tests ≠ [])
    (hoff : s.clientRoles ≠ [] → subdir ≠ .off) (w : W Host) :
    s.does (forEach tests fun unit => parallel (order.map fun role => ⟨role, [unit], subdir⟩))
      (fun _ => s.Worked s.clientRoles subdir True w.ext) w := by
  have hunit : ∀ unit ∈ tests, ∀ w₁ : W Host,
      s.does (parallel (order.map fun role => ⟨role, [unit], subdir⟩))
        (fun _ => s.Worked s.clientRoles subdir True w₁.ext) w₁ := by
    intro unit hunit w₁
    have hruns : ∀ role ∈ order, s.Runs ⟨role, [unit], subdir⟩ := fun role hrole =>
      have hrole := horder.mem_iff.mp hrole
      runs_unit hrole (hoff (ne_nil_of_mem hrole)) (hspecs unit hunit)
    refine does_mono (does_parallel (forall_mem_map.mpr fun _ _ => rfl)
      (forall_mem_map.mpr hruns)) fun _ x2 hworked => hworked.mono (fun role => ?_)
        fun _ => forall_mem_map.mpr fun _ _ => cons_ne_nil _ _
    rw [map_map]
    show role ∈ order.map id ↔ _
    rw [map_id]
    exact horder.mem_iff
  cases tests with
  | nil => exact absurd rfl hne
  | cons unit tests =>
    obtain ⟨hfirst, hrest⟩ := forall_mem_cons.mp hunit
    refine does_bind (hfirst w) fun _ w₁ hworked => ?_
    clear hunit hfirst hspecs hne
    induction tests generalizing w₁ with
    | nil => exact does_ret hworked
    | cons unit tests ih =>
      obtain ⟨hfirst, hrest⟩ := forall_mem_cons.mp hrest
      exact does_bind (hfirst w₁) fun _ w2 hworked2 => ih hrest w2 (hworked.trans hworked2)

theorem part_all (horder : order.Perm s.clientRoles)
    (hspecs : s.Finds tests) (hne : tests ≠ [])
    (hoff : s.clientRoles ≠ [] → subdir ≠ .off) : s.Part s.clientRoles s.clientRoles subdir True
      (forEach tests fun unit => parallel (order.map fun role => ⟨role, [unit], subdir⟩)) :=
  ⟨on_clientRoles, s.nodup, does_allJobs horder hspecs hne hoff, fun _ h => h⟩

theorem part_idle : s.Part s.clientRoles [] .unset True (.ret ()) :=
  ⟨on_clientRoles, s.nodup, fun _ => does_ret (.refl s _ _ _), by simp⟩

theorem does_all (hitems : ∀ l, (items l).Perm l)
    (hspecs : s.Finds tests)
    (hempties : ∀ role, s.First role s.clientRoles → s.Missing w.ext role →
      s.Empties s.clientRoles subdir (tests ≠ []) role)
    (hsubdir : tests ≠ [] → s.clientRoles ≠ [] → subdir ≠ .off ∧ subdir ≠ .path []) :
    ∃ workers inner, inner ≠ .path [] ∧ (tests = [] → workers = []) ∧
      (tests ≠ [] → ∀ role ∈ s.clientRoles, role ∈ workers ∧ inner = subdir) ∧
      s.does (s.spawnOnAllClients items subdir tests)
        (fun _ => s.Cleared s.clientRoles workers subdir inner True w.ext) w := by
  have hmake : s.Makes subdir s.clientRoles w.ext :=
    names_short fun role _ hmissing hfirst => hempties role hfirst hmissing
  have hunits := fun hne => part_all (hitems _) hspecs hne fun hroles => (hsubdir hne hroles).1
  rw [spawnOnAllClients_eq]
  by_cases hne : tests = []
  · subst hne
    refine ⟨[], .unset, by simp, fun _ => rfl, fun h => absurd rfl h, ?_⟩
    refine does_part part_idle (hitems _) hmake (by simp) (.inl rfl) fun role hfirst hmissing => ?_
    exact owns_of_dir (fun role' => sub_of_empties (hempties role hfirst hmissing) fun h => h rfl) (by simp)
  · by_cases hroles : s.clientRoles = []
    · have hnone : ∀ role, role ∉ s.clientRoles := by simp [hroles]
      refine ⟨[], .unset, by simp, fun _ => rfl, fun _ role hrole => absurd hrole (hnone role), ?_⟩
      refine does_part ⟨on_clientRoles, s.nodup, fun w₁ => ?_, by simp⟩ (hitems _) hmake (by simp)
        (.inl rfl) fun role hfirst => absurd hfirst.mem (hnone role)
      refine does_mono ((hunits hne).does w₁) fun _ x2 hworked => ?_
      rw [hroles] at hworked
      exact hworked.of_nil
    · obtain ⟨hoff, hpath⟩ := hsubdir hne hroles
      refine ⟨s.clientRoles, subdir, hpath, fun h => absurd h hne, fun _ role hrole => ⟨hrole, rfl⟩, ?_⟩
      refine does_part (hunits hne) (hitems _) hmake hpath (.inr rfl) fun role hfirst hmissing => ?_
      have hempties := hempties role hfirst hmissing
      exact owns_swept ⟨hempties.1, fun h => (hempties.2 h).imp_right fun hs => ⟨trivial, hs.2⟩⟩ hoff

theorem ends_all_off (hitems : ∀ l, (items l).Perm l) (hroles : s.clientRoles ≠ []) (hne : tests ≠ []) :
    s.ends (s.spawnOnAllClients items .off tests) (fun _ w' =>
      s.Made .off s.clientRoles w.ext w'.ext ∧ (Sound w → Sound w')) w := by
  rw [spawnOnAllClients_eq]
  refine wp_bind_returns (does_tabulate on_clientRoles s.nodup (.inl (Nat.zero_le 1))) ?_
  rintro table w₁ ⟨⟨hmade, -⟩, hsound1⟩
  obtain ⟨unit, tests, rfl⟩ := exists_cons_of_ne_nil hne
  refine ⟨trivial, ?_⟩
  intro r u x hjoins
  have hjobs_ne : ((items s.clientRoles).map fun role => (⟨role, [unit], .off⟩ : Job)) ≠ [] := by
    intro hnil
    have hlen := (hitems s.clientRoles).length_eq
    rw [map_eq_nil_iff.mp hnil] at hlen
    exact hroles (eq_nil_of_length_eq_zero hlen.symm)
  have hmem : ∀ role ∈ items s.clientRoles, role ∈ s.clientRoles := fun _ => (hitems _).mem_iff.mp
  obtain ⟨rfl, rfl⟩ := joins_off hjobs_ne
    (forall_mem_map.mpr fun role hrole => isClient_of_mem_clientRoles (hmem role hrole))
    (forall_mem_map.mpr fun role hrole => on_clientRoles role (hmem role hrole))
    (forall_mem_map.mpr fun _ _ => rfl) hjoins
  exact ⟨hmade, fun h => (hsound1 h).push not_false⟩

omit [DecidableEq Host] in
theorem tidy_of_specific (hfits : s.Fits clients subdir x) (hnone : ∀ tests, ("all", tests) ∉ clients)
    (hcleared : s.ClearedNamed clients subdir x w₁.ext)
    (hsound : Sound w₁) : Tidy x w₁ where
  sound := hsound
  removed := by
    intro host q hq
    rcases hcleared.upper host q hq with hx | ⟨hne, role, hrole, hon, hmem, habove⟩
    · exact hx
    · exact mem_of_restores (hfits.restores hnone role hrole) hon hmem hne habove (hcleared.gone host q hq)
        False.elim
  kept host cluster id := (hcleared.mountpoint_mem (by simp) host cluster id).mpr

omit [DecidableEq Host] in
theorem below_clientRoles (hvalid : s.Valid clients) (h : s.Below (specificRoles clients) subdir x host q) :
    s.Below s.clientRoles subdir x host q := by
  obtain ⟨hne, role, hrole, hon, hmem, habove⟩ := h
  obtain ⟨role', hrole', hsplit⟩ := exists_clientRole (hvalid.client role hrole) hon
  have hmnt : s.mnt role' = s.mnt role := congrArg Instance.mnt hsplit
  have hon' : s.On role' host := (congrArg s.getRemote hsplit).trans hon
  rw [← hmnt] at hmem habove
  exact ⟨hne, role', hrole', hon', hmem, habove⟩

omit [DecidableEq Host] in
theorem tidy_of_all (hvalid : s.Valid clients) (hfits : s.FitsAll tests subdir x)
    (hcleared : s.ClearedNamed clients subdir x y)
    (hcleared2 : s.Cleared s.clientRoles workers subdir inner True y w2.ext) (hinner : inner ≠ .path [])
    (hworkers : tests ≠ [] → ∀ role ∈ s.clientRoles, role ∈ workers ∧ inner = subdir) (hsound : Sound w2) :
    Tidy x w2 where
  sound := hsound
  removed := by
    intro host q hq
    have hleft : q ∈ x host ∨ s.Below s.clientRoles subdir x host q := by
      rcases hcleared2.upper host q hq with hy | ⟨hne, role, hrole, hon, hmem, habove⟩
      · exact (hcleared.upper host q hy).imp_right (below_clientRoles hvalid)
      · exact .inr ⟨hne, role, hrole, hon, (hcleared.mountpoint_mem (by simp) host _ _).mp hmem, habove⟩
    rcases hleft with hx | ⟨hne, role, hrole, hon, hmem, habove⟩
    · exact hx
    · refine mem_of_restores (hfits.restores role hrole) hon hmem hne habove (hcleared2.gone host q hq) ?_
      intro htests hbelow
      obtain ⟨hworker, rfl⟩ := hworkers htests role hrole
      cases inner with
      | unset | off => exact hne rfl
      | path names => exact hcleared2.clean trivial host q hq role hworker hon hbelow
  kept host cluster id hmem :=
    (hcleared2.mountpoint_mem hinner host cluster id).mpr
      ((hcleared.mountpoint_mem (by simp) host cluster id).mpr hmem)

omit [DecidableEq Host] in
theorem tidy_of_off (hcleared : s.ClearedNamed clients .off x y)
    (hmade : s.Made .off s.clientRoles y w2.ext)
    (hthere : ∀ role ∈ s.clientRoles, ∀ host, s.On role host → [s.mnt role, s.dir role] ∈ x host)
    (hsound : Sound w2) : Tidy x w2 where
  sound := hsound
  removed := by
    intro host q hq
    rcases (hmade host q).mp hq with hy | ⟨role, hrole, hon, habove⟩
    · rcases hcleared.upper host q hy with hx | ⟨hne, -⟩
      · exact hx
      · exact absurd rfl hne
    · exact (x host).above_mem habove (hthere role hrole host hon)
  kept host cluster id hmem :=
    (hmade host _).mpr (.inl ((hcleared.mountpoint_mem (by simp) host cluster id).mpr hmem))

/-- **Enough.** -/
theorem ends_task (hvalid : s.Valid clients) (hitems : ∀ l, (items l).Perm l)
    (hfits : s.Fits clients subdir x) :
    s.ends (s.task items clients subdir) (fun _ w' => Tidy x w') ⟨(), x, []⟩ := by
  have hsound : Sound (⟨(), x, []⟩ : W Host) := by simp [Sound]
  rw [task_eq hvalid]
  refine wp_bind_returns (does_specific hvalid hitems hfits.empties) ?_
  rintro _ w₁ ⟨hcleared, hsound1⟩
  cases hlookup : clients.lookup "all" with
  | none =>
    refine tidy_of_specific hfits (fun tests hmem => ?_) hcleared (hsound1 hsound)
    rw [(lookup_all hvalid.nodup).mpr hmem] at hlookup
    cases hlookup
  | some tests =>
    have hmem := (lookup_all hvalid.nodup).mp hlookup
    have hall := hfits.all tests hmem
    have hmissing : ∀ role, s.Missing w₁.ext role → s.Missing x role := by
      rintro role ⟨host, hon, hnotMem⟩
      exact ⟨host, hon, fun h => hnotMem ((hcleared.mountpoint_mem (by simp) host _ _).mpr h)⟩
    by_cases hoff : subdir = .off ∧ tests ≠ [] ∧ s.clientRoles ≠ []
    · obtain ⟨rfl, hne, hroles⟩ := hoff
      refine wp_mono ?_ (ends_all_off hitems hroles hne)
      rintro _ w2 ⟨hmade, hsound2⟩
      exact tidy_of_off hcleared hmade (hall.off rfl hne) (hsound2 (hsound1 hsound))
    · obtain ⟨workers, inner, hinner, -, hworkers, hends⟩ := does_all (w := w₁) hitems
        (hvalid.specs _ hmem) (fun role hfirst h => hall.empties role hfirst (hmissing role h))
        fun hne hroles => ⟨fun h => hoff ⟨h, hne, hroles⟩, fun h => hroles (hall.empty h hne)⟩
      refine wp_mono ?_ hends
      rintro (_ | e | _) w2 hw2
      · exact tidy_of_all hvalid hall hcleared hw2.1 hinner hworkers (hw2.2 (hsound1 hsound))
      · exact hw2.elim
      · exact hw2.elim

end Enough

/-! ### What it takes -/

section Needed

variable [DecidableEq Host] {jobs : M Host Unit} {Q : Outcome PyError Unit → W Host → Prop}

/-- Where a mount point is missing, `subdir` is a single name: else the mount point stays. -/
theorem short_of_part (hroles : ∀ role ∈ roles, ∃ host, s.On role host)
    (h : s.ends (s.part roles order subdir jobs) Q w)
    (hQ : ∀ r w', (∀ a, r ≠ .ret a) → Q r w' → ∀ host cluster id,
      [clientMountpoint cluster id] ∈ w'.ext host → [clientMountpoint cluster id] ∈ w.ext host) :
    s.Makes subdir roles w.ext := by
  by_contra hnot
  rw [Site.Makes, not_or, not_le] at hnot
  obtain ⟨hlen, hmissing⟩ := hnot
  have hmissing : ∃ role ∈ roles, s.Missing w.ext role := by
    by_contra hnone
    exact hmissing fun role hrole h => hnone ⟨role, hrole, h⟩
  have hfails := ends_tabulate_fails hroles hlen hmissing
  obtain ⟨r, w', hrun⟩ := exists_exec (env_total s) (tabulate roles (s.makeScratchDir subdir)) w
  obtain ⟨hr, role, -, host, hnotMem, hmem⟩ := wp_post hfails hrun
  have hend := wp_post (wp_bind.mp h) hrun
  cases r with
  | ret table => exact hr table rfl
  | exn e => exact hnotMem (hQ (.exn e) w' (fun _ h => (nomatch h)) hend host _ _ hmem)
  | cut => exact hnotMem (hQ .cut w' (fun _ h => (nomatch h)) hend host _ _ hmem)

theorem exists_deleting (hpart : s.Part roles workers inner swept jobs) (hmake : s.Makes subdir roles w.ext)
    (h : s.ends (s.part roles order subdir jobs) Q w) :
    ∃ table x₁ w2, s.Made subdir roles w.ext x₁ ∧ s.Worked workers inner swept x₁ w2.ext ∧
      (∀ role ∈ roles, Created table role ↔ s.First role roles ∧ s.Missing w.ext role) ∧
      s.ends (forEach order (s.deleteDir table)) Q w2 := by
  obtain ⟨table, w₁, ⟨⟨hmade, htable⟩, -⟩, hrest⟩ :=
    exists_rest (env_total s) (does_tabulate hpart.on hpart.nodup hmake) h
  obtain ⟨_, w2, ⟨hworked, -⟩, hdeleting⟩ := exists_rest (env_total s) (hpart.does w₁) hrest
  exact ⟨table, w₁.ext, w2, hmade, hworked, htable, hdeleting⟩

theorem exists_sole (hpart : s.Part roles workers inner swept jobs) (hmake : s.Makes subdir roles w.ext)
    (h : s.ends (s.part roles (role :: order) subdir jobs) Q w) (hQ : ∀ e w', Q (.exn e) w' → Sound w')
    (hfirst : s.First role roles) (hmissing : s.Missing w.ext role) :
    ∃ x₁ y, s.Made subdir roles w.ext x₁ ∧ s.Worked workers inner swept x₁ y ∧ s.Sole y role := by
  obtain ⟨table, x₁, w2, hmade, hworked, htable, hdeleting⟩ := exists_deleting hpart hmake h
  obtain ⟨host, hon⟩ := hpart.on role hfirst.mem
  have hcreated := (htable role hfirst.mem).mpr ⟨hfirst, hmissing⟩
  exact ⟨x₁, w2.ext, hmade, hworked, sole_of_ends hon hcreated hdeleting hQ⟩

omit [DecidableEq Host] in
theorem empties_of_sole {x₁ : Trees Host} (hmade : s.Made subdir roles x x₁)
    (hworked : s.Worked workers inner swept x₁ y)
    (hlong : ∀ role ∈ workers, 2 < ((s.splitRole role).scratch inner).length) (hsole : s.Sole y role)
    (hshort : subdir.names.length ≤ 1) (hon : s.On role host) (hrole : role ∈ roles) :
    s.Empties roles subdir False role := by
  -- a directory right below the mount point survives the jobs, so it has to be the one of the role
  have hdir : ∀ role' ∈ roles, s.Together role role' → ∀ name, (s.splitRole role').sub subdir = [name] →
      s.dir role = name := by
    intro role' hrole' htogether name hname
    have hx1 : [s.mnt role, name] ∈ x₁ host := by
      refine (hmade host _).mpr (.inr ⟨role', hrole', htogether.on hon, ?_⟩)
      rw [hname, ← htogether.2]
    have hy : [s.mnt role, name] ∈ y host := by
      refine hworked.lower host _ (not_aside_mountpoint _ _ _) hx1 fun worker hworker _ hbelow => ?_
      have hlen := hbelow.length_le
      have := hlong worker hworker
      simp only [length_cons, length_nil] at hlen
      omega
    rcases (hsole host hon).2 _ hy (prefix_append [s.mnt role] [name]) with heq | hbelow
    · exact absurd (congrArg List.length heq) (by simp)
    · obtain ⟨-, hbelow⟩ := cons_prefix_cons.mp hbelow
      exact (cons_prefix_cons.mp hbelow).1
  constructor
  · intro hnil role' hrole' htogether
    exact (hdir role' hrole' htogether _ (if_pos hnil)).symm
  · intro hne
    obtain ⟨name, hname⟩ : ∃ name, subdir.names = [name] :=
      length_eq_one_iff.mp (by have := length_pos_of_ne_nil hne; omega)
    refine .inl ?_
    rw [hdir role hrole ⟨rfl, rfl⟩ name (by rw [Instance.sub, if_neg hne, hname]), hname]

omit [DecidableEq Host] in
theorem mem_of_cleared (h : s.Cleared roles workers subdir inner swept y z) (hrole : role ∈ roles)
    (hon : s.On role host) (hmem : [s.mnt role] ∈ y host) (hne : subdir.names ≠ [])
    (hq : s.mnt role :: q <+: s.mnt role :: subdir.names)
    (hhead : ¬ ∃ role' ∈ roles, s.Together role role' ∧ subdir.names.head? = some (s.dir role'))
    (hscratch : ∀ worker ∈ workers, s.On worker host →
      ¬ (s.splitRole worker).scratch inner <+: s.mnt role :: q) : s.mnt role :: q ∈ z host := by
  refine h.lower host _ (not_aside_mountpoint _ _ _) (.inr ⟨hne, role, hrole, hon, hmem, hq⟩) ?_ hscratch
  intro role' hrole' hon' hbelow
  obtain ⟨hmnt, hdir⟩ := cons_prefix_cons.mp (hbelow.trans hq)
  refine hhead ⟨role', hrole', Cluster.together_of_on hon hon' hmnt.symm, ?_⟩
  obtain ⟨rest, hrest⟩ := hdir
  rw [← hrest]
  rfl

def front (key : String) (keys : List String) : List String :=
  if key ∈ keys then key :: keys.erase key else keys

omit [DecidableEq Host] in
theorem front_perm (key : String) (keys : List String) : (front key keys).Perm keys := by
  unfold front
  split
  · exact (perm_cons_erase ‹_›).symm
  · exact .refl _

omit [DecidableEq Host] in
theorem specificRoles_perm (h : listed.Perm clients) :
    (specificRoles listed).Perm (specificRoles clients) := (h.filter _).map _

omit [DecidableEq Host] in
theorem Site.Valid.perm (hvalid : s.Valid clients) (h : listed.Perm clients) : s.Valid listed where
  nodup := (h.map _).nodup_iff.mpr hvalid.nodup
  mentions role hrole := hvalid.mentions role ((specificRoles_perm h).mem_iff.mp hrole)
  client role hrole := hvalid.client role ((specificRoles_perm h).mem_iff.mp hrole)
  on role hrole := hvalid.on role ((specificRoles_perm h).mem_iff.mp hrole)
  specs client hclient := hvalid.specs client (h.mem_iff.mp hclient)

theorem empties_of_ends (hvalid : s.Valid clients) (hroles : specificRoles clients = role :: rest)
    (h : s.ends (s.task id clients subdir) (fun _ w' => Tidy x w') ⟨(), x, []⟩)
    (hmissing : s.Missing x role) : s.Empties (specificRoles clients) subdir False role := by
  have hfirst : s.First role (specificRoles clients) := by
    rw [hroles]
    exact .inl rfl
  rw [task_eq hvalid] at h
  have hpart := wp_bind.mp h
  have hmake := short_of_part hvalid.on hpart fun r w' hr hend host cluster id hmem => by
    cases r with
    | ret a => exact absurd rfl (hr a)
    | exn | cut => exact (show Tidy x w' from hend).removed host _ hmem
  have hshort := hmake.resolve_right fun hall => hall role hfirst.mem hmissing
  obtain ⟨host, hon⟩ := hvalid.on role hfirst.mem
  have hid : id (specificRoles clients) = role :: rest := hroles
  rw [hid] at hpart
  obtain ⟨x₁, y, hmade, hworked, hsole⟩ := exists_sole (part_specific hvalid) hmake hpart
    (fun e w' hend => (show Tidy x w' from hend).sound) hfirst hmissing
  exact empties_of_sole hmade hworked (fun _ _ => Nat.lt_succ_self 2) hsole hshort hon hfirst.mem

theorem exists_after_specific (hvalid : s.Valid clients) (hitems : ∀ l, (items l).Perm l)
    (hempties : ∀ role ∈ specificRoles clients, s.Missing x role →
      s.Empties (specificRoles clients) subdir False role)
    (h : s.ends (s.task items clients subdir) (fun _ w' => Tidy x w') ⟨(), x, []⟩) : ∃ w₁ : W Host,
      s.ClearedNamed clients subdir x w₁.ext ∧
      s.ends ((clients.lookup "all").elim (.ret ()) (s.spawnOnAllClients items subdir))
        (fun _ w' => Tidy x w') w₁ := by
  rw [task_eq hvalid] at h
  obtain ⟨_, w₁, ⟨hcleared, -⟩, hrest⟩ := exists_rest (env_total s)
    (does_specific (w := ⟨(), x, []⟩) hvalid hitems hempties) h
  exact ⟨w₁, hcleared, hrest⟩

omit [DecidableEq Host] in
theorem restores_of_specific (htidy : Tidy x w₁)
    (hcleared : s.ClearedNamed clients subdir x w₁.ext)
    (hrole : role ∈ specificRoles clients) : s.Restores (specificRoles clients) subdir False x role := by
  intro hne host hon hmem
  by_cases hhead : ∃ role' ∈ specificRoles clients, s.Together role role' ∧
      subdir.names.head? = some (s.dir role')
  · exact .inr (.inr hhead)
  · refine .inl (htidy.removed host _ ?_)
    refine mem_of_cleared hcleared hrole hon hmem hne prefix_rfl hhead
      fun worker hworker hon' hbelow => ?_
    -- a scratch directory lies in the directory of its role
    obtain ⟨hmnt, hdir⟩ := cons_prefix_cons.mp hbelow
    refine hhead ⟨worker, hworker, Cluster.together_of_on hon hon' hmnt.symm, ?_⟩
    obtain ⟨rest, hrest⟩ := hdir
    rw [← hrest]
    rfl

theorem fits_off_of_ends (hitems : ∀ l, (items l).Perm l)
    (h : s.ends (s.spawnOnAllClients items .off tests) (fun _ w' => Tidy x w') w) (hne : tests ≠ [])
    (hrole : role ∈ s.clientRoles) (hon : s.On role host) : [s.mnt role, s.dir role] ∈ x host := by
  obtain ⟨r, w', hrun⟩ := exists_exec (env_total s) (s.spawnOnAllClients items .off tests) w
  obtain ⟨hmade, -⟩ := wp_post (ends_all_off hitems (ne_nil_of_mem hrole) hne) hrun
  exact (wp_post h hrun).removed host _ ((hmade host _).mpr (.inr ⟨role, hrole, hon, prefix_rfl⟩))

theorem ends_run_removes {cmds : List (DirTree.Cmd String)} {f : Unit → M Host Unit}
    (hcmds : ∀ c ∈ cmds, c.Removes)
    (hnext : ∀ w₁ : W Host, s.ends (f ()) (fun _ w' => ∀ host q, q ∈ w'.ext host → q ∈ w₁.ext host) w₁) :
    s.ends (run host cmds >>= f) (fun _ w' => ∀ host q, q ∈ w'.ext host → q ∈ w.ext host) w := by
  refine ⟨trivial, ?_⟩
  rintro ok u x ⟨-, rfl⟩
  have hsubset : ∀ host' q, q ∈ Function.update w.ext host ((w.ext host).script cmds).2 host' →
    q ∈ w.ext host' := by
    intro host' q hq
    by_cases hhost : host' = host
    · subst hhost
      rw [Function.update_self] at hq
      exact mem_of_mem_script hcmds hq
    · rwa [Function.update_of_ne hhost] at hq
  cases ok with
  | true => exact wp_mono (fun _ w' h host q hq => hsubset host q (h host q hq)) (hnext _)
  | false => exact hsubset

theorem ends_deleteDirs_subset
    (hroles : ∀ role ∈ roles, ∃ host, s.On role host) : s.ends (forEach roles (s.deleteDir table))
      (fun _ w' => ∀ host q, q ∈ w'.ext host → q ∈ w.ext host) w := by
  induction roles generalizing w with
  | nil => exact fun _ _ hq => hq
  | cons role roles ih =>
    obtain ⟨⟨host, hon⟩, hroles⟩ := forall_mem_cons.mp hroles
    rw [forEach, deleteDir_eq hon, bind_assoc]
    refine ends_run_removes (forall_mem_singleton.mpr trivial) fun w₁ => ?_
    split
    · exact ends_run_removes (forall_mem_singleton.mpr trivial) fun _ => ih hroles
    · exact ih hroles

section All

variable (hafter : ∀ items : List String → List String, (∀ l, (items l).Perm l) → ∃ w₁ : W Host,
    (∀ host cluster id, [clientMountpoint cluster id] ∈ w₁.ext host ↔
      [clientMountpoint cluster id] ∈ x host) ∧
    s.ends (s.spawnOnAllClients items subdir tests) (fun _ w' => Tidy x w') w₁)
  (hspecs : s.Finds tests)

include hafter hspecs

theorem clientRoles_eq_nil_of_ends (hsubdir : subdir = .path []) (hne : tests ≠ []) :
    s.clientRoles = [] := by
  subst hsubdir
  by_contra hroles
  obtain ⟨role, hrole⟩ := exists_mem_of_ne_nil _ hroles
  have hgone : ∀ x₁ y : Trees Host, s.Worked s.clientRoles (.path []) True x₁ y → ∀ role ∈ s.clientRoles,
      ∀ host, s.On role host → [s.mnt role] ∉ y host := fun x₁ y hworked role hrole host hon hmem =>
    hworked.gone trivial host _ hmem role hrole hon prefix_rfl
  have hmake : ∀ x, s.Makes (.path []) s.clientRoles x := fun _ => .inl (Nat.zero_le 1)
  obtain ⟨host, hhost⟩ := on_clientRoles role hrole
  by_cases hmem : [s.mnt role] ∈ x host
  · obtain ⟨w₁, hmounts, hends⟩ := hafter id fun _ => .refl _
    rw [spawnOnAllClients_eq] at hends
    obtain ⟨table, x₁, w2, -, hworked, -, hdeleting⟩ :=
      exists_deleting (part_all (.refl _) hspecs hne (by simp)) (hmake _) hends
    obtain ⟨r, w', hrun⟩ := exists_exec (env_total s) (forEach (id s.clientRoles) (s.deleteDir table)) w2
    have hkept := (wp_post hdeleting hrun).kept host _ _ hmem
    have hsubset := wp_post (ends_deleteDirs_subset on_clientRoles) hrun
    exact hgone _ _ hworked role hrole host hhost (hsubset host _ hkept)
  · obtain ⟨role', hfirst, htogether⟩ := s.exists_first hrole
    obtain ⟨w₁, hmounts, hends⟩ := hafter (front role') (front_perm role')
    rw [spawnOnAllClients_eq, front, if_pos hfirst.mem] at hends
    have hmissing : s.Missing w₁.ext role' :=
      htogether.missing ⟨host, hhost, fun h => hmem ((hmounts host _ _).mp h)⟩
    obtain ⟨x₁, y, -, hworked, hsole⟩ :=
      exists_sole (part_all (perm_cons_erase hfirst.mem).symm hspecs hne (by simp)) (hmake _) hends
        (fun _ _ htidy => htidy.sound) hfirst hmissing
    exact hgone _ _ hworked role' hfirst.mem host (htogether.on hhost) (hsole host (htogether.on hhost)).1

theorem empties_of_all (hfirst : s.First role s.clientRoles) (hmissing : s.Missing x role) :
    s.Empties s.clientRoles subdir (tests ≠ []) role := by
  obtain ⟨host, hhost⟩ := on_clientRoles role hfirst.mem
  obtain ⟨w₁, hmounts, hends⟩ := hafter (front role) (front_perm role)
  have hoff : tests ≠ [] → subdir ≠ .off := by
    rintro hne rfl
    have hdir := fits_off_of_ends (front_perm role) hends hne hfirst.mem hhost
    exact hmissing.notMem hhost ((x host).above_mem (prefix_append [s.mnt role] [s.dir role]) hdir)
  have hpath : tests ≠ [] → subdir ≠ .path [] := by
    intro hne hsubdir
    have hmem := hfirst.mem
    rw [clientRoles_eq_nil_of_ends hafter hspecs hsubdir hne] at hmem
    cases hmem
  have hmissing1 : s.Missing w₁.ext role :=
    ⟨host, hhost, fun h => hmissing.notMem hhost ((hmounts host _ _).mp h)⟩
  rw [spawnOnAllClients_eq, front, if_pos hfirst.mem] at hends
  have hmake := short_of_part on_clientRoles hends fun _ w' _ htidy host cluster id hmem =>
    (hmounts host cluster id).mpr (htidy.removed host _ hmem)
  have hshort := hmake.resolve_right fun hnone => hnone role hfirst.mem hmissing1
  have horder := (perm_cons_erase hfirst.mem).symm
  by_cases hne : tests = []
  · subst hne
    obtain ⟨x₁, y, hmade, hworked, hsole⟩ := exists_sole part_idle hmake hends
      (fun _ _ htidy => htidy.sound) hfirst hmissing1
    have hempties := empties_of_sole hmade hworked (by simp) hsole hshort hhost hfirst.mem
    exact ⟨hempties.1, fun h => (hempties.2 h).imp_right fun hs => hs.1.elim⟩
  · by_cases hnil : subdir.names = []
    · have hunset : subdir = .unset := by
        cases subdir with
        | unset => rfl
        | off => exact absurd rfl (hoff hne)
        | path names => exact absurd (congrArg Subdir.path hnil) (hpath hne)
      subst hunset
      obtain ⟨x₁, y, hmade, hworked, hsole⟩ :=
        exists_sole (part_all horder hspecs hne (by simp)) hmake hends
        (fun _ _ htidy => htidy.sound) hfirst hmissing1
      have hempties := empties_of_sole hmade hworked (fun _ _ => Nat.lt_succ_self 2) hsole hshort hhost
        hfirst.mem
      exact ⟨hempties.1, fun h => absurd hnil h⟩
    · refine ⟨fun h => absurd h hnil, fun _ => .inr ⟨hne, ?_⟩⟩
      have := length_pos_of_ne_nil hnil
      omega

theorem restores_of_all (hrole : role ∈ s.clientRoles) :
    s.Restores s.clientRoles subdir (tests ≠ []) x role := by
  intro hne host hon hmem
  obtain ⟨names, rfl⟩ : ∃ names, subdir = .path names := by
    cases subdir with
    | unset | off => exact absurd rfl hne
    | path names => exact ⟨names, rfl⟩
  have hnames : names ≠ [] := hne
  obtain ⟨w₁, hmounts, hends⟩ := hafter id fun _ => .refl _
  obtain ⟨workers, inner, -, hidle, hworkers, hall⟩ := does_all (w := w₁) (fun _ => .refl _) hspecs
    (fun role hfirst hmissing => empties_of_all hafter hspecs hfirst (by
      obtain ⟨host, hon, hnotMem⟩ := hmissing
      exact ⟨host, hon, fun h => hnotMem ((hmounts host _ _).mpr h)⟩))
    fun _ _ => ⟨by simp, by simpa using hnames⟩
  obtain ⟨r, w2, hrun⟩ := exists_exec (env_total s) (s.spawnOnAllClients id (.path names) tests) w₁
  have htidy := wp_post hends hrun
  have hcleared : s.Cleared s.clientRoles workers (.path names) inner True w₁.ext w2.ext := by
    have hpost := wp_post hall hrun
    cases r with
    | ret a => exact hpost.1
    | exn | cut => exact hpost.elim
  have hmem1 : [s.mnt role] ∈ w₁.ext host := (hmounts host _ _).mpr hmem
  by_cases hhead : ∃ role' ∈ s.clientRoles, s.Together role role' ∧ names.head? = some (s.dir role')
  · exact .inr (.inr hhead)
  · by_cases htests : tests = []
    · refine .inl (htidy.removed host _ ?_)
      refine mem_of_cleared hcleared hrole hon hmem1 hne prefix_rfl hhead ?_
      simp [hidle htests]
    · -- the jobs have removed the last directory of the path, but not those above it
      obtain ⟨-, rfl⟩ := hworkers htests role hrole
      refine .inr (.inl ⟨htests, htidy.removed host _ ?_⟩)
      refine mem_of_cleared hcleared hrole hon hmem1 hne ?_ hhead fun worker _ _ hbelow => ?_
      · exact cons_prefix_cons.mpr ⟨rfl, dropLast_prefix _⟩
      · have hlen := hbelow.length_le
        have hpos := length_pos_of_ne_nil hnames
        simp only [Instance.scratch, Instance.below, Subdir.names, length_cons, length_dropLast]
          at hlen
        omega

theorem fitsAll_of_ends : s.FitsAll tests subdir x where
  empties role hfirst hmissing := empties_of_all hafter hspecs hfirst hmissing
  restores role hrole := restores_of_all hafter hspecs hrole
  off := by
    rintro rfl hne role hrole host hon
    obtain ⟨w₁, -, hends⟩ := hafter id fun _ => .refl _
    exact fits_off_of_ends (fun _ => .refl _) hends hne hrole hon
  empty := clientRoles_eq_nil_of_ends hafter hspecs

end All

theorem fits_of_ends (hvalid : s.Valid clients)
    (h : ∀ listed : List (String × List String), listed.Perm clients →
      ∀ items : List String → List String, (∀ l, (items l).Perm l) →
        s.ends (s.task items listed subdir) (fun _ w' => Tidy x w') ⟨(), x, []⟩) :
    s.Fits clients subdir x := by
  have hempties : ∀ role ∈ specificRoles clients, s.Missing x role →
      s.Empties (specificRoles clients) subdir False role := by
    intro role hrole hmissing
    obtain ⟨client, hclient, rfl⟩ := mem_map.mp hrole
    obtain ⟨hmem, hne⟩ := mem_filter.mp hclient
    have hperm : (client :: clients.erase client).Perm clients := (perm_cons_erase hmem).symm
    have hroles : specificRoles (client :: clients.erase client) =
        client.1 :: specificRoles (clients.erase client) := by
      simp [specificRoles, specific, of_decide_eq_true hne]
    have hfirst := empties_of_ends (hvalid.perm hperm) hroles (h _ hperm id fun _ => .refl _)
      hmissing
    refine ⟨fun hnil role' hrole' => ?_, hfirst.2⟩
    exact hfirst.1 hnil role' ((specificRoles_perm hperm).mem_iff.mpr hrole')
  have hafter := fun (items : List String → List String) (hitems : ∀ l, (items l).Perm l) =>
    exists_after_specific hvalid hitems hempties (h clients (.refl _) items hitems)
  refine ⟨hempties, fun hnone role hrole => ?_, fun tests hmem => ?_⟩
  · obtain ⟨w₁, hcleared, hrest⟩ := hafter id fun _ => .refl _
    have hlookup : clients.lookup "all" = none := by
      cases hlookup : clients.lookup "all" with
      | none => rfl
      | some tests => exact absurd ((lookup_all hvalid.nodup).mp hlookup) (hnone tests)
    rw [hlookup] at hrest
    exact restores_of_specific hrest hcleared hrole
  · refine fitsAll_of_ends (fun items hitems => ?_) (hvalid.specs _ hmem)
    obtain ⟨w₁, hcleared, hrest⟩ := hafter items hitems
    rw [(lookup_all hvalid.nodup).mpr hmem] at hrest
    exact ⟨w₁, hcleared.mountpoint_mem (by simp), hrest⟩

omit [DecidableEq Host] in
theorem Site.Fits.perm (hfits : s.Fits clients subdir x) (h : listed.Perm clients) :
    s.Fits listed subdir x := by
  have hmem : ∀ role, role ∈ specificRoles listed ↔ role ∈ specificRoles clients :=
    fun _ => (specificRoles_perm h).mem_iff
  constructor
  · intro role hrole hmissing
    obtain ⟨hnil, hne⟩ := hfits.empties role ((hmem role).mp hrole) hmissing
    exact ⟨fun hnames role' hrole' => hnil hnames role' ((hmem role').mp hrole'), hne⟩
  · intro hnone role hrole hne host hon hmount
    have hrestores := hfits.restores (fun tests htests => hnone tests (h.mem_iff.mpr htests)) role
      ((hmem role).mp hrole) hne host hon hmount
    refine hrestores.imp_right fun hrest => hrest.imp_right ?_
    rintro ⟨role', hrole', hhead⟩
    exact ⟨role', (hmem role').mpr hrole', hhead⟩
  · exact fun tests htests => hfits.all tests (h.mem_iff.mp htests)

end Needed

/-- **When the task cleans up behind itself.** For every order of the clients and every interleaving of the
jobs, no clean-up fails and everything is as it was, exactly when `subdir` fits the roles and the
directories. -/
theorem workunit_tidy_iff {Host : Type} [DecidableEq Host] (s : Site Host)
    (clients : List (String × List String))
    (hvalid : s.Valid clients) (subdir : Subdir) (x : Trees Host) :
    (∀ listed : List (String × List String), listed.Perm clients →
      ∀ items : List String → List String, (∀ l, (items l).Perm l) →
        ∀ r w, Exec s.env (s.task items listed subdir) ⟨(), x, []⟩ r w → Tidy x w) ↔
      s.Fits clients subdir x := by
  constructor
  · intro h
    exact fits_of_ends hvalid fun listed hperm items hitems => wp_iff_exec.mpr (h listed hperm items hitems)
  · intro hfits listed hperm items hitems
    exact wp_iff_exec.mp (ends_task (hvalid.perm hperm) hitems (hfits.perm hperm))

def loneSite : Site Unit where
  remotes := [((), ["client.0"])]
  splitRole := fun role => ⟨"zbkc", if role = "client.0" then "client" else "", "0"⟩
  placed := by simp [Cluster.getRemoteForRole, Cluster.getRemote]
  nodup := by decide +kernel
  workunits := ["suites/dbench.sh"]
  workunits_ne := cons_ne_nil _ _

def loneClients : List (String × List String) := [("client.0", ["suites/dbench.sh"])]

theorem valid_loneClients : loneSite.Valid loneClients where
  nodup := by decide +kernel
  mentions := by decide +kernel
  client := by decide +kernel
  on := by
    intro role hrole
    obtain rfl := mem_singleton.mp hrole
    exact ⟨(), rfl⟩
  specs := by decide +kernel

theorem workunit_tidy_loneSite : loneSite.Valid loneClients ∧
      ∀ listed : List (String × List String), listed.Perm loneClients →
        ∀ items : List String → List String, (∀ l, (items l).Perm l) →
          ∀ r w, Exec loneSite.env (loneSite.task items listed .unset) ⟨(), fun _ => bare String, []⟩ r w →
            Tidy (fun _ => bare String) w := by
  refine ⟨valid_loneClients, (workunit_tidy_iff loneSite loneClients valid_loneClients .unset _).mpr
    ⟨?_, ?_, ?_⟩⟩
  · exact fun role _ _ => ⟨fun _ _ _ _ => rfl, fun hne => absurd rfl hne⟩
  · exact fun _ _ _ hne => absurd rfl hne
  · intro tests hmem
    exact absurd hmem (by simp [loneClients])

/-- With a `subdir` the directory below the new mount point is not the one that is removed. -/
theorem subdir_left_behind : loneSite.Valid loneClients ∧
      ∃ r w, Exec loneSite.env (loneSite.task id loneClients (.path ["foo"]))
        ⟨(), fun _ => bare String, []⟩ r w ∧ ¬ Tidy (fun _ => bare String) w := by
  refine ⟨valid_loneClients, ?_⟩
  by_contra hnone
  have hends : loneSite.ends (loneSite.task id loneClients (.path ["foo"]))
      (fun _ w' => Tidy (fun _ => bare String) w') ⟨(), fun _ => bare String, []⟩ := by
    refine wp_iff_exec.mpr fun r w hrun => ?_
    by_contra htidy
    exact hnone ⟨r, w, hrun, htidy⟩
  have hmissing : loneSite.Missing (fun _ => bare String) "client.0" := ⟨(), rfl, by decide +kernel⟩
  rcases (empties_of_ends valid_loneClients rfl hends hmissing).2 (cons_ne_nil _ _) with heq | hswept
  · exact absurd heq (by decide +kernel)
  · exact hswept.1

end ZbkcTasks.Workunit
