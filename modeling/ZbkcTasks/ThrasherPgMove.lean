import ZbkcTasks.Placement
import ZbkcTasks.ThrasherBook

/-! `kill_osd` and the PGs on the disks of dead OSDs, exported to a file and imported again. When every
command succeeds no copy is lost or made, and no file is left behind. -/

namespace ZbkcTasks

open List Placement Prog

/-- The PGs on each OSD and in each export file, and the local copies of export files. -/
structure Disks where
  pgs : Osd → Finset Pgid
  files : Remote → ExportPath → Option Pgid
  tmp : ExportPath → Option Pgid

def Disks.setFile (x : Disks) (r : Remote) (f : ExportPath) (v : Option Pgid) : Disks :=
  { x with files := fun r' f' => if r' = r ∧ f' = f then v else x.files r' f' }

def Disks.setTmp (x : Disks) (f : ExportPath) (v : Option Pgid) : Disks :=
  { x with tmp := fun f' => if f' = f then v else x.tmp f' }

/-- A run of the tool on the machine of the OSD that ends with status 0. -/
def ToolOp.effect (r : Remote) (i : Osd) : (toolOp : ToolOp) → Disks → toolOp.Ret → Disks → Prop
  | .listPgs, x, a, x' => a.1 = 0 ∧ a.2.toFinset = x.pgs i ∧ x' = x
  | .export pg f, x, a, x' => a = 0 ∧ x' = x.setFile r f (some pg)
  | .remove pg, x, a, x' => a = 0 ∧ x' = { x with pgs := take x.pgs pg i }
  | .import f, x, a, x' => a = 0 ∧ x' = match x.files r f with
      | some pg => { x with pgs := put x.pgs pg i }
      | none => x
  | .rmPastIntervals _, x, a, x' => a = 0 ∧ x' = x
  | .applyLayoutSettings _, x, a, x' => a.1 = 0 ∧ x' = x

/-- Copies and removals succeed, and the tool on the machine of the disk. Others may raise. -/
def Cmd.effect (hostOf : Osd → Remote) :
    (c : Cmd) → Disks → Except CommandError c.Ret → Disks → Prop
  | .findRemote i, x, a, x' => (∀ r, a = .ok r → r = hostOf i) ∧ x' = x
  | .tool r i toolOp, x, a, x' => r = hostOf i → ∃ v, a = .ok v ∧ toolOp.effect r i x v x'
  | .getFile r f, x, a, x' => a = .ok () ∧ x' = x.setTmp f (x.files r f)
  | .putFile r f, x, a, x' => a = .ok () ∧ x' = x.setFile r f (x.tmp f)
  | .removeTmp f, x, a, x' => a = .ok () ∧ x' = x.setTmp f none
  | .rmFile r f, x, a, x' => a = .ok () ∧ x' = x.setFile r f none
  | _, x, _, x' => x' = x

def Op.effect (hostOf : Osd → Remote) : (o : Op) → Disks → o.Ans → Disks → Prop
  | .cmd c, x, a, x' => c.effect hostOf x a x'
  | _, x, _, x' => x' = x

/-- Every draw may come, other greenlets may run, and the commands act on the disks. -/
def diskEnv (hostOf : Osd → Remote) : Env taskSig Thrasher Disks :=
  fun o t x a t' x' => o.effect hostOf x a x' ∧ Others t t'

/-- The tool is only run on dead OSDs, and only imports a PG that the OSD does not hold. -/
structure ToolUse (o : Op) (t : Thrasher) (x : Disks) : Prop where
  dead : ∀ r i toolOp, o = .cmd (.tool r i toolOp) → i ∈ t.deadOsds
  fresh : ∀ r i f pg, o = .cmd (.tool r i (.import f)) → x.files r f = some pg → pg ∉ x.pgs i

def OneMoved (exporters : List Osd) (osd : Osd) (p p' : Osd → Finset Pgid) : Prop :=
  ∃ expOsd ∈ exporters, ∃ pg ∈ p expOsd, pg ∉ p osd ∧ p' = put (take p pg expOsd) pg osd

/-- No PG has moved or one has, and every export file was there before. -/
structure Conserved (exporters : List Osd) (osd : Osd) (x x' : Disks) : Prop where
  pgs : x'.pgs = x.pgs ∨ OneMoved exporters osd x.pgs x'.pgs
  files : ∀ r f pg, x'.files r f = some pg → x.files r f = some pg

theorem Conserved.refl (exporters : List Osd) (osd : Osd) (x : Disks) : Conserved exporters osd x x :=
  ⟨.inl rfl, fun _ _ _ h => h⟩

variable {x' : Disks} {t : Thrasher} {β : Type} {o : Op}

section Rules

variable {hostOf : Osd → Remote} {w : W Disks} {S : Finset Osd} {D : List Osd}
  {x : Disks} {K : W Disks → Prop} {c : Cmd}

structure At (S : Finset Osd) (D : List Osd) (x : Disks) (w : World taskSig Thrasher Disks) : Prop where
  started : Started w.st
  split : Splits S (w.st.osds .live) (w.st.osds .dead)
  dead : w.st.osds .dead = D
  ext : w.ext = x

theorem At.push (h : At S D x w) {a : o.Ans} (ho : Others w.st t) (x' : Disks) :
    At S D x' (w.push (S := taskSig) o a t x') :=
  ⟨ho.started h.started, by rw [World.push_st, ho.osds, ho.osds]; exact h.split,
    (ho.osds .dead).trans h.dead, rfl⟩

def Cmd.diskless : Cmd → Bool
  | .findRemote _ => false
  | .tool _ _ _ => false
  | .getFile _ _ => false
  | .putFile _ _ => false
  | .removeTmp _ => false
  | .rmFile _ _ => false
  | _ => true

theorem Cmd.effect_diskless (hc : c.diskless = true) {a : Except CommandError c.Ret}
    (h : c.effect hostOf x a x') : x' = x := by
  cases c <;> first | exact h | cases hc

theorem toolUse_other (ho : ∀ r i toolOp, o ≠ .cmd (.tool r i toolOp)) : ToolUse o t x :=
  ⟨fun r i toolOp h => absurd h (ho r i toolOp), fun r i f _ h => absurd h (ho r i (.import f))⟩

theorem at_attr {a : Attr} {f : Thrasher → β} (h : At S D x w) (hK : K w) :
    wp (diskEnv hostOf) ToolUse (attr a f) (gives (fun _ => At S D x) K) w := by
  by_cases ha : a ∈ w.st.assigned
  · exact (wp_attr ha).mpr h
  · change wp (diskEnv hostOf) ToolUse (if a ∈ w.st.assigned then _ else _) _ w
    rw [if_neg ha]
    exact hK

theorem at_log (h : At S D x w) : wp (diskEnv hostOf) ToolUse log (gives (fun _ => At S D x) K) w :=
  (wp_log h.started).mpr h

theorem at_issue (ho : ∀ a x', o.effect hostOf x a x' → x' = x)
    (hne : ∀ r i toolOp, o ≠ .cmd (.tool r i toolOp)) (h : At S D x w) :
    wp (diskEnv hostOf) ToolUse (issue o) (gives (fun _ => At S D x) K) w := by
  refine ⟨toolUse_other hne, fun a t x' hstep => ?_⟩
  rw [h.ext] at hstep
  obtain rfl := ho _ _ hstep.1
  exact h.push hstep.2 x'

theorem at_raising {r : Except CommandError β} (h : At S D x w) (hK : K w) :
    wp (diskEnv hostOf) ToolUse (raising r) (gives (fun _ => At S D x) K) w := by
  cases r with
  | ok a => exact h
  | error e => exact hK

variable (hK : ∀ w, At S D x w → K w)
include hK

theorem at_call (hc : c.diskless = true) (h : At S D x w) :
    wp (diskEnv hostOf) ToolUse (call c) (gives (fun _ => At S D x) K) w := by
  refine wp_seq (at_issue (fun _ _ => Cmd.effect_diskless hc) ?_ h) fun r w' h' =>
    at_raising h' (hK w' h')
  rintro r i toolOp heq
  cases heq
  cases hc

theorem at_manager (hc : c.diskless = true) (h : At S D x w) :
    wp (diskEnv hostOf) ToolUse (manager c) (gives (fun _ => At S D x) K) w :=
  wp_seq (at_attr h (hK w h)) fun _ _ h' => at_call hK hc h'

theorem at_sleep {q : ℚ} (h : At S D x w) :
    wp (diskEnv hostOf) ToolUse (sleep q) (gives (fun _ => At S D x) K) w :=
  wp_seq (at_issue (fun _ _ h => h) (by simp) h) fun _ w' h' => at_raising h' (hK w' h')

theorem at_choice {xs : List β} (h : At S D x w) :
    wp (diskEnv hostOf) ToolUse (choice xs) (gives (fun y w' => y ∈ xs ∧ At S D x w') K) w := by
  refine wp_choice (fun _ => hK w h) fun n => ⟨toolUse_other (by simp), ?_⟩
  rintro i t x' ⟨rfl, ho⟩ y hy
  exact ⟨hy, h.ext ▸ h.push ho w.ext⟩

theorem at_given (osd : Option Osd) (l : OsdList) (h : At S D x w) :
    wp (diskEnv hostOf) ToolUse (given osd l)
      (gives (fun i w' => (∀ o, osd = some o → o = i) ∧ At S D x w') K) w := by
  cases osd with
  | some o => exact ⟨fun _ h => (Option.some.inj h).symm, h⟩
  | none =>
    rw [given, wp_bind, wp_osds h.started]
    exact wp_weaken (fun _ _ h' => ⟨nofun, h'.2⟩) (fun _ h' => h') (at_choice hK h)

theorem at_findRemote (i : Osd) (h : At S D x w) : wp (diskEnv hostOf) ToolUse (manager (.findRemote i))
      (gives (fun r w' => r = hostOf i ∧ At S D x w') K) w := by
  rw [wp_manager h.started]
  refine ⟨toolUse_other (by simp), fun r t x' hstep => ?_⟩
  rw [h.ext] at hstep
  obtain ⟨⟨hr, rfl⟩, ho⟩ := hstep
  cases r with
  | ok r => exact ⟨hr r rfl, h.push ho x'⟩
  | error e => exact hK _ (h.push ho x')

omit hK

theorem at_tool {i : Osd} {toolOp : ToolOp}
    {Q : Outcome PyError toolOp.Ret → W Disks → Prop} (h : At S D x w) (hi : i ∈ D)
    (hfresh : ∀ f pg, toolOp = .import f → x.files (hostOf i) f = some pg → pg ∉ x.pgs i)
    (hQ : ∀ v x' w', toolOp.effect (hostOf i) i x v x' → At S D x' w' → Q (.ret v) w') :
    wp (diskEnv hostOf) ToolUse (call (.tool (hostOf i) i toolOp)) Q w := by
  rw [wp_call]
  refine ⟨⟨?_, ?_⟩, fun r t x' hstep => ?_⟩
  · rintro _ _ _ heq
    cases heq
    change i ∈ w.st.osds .dead
    rw [h.dead]
    exact hi
  · rintro _ _ f pg heq
    cases heq
    rw [h.ext]
    exact hfresh f pg rfl
  · rw [h.ext] at hstep
    obtain ⟨htool, ho⟩ := hstep
    obtain ⟨v, rfl, heff⟩ := htool rfl
    exact hQ v x' _ heff (h.push ho x')

theorem at_file {v : c.Ret} (h : At S D x w) (hc : ∀ r i toolOp, c ≠ .tool r i toolOp)
    (heff : ∀ a y, c.effect hostOf x a y → a = .ok v ∧ y = x') :
    wp (diskEnv hostOf) ToolUse (call c) (gives (fun _ => At S D x') K) w := by
  rw [wp_call]
  refine ⟨toolUse_other (by simpa using hc), fun r t y hstep => ?_⟩
  rw [h.ext] at hstep
  obtain ⟨rfl, rfl⟩ := heff _ _ hstep.1
  exact h.push hstep.2 y

theorem at_getFile (r : Remote) (f : ExportPath) (h : At S D x w) :
    wp (diskEnv hostOf) ToolUse (call (.getFile r f)) (gives (fun _ => At S D (x.setTmp f (x.files r f))) K)
      w :=
  at_file (c := .getFile r f) (v := ()) h (by simp) fun _ _ heff => heff

theorem at_putFile (r : Remote) (f : ExportPath) (h : At S D x w) :
    wp (diskEnv hostOf) ToolUse (call (.putFile r f)) (gives (fun _ => At S D (x.setFile r f (x.tmp f))) K)
      w :=
  at_file (c := .putFile r f) (v := ()) h (by simp) fun _ _ heff => heff

theorem at_removeTmp (f : ExportPath) (h : At S D x w) :
    wp (diskEnv hostOf) ToolUse (call (.removeTmp f)) (gives (fun _ => At S D (x.setTmp f none)) K) w :=
  at_file (c := .removeTmp f) (v := ()) h (by simp) fun _ _ heff => heff

theorem at_rmFile (r : Remote) (f : ExportPath) (h : At S D x w) :
    wp (diskEnv hostOf) ToolUse (call (.rmFile r f)) (gives (fun _ => At S D (x.setFile r f none)) K) w :=
  at_file (c := .rmFile r f) (v := ()) h (by simp) fun _ _ heff => heff

theorem at_checkStatus {tool step : String} {status : Int} (hstatus : status = 0) (h : At S D x w) :
    wp (diskEnv hostOf) ToolUse (checkStatus tool step status) (gives (fun _ => At S D x) K) w := by
  rw [checkStatus, when, if_neg (not_not_intro hstatus)]
  exact h

theorem at_when {c : Prop} [Decidable c] {m : M Unit} {P : W Disks → Prop}
    (hm : c → wp (diskEnv hostOf) ToolUse m (gives (fun _ => P) K) w) (hw : ¬ c → P w) :
    wp (diskEnv hostOf) ToolUse (when c m) (gives (fun _ => P) K) w := by
  unfold when
  split
  next hc => exact hm hc
  next hc => exact hw hc

end Rules

/-! ### The move of one PG -/

section Move

variable {hostOf : Osd → Remote} {w : W Disks} {S : Finset Osd}
  {D exporters : List Osd} {x : Disks} {K : W Disks → Prop} {pg : Pgid}
  {expOsd osd : Osd} {f : ExportPath} {importer : Osd × Remote}

def Disks.exported (x : Disks) (hostOf : Osd → Remote) (f : ExportPath) : Disks :=
  { x.setFile (hostOf f.id) f (some f.pg) with pgs := take x.pgs f.pg f.id }

/-- Before the import: the PG is only in the file, on the machine of the OSD that imports it. -/
structure Importing (hostOf : Osd → Remote) (exporters : List Osd) (osd : Osd) (f : ExportPath)
    (x x' : Disks) (importer : Osd × Remote) : Prop where
  host : importer.2 = hostOf importer.1
  pgs : x'.pgs = take x.pgs f.pg f.id
  file : x'.files importer.2 f = some f.pg
  files : ∀ r f', x'.files r f' = x.files r f' ∨ f' = f ∧ (r = hostOf f.id ∨ r = importer.2)
  target : importer.1 = f.id ∨ importer.1 = osd ∧ f.pg ∉ x.pgs osd ∧ f.id ∈ exporters

theorem Importing.back (hostOf : Osd → Remote) (exporters : List Osd) (osd : Osd) (f : ExportPath)
    (x : Disks) : Importing hostOf exporters osd f x (x.exported hostOf f) (f.id, hostOf f.id) where
  host := rfl
  pgs := rfl
  file := by simp [Disks.exported, Disks.setFile]
  files r f' := by
    by_cases hf : r = hostOf f.id ∧ f' = f
    · exact .inr ⟨hf.2, .inl hf.1⟩
    · exact .inl (by simp [Disks.exported, Disks.setFile, hf])
  target := .inl rfl

def Disks.copied (x : Disks) (src dst : Remote) (f : ExportPath) : Disks :=
  ((x.setTmp f (x.files src f)).setFile dst f (x.files src f)).setTmp f none

theorem at_copy {src dst : Remote} (h : At S D x w) :
    wp (diskEnv hostOf) ToolUse (do
        log
        call (.getFile src f)
        call (.putFile dst f)
        call (.removeTmp f))
      (gives (fun _ => At S D (x.copied src dst f)) K) w := by
  have htmp : (x.setTmp f (x.files src f)).tmp f = x.files src f := by simp [Disks.setTmp]
  refine wp_seq (at_log h) fun _ w1 h1 => ?_
  refine wp_seq (at_getFile src f h1) fun _ w2 h2 => ?_
  refine wp_seq (at_putFile dst f h2) fun _ w3 h3 => ?_
  rw [htmp] at h3
  exact at_removeTmp f h3

theorem Importing.moved (hexp : f.id ∈ exporters) (hpg : f.pg ∉ x.pgs osd) :
    Importing hostOf exporters osd f x
      ((x.exported hostOf f).copied (hostOf f.id) (hostOf osd) f) (osd, hostOf osd) where
  host := rfl
  pgs := rfl
  file := by simp [Disks.copied, Disks.exported, Disks.setFile, Disks.setTmp]
  files r f' := by
    by_cases hf : f' = f ∧ (r = hostOf f.id ∨ r = hostOf osd)
    · exact .inr hf
    · have hsrc : ¬ (r = hostOf f.id ∧ f' = f) := fun h => hf ⟨h.2, .inl h.1⟩
      have hdst : ¬ (r = hostOf osd ∧ f' = f) := fun h => hf ⟨h.2, .inr h.1⟩
      exact .inl (by simp [Disks.copied, Disks.exported, Disks.setFile, Disks.setTmp, hsrc, hdst])
  target := .inr ⟨rfl, hpg, hexp⟩

theorem Importing.beside (hexp : f.id ∈ exporters) (hpg : f.pg ∉ x.pgs osd)
    (hremote : hostOf osd = hostOf f.id) :
    Importing hostOf exporters osd f x (x.exported hostOf f) (osd, hostOf osd) where
  host := rfl
  pgs := rfl
  file := by simp [Disks.exported, Disks.setFile, hremote]
  files r f' := by
    rcases (Importing.back hostOf exporters osd f x).files r f' with hf | ⟨hf, hr | hr⟩
    · exact .inl hf
    all_goals exact .inr ⟨hf, .inl hr⟩
  target := .inr ⟨rfl, hpg, hexp⟩

theorem at_chooseImporter (hosd : osd ∈ D) (hexp : f.id = osd ∨ f.id ∈ exporters)
    (h : At S D (x.exported hostOf f) w) :
    wp (diskEnv hostOf) ToolUse (chooseImporter f osd (hostOf osd) (hostOf f.id))
      (gives (fun importer w' => ∃ x', At S D x' w' ∧ Importing hostOf exporters osd f x x' importer) K)
      w := by
  unfold chooseImporter
  by_cases hne : f.id ≠ osd
  · rw [if_pos hne]
    refine wp_bind.mpr (at_tool h hosd (by simp) fun listed x' w1 heff h1 => ?_)
    obtain ⟨hstatus, hlist, rfl⟩ := heff
    refine wp_seq (at_checkStatus hstatus h1) fun _ w1 h1 => ?_
    have hosdPgs : (x.exported hostOf f).pgs osd = x.pgs osd := take_of_ne hne.symm
    have hmem : f.pg ∈ listed.2 ↔ f.pg ∈ x.pgs osd := by rw [← hosdPgs, ← hlist, mem_toFinset]
    by_cases hpg : f.pg ∉ listed.2
    · rw [if_pos hpg]
      have hexp : f.id ∈ exporters := hexp.resolve_left hne
      have hnew : f.pg ∉ x.pgs osd := fun h => hpg (hmem.mpr h)
      refine wp_seq (at_log h1) fun _ w1 h1 => ?_
      by_cases hremote : hostOf osd ≠ hostOf f.id
      · rw [when, if_pos hremote]
        exact wp_seq (at_copy h1) fun _ w2 h2 => ⟨_, h2, .moved hexp hnew⟩
      · rw [when, if_neg hremote]
        exact ⟨_, h1, .beside hexp hnew (not_not.mp hremote)⟩
    · rw [if_neg hpg]
      exact ⟨_, h1, .back hostOf exporters osd f x⟩
  · rw [if_neg hne]
    have heq : f.id = osd := not_not.mp hne
    exact ⟨_, h, heq ▸ .back hostOf exporters osd f x⟩

theorem at_applyLayoutSettings (hosd : osd ∈ D) (hK : ∀ w, At S D x w → K w) (h : At S D x w) :
    wp (diskEnv hostOf) ToolUse (applyLayoutSettings osd (hostOf osd)) (gives (fun _ => At S D x) K) w := by
  refine wp_seq (at_manager hK rfl h) fun pools w h => ?_
  refine wp_forEach (fun _ => At S D x) (fun pool _ w h => ?_) (fun w h => h) pools w h
  refine wp_bind.mpr (at_tool h hosd (by simp) fun result x' w' heff h' => ?_)
  obtain ⟨hstatus, rfl⟩ := heff
  simp only [chain_ret]
  rw [when, if_neg fun h => h.2 hstatus]
  exact h'

theorem Importing.mem (hx' : Importing hostOf exporters osd f x x' importer) (hosd : osd ∈ D)
    (hexpD : f.id ∈ D) : importer.1 ∈ D := by
  rcases hx'.target with heq | ⟨heq, -⟩
  · rw [heq]
    exact hexpD
  · rw [heq]
    exact hosd

theorem Importing.fresh (hx' : Importing hostOf exporters osd f x x' importer) :
    f.pg ∉ x'.pgs importer.1 := by
  rw [hx'.pgs, mem_take]
  rcases hx'.target with heq | ⟨heq, hnew, -⟩
  · exact fun h => h.2 ⟨heq, rfl⟩
  · rw [heq]
    exact fun h => hnew h.1

theorem Importing.conserved {x'' : Disks} (hx' : Importing hostOf exporters osd f x x' importer)
    (hpg : f.pg ∈ x.pgs f.id) (hpgs : x''.pgs = put x'.pgs f.pg importer.1)
    (hfiles : ∀ r f', x''.files r f' =
      if f' = f ∧ (r = hostOf f.id ∨ r = importer.2) then none else x'.files r f') :
    Conserved exporters osd x x'' := by
  refine ⟨?_, fun r f' pg hfile => ?_⟩
  · rw [hpgs, hx'.pgs]
    rcases hx'.target with heq | ⟨heq, hnew, hexp⟩
    · rw [heq, put_take_self hpg]
      exact .inl rfl
    · rw [heq]
      exact .inr ⟨f.id, hexp, f.pg, hpg, hnew, rfl⟩
  · rw [hfiles] at hfile
    split at hfile
    · cases hfile
    next hf =>
      rw [← (hx'.files r f').resolve_right hf]
      exact hfile

/-- **One move.** The PG is on the OSD it is taken from; nothing is raised before it is somewhere
again and the files are gone. -/
theorem at_movePgBy (hosd : osd ∈ D) (hexpD : f.id ∈ D) (hexp : f.id = osd ∨ f.id ∈ exporters)
    (hpg : f.pg ∈ x.pgs f.id) (hK : ∀ x' w, At S D x' w → Conserved exporters osd x x' → K w)
    (h : At S D x w) :
    wp (diskEnv hostOf) ToolUse (movePgBy f osd (hostOf osd) (hostOf f.id)) (gives (fun _ => K) K) w := by
  refine wp_bind.mpr (at_tool h hexpD (by simp) fun status x1 w1 heff h1 => ?_)
  obtain ⟨hstatus, rfl⟩ := heff
  refine wp_seq (at_checkStatus hstatus h1) fun _ w1 h1 => ?_
  refine wp_bind.mpr (at_tool h1 hexpD (by simp) fun status x2 w2 heff h2 => ?_)
  obtain ⟨hstatus, rfl⟩ := heff
  refine wp_seq (at_checkStatus hstatus h2) fun _ w2 h2 => ?_
  refine wp_seq (at_chooseImporter (x := x) hosd hexp h2) fun importer w3 h3 => ?_
  obtain ⟨x3, h3, himp⟩ := h3
  obtain ⟨impOsd, impRemote⟩ := importer
  obtain rfl : impRemote = hostOf impOsd := himp.host
  refine wp_bind.mpr (at_tool h3 (himp.mem hosd hexpD) ?_ fun (status : Int) x4 w4 heff h4 => ?_)
  · rintro f' pg heq hfile
    cases heq
    rw [himp.file] at hfile
    cases hfile
    exact himp.fresh
  · obtain ⟨hstatus, hx4⟩ := heff
    rw [himp.file] at hx4
    have hzero : status = 0 := hstatus
    refine wp_seq (P := fun _ => At S D x4) ?_ fun _ w5 h5 => ?_
    · rw [checkImport, if_neg (by omega)]
      exact at_checkStatus hzero h4
    · refine wp_seq (at_rmFile _ f h5) fun _ w6 h6 => ?_
      refine wp_seq (P := fun _ w => ∃ x', At S D x' w ∧ Conserved exporters osd x x') ?_
        fun _ w7 h7 => ?_
      · by_cases hremote : hostOf impOsd ≠ hostOf f.id
        · rw [when, if_pos hremote]
          refine wp_result (fun _ w7 h7 => ?_) (at_rmFile _ f h6)
          refine ⟨_, h7, himp.conserved hpg (by rw [hx4]; rfl) fun r f' => ?_⟩
          simp only [Disks.setFile, hx4]
          grind
        · rw [when, if_neg hremote]
          refine ⟨_, h6, himp.conserved hpg (by rw [hx4]; rfl) fun r f' => ?_⟩
          rw [not_not] at hremote
          simp only [Disks.setFile, hx4, hremote, or_self, and_comm]
      · obtain ⟨x', h7, hcons⟩ := h7
        exact wp_result (fun _ w8 h8 => hK x' w8 h8 hcons)
          (at_applyLayoutSettings hosd (fun w h => hK x' w h hcons) h7)

/-! ### The whole of `kill_osd` -/

theorem at_waitForTool (remote : Remote) (tries : Nat) (hK : ∀ w, At S D x w → K w) (h : At S D x w) :
    wp (diskEnv hostOf) ToolUse (waitForTool remote tries) (gives (fun _ => At S D x) K) w := by
  induction tries generalizing w with
  | zero => exact hK w h
  | succ tries ih =>
    refine wp_seq (at_call hK rfl h) fun (status : Int) w1 h1 => ?_
    by_cases hstatus : status = 0
    · rw [if_pos hstatus]
      exact h1
    · rw [if_neg hstatus]
      exact wp_seq (at_when (fun _ => at_sleep hK h1) fun _ => h1) fun _ w2 h2 => ih h2

theorem at_chooseExporter (hD : D = exporters ++ [osd]) (hK : ∀ w, At S D x w → K w) (h : At S D x w) :
    wp (diskEnv hostOf) ToolUse (chooseExporter osd (hostOf osd)) (gives (fun exporter w' =>
      exporter.2 = hostOf exporter.1 ∧ (exporter.1 = osd ∨ exporter.1 ∈ exporters) ∧ At S D x w') K)
      w := by
  have hsame : ∀ w', At S D x w' → hostOf osd = hostOf osd ∧ (osd = osd ∨ osd ∈ exporters) ∧ At S D x w' :=
    fun _ h => ⟨rfl, .inl rfl, h⟩
  rw [chooseExporter, wp_bind, wp_osds h.started, chain_ret]
  split
  · refine wp_seq (P := fun _ => At S D x) ?_ fun u w1 h1 => ?_
    · exact wp_seq (at_issue (fun _ _ heff => heff) (by simp) h) fun _ _ h => h
    refine wp_seq (at_attr h1 (hK w1 h1)) fun chance w2 h2 => ?_
    split
    · rw [wp_bind, wp_osds h2.started, chain_ret, h2.dead, hD, dropLast_concat, ← hD]
      refine wp_seq (at_choice hK h2) fun expOsd w3 h3 => ?_
      refine wp_seq (at_findRemote hK expOsd h3.2) fun expRemote w4 h4 => ?_
      exact ⟨h4.1, .inr h3.1, h4.2⟩
    · exact hsame w2 h2
  · exact hsame w h

theorem at_testObjectstoreTool (hD : D = exporters ++ [osd])
    (hK : ∀ x' w, At S D x' w → Conserved exporters osd x x' → K w) (h : At S D x w) :
    wp (diskEnv hostOf) ToolUse (testObjectstoreTool osd) (gives (fun _ => K) K) w := by
  have hKx : ∀ w, At S D x w → K w := fun w h => hK x w h (.refl _ _ _)
  have hosd : osd ∈ D := by simp [hD]
  refine wp_seq (at_log h) fun _ w h => ?_
  refine wp_seq (at_findRemote hKx osd h) fun remote w h => ?_
  obtain ⟨rfl, h⟩ := h
  refine wp_seq (at_chooseExporter hD hKx h) fun exporter w h => ?_
  obtain ⟨expOsd, expRemote⟩ := exporter
  obtain ⟨hremote, hexp, h⟩ := h
  obtain rfl : expRemote = hostOf expOsd := hremote
  have hexpD : expOsd ∈ D := by
    rcases hexp with heq | hmem
    · obtain rfl : expOsd = osd := heq
      exact hosd
    · rw [hD]
      exact mem_append_left _ hmem
  refine wp_seq (at_attr h (hKx w h)) fun _ w h => ?_
  refine wp_seq (at_waitForTool _ 40 hKx h) fun _ w h => ?_
  refine wp_bind.mpr (at_tool h hexpD (by simp) fun listed x' w' heff h' => ?_)
  obtain ⟨hstatus, hlist, rfl⟩ := heff
  refine wp_seq (at_checkStatus hstatus h') fun _ w h => ?_
  split
  · exact (wp_log h.started).mpr (hKx w h)
  · refine wp_seq (at_choice hKx h) fun pg w h => ?_
    refine wp_seq (at_attr h.2 (hKx w h.2)) fun _ w' h' => ?_
    refine at_movePgBy (f := ⟨pg, expOsd⟩) hosd hexpD hexp ?_ hK h'
    rw [← hlist, mem_toFinset]
    exact h.1

theorem at_kill (hK : ∀ w, At S D x w → K w) (hK' : ∀ w, At S (D ++ [osd]) x w → K w) (h : At S D x w) :
    wp (diskEnv hostOf) ToolUse (Mutator.kill.run osd) (gives (fun _ => At S (D ++ [osd]) x) K) w := by
  refine (wp_moveFirst (by decide) h.started).mpr ?_
  split
  next hosd =>
    refine ⟨toolUse_other (by simp), fun r t x' hstep => ?_⟩
    rw [h.ext] at hstep
    obtain ⟨rfl, ho⟩ := hstep
    have hmoved : At S (D ++ [osd]) x' ⟨w.st.moved .live .dead osd, w.ext, w.log⟩ := by
      have hosds := w.st.osds_moved .live .dead osd
      refine ⟨h.started.moved _ _ _, ?_, ?_, h.ext⟩
      · rw [hosds, hosds]
        exact h.split.move hosd
      · rw [hosds, ← h.dead]
        rfl
    cases r with
    | ok v => exact hmoved.push ho x'
    | error e => exact hK' _ (hmoved.push ho x')
  next => exact hK w h

theorem at_out (hK : ∀ w, At S D x w → K w) (h : At S D x w) :
    wp (diskEnv hostOf) ToolUse (Mutator.out.run osd) (gives (fun _ => At S D x) K) w := by
  refine wp_seq (at_manager hK rfl h) fun _ w h => ?_
  refine (wp_transfer (by decide) h.started).mpr ?_
  split
  · have hosds := w.st.osds_moved .in_ .out osd
    refine ⟨h.started.moved _ _ _, ?_, ?_, h.ext⟩
    · rw [hosds, hosds]
      exact h.split
    · rw [hosds, ← h.dead]
      rfl
  · exact hK w h

/-- No PG has moved, or one has, from an OSD that was dead before to the killed one; no export file is new.
-/
structure Killed (S : Finset Osd) (t : Thrasher) (x : Disks) (target : Option Osd)
    (w : World taskSig Thrasher Disks) : Prop where
  pgs : w.ext.pgs = x.pgs ∨ ∃ osd ∈ S, (∀ o, target = some o → o = osd) ∧
    w.st.deadOsds = t.deadOsds ++ [osd] ∧ OneMoved t.deadOsds osd x.pgs w.ext.pgs
  files : ∀ r f pg, w.ext.files r f = some pg → x.files r f = some pg

theorem At.killed {target : Option Osd} (h : At S D x w) : Killed S t x target w where
  pgs := .inl (congrArg Disks.pgs h.ext)
  files _ _ _ hfile := h.ext ▸ hfile

theorem at_killOsd (target : Option Osd) (markDown markOut : Bool) (h : At S t.deadOsds x w) :
    wp (diskEnv hostOf) ToolUse (killOsd target markDown markOut)
      (gives (fun _ => Killed S t x target) (Killed S t x target)) w := by
  have hK : ∀ {D : List Osd}, ∀ w, At S D x w → Killed S t x target w := fun _ h => h.killed
  refine wp_seq (at_given hK target .live h) fun osd w h => ?_
  obtain ⟨htarget, h⟩ := h
  refine wp_seq (at_log h) fun _ w h => ?_
  refine wp_seq (at_kill hK hK h) fun _ w h => ?_
  refine wp_seq (at_when (fun _ => at_manager hK rfl h) fun _ => h) fun _ w h => ?_
  refine wp_seq (at_when (fun _ => ?_) fun _ => h) fun _ w h => ?_
  · refine wp_seq (P := fun _ => At S (t.deadOsds ++ [osd]) x) ((wp_osds h.started).mpr h)
      fun inOsds w h => at_when (fun _ => ?_) fun _ => h
    exact wp_seq (P := fun _ => At S (t.deadOsds ++ [osd]) x) h fun _ w h =>
      wp_seq (at_log h) fun _ w h => at_out hK h
  · refine wp_seq (at_attr h h.killed) fun tool w h => at_when (fun _ => ?_) fun _ => h.killed
    refine at_testObjectstoreTool rfl (fun x' w h' hcons => ?_) h
    obtain rfl := h'.ext
    refine ⟨?_, hcons.files⟩
    rcases hcons.pgs with hsame | hmoved
    · exact .inl hsame
    · have hosd : osd ∈ w.st.osds .dead := by simp [h'.dead]
      exact .inr ⟨osd, h'.split.mem_right hosd, htarget, h'.dead, hmoved⟩

end Move

def ToolOp.act (r : Remote) (i : Osd) (x : Disks) : (toolOp : ToolOp) → toolOp.Ret × Disks
  | .listPgs => ((0, sorted (x.pgs i)), x)
  | .export pg f => ((0 : Int), x.setFile r f (some pg))
  | .remove pg => ((0 : Int), { x with pgs := take x.pgs pg i })
  | .import f => ((0 : Int), match x.files r f with
      | some pg => { x with pgs := put x.pgs pg i }
      | none => x)
  | .rmPastIntervals _ => ((0 : Int), x)
  | .applyLayoutSettings _ => ((0, false), x)

theorem ToolOp.effect_act (r : Remote) (i : Osd) (x : Disks) (toolOp : ToolOp) :
    toolOp.effect r i x (toolOp.act r i x).1 (toolOp.act r i x).2 := by
  cases toolOp with
  | listPgs => exact ⟨rfl, Finset.sort_toFinset _ _, rfl⟩
  | _ => exact ⟨rfl, rfl⟩

/-- Every draw is the least, every command succeeds, and the commands on disks do their work. -/
def diskRun (hostOf : Osd → Remote) : (o : Op) → Thrasher → Disks → o.Ans × Thrasher × Disks
  | .cmd (.findRemote i), t, x => (.ok (hostOf i), t, x)
  | .cmd (.tool r i toolOp), t, x => (.ok (toolOp.act r i x).1, t, (toolOp.act r i x).2)
  | .cmd (.getFile r f), t, x => (.ok (), t, x.setTmp f (x.files r f))
  | .cmd (.putFile r f), t, x => (.ok (), t, x.setFile r f (x.tmp f))
  | .cmd (.removeTmp f), t, x => (.ok (), t, x.setTmp f none)
  | .cmd (.rmFile r f), t, x => (.ok (), t, x.setFile r f none)
  | o, t, x => (o.okAns, t, x)

theorem diskEnv_diskRun (hostOf : Osd → Remote) (o : Op) (t : Thrasher) (x : Disks) :
    diskEnv hostOf o t x (diskRun hostOf o t x).1 (diskRun hostOf o t x).2.1
      (diskRun hostOf o t x).2.2 := by
  cases o with
  | cmd c =>
    cases c with
    | findRemote i => exact ⟨⟨fun r hr => (Except.ok.inj hr).symm, rfl⟩, .refl t⟩
    | tool r i toolOp => exact ⟨fun _ => ⟨_, rfl, toolOp.effect_act r i x⟩, .refl t⟩
    | _ => first | exact ⟨rfl, .refl t⟩ | exact ⟨⟨rfl, rfl⟩, .refl t⟩
  | _ => exact ⟨rfl, .refl t⟩

def onePg : Disks where
  pgs i := if i = 1 ∨ i = 3 then {"1.0"} else ∅
  files _ _ := none
  tmp _ := none

end ZbkcTasks
