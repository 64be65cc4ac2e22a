import Mathlib.Data.List.Perm.Subperm
import ZbkcTasks.PyBase
import ZbkcTasks.PyValue

/-! The checker of `list-inconsistent-obj`: the damaged OSD is to be the only one with the error. Only
that OSD may not be reported twice, and a null attribute counts as one not shown yet. -/

namespace ZbkcTasks.InconsistentObj

open List

/-- What Python compares numbers by; `False` and `True` are numbers. -/
def number : PyAtom → Option ℚ
  | .bool b => some (if b then 1 else 0)
  | .int n => some n
  | .float q => some q
  | .none => .none
  | .str _ => .none

def pyEq (a b : PyAtom) : Bool :=
  match number a, number b with
  | some p, some q => decide (p = q)
  | _, _ => decide (a = b)

/-- A shard of the report; `none` for a key that is not there. -/
structure Shard where
  osd : Option Int
  errors : Option (List String)
  attrs : List (String × PyAtom)

def Shard.get (s : Shard) (attrName : String) : PyAtom := (s.attrs.lookup attrName).getD (.bool false)

structure Inconsistent where
  name : String
  snap : PyAtom
  shards : List Shard

/-- The constructor asserts that the OSD is in the acting set. -/
structure Checker where
  osd : Int
  acting : List Int
  obj : String
  mem : osd ∈ acting

def require (c : Prop) [Decidable c] (msg : String) : Except PyError Unit :=
  if c then .ok () else .error (.assertionError msg)

def Shard.theOsd (s : Shard) : Except PyError Int :=
  s.osd.elim (.error (.assertionError "")) .ok

def Shard.theErrors (s : Shard) : Except PyError (List String) :=
  s.errors.elim (.error (.keyError "errors")) .ok

namespace Checker

variable (c : Checker)

def basicChecks (inc : Inconsistent) : Except PyError Unit := do
  require (inc.name = c.obj) ""
  require (inc.snap = .str "head") ""
  require (inc.shards.length = c.acting.length)
    "the number of returned shard does not match with the acting set"

def errorRound (errName : String) (found : Bool × Bool) (shard : Shard) : Except PyError (Bool × Bool) := do
  let osd ← shard.theOsd
  let errors ← shard.theErrors
  let err := errors.contains errName
  if osd = c.osd then do
    require (found.1 = false) "multiple entries found for the given OSD"
    require (err = true) ("Didn't find '" ++ errName ++ "' in errors")
    .ok (true, found.2)
  else do
    require (osd ∈ c.acting) "shard not in acting set"
    require (err = false) ("Expected '" ++ errName ++ "' in errors")
    .ok (found.1, true)

def checkErrors (inc : Inconsistent) (errName : String) : Except PyError Unit := do
  let (badFound, goodFound) ← inc.shards.foldlM (c.errorRound errName) (false, false)
  require (badFound = true) ("Shard for osd." ++ toString c.osd ++ " not found")
  require (goodFound = true) "No other acting shards found"

def attrRound (attrName : String) (attrs : PyAtom × PyAtom) (shard : Shard) :
    Except PyError (PyAtom × PyAtom) := do
  let osd ← shard.theOsd
  let attr := shard.get attrName
  if osd = c.osd then do
    require (attrs.1 = .none) "multiple entries found for the given OSD"
    .ok (attr, attrs.2)
  else do
    require (osd ∈ c.acting) "shard not in acting set"
    require (attrs.2 = .none ∨ pyEq attrs.2 attr = true) "multiple good attrs found"
    .ok (attrs.1, attr)

def checkAttrs (inc : Inconsistent) (attrName : String) : Except PyError Unit := do
  let (badAttr, goodAttr) ← inc.shards.foldlM (c.attrRound attrName) (.none, .none)
  require (badAttr ≠ .none) ("bad " ++ attrName ++ " not found")
  require (goodAttr ≠ .none) ("good " ++ attrName ++ " not found")
  require (pyEq goodAttr badAttr = false) "bad attr is identical to the good ones"

end Checker

/-! ### Rounds -/

theorem require_eq_ok {p : Prop} [Decidable p] {msg : String} {u : Unit} : require p msg = .ok u ↔ p := by
  rw [require]
  split <;> simp [*]

theorem bind_eq_ok {ε α β : Type} {x : Except ε α} {f : α → Except ε β} {b : β} :
    (x >>= f) = .ok b ↔ ∃ a, x = .ok a ∧ f a = .ok b := by
  cases x with
  | error e =>
    constructor
    · intro h
      cases h
    · rintro ⟨a, h, -⟩
      cases h
  | ok a =>
    constructor
    · exact fun h => ⟨a, rfl, h⟩
    · rintro ⟨_, ⟨⟩, h⟩
      exact h

variable {s : Shard} {attrs attrs' : PyAtom × PyAtom}

theorem theOsd_eq_ok {osd : Int} : s.theOsd = .ok osd ↔ s.osd = some osd := by
  cases h : s.osd <;> simp [Shard.theOsd, h]

theorem theErrors_eq_ok {errors : List String} : s.theErrors = .ok errors ↔ s.errors = some errors := by
  cases h : s.errors <;> simp [Shard.theErrors, h]

variable {c : Checker} {inc : Inconsistent} {name : String}

def Checker.Damaged (c : Checker) (s : Shard) : Prop := s.osd = some c.osd

def Checker.Other (c : Checker) (s : Shard) : Prop := ∃ osd ∈ c.acting, osd ≠ c.osd ∧ s.osd = some osd

theorem Checker.Other.ne (h : c.Other s) : s.osd ≠ some c.osd := by
  obtain ⟨osd, -, hne, hosd⟩ := h
  rw [hosd]
  exact fun heq => hne (Option.some.inj heq)

def Shard.Has (s : Shard) (errName : String) : Prop := ∃ errors, s.errors = some errors ∧ errName ∈ errors

theorem errorRound_ok {found found' : Bool × Bool} (h : c.errorRound name found s = .ok found') :
    c.Damaged s ∧ s.Has name ∨ c.Other s ∧ ¬ s.Has name := by
  rw [Checker.errorRound, bind_eq_ok] at h
  obtain ⟨osd, hosd, h⟩ := h
  rw [bind_eq_ok] at h
  obtain ⟨errors, herrors, h⟩ := h
  rw [theOsd_eq_ok] at hosd
  rw [theErrors_eq_ok] at herrors
  dsimp only at h
  split at h
  next heq =>
    simp only [bind_eq_ok, require_eq_ok] at h
    obtain ⟨-, -, -, herr, -⟩ := h
    exact .inl ⟨hosd.trans (congrArg some heq), errors, herrors, contains_iff_mem.mp herr⟩
  next hne =>
    simp only [bind_eq_ok, require_eq_ok] at h
    obtain ⟨-, hacting, -, herr, -⟩ := h
    refine .inr ⟨⟨osd, hacting, hne, hosd⟩, ?_⟩
    rintro ⟨errors', herrors', hmem⟩
    rw [herrors] at herrors'
    obtain rfl := Option.some.inj herrors'
    rw [contains_iff_mem.mpr hmem] at herr
    cases herr

theorem attrRound_ok (h : c.attrRound name attrs s = .ok attrs') :
    (c.Damaged s ∧ attrs' = (s.get name, attrs.2)) ∨
      (c.Other s ∧ (attrs.2 = .none ∨ pyEq attrs.2 (s.get name) = true) ∧
        attrs' = (attrs.1, s.get name)) := by
  rw [Checker.attrRound, bind_eq_ok] at h
  obtain ⟨osd, hosd, h⟩ := h
  rw [theOsd_eq_ok] at hosd
  dsimp only at h
  split at h
  next heq =>
    simp only [bind_eq_ok, require_eq_ok] at h
    obtain ⟨-, -, h⟩ := h
    exact .inl ⟨hosd.trans (congrArg some heq), (Except.ok.inj h).symm⟩
  next hne =>
    simp only [bind_eq_ok, require_eq_ok] at h
    obtain ⟨-, hacting, -, hsame, h⟩ := h
    exact .inr ⟨⟨osd, hacting, hne, hosd⟩, hsame, (Except.ok.inj h).symm⟩

variable {shards : List Shard}

/-- What the loop of `_check_errors` accepts: every shard is judged by its OSD. -/
theorem errorRounds_ok {found found' : Bool × Bool}
    (h : shards.foldlM (c.errorRound name) found = .ok found') :
    ∀ s ∈ shards, c.Damaged s ∧ s.Has name ∨ c.Other s ∧ ¬ s.Has name := by
  induction shards generalizing found with
  | nil => simp
  | cons s shards ih =>
    rw [foldlM_cons, bind_eq_ok] at h
    obtain ⟨_, hround, hrest⟩ := h
    exact forall_mem_cons.mpr ⟨errorRound_ok hround, ih hrest⟩

theorem attrRounds_ok (h : shards.foldlM (c.attrRound name) attrs = .ok attrs') :
    (∀ s ∈ shards, c.Damaged s ∨ c.Other s) ∧
      (attrs'.1 = attrs.1 ∨ ∃ s ∈ shards, c.Damaged s ∧ attrs'.1 = s.get name) ∧
      (attrs'.2 = attrs.2 ∨ ∃ s ∈ shards, c.Other s ∧ attrs'.2 = s.get name) := by
  induction shards generalizing attrs with
  | nil =>
    obtain rfl : attrs = attrs' := Except.ok.inj h
    exact ⟨by simp, .inl rfl, .inl rfl⟩
  | cons s shards ih =>
    rw [foldlM_cons, bind_eq_ok] at h
    obtain ⟨attrs1, hround, hrest⟩ := h
    obtain ⟨hall, hbad, hgood⟩ := ih hrest
    have hlater : ∀ {P : Shard → Prop}, (∃ t ∈ shards, P t) → ∃ t ∈ s :: shards, P t :=
      fun ⟨t, ht, hP⟩ => ⟨t, mem_cons_of_mem s ht, hP⟩
    rcases attrRound_ok hround with ⟨hs, rfl⟩ | ⟨hs, -, rfl⟩
    · refine ⟨forall_mem_cons.mpr ⟨.inl hs, hall⟩, .inr ?_, hgood.imp_right hlater⟩
      rcases hbad with hbad | hbad
      · exact ⟨s, .head _, hs, hbad⟩
      · exact hlater hbad
    · refine ⟨forall_mem_cons.mpr ⟨.inr hs, hall⟩, hbad.imp_right hlater, .inr ?_⟩
      rcases hgood with hgood | hgood
      · exact ⟨s, .head _, hs, hgood⟩
      · exact hlater hgood

/-- Two values are equal in Python if they are the same number, or the same value and no numbers. -/
def compared (a : PyAtom) : ℚ ⊕ PyAtom := (number a).elim (.inr a) .inl

theorem pyEq_iff {a b : PyAtom} : pyEq a b = true ↔ compared a = compared b := by
  rw [pyEq, compared, compared]
  cases ha : number a with
  | none =>
    cases hb : number b with
    | none => simp
    | some q =>
      have hne : a ≠ b := fun heq => by simp [heq, hb] at ha
      simp [hne]
  | some p =>
    cases hb : number b with
    | none =>
      have hne : a ≠ b := fun heq => by simp [heq, hb] at ha
      simp [hne]
    | some q => simp

theorem attrRounds_same (h : shards.foldlM (c.attrRound name) attrs = .ok attrs')
    (hnull : ∀ s ∈ shards, c.Other s → s.get name ≠ .none) :
    (∀ s ∈ shards, c.Other s → pyEq (s.get name) attrs'.2 = true) ∧
      (attrs.2 ≠ .none → pyEq attrs.2 attrs'.2 = true) := by
  induction shards generalizing attrs with
  | nil =>
    obtain rfl : attrs = attrs' := Except.ok.inj h
    exact ⟨by simp, fun _ => pyEq_iff.mpr rfl⟩
  | cons s shards ih =>
    rw [foldlM_cons, bind_eq_ok] at h
    obtain ⟨attrs1, hround, hrest⟩ := h
    obtain ⟨hall, hlast⟩ := ih hrest fun t ht => hnull t (.tail _ ht)
    rcases attrRound_ok hround with ⟨hs, rfl⟩ | ⟨hs, hsame, rfl⟩
    · exact ⟨forall_mem_cons.mpr ⟨fun hother => absurd hs hother.ne, hall⟩, hlast⟩
    · have hshown := hlast (hnull s (.head _) hs)
      refine ⟨forall_mem_cons.mpr ⟨fun _ => hshown, hall⟩, fun hne => ?_⟩
      exact pyEq_iff.mpr ((pyEq_iff.mp (hsame.resolve_left hne)).trans (pyEq_iff.mp hshown))

/-! ### Blame -/

def Inconsistent.osds (inc : Inconsistent) : List (Option Int) := inc.shards.map Shard.osd

/-- The shards are those of the acting set, and the damaged OSD is the one with the error. -/
structure Checker.PinsError (c : Checker) (inc : Inconsistent) (errName : String) : Prop where
  perm : inc.osds.Perm (c.acting.map some)
  damaged : ∀ s ∈ inc.shards, s.osd = some c.osd → s.Has errName
  others : ∀ s ∈ inc.shards, s.osd ≠ some c.osd → ¬ s.Has errName

/-- The shards are those of the acting set, and the damaged OSD is the one with another attribute. -/
structure Checker.PinsAttr (c : Checker) (inc : Inconsistent) (attrName : String) : Prop where
  perm : inc.osds.Perm (c.acting.map some)
  others : ∀ s ∈ inc.shards, s.osd ≠ some c.osd → ∀ t ∈ inc.shards, t.osd ≠ some c.osd →
    pyEq (s.get attrName) (t.get attrName) = true
  damaged : ∀ s ∈ inc.shards, s.osd = some c.osd → ∀ t ∈ inc.shards, t.osd ≠ some c.osd →
    pyEq (t.get attrName) (s.get attrName) = false

theorem length_of_basicChecks (h : c.basicChecks inc = .ok ()) : inc.shards.length = c.acting.length := by
  simp only [Checker.basicChecks, bind_eq_ok, require_eq_ok] at h
  obtain ⟨-, -, -, -, hlength⟩ := h
  exact hlength

theorem perm_of_nodup (hbasic : c.basicChecks inc = .ok ())
    (hall : ∀ s ∈ inc.shards, c.Damaged s ∨ c.Other s) (hnodup : inc.osds.Nodup) :
    inc.osds.Perm (c.acting.map some) := by
  have hsub : inc.osds ⊆ c.acting.map some := by
    intro osd hosd
    obtain ⟨s, hs, rfl⟩ := mem_map.mp hosd
    rcases hall s hs with hs | ⟨osd, hmem, -, hosd⟩
    · rw [show s.osd = some c.osd from hs]
      exact mem_map_of_mem c.mem
    · rw [hosd]
      exact mem_map_of_mem hmem
  refine (subperm_of_subset hnodup hsub).perm_of_length_le ?_
  rw [Inconsistent.osds, length_map, length_map, length_of_basicChecks hbasic]

theorem nodup_of_perm (hacting : c.acting.Nodup) (hperm : inc.osds.Perm (c.acting.map some)) :
    inc.osds.Nodup :=
  hperm.nodup_iff.mpr (hacting.map (Option.some_injective _))

theorem pinsError_iff (hacting : c.acting.Nodup) (hbasic : c.basicChecks inc = .ok ())
    (h : c.checkErrors inc name = .ok ()) : c.PinsError inc name ↔ inc.osds.Nodup := by
  rw [Checker.checkErrors, bind_eq_ok] at h
  obtain ⟨_, hrounds, -⟩ := h
  have hall := errorRounds_ok hrounds
  refine ⟨fun hpins => nodup_of_perm hacting hpins.perm, fun hnodup => ⟨?_, fun s hs hosd => ?_,
    fun s hs hosd => ?_⟩⟩
  · exact perm_of_nodup hbasic (fun s hs => (hall s hs).imp And.left And.left) hnodup
  · rcases hall s hs with hs | hs
    · exact hs.2
    · exact absurd hosd hs.1.ne
  · rcases hall s hs with hs | hs
    · exact absurd hs.1 hosd
    · exact hs.2

theorem pinsAttr_iff (hacting : c.acting.Nodup) (hbasic : c.basicChecks inc = .ok ())
    (h : c.checkAttrs inc name = .ok ()) : c.PinsAttr inc name ↔
      inc.osds.Nodup ∧ ∀ s ∈ inc.shards, s.osd ≠ some c.osd → s.get name ≠ .none := by
  rw [Checker.checkAttrs, bind_eq_ok] at h
  obtain ⟨⟨badAttr, goodAttr⟩, hrounds, h⟩ := h
  simp only [bind_eq_ok, require_eq_ok] at h
  obtain ⟨-, hbad, -, hgood, hdiffer⟩ := h
  obtain ⟨hall, hdamaged, hother⟩ := attrRounds_ok hrounds
  obtain hnone | ⟨s, hs, hdamaged, rfl⟩ := hdamaged
  · exact absurd hnone hbad
  obtain hnone | ⟨t, ht, hother, rfl⟩ := hother
  · exact absurd hnone hgood
  constructor
  · refine fun hpins => ⟨nodup_of_perm hacting hpins.perm, fun u hu hosd hnull => hgood ?_⟩
    -- a null attribute equals that of the last shard only if that one is null too
    have hsame := pyEq_iff.mp (hpins.others u hu hosd t ht hother.ne)
    rw [hnull] at hsame
    cases hget : t.get name with
    | none => rfl
    | bool | int | float | str => simp [hget, compared, number] at hsame
  · rintro ⟨hnodup, hnull⟩
    obtain ⟨hsame, -⟩ := attrRounds_same hrounds fun u hu hu' => hnull u hu hu'.ne
    have hshown : ∀ u ∈ inc.shards, u.osd ≠ some c.osd → compared (u.get name) = compared (t.get name) :=
      fun u hu hosd => pyEq_iff.mp (hsame u hu ((hall u hu).resolve_left hosd))
    refine ⟨perm_of_nodup hbasic hall hnodup, fun u hu hosd v hv hosd' => ?_,
      fun u hu hosd v hv hosd' => ?_⟩
    · exact pyEq_iff.mpr ((hshown u hu hosd).trans (hshown v hv hosd').symm)
    · obtain rfl : u = s := inj_on_of_nodup_map hnodup hu hs (hosd.trans hdamaged.symm)
      rw [← Bool.not_eq_true, pyEq_iff] at hdiffer ⊢
      rwa [hshown v hv hosd']

/-- **Blame.** A report that passes the checks pins the blame on the damaged OSD exactly if it names no OSD
twice and, for an attribute, no other OSD has it as null. -/
theorem checks_pin_blame_iff (c : Checker) (hacting : c.acting.Nodup) (inc : Inconsistent)
    (hbasic : c.basicChecks inc = .ok ()) :
    (∀ errName, c.checkErrors inc errName = .ok () → (c.PinsError inc errName ↔ inc.osds.Nodup)) ∧
      ∀ attrName, c.checkAttrs inc attrName = .ok () → (c.PinsAttr inc attrName ↔
        inc.osds.Nodup ∧ ∀ s ∈ inc.shards, s.osd ≠ some c.osd → s.get attrName ≠ .none) :=
  ⟨fun _ => pinsError_iff hacting hbasic, fun _ => pinsAttr_iff hacting hbasic⟩

def threeOsds : Checker := ⟨0, [0, 1, 2], "obj", by decide⟩

def digestOnFirst : Inconsistent :=
  ⟨"obj", .str "head", [⟨some 1, some [], [("data_digest", .int 7)]⟩,
    ⟨some 0, some ["missing"], [("data_digest", .int 8)]⟩, ⟨some 2, some [], [("data_digest", .int 7)]⟩]⟩

theorem checks_pin_blame_three : threeOsds.PinsError digestOnFirst "missing" ∧
    threeOsds.PinsAttr digestOnFirst "data_digest" := by
  have hpins := checks_pin_blame_iff threeOsds (by decide) digestOnFirst (by decide +kernel)
  refine ⟨(hpins.1 "missing" (by decide +kernel)).mpr (by decide),
    (hpins.2 "data_digest" (by decide +kernel)).mpr ⟨by decide, ?_⟩⟩
  decide +kernel

/-- The second OSD is reported twice and the third not at all. -/
def repeated : Inconsistent :=
  ⟨"obj", .str "head", [⟨some 0, some ["missing"], []⟩, ⟨some 1, some [], []⟩, ⟨some 1, some [], []⟩]⟩

/-- The second OSD has no digest, and the third has another one than the first. -/
def nullFirst : Inconsistent :=
  ⟨"obj", .str "head", [⟨some 0, some [], [("data_digest", .int 8)]⟩,
    ⟨some 1, some [], [("data_digest", .none)]⟩, ⟨some 2, some [], [("data_digest", .int 7)]⟩]⟩

theorem repeated_osd_passes : (threeOsds.basicChecks repeated = .ok () ∧
      threeOsds.checkErrors repeated "missing" = .ok () ∧ ¬ threeOsds.PinsError repeated "missing") ∧
    threeOsds.basicChecks nullFirst = .ok () ∧ threeOsds.checkAttrs nullFirst "data_digest" = .ok () ∧
      ¬ threeOsds.PinsAttr nullFirst "data_digest" := by
  refine ⟨⟨by decide +kernel, by decide +kernel, fun hpins => ?_⟩, by decide +kernel, by decide +kernel,
    fun hpins => ?_⟩
  · exact absurd (nodup_of_perm (by decide) hpins.perm) (by decide)
  · have hsame := hpins.others _ (.tail _ (.head _)) (by decide) _ (.tail _ (.tail _ (.head _))) (by decide)
    exact absurd hsame (by decide +kernel)

end ZbkcTasks.InconsistentObj
