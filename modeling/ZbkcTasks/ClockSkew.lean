import Mathlib.Algebra.Order.Group.Unbundled.Abs
import ZbkcTasks.PyProg

/-! `ClockSkewCheck.do_check` of `tasks/mon_clock_skew_check.py`. `finish` sets `stopping` from another
thread at any moment, so the flag is state that the environment may change. -/

namespace ZbkcTasks.ClockSkew

open List Prog

/-! ### The check -/

structure Check where
  name : String
  skew : ℚ
  health : String
  details : String

structure Timechecks where
  roundStatus : String
  round : Int
  mons : Option (List Check)

/-- The fields that `do_check` reads; the default values are those of the options. -/
structure ClockSkewCheck where
  quorumSize : Nat
  str : ℚ → String
  maxSkew : ℚ
  checkInterval : ℚ := 30
  expectSkew : Bool := false
  neverFail : Bool := false
  atLeastOnce : Bool := true
  atLeastOnceTimeout : ℚ := 600

inductive Op
  | time
  | sleep (seconds : ℚ)
  | waitForMonQuorumSize (size : Nat)
  | getMonHealth

@[reducible] def Op.Ans : Op → Type
  | .time => ℚ
  | .sleep _ => Unit
  | .waitForMonQuorumSize _ => Except CommandError Unit
  | .getMonHealth => Except CommandError Timechecks

abbrev sig : Sig := ⟨Op, Op.Ans⟩

abbrev M := Prog sig Bool PyError

def time : M ℚ := .op (S := sig) .time .ret

def waitForMonQuorumSize (size : Nat) : M Unit := .op (S := sig) (.waitForMonQuorumSize size) ofCommand

def getMonHealth : M Timechecks := .op (S := sig) .getMonHealth ofCommand

abbrev Skews := List (String × ℚ × String)

def Skews.set (skews : Skews) (id : String) (skew : ℚ) (details : String) : Skews :=
  (id, skew, details) :: skews.filter (·.1 ≠ id)

structure Vars where
  skews : Skews
  ranOnce : Bool
  startedOn : Option ℚ

section Check

variable (c : ClockSkewCheck)

def sleepInterval : M Unit := onlyIf (0 < c.checkInterval) (.op (S := sig) (.sleep c.checkInterval) .ret)

def addSkew (skews : Skews) (check : Check) : Except PyError Skews :=
  if c.maxSkew < |check.skew| then
    if check.health = "HEALTH_WARN" then .ok (skews.set check.name check.skew check.details)
    else .error (.assertionError ("mon." ++ check.name ++ " health is '" ++ check.health ++ "' but skew " ++
      c.str |check.skew| ++ " > max " ++ c.str c.maxSkew))
  else .ok skews

def seen (v : Vars) (cleanCheck : Bool) (skews : Skews) : Vars :=
  { v with
    skews := skews
    ranOnce := if cleanCheck ∨ c.expectSkew ∧ 0 < skews.length then true else v.ranOnce }

def process (v : Vars) (cleanCheck : Bool) (mons : List Check) : Except PyError Vars := do
  let skews ← mons.foldlM (addSkew c) v.skews
  return seen c v cleanCheck skews

def processAll (v : Vars) (cleanCheck : Bool) (timechecks : Timechecks) : Except PyError Vars :=
  timechecks.mons.elim (.error (.keyError "mons")) fun mons =>
    if 1 < mons.length then process c v cleanCheck mons
    else .error (.assertionError ("there are not enough reported timechecks; expected > 1 found " ++
      toString mons.length))

def examine (v : Vars) (timechecks : Timechecks) : Except PyError Vars :=
  if timechecks.roundStatus = "finished" then
    if timechecks.round % 2 = 0 then processAll c v true timechecks
    else .error (.assertionError ("timecheck marked as finished but round disagrees (r " ++
      toString timechecks.round ++ ")"))
  else if timechecks.roundStatus = "on-going" then
    if 1 < (timechecks.mons.getD []).length then processAll c v false timechecks
    -- no timechecks available just yet
    else .ok v
  else .error (.assertionError ("timecheck status expected 'on-going' but found '" ++
    timechecks.roundStatus ++ "' instead"))

def timeoutError : PyError := .assertionError "failed to obtain a timecheck before timeout expired"

def kickOff (v : Vars) : M (Option ℚ) := .read fun stopping =>
  if c.atLeastOnce ∧ ¬ v.ranOnce ∧ stopping then
    v.startedOn.elim (time >>= fun now => .ret (some now)) fun startedOn =>
      if 0 < c.atLeastOnceTimeout then time >>= fun now =>
        if now - startedOn < c.atLeastOnceTimeout then .ret (some startedOn) else .throw timeoutError
      else .ret (some startedOn)
  else .ret v.startedOn

def round (v : Vars) : M Vars := do
  let startedOn ← kickOff c v
  waitForMonQuorumSize c.quorumSize
  let timechecks ← getMonHealth
  let v' ← orThrow (examine c { v with startedOn := startedOn } timechecks)
  sleepInterval c
  return v'

def found (errorStr : String) : M Unit := if c.neverFail then .ret () else .throw (.assertionError errorStr)

def verdict (skews : Skews) : M Unit :=
  if c.expectSkew then
    if skews.length = 0 then found c "We were expecting a skew, but none was found!" else .ret ()
  else if 0 < skews.length then found c "We were not expecting a skew, but we did find it!" else .ret ()

def loop : Nat → Vars → M Unit
  | 0, _ => .cut
  | fuel + 1, v => .read fun stopping =>
      if ¬ stopping ∨ c.atLeastOnce ∧ ¬ v.ranOnce then round c v >>= loop fuel else verdict c v.skews

def doCheck (fuel : Nat) : M Unit := loop c fuel ⟨[], false, none⟩

/-! ### The reports of a run -/

def OverLimit (timechecks : Timechecks) : Prop :=
  ∃ check ∈ timechecks.mons.getD [], c.maxSkew < |check.skew|

def Processed (timechecks : Timechecks) : Prop :=
  timechecks.roundStatus = "finished" ∨ 1 < (timechecks.mons.getD []).length

structure WellFormed (timechecks : Timechecks) : Prop where
  finished : timechecks.roundStatus = "finished" →
    timechecks.round % 2 = 0 ∧ 1 < (timechecks.mons.getD []).length
  status : timechecks.roundStatus ≠ "finished" → timechecks.roundStatus = "on-going"
  health : Processed timechecks → ∀ check ∈ timechecks.mons.getD [], c.maxSkew < |check.skew| →
    check.health = "HEALTH_WARN"

def FoundSkew (reports : List Timechecks) : Prop := ∃ t ∈ reports, Processed t ∧ OverLimit c t

/-- A report of a finished round was processed, or a skew that was expected. -/
def RanOnce (reports : List Timechecks) : Prop :=
  ∃ t ∈ reports, Processed t ∧ (t.roundStatus = "finished" ∨ c.expectSkew = true ∧ OverLimit c t)

/-- The variables say what the reports were, newest first. -/
structure Tracks (reports : List Timechecks) (v : Vars) : Prop where
  skews : v.skews ≠ [] ↔ FoundSkew c reports
  ranOnce : v.ranOnce = true ↔ RanOnce c reports

variable {c} {t : Timechecks} {reports : List Timechecks}

theorem foundSkew_cons : FoundSkew c (t :: reports) ↔ Processed t ∧ OverLimit c t ∨ FoundSkew c reports :=
  exists_mem_cons_iff _ _ _

theorem ranOnce_cons : RanOnce c (t :: reports) ↔
    Processed t ∧ (t.roundStatus = "finished" ∨ c.expectSkew = true ∧ OverLimit c t) ∨ RanOnce c reports :=
  exists_mem_cons_iff _ _ _

theorem foldlM_addSkew {mons : List Check}
    (h : ∀ check ∈ mons, c.maxSkew < |check.skew| → check.health = "HEALTH_WARN") (skews : Skews) :
    ∃ skews', mons.foldlM (addSkew c) skews = .ok skews' ∧
      (skews' ≠ [] ↔ skews ≠ [] ∨ ∃ check ∈ mons, c.maxSkew < |check.skew|) := by
  induction mons generalizing skews with
  | nil => exact ⟨skews, rfl, by simp⟩
  | cons check mons ih =>
    obtain ⟨hcheck, hmons⟩ := forall_mem_cons.mp h
    rw [foldlM_cons, exists_mem_cons_iff]
    by_cases hover : c.maxSkew < |check.skew|
    · obtain ⟨skews', hfold, hiff⟩ := ih hmons (skews.set check.name check.skew check.details)
      have hadd : addSkew c skews check = .ok (skews.set check.name check.skew check.details) := by
        rw [addSkew, if_pos hover, if_pos (hcheck hover)]
      refine ⟨skews', by rw [hadd]; exact hfold, ?_⟩
      rw [hiff]
      exact iff_of_true (.inl (cons_ne_nil _ _)) (.inr (.inl hover))
    · obtain ⟨skews', hfold, hiff⟩ := ih hmons skews
      have hadd : addSkew c skews check = .ok skews := by rw [addSkew, if_neg hover]
      refine ⟨skews', by rw [hadd]; exact hfold, ?_⟩
      rw [hiff, or_iff_right hover]

theorem tracks_processAll {v : Vars} {cleanCheck : Bool} (hwf : WellFormed c t)
    (hlong : 1 < (t.mons.getD []).length) (hclean : cleanCheck = true ↔ t.roundStatus = "finished")
    (h : Tracks c reports v) : ∃ v', processAll c v cleanCheck t = .ok v' ∧ v'.startedOn = v.startedOn ∧
      Tracks c (t :: reports) v' := by
  have hprocessed : Processed t := .inr hlong
  obtain ⟨mons, hmons⟩ : ∃ mons, t.mons = some mons := by
    cases hmons : t.mons with
    | none => simp [hmons] at hlong
    | some mons => exact ⟨mons, rfl⟩
  have hgetD : t.mons.getD [] = mons := by rw [hmons, Option.getD_some]
  have hhealth := hwf.health hprocessed
  rw [hgetD] at hhealth hlong
  obtain ⟨skews', hfold, hiff⟩ := foldlM_addSkew hhealth v.skews
  have hover : OverLimit c t ↔ ∃ check ∈ mons, c.maxSkew < |check.skew| := by rw [OverLimit, hgetD]
  have hskews : skews' ≠ [] ↔ FoundSkew c (t :: reports) := by
    rw [hiff, ← hover, h.skews, foundSkew_cons, and_iff_right hprocessed, or_comm]
  refine ⟨seen c v cleanCheck skews', ?_, rfl, hskews, ?_⟩
  · rw [processAll, hmons, Option.elim_some, if_pos hlong, process, hfold]
    rfl
  · rw [ranOnce_cons, and_iff_right hprocessed, ← h.ranOnce, ← hclean]
    have hlength : 0 < skews'.length ↔ skews' ≠ [] := length_pos_iff
    unfold seen
    dsimp only
    split
    · rename_i hran
      refine iff_of_true rfl ?_
      rw [hlength, hskews, foundSkew_cons, and_iff_right hprocessed] at hran
      rcases hran with hclean | ⟨hexpect, hover | ⟨t', ht', hbefore⟩⟩
      · exact .inl (.inl hclean)
      · exact .inl (.inr ⟨hexpect, hover⟩)
      · exact .inr (h.ranOnce.mpr ⟨t', ht', hbefore.1, .inr ⟨hexpect, hbefore.2⟩⟩)
    · rename_i hran
      rw [or_iff_right]
      rintro (hclean | ⟨hexpect, hover⟩)
      · exact hran (.inl hclean)
      · refine hran (.inr ⟨hexpect, hlength.mpr (hskews.mpr (foundSkew_cons.mpr (.inl ?_)))⟩)
        exact ⟨hprocessed, hover⟩

/-- **One report.** -/
theorem tracks_examine {v : Vars} (hwf : WellFormed c t) (h : Tracks c reports v) :
    ∃ v', examine c v t = .ok v' ∧ v'.startedOn = v.startedOn ∧ Tracks c (t :: reports) v' := by
  unfold examine
  by_cases hfinished : t.roundStatus = "finished"
  · obtain ⟨hround, hlong⟩ := hwf.finished hfinished
    rw [if_pos hfinished, if_pos hround]
    exact tracks_processAll hwf hlong (iff_of_true rfl hfinished) h
  · rw [if_neg hfinished, if_pos (hwf.status hfinished)]
    by_cases hlong : 1 < (t.mons.getD []).length
    · rw [if_pos hlong]
      exact tracks_processAll hwf hlong (iff_of_false Bool.false_ne_true hfinished) h
    · rw [if_neg hlong]
      have hskipped : ¬ Processed t := fun hp => hp.elim hfinished hlong
      refine ⟨v, rfl, rfl, ?_, ?_⟩
      · rw [h.skews, foundSkew_cons, or_iff_right fun hp => hskipped hp.1]
      · rw [h.ranOnce, ranOnce_cons, or_iff_right fun hp => hskipped hp.1]

end Check

/-! ### Runs -/

def Op.report? : (o : Op) → o.Ans → Option Timechecks
  | .getMonHealth, .ok t => some t
  | _, _ => none

def Op.isWait : Op → Bool
  | .waitForMonQuorumSize _ => true
  | _ => false

section Runs

variable {η : Type} {c : ClockSkewCheck} {E : Env sig Bool η} {k : Nat} {v : Vars} {w : World sig Bool η}

/-- The manager's commands succeed, the reports are well formed, and a stop request stays. -/
structure Fair (c : ClockSkewCheck) (E : Env sig Bool η) : Prop where
  stays : ∀ {o s x a s' x'}, E o s x a s' x' → s = true → s' = true
  quorum : ∀ {n s x a s' x'}, E (.waitForMonQuorumSize n) s x a s' x' → a = .ok ()
  health : ∀ {s x a s' x'}, E .getMonHealth s x a s' x' → ∃ t, a = .ok t ∧ WellFormed c t

def reports (log : List (Event sig Bool η)) : List Timechecks := log.filterMap fun e => e.op.report? e.ans

def rounds (log : List (Event sig Bool η)) : Nat := log.countP fun e => e.op.isWait

/-- Every round so far was begun before the stop request. -/
def Unstopped (log : List (Event sig Bool η)) : Prop := ∀ e ∈ log, e.op.isWait = true → e.st = false

/-- The first loop head that saw the stop request was at the time `t`. -/
def FirstSeen (log : List (Event sig Bool η)) (t : ℚ) : Prop :=
  ∃ later x before, log = later ++ ⟨.time, t, true, x⟩ :: before ∧ Unstopped before

/-- A round is begun only if there was no stop request, or the check has to run once and has not. -/
def Begun (c : ClockSkewCheck) (log : List (Event sig Bool η)) : Prop :=
  ∀ later e before, log = later ++ e :: before → e.op.isWait = true →
    e.st = false ∨ c.atLeastOnce = true ∧ ¬ RanOnce c (reports before)

def Expired (c : ClockSkewCheck) (log : List (Event sig Bool η)) : Prop :=
  ∃ started now s x before, log = ⟨.time, now, s, x⟩ :: before ∧ FirstSeen before started ∧
    c.atLeastOnceTimeout ≤ now - started

variable {log : List (Event sig Bool η)} {s : Bool} {x : η} {n : Nat}

theorem begun_cons {e : Event sig Bool η} (h : Begun c log)
    (he : e.op.isWait = true → e.st = false ∨ c.atLeastOnce = true ∧ ¬ RanOnce c (reports log)) :
    Begun c (e :: log) := by
  intro later e' before heq hwait
  cases later with
  | nil =>
    rw [nil_append, List.cons.injEq] at heq
    rw [← heq.1, ← heq.2]
    exact he (heq.1 ▸ hwait)
  | cons a later =>
    rw [cons_append, List.cons.injEq] at heq
    exact h later e' before heq.2 hwait

theorem FirstSeen.cons {t : ℚ} (h : FirstSeen log t) (e : Event sig Bool η) : FirstSeen (e :: log) t := by
  obtain ⟨later, x, before, rfl, hbefore⟩ := h
  exact ⟨e :: later, x, before, rfl, hbefore⟩

structure AtHead (c : ClockSkewCheck) (k : Nat) (v : Vars) (w : World sig Bool η) : Prop where
  tracks : Tracks c (reports w.log) v
  begun : Begun c w.log
  rounds : rounds w.log = k
  unstopped : v.startedOn = none → Unstopped w.log
  seen : ∀ t, v.startedOn = some t → FirstSeen w.log t ∧ w.st = true

theorem AtHead.push (hE : Fair c E) (h : AtHead c k v w) {o : Op} {a : o.Ans} (hstep : E o w.st w.ext a s x)
    (hwait : o.isWait = false) (hreport : o.report? a = none) : AtHead c k v (w.push o a s x) := by
  have hreports : reports (w.push o a s x).log = reports w.log := by
    simp only [reports, World.push_log, filterMap_cons, hreport]
  refine ⟨by rw [hreports]; exact h.tracks, ?_, ?_, ?_, ?_⟩
  · exact begun_cons h.begun fun htrue => absurd (hwait.symm.trans htrue) Bool.false_ne_true
  · rw [World.push_log, ClockSkew.rounds, countP_cons_of_neg (by simp [hwait])]
    exact h.rounds
  · intro hnone e he
    rcases mem_cons.mp he with rfl | he
    · exact fun htrue => absurd (hwait.symm.trans htrue) Bool.false_ne_true
    · exact h.unstopped hnone e he
  · intro t ht
    obtain ⟨hseen, hst⟩ := h.seen t ht
    exact ⟨hseen.cons _, hE.stays hstep hst⟩

structure TimedOut (c : ClockSkewCheck) (e : PyError) (w : World sig Bool η) : Prop where
  error : e = timeoutError
  atLeastOnce : c.atLeastOnce = true
  positive : 0 < c.atLeastOnceTimeout
  expired : Expired c w.log

def unlessTimedOut {α : Type} (c : ClockSkewCheck) (P : α → World sig Bool η → Prop) :
    Outcome PyError α → World sig Bool η → Prop
  | .ret a, w => P a w
  | .exn e, w => TimedOut c e w
  | .cut, _ => False

theorem wp_bind_unless {α β : Type} {A : Op → Bool → η → Prop} {P : α → World sig Bool η → Prop}
    {P' : β → World sig Bool η → Prop} {p : M α} {f : α → M β} (hp : wp E A p (unlessTimedOut c P) w)
    (hf : ∀ a w', P a w' → wp E A (f a) (unlessTimedOut c P') w') :
    wp E A (p >>= f) (unlessTimedOut c P') w := by
  rw [wp_bind]
  refine wp_mono ?_ hp
  rintro (a | e | _) w' h
  · exact hf a w' h
  · exact h
  · exact h

/-- A round may go on: no stop request was seen, or the check has to run once and has not. -/
structure Going (c : ClockSkewCheck) (k : Nat) (v : Vars) (w : World sig Bool η) : Prop extends
    AtHead c k v w where
  go : w.st = false ∨ c.atLeastOnce = true ∧ ¬ RanOnce c (reports w.log)
  started : v.startedOn = none → w.st = false

theorem wp_kickOff (hE : Fair c E) (h : AtHead c k v w) (hgo : ¬ w.st ∨ c.atLeastOnce ∧ ¬ v.ranOnce) :
    wp E (fun _ _ _ => True) (kickOff c v)
      (unlessTimedOut c fun startedOn => Going c k { v with startedOn := startedOn }) w := by
  show wp E _ (if c.atLeastOnce ∧ ¬ v.ranOnce ∧ w.st then _ else _) _ w
  split
  · rename_i hstop
    obtain ⟨honce, hnot, hst⟩ := hstop
    have hran : ¬ RanOnce c (reports w.log) := fun hran => hnot (h.tracks.ranOnce.mpr hran)
    -- after the time was read, or not
    have hgoing : ∀ {startedOn : ℚ} {w' : World sig Bool η},
        AtHead c k { v with startedOn := some startedOn } w' → reports w'.log = reports w.log →
        Going c k { v with startedOn := some startedOn } w' := by
      intro startedOn w' h' hreports
      exact ⟨h', .inr ⟨honce, hreports ▸ hran⟩, fun hnone => nomatch hnone⟩
    cases hstarted : v.startedOn with
    | none =>
      refine ⟨trivial, fun now s x hstep => hgoing ?_ rfl⟩
      have hpush := h.push hE hstep rfl rfl
      refine ⟨⟨hpush.tracks.skews, hpush.tracks.ranOnce⟩, hpush.begun, hpush.rounds, ?_, ?_⟩
      · exact fun hnone => nomatch hnone
      · rintro t ⟨⟩
        refine ⟨⟨[], w.ext, w.log, ?_, h.unstopped hstarted⟩, hE.stays hstep hst⟩
        rw [World.push_log, hst]
        rfl
    | some startedOn =>
      have hsame : { v with startedOn := some startedOn } = v := by rw [← hstarted]
      rw [Option.elim_some]
      split
      · rename_i hpos
        refine ⟨trivial, fun now s x hstep => ?_⟩
        show wp E _ (if now - startedOn < c.atLeastOnceTimeout then _ else _) _ _
        have hpush := h.push hE hstep rfl rfl
        split
        · exact hgoing (hsame.symm ▸ hpush) rfl
        · rename_i hlate
          refine ⟨rfl, honce, hpos, ?_⟩
          exact ⟨startedOn, now, w.st, w.ext, w.log, rfl, (h.seen startedOn hstarted).1, not_lt.mp hlate⟩
      · exact hgoing (hsame.symm ▸ h) rfl
  · rename_i hgo'
    have hst : w.st = false := by
      by_contra hst
      rw [Bool.not_eq_false] at hst
      rcases hgo with hgo | hgo
      · exact hgo hst
      · exact hgo' ⟨hgo.1, hgo.2, hst⟩
    exact ⟨h, .inl hst, fun _ => hst⟩

theorem Going.wait (hE : Fair c E) (h : Going c k v w)
    (hstep : E (.waitForMonQuorumSize n) w.st w.ext (.ok ()) s x) :
    AtHead c (k + 1) v (w.push (.waitForMonQuorumSize n) (.ok ()) s x) := by
  refine ⟨h.tracks, begun_cons h.begun fun _ => h.go, ?_, ?_, ?_⟩
  · rw [World.push_log, ClockSkew.rounds, countP_cons_of_pos rfl]
    exact congrArg (· + 1) h.rounds
  · intro hnone e he
    rcases mem_cons.mp he with rfl | he
    · exact fun _ => h.started hnone
    · exact h.unstopped hnone e he
  · intro t ht
    obtain ⟨hseen, hst⟩ := h.seen t ht
    exact ⟨hseen.cons _, hE.stays hstep hst⟩

theorem AtHead.report (hE : Fair c E) (h : AtHead c k v w) {t : Timechecks} (hwf : WellFormed c t)
    (hstep : E .getMonHealth w.st w.ext (.ok t) s x) :
    ∃ v', examine c v t = .ok v' ∧ AtHead c k v' (w.push .getMonHealth (.ok t) s x) := by
  obtain ⟨v', hexamine, hstarted, htracks⟩ := tracks_examine hwf h.tracks
  have hno : Op.getMonHealth.isWait ≠ true := Bool.false_ne_true
  refine ⟨v', hexamine, htracks, begun_cons h.begun fun hwait => absurd hwait hno, h.rounds, ?_, ?_⟩
  · intro hnone e he
    rcases mem_cons.mp he with rfl | he
    · exact fun hwait => absurd hwait hno
    · exact h.unstopped (hstarted ▸ hnone) e he
  · intro u hu
    obtain ⟨hseen, hst⟩ := h.seen u (hstarted ▸ hu)
    exact ⟨hseen.cons _, hE.stays hstep hst⟩

/-- **One round.** -/
theorem wp_round (hE : Fair c E) (h : AtHead c k v w) (hgo : ¬ w.st ∨ c.atLeastOnce ∧ ¬ v.ranOnce) :
    wp E (fun _ _ _ => True) (round c v) (unlessTimedOut c fun v' => AtHead c (k + 1) v') w := by
  refine wp_bind_unless (wp_kickOff hE h hgo) fun startedOn w1 h1 => ?_
  refine ⟨trivial, fun a s x hstep => ?_⟩
  obtain rfl := hE.quorum hstep
  refine ⟨trivial, fun a s' x' hstep' => ?_⟩
  obtain ⟨t, rfl, hwf⟩ := hE.health hstep'
  obtain ⟨v', hexamine, h3⟩ := (h1.wait hE hstep).report hE hwf hstep'
  show wp E _ (orThrow (examine c { v with startedOn := startedOn } t) >>= _) _ _
  rw [hexamine]
  rw [sleepInterval]
  unfold onlyIf
  split
  · exact ⟨trivial, fun _ s'' x'' hstep'' => h3.push hE hstep'' rfl rfl⟩
  · exact h3

def Ends (c : ClockSkewCheck) (k : Nat) : Outcome PyError Unit → World sig Bool η → Prop
  | .ret _, w => (c.neverFail = true ∨ (FoundSkew c (reports w.log) ↔ c.expectSkew = true)) ∧
      (c.atLeastOnce = true → RanOnce c (reports w.log))
  | .exn e, w => TimedOut c e w ∨ e ≠ timeoutError ∧
      c.neverFail = false ∧ ¬ (FoundSkew c (reports w.log) ↔ c.expectSkew = true)
  | .cut, w => rounds w.log = k ∧ Begun c w.log

theorem wp_verdict {k : Nat} (h : AtHead c k v w) (hstop : c.atLeastOnce = true → v.ranOnce = true) :
    wp E (fun _ _ _ => True) (verdict c v.skews) (Ends c n) w := by
  have hran : c.atLeastOnce = true → RanOnce c (reports w.log) :=
    fun honce => h.tracks.ranOnce.mp (hstop honce)
  have hright : (FoundSkew c (reports w.log) ↔ c.expectSkew = true) →
      wp E (fun _ _ _ => True) (.ret ()) (Ends c n) w := fun hiff => ⟨.inr hiff, hran⟩
  have hwrong : ∀ {errorStr : String}, PyError.assertionError errorStr ≠ timeoutError →
      ¬ (FoundSkew c (reports w.log) ↔ c.expectSkew = true) →
      wp E (fun _ _ _ => True) (found c errorStr) (Ends c n) w := by
    intro errorStr herror hiff
    unfold found
    split
    · rename_i hnever
      exact ⟨.inl hnever, hran⟩
    · rename_i hnever
      exact .inr ⟨herror, Bool.eq_false_iff.mpr hnever, hiff⟩
  have hskews := h.tracks.skews
  unfold verdict
  split
  · rename_i hexpect
    split
    · rename_i hnone
      rw [length_eq_zero_iff] at hnone
      refine hwrong (by decide) fun hiff => hskews.mpr (hiff.mpr hexpect) hnone
    · rename_i hsome
      rw [length_eq_zero_iff] at hsome
      exact hright (iff_of_true (hskews.mp hsome) hexpect)
  · rename_i hexpect
    split
    · rename_i hsome
      rw [length_pos_iff] at hsome
      exact hwrong (by decide) fun hiff => hexpect (hiff.mp (hskews.mp hsome))
    · rename_i hnone
      rw [length_pos_iff] at hnone
      exact hright (iff_of_false (fun hfound => hnone (hskews.mpr hfound)) hexpect)

/-- **The loop.** -/
theorem wp_loop (hE : Fair c E) (fuel : Nat) (h : AtHead c k v w) :
    wp E (fun _ _ _ => True) (loop c fuel v) (Ends c (k + fuel)) w := by
  induction fuel generalizing k v w with
  | zero => exact ⟨h.rounds, h.begun⟩
  | succ fuel ih =>
    show wp E _ (if ¬ w.st ∨ c.atLeastOnce ∧ ¬ v.ranOnce then _ else _) _ w
    split
    · rename_i hgo
      rw [wp_bind]
      refine wp_mono ?_ (wp_round hE h hgo)
      rintro (v' | e | _) w' h'
      · have hrest := ih h'
        rw [Nat.add_right_comm] at hrest
        exact hrest
      · exact .inl h'
      · exact h'.elim
    · rename_i hstop
      rw [not_or, not_and, not_not] at hstop
      exact wp_verdict h fun honce => not_not.mp (hstop.2 honce)

/-- From the `n`-th round on there is a stop request, and no first result to wait for. -/
def DoneAfter (c : ClockSkewCheck) (n : Nat) (log : List (Event sig Bool η)) : Prop :=
  ∀ later e before, log = later ++ e :: before → e.op.isWait = true → n ≤ rounds before →
    e.st = true ∧ (c.atLeastOnce = true → RanOnce c (reports before))

theorem exists_round (h : n < rounds log) :
    ∃ later e before, log = later ++ e :: before ∧ e.op.isWait = true ∧ rounds before = n := by
  induction log with
  | nil => exact absurd h (Nat.not_lt_zero n)
  | cons e log ih =>
    by_cases hlog : n < rounds log
    · obtain ⟨later, e', before, rfl, hwait, hn⟩ := ih hlog
      exact ⟨e :: later, e', before, rfl, hwait, hn⟩
    · rw [rounds, countP_cons] at h
      rw [rounds] at hlog
      refine ⟨[], e, log, rfl, ?_, ?_⟩
      · by_contra hwait
        rw [if_neg hwait] at h
        exact hlog h
      · rw [rounds]
        split at h
        · omega
        · omega

theorem not_cut {fuel : Nat} (hbegun : Begun c log) (hdone : DoneAfter c n log) (hn : n < fuel) :
    rounds log ≠ fuel := by
  intro hrounds
  obtain ⟨later, e, before, heq, hwait, hbefore⟩ := exists_round (hrounds ▸ hn)
  obtain ⟨hstop, hran⟩ := hdone later e before heq hwait (le_of_eq hbefore.symm)
  rcases hbegun later e before heq hwait with hst | ⟨honce, hnot⟩
  · exact absurd (hst.symm.trans hstop) Bool.false_ne_true
  · exact hnot (hran honce)

/-- **The verdict of the clock skew check.** A run that ends, and not with the timeout, raises exactly if
it may fail and has not seen what it expects. With `at_least_once` it returns only after a finished round
or an expected skew, and times out only when told to stop long enough ago. It ends once it need not wait.
-/
theorem do_check_verdict (hE : Fair c E) (fuel : Nat) {stopping : Bool} {x : η} {r : Outcome PyError Unit}
    {w : World sig Bool η} (hrun : Exec E (doCheck c fuel) ⟨stopping, x, []⟩ r w) :
    (r ≠ .cut → r ≠ .exn timeoutError → ((∃ e, r = .exn e) ↔
      c.neverFail = false ∧ ¬ (FoundSkew c (reports w.log) ↔ c.expectSkew = true))) ∧
    (c.atLeastOnce = true → r = .ret () → RanOnce c (reports w.log)) ∧
    (r = .exn timeoutError → c.atLeastOnce = true ∧ 0 < c.atLeastOnceTimeout ∧ Expired c w.log) ∧
    (∀ n < fuel, DoneAfter c n w.log → r ≠ .cut) := by
  have hstart : AtHead c 0 ⟨[], false, none⟩ (⟨stopping, x, []⟩ : World sig Bool η) := by
    refine ⟨⟨?_, ?_⟩, ?_, rfl, fun _ e he => absurd he not_mem_nil, fun t ht => nomatch ht⟩
    · simp [FoundSkew, reports]
    · simp [RanOnce, reports]
    · intro later e before heq
      simp at heq
  have hends := wp_post (wp_loop hE fuel hstart) hrun
  rw [Nat.zero_add] at hends
  cases r with
  | ret _ =>
    obtain ⟨hverdict, hran⟩ := hends
    refine ⟨fun _ _ => ?_, fun honce _ => hran honce, (nomatch ·), fun _ _ _ => (nomatch ·)⟩
    refine iff_of_false (fun ⟨e, he⟩ => nomatch he) fun ⟨hnever, hwrong⟩ => ?_
    rcases hverdict with hverdict | hverdict
    · exact absurd (hnever.symm.trans hverdict) Bool.false_ne_true
    · exact hwrong hverdict
  | exn e =>
    rcases hends with htimed | ⟨hother, hwrong⟩
    · have hexn : Outcome.exn (α := Unit) e = .exn timeoutError := by rw [htimed.error]
      refine ⟨fun _ hne => absurd hexn hne, fun _ => (nomatch ·), fun _ => ?_, fun _ _ _ => (nomatch ·)⟩
      exact ⟨htimed.atLeastOnce, htimed.positive, htimed.expired⟩
    · refine ⟨fun _ _ => iff_of_true ⟨e, rfl⟩ hwrong, fun _ => (nomatch ·), fun h => ?_,
        fun _ _ _ => (nomatch ·)⟩
      exact absurd (Outcome.exn.inj h) hother
  | cut =>
    obtain ⟨hrounds, hbegun⟩ := hends
    refine ⟨fun h => absurd rfl h, fun _ => (nomatch ·), (nomatch ·), fun n hn hdone => ?_⟩
    exact absurd hrounds (not_cut hbegun hdone hn)

end Runs

def byDefault : ClockSkewCheck := { quorumSize := 2, str := fun _ => "", maxSkew := 1 / 20 }

def skewed : Timechecks :=
  ⟨"finished", 2, some [⟨"a", 0, "HEALTH_OK", ""⟩, ⟨"b", 1, "HEALTH_WARN", "clock skew"⟩]⟩

def skewedAnswer : (o : Op) → Bool → Unit → o.Ans × Bool × Unit
  | .time, stopping, x => (0, stopping, x)
  | .sleep _, stopping, x => ((), stopping, x)
  | .waitForMonQuorumSize _, stopping, x => (.ok (), stopping, x)
  | .getMonHealth, _, x => (.ok skewed, true, x)

def Skewed : Env sig Bool Unit := fun o s x a s' x' => (a, s', x') = skewedAnswer o s x

theorem wellFormed_skewed : WellFormed byDefault skewed := by
  refine ⟨fun _ => ⟨rfl, by decide⟩, fun h => absurd rfl h, fun _ check hcheck hover => ?_⟩
  simp only [skewed, Option.getD_some, mem_cons, not_mem_nil, or_false] at hcheck
  rcases hcheck with rfl | rfl
  · exact absurd hover (by simp [byDefault])
  · rfl

theorem fair_skewed : Fair byDefault Skewed where
  stays := by
    intro o s x a s' x' h hs
    cases o with
    | getMonHealth => exact congrArg (·.2.1) h
    | time | sleep | waitForMonQuorumSize => exact (congrArg (·.2.1) h).trans hs
  quorum h := congrArg (·.1) h
  health h := ⟨skewed, congrArg (·.1) h, wellFormed_skewed⟩

theorem examine_skewed :
    examine byDefault ⟨[], false, none⟩ skewed = .ok ⟨[("b", 1, "clock skew")], true, none⟩ := by
  have ha : addSkew byDefault [] ⟨"a", 0, "HEALTH_OK", ""⟩ = .ok [] :=
    if_neg (by norm_num [byDefault])
  have hb : addSkew byDefault [] ⟨"b", 1, "HEALTH_WARN", "clock skew"⟩ = .ok [("b", 1, "clock skew")] :=
    (if_pos (by norm_num [byDefault])).trans (if_pos rfl)
  show ([⟨"a", 0, "HEALTH_OK", ""⟩, ⟨"b", 1, "HEALTH_WARN", "clock skew"⟩].foldlM (addSkew byDefault) [] >>=
    fun skews => Except.ok (seen byDefault ⟨[], false, none⟩ true skews)) = _
  rw [foldlM_cons, ha]
  show ([⟨"b", 1, "HEALTH_WARN", "clock skew"⟩].foldlM (addSkew byDefault) [] >>= _) = _
  rw [foldlM_cons, hb]
  rfl

theorem do_check_verdict_skewed : ∃ e w, Exec Skewed (doCheck byDefault 2) ⟨false, (), []⟩ (.exn e) w ∧
    e ≠ timeoutError ∧ FoundSkew byDefault (reports w.log) := by
  have hanswer : ∀ o s x, Skewed o s x (skewedAnswer o s x).1 (skewedAnswer o s x).2.1
      (skewedAnswer o s x).2.2 := fun _ _ _ => rfl
  have hrun := exec_runWith hanswer (doCheck byDefault 2) ⟨false, (), []⟩
  have hsleep : (0 : ℚ) < byDefault.checkInterval := by norm_num [byDefault]
  have hexn : (runWith skewedAnswer (doCheck byDefault 2) ⟨false, (), []⟩).1 =
      .exn (.assertionError "We were not expecting a skew, but we did find it!") := by
    simp [doCheck, loop, round, kickOff, waitForMonQuorumSize, getMonHealth, ofCommand, runWith,
      skewedAnswer, examine_skewed, orThrow, sleepInterval, onlyIf, hsleep]
    rfl
  rw [hexn] at hrun
  have hother : PyError.assertionError "We were not expecting a skew, but we did find it!" ≠
      timeoutError := by decide
  obtain ⟨hverdict, -⟩ := do_check_verdict fair_skewed 2 hrun
  obtain ⟨-, hwrong⟩ := (hverdict (nomatch ·) fun h => hother (Outcome.exn.inj h)).mp ⟨_, rfl⟩
  refine ⟨_, _, hrun, hother, ?_⟩
  by_contra hnone
  exact hwrong (iff_of_false hnone Bool.false_ne_true)

end ZbkcTasks.ClockSkew
