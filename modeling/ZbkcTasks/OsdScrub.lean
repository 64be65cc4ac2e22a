import Mathlib.Data.List.TakeWhile
import ZbkcTasks.PyProg
import ZbkcTasks.PyText
import ZbkcTasks.TextLines

/-! `osd_scrub_pgs` of `tasks/zbkc.py`: wait for clean PGs, scrub all OSDs, and wait until all stamps are
later than before. The second wait gives up after thirteen snapshots without a new best. -/

namespace ZbkcTasks.OsdScrub

open List Prog TextLines

abbrev Text := List Char

/-- A `struct_time`, which is compared as the tuple of its fields. -/
abbrev StructTime := List Int

structure PgStat where
  state : String
  lastScrubStamp : Text

inductive Op
  | pgStats
  | localtime
  | deepScrub (id : String)
  | log (msg : String)
  | sleep (t : Nat)
  deriving DecidableEq

@[reducible] def Op.Ans : Op → Type
  | .pgStats => List PgStat
  | .localtime => StructTime
  | .deepScrub _ => Unit
  | .log _ => Unit
  | .sleep _ => Unit

abbrev sig : Sig := ⟨Op, Op.Ans⟩

abbrev M (α : Type) := Prog sig Unit PyError α

def log (msg : String) : M Unit := .op (.log msg) .ret

def sleep (t : Nat) : M Unit := .op (.sleep t) .ret

def retries : Nat := 12

def delays : Nat := 10

def notClean : String := "Scrubbing terminated -- not all pgs were active and clean."

def notScrubbed : String := "Exiting scrub checking -- not all pgs scrubbed."

/-- `len(set(states)) == 1 and states[0] == 'active+clean'`. -/
def allActiveClean (stats : List PgStat) : Bool :=
  let states := stats.map PgStat.state
  decide (states.dedup.length = 1) && decide (states.head? = some "active+clean")

def waitClean : Nat → M Bool
  | 0 => .ret false
  | tries + 1 => .op .pgStats fun stats =>
      if allActiveClean stats then .ret true
      else do
        log "Waiting for all osds to be active and clean."
        sleep delays
        waitClean tries

/-! ### Stamps -/

def decimal (digits : Text) : Nat := Nat.ofDigitChars 10 digits 0

/-- A number of one digit. -/
def readDigit (low : Nat) : Text → Option (Nat × Text)
  | c :: text => if c.isDigit ∧ low ≤ decimal [c] then some (decimal [c], text) else none
  | [] => none

/-- A number between these bounds, of two digits if there are two that are such a number. -/
def readField (low high : Nat) (text : Text) : Option (Nat × Text) :=
  let value := decimal (text.take 2)
  if (text.take 2).length = 2 ∧ isDigits (text.take 2) ∧ low ≤ value ∧ value ≤ high then
    some (value, text.drop 2)
  else readDigit low text

def readYear (text : Text) : Option (Nat × Text) :=
  if (text.take 4).length = 4 ∧ isDigits (text.take 4) then some (decimal (text.take 4), text.drop 4)
  else none

/-- A day may have a blank for its first digit. -/
def readDay : Text → Option (Nat × Text)
  | ' ' :: text => readDigit 1 text
  | text => readField 1 31 text

def skip (c : Char) : Text → Option Text
  | d :: text => if d = c then some text else none
  | [] => none

def skipBlanks (text : Text) : Option Text :=
  if text.dropWhile isBlank = text then none else some (text.dropWhile isBlank)

/-- What `%Y-%m-%d %H:%M:%S` reads: the date and the time. -/
def readStamp (text : Text) : Option ((Nat × Nat × Nat) × (Nat × Nat × Nat)) := do
  let (year, text) ← readYear text
  let (month, text) ← skip '-' text >>= readField 1 12
  let (day, text) ← skip '-' text >>= readDay
  let (hour, text) ← skipBlanks text >>= readField 0 23
  let (minute, text) ← skip ':' text >>= readField 0 59
  let (second, text) ← skip ':' text >>= readField 0 61
  if text = [] then some ((year, month, day), (hour, minute, second)) else none

def isLeap (year : Nat) : Bool := year % 4 = 0 ∧ (year % 100 ≠ 0 ∨ year % 400 = 0)

def monthLengths (year : Nat) : List Nat :=
  [31, if isLeap year then 29 else 28, 31, 30, 31, 30, 31, 31, 30, 31, 30, 31]

/-- `time.strptime(text, '%Y-%m-%d %H:%M:%S')`, with the day of the week and of the year. -/
def strptime (text : Text) : Except PyError StructTime :=
  match readStamp text with
  | none => .error .valueError
  | some ((year, month, day), (hour, minute, second)) =>
      let yday := ((monthLengths year).take (month - 1)).sum + day
      let ordinal := 365 * (year - 1) + (year - 1) / 4 - (year - 1) / 100 + (year - 1) / 400 + yday
      if 1 ≤ year ∧ day ≤ (monthLengths year).getD (month - 1) 0 then
        .ok [year, month, day, hour, minute, second, (ordinal + 6 : Nat) % 7, yday, -1]
      else .error .valueError

/-- `tmval[0:tmval.find('.')]`, which without a dot leaves out the last character. -/
def seconds (tmval : Text) : Text := if '.' ∈ tmval then tmval.takeWhile (· ≠ '.') else tmval.dropLast

def countLater (now : StructTime) : List PgStat → Except PyError (Nat × Bool)
  | [] => .ok (0, false)
  | stat :: stats => do
      let pgtm ← strptime (seconds stat.lastScrubStamp)
      let counted ← countLater now stats
      return if now < pgtm then (counted.1 + 1, counted.2) else (counted.1, true)

def waiting : M Unit := do
  log "Still waiting for all pgs to be scrubbed."
  sleep delays

def scrubLoop (now : StructTime) : Nat → Nat → Nat → M Unit
  | 0, _, _ => .cut
  | fuel + 1, prevGood, gapCnt => .op .pgStats fun stats => do
      let counted ← orThrow (countLater now stats)
      let best := if prevGood < counted.1 then counted.1 else prevGood
      let gap := if prevGood < counted.1 then 0 else gapCnt + 1
      if retries < gap then log notScrubbed
      else if counted.2 then do
        waiting
        scrubLoop now fuel best gap
      else .ret ()

/-- `osds` are the roles of the OSDs of the cluster with their ids. -/
def osdScrubPgs (osds : List (String × String)) (fuel : Nat) : M Unit := do
  let allClean ← waitClean retries
  if allClean then .op .localtime fun now => do
    sleep 1
    forEach osds fun osd => do
      log ("Scrubbing " ++ osd.1)
      .op (.deepScrub osd.2) .ret
    scrubLoop now fuel 0 0
  else log notClean

/-! ### Runs -/

/-- The snapshots that are read one after the other, with stamps that can be read. -/
structure Snapshots where
  stats : Nat → List PgStat
  readable : ∀ n, ∀ pg ∈ stats n, ∃ time, strptime (seconds pg.lastScrubStamp) = .ok time

abbrev W := World sig Unit Nat

def Snapshots.env (s : Snapshots) (now : StructTime) : Env sig Unit Nat := fun o _ n ans _ n' =>
  match o, ans with
  | .pgStats, stats => stats = s.stats n ∧ n' = n + 1
  | .localtime, time => time = now ∧ n' = n
  | .deepScrub _, _ => n' = n
  | .log _, _ => n' = n
  | .sleep _, _ => n' = n

def ops (w : W) : List Op := (w.log.map Event.op).reverse

def firstPhase (w : W) : List Op := (ops w).takeWhile (· ≠ .localtime)

def secondPhase (w : W) : List Op := (ops w).dropWhile (· ≠ .localtime)

def Clean (stats : List PgStat) : Prop := stats ≠ [] ∧ ∀ pg ∈ stats, pg.state = "active+clean"

def Later (now : StructTime) (stats : List PgStat) : Prop :=
  ∀ pg ∈ stats, ∃ time, strptime (seconds pg.lastScrubStamp) = .ok time ∧ now < time

/-- It returns after so many snapshots, and does not claim more than it saw. -/
structure Honest (s : Snapshots) (N : Nat) (now : StructTime) (r : Outcome PyError Unit) (w : W) :
    Prop where
  returns : r = .ret ()
  first : (firstPhase w).count .pgStats ≤ 12
  second : (secondPhase w).count .pgStats ≤ 13 * (N + 1)
  honest : .log notClean ∉ ops w → .log notScrubbed ∉ ops w →
    (∃ n < (firstPhase w).count .pgStats, Clean (s.stats n)) ∧
      ∃ n, w.ext = n + 1 ∧ (firstPhase w).count .pgStats ≤ n ∧ Later now (s.stats n)

/-! ### Snapshots -/

variable {stats : List PgStat} {w : W} {fuel : Nat}

theorem clean_of_allActiveClean (h : allActiveClean stats = true) : Clean stats := by
  obtain ⟨hone, hhead⟩ := (Bool.and_eq_true_iff.mp h).imp of_decide_eq_true of_decide_eq_true
  have hfirst : "active+clean" ∈ (stats.map PgStat.state).dedup :=
    mem_dedup.mpr (mem_of_mem_head? hhead)
  obtain ⟨state, hstate⟩ := length_eq_one_iff.mp hone
  have heq : "active+clean" = state := by simpa [hstate] using hfirst
  refine ⟨fun hnil => by simp [hnil] at hhead, fun pg hpg => ?_⟩
  have hmem := mem_dedup.mpr (mem_map_of_mem (f := PgStat.state) hpg)
  rw [hstate, mem_singleton] at hmem
  rw [hmem, heq]

theorem countLater_eq (now : StructTime)
    (h : ∀ pg ∈ stats, ∃ time, strptime (seconds pg.lastScrubStamp) = .ok time) :
    ∃ cnt loop, countLater now stats = .ok (cnt, loop) ∧ cnt ≤ stats.length ∧
      (loop = false → Later now stats) := by
  induction stats with
  | nil => exact ⟨0, false, rfl, Nat.le_refl _, fun _ _ hpg => absurd hpg (by simp)⟩
  | cons stat stats ih =>
    obtain ⟨⟨time, htime⟩, hrest⟩ := forall_mem_cons.mp h
    obtain ⟨cnt, loop, hcount, hle, hlater⟩ := ih hrest
    have heq : countLater now (stat :: stats) =
        .ok (if now < time then (cnt + 1, loop) else (cnt, true)) := by
      rw [countLater, htime, hcount]
      rfl
    rw [heq, length_cons]
    by_cases hnow : now < time
    · rw [if_pos hnow]
      refine ⟨_, _, rfl, Nat.succ_le_succ hle, fun hloop => ?_⟩
      exact forall_mem_cons.mpr ⟨⟨time, htime, hnow⟩, hlater hloop⟩
    · rw [if_neg hnow]
      exact ⟨_, _, rfl, Nat.le_succ_of_le hle, fun hloop => absurd hloop (by simp)⟩

structure Adds (w w' : W) (new : List Op) : Prop where
  ops_eq : ops w' = ops w ++ new
  ext_eq : w'.ext = w.ext + new.count .pgStats

theorem Adds.refl (w : W) : Adds w w [] := ⟨by simp, by simp⟩

theorem Adds.trans {w1 w2 : W} {new new' : List Op} (h : Adds w w1 new) (h' : Adds w1 w2 new') :
    Adds w w2 (new ++ new') where
  ops_eq := by rw [h'.ops_eq, h.ops_eq, append_assoc]
  ext_eq := by rw [h'.ext_eq, h.ext_eq, count_append, Nat.add_assoc]

theorem adds_poll (w : W) (stats : List PgStat) (u : Unit) :
    Adds w (w.push .pgStats stats u (w.ext + 1)) [.pgStats] :=
  ⟨by simp [ops, World.push], by simp⟩

theorem adds_quiet (w : W) {o : Op} (ho : o ≠ .pgStats) (a : o.Ans) (u : Unit) :
    Adds w (World.push w o a u w.ext) [o] :=
  ⟨by simp [ops, World.push], by simp [ho]⟩

section Runs

variable {s : Snapshots} {now : StructTime} {N : Nat}

abbrev Snapshots.ends {α : Type} (s : Snapshots) (now : StructTime) (p : M α)
    (Q : Outcome PyError α → W → Prop) (w : W) : Prop :=
  wp (s.env now) (fun _ _ _ => True) p Q w

theorem ends_log {α : Type} {msg : String} {p : M α} {Q : Outcome PyError α → W → Prop}
    (h : ∀ w', Adds w w' [.log msg] → s.ends now p Q w') : s.ends now (log msg >>= fun _ => p) Q w := by
  refine ⟨trivial, ?_⟩
  rintro - u n rfl
  exact h _ (adds_quiet w (by simp) _ u)

theorem ends_sleep {α : Type} {t : Nat} {p : M α} {Q : Outcome PyError α → W → Prop}
    (h : ∀ w', Adds w w' [.sleep t] → s.ends now p Q w') : s.ends now (sleep t >>= fun _ => p) Q w := by
  refine ⟨trivial, ?_⟩
  rintro - u n rfl
  exact h _ (adds_quiet w (by simp) _ u)

/-- **The first wait.** -/
theorem ends_waitClean : ∀ tries (w : W), s.ends now (waitClean tries) (returns fun clean w' => ∃ new,
    Adds w w' new ∧ .localtime ∉ new ∧ new.count .pgStats ≤ tries ∧
      (clean = true → ∃ n, w.ext ≤ n ∧ n < w'.ext ∧ Clean (s.stats n))) w := by
  intro tries
  induction tries with
  | zero => exact fun w => ⟨[], .refl w, by simp, by simp, by simp⟩
  | succ tries ih =>
    intro w
    refine ⟨trivial, ?_⟩
    rintro stats u n ⟨rfl, rfl⟩
    have hpoll := adds_poll w (s.stats w.ext) u
    beta_reduce
    split
    next hclean =>
      refine ⟨_, hpoll, by simp, by simp, fun _ => ⟨w.ext, Nat.le_refl _, Nat.lt_succ_self _, ?_⟩⟩
      exact clean_of_allActiveClean hclean
    next =>
      refine ends_log fun w1 hlog => ends_sleep fun w2 hsleep => ?_
      have hround := (hpoll.trans hlog).trans hsleep
      refine wp_result ?_ (ih w2)
      rintro clean w' ⟨new, hadds, hnew, hcount, hfound⟩
      refine ⟨_, hround.trans hadds, by simpa using hnew, ?_, fun hclean => ?_⟩
      · simp only [count_append]
        simp
        omega
      · obtain ⟨n, hn, hlt, hcleanAt⟩ := hfound hclean
        have := hround.ext_eq
        exact ⟨n, by omega, hlt, hcleanAt⟩

/-- **The second wait.** The best count so far rises at most `N` times, and between two rises there are at
most twelve snapshots. -/
theorem ends_scrubLoop (hN : ∀ n, (s.stats n).length ≤ N) : ∀ fuel best gap (w : W), best ≤ N → gap ≤ 12 →
    13 * (N + 1) ≤ fuel + 13 * best + gap →
    s.ends now (scrubLoop now fuel best gap) (returns fun _ w' => ∃ new, Adds w w' new ∧
      new.count .pgStats + 13 * best + gap ≤ 13 * (N + 1) ∧
      (.log notScrubbed ∉ new → ∃ n, w'.ext = n + 1 ∧ w.ext ≤ n ∧ Later now (s.stats n))) w := by
  intro fuel
  induction fuel with
  | zero => intro best gap w hbest hgap hfuel; omega
  | succ fuel ih =>
    intro best gap w hbest hgap hfuel
    refine ⟨trivial, ?_⟩
    rintro stats u n ⟨rfl, rfl⟩
    have hpoll := adds_poll w (s.stats w.ext) u
    obtain ⟨cnt, loop, hcount, hcnt, hlater⟩ := countLater_eq now (s.readable w.ext)
    have hle := hcnt.trans (hN w.ext)
    beta_reduce
    rw [hcount]
    show s.ends now (if retries < (if best < cnt then 0 else gap + 1) then log notScrubbed
      else if loop then waiting >>= fun _ => scrubLoop now fuel
        (if best < cnt then cnt else best) (if best < cnt then 0 else gap + 1) else .ret ()) _ _
    generalize hbest' : (if best < cnt then cnt else best) = best'
    generalize hgap' : (if best < cnt then 0 else gap + 1) = gap'
    -- a rise of the best count makes up for the snapshots since the last one
    have hround : best' ≤ N ∧ gap' ≤ 13 ∧ 13 * best + gap + 1 ≤ 13 * best' + gap' := by
      by_cases hrise : best < cnt
      · rw [if_pos hrise] at hbest' hgap'
        omega
      · rw [if_neg hrise] at hbest' hgap'
        omega
    split
    next hgaveUp =>
      refine ⟨trivial, ?_⟩
      rintro - v n rfl
      refine ⟨_, hpoll.trans (adds_quiet _ (by simp) _ v), ?_, fun h => absurd (by simp) h⟩
      simp
      omega
    next hgap'' =>
      have hlt : gap' ≤ 12 := Nat.not_lt.mp hgap''
      split
      next =>
        refine ends_log fun w1 hlog => ends_sleep fun w2 hsleep => ?_
        have hadded := (hpoll.trans hlog).trans hsleep
        refine wp_result ?_ (ih best' gap' w2 hround.1 hlt (by omega))
        rintro _ w' ⟨new, hadds, hcount', hscrubbed⟩
        refine ⟨_, hadded.trans hadds, ?_, fun h => ?_⟩
        · simp only [count_append]
          simp
          omega
        · obtain ⟨n, hn, hle', hlater'⟩ := hscrubbed fun hmem => h (by simp [hmem])
          have := hadded.ext_eq
          exact ⟨n, hn, by omega, hlater'⟩
      next hloop =>
        refine ⟨_, hpoll, ?_, fun _ => ⟨w.ext, rfl, Nat.le_refl _, hlater (Bool.eq_false_iff.mpr hloop)⟩⟩
        simp
        omega

theorem ends_forEach_scrub (osds : List (String × String)) : ∀ w : W,
    s.ends now (forEach osds fun osd => log ("Scrubbing " ++ osd.1) >>= fun _ =>
      .op (.deepScrub osd.2) .ret)
      (returns fun _ w' => ∃ new, Adds w w' new ∧ new.count .pgStats = 0) w := by
  induction osds with
  | nil => exact fun w => ⟨[], .refl w, rfl⟩
  | cons osd osds ih =>
    intro w
    refine wp_bind.mpr (ends_log fun w1 hlog => ⟨trivial, ?_⟩)
    rintro - u n rfl
    show s.ends now (forEach osds _) _ _
    refine wp_result ?_ (ih _)
    rintro _ w' ⟨new, hadds, hcount⟩
    refine ⟨_, (hlog.trans (adds_quiet w1 (by simp) _ u)).trans hadds, ?_⟩
    simp [hcount]

theorem phases_eq {first second : List Op} (hops : ops w = first ++ .localtime :: second)
    (hnone : .localtime ∉ first) : firstPhase w = first ∧ secondPhase w = .localtime :: second := by
  rw [firstPhase, secondPhase, hops]
  exact ⟨takeWhile_append_sep hnone second, dropWhile_append_sep hnone second⟩

theorem phases_eq_of_notMem (hnone : .localtime ∉ ops w) : firstPhase w = ops w ∧ secondPhase w = [] := by
  have hall : ∀ o ∈ ops w, decide (o ≠ .localtime) = true := fun o ho =>
    decide_eq_true fun heq => hnone (heq ▸ ho)
  exact ⟨takeWhile_eq_self_iff.mpr hall, dropWhile_eq_nil_iff.mpr hall⟩

theorem ends_afterCheck (hN : ∀ n, (s.stats n).length ≤ N) (osds : List (String × String))
    (hfuel : 13 * (N + 1) ≤ fuel) (w : W) :
    s.ends now (sleep 1 >>= fun _ => (forEach osds fun osd => log ("Scrubbing " ++ osd.1) >>= fun _ =>
      .op (.deepScrub osd.2) .ret) >>= fun _ => scrubLoop now fuel 0 0)
      (returns fun _ w' => ∃ new, Adds w w' new ∧ new.count .pgStats ≤ 13 * (N + 1) ∧
        (.log notScrubbed ∉ new → ∃ n, w'.ext = n + 1 ∧ w.ext ≤ n ∧ Later now (s.stats n))) w := by
  refine ends_sleep fun w1 hsleep => wp_seq (ends_forEach_scrub osds w1) ?_
  rintro _ w2 ⟨scrubs, hscrubs, hzero⟩
  have hadded := hsleep.trans hscrubs
  have hstart : 13 * (N + 1) ≤ fuel + 13 * 0 + 0 := by omega
  refine wp_result ?_
    (ends_scrubLoop hN fuel 0 0 w2 (Nat.zero_le _) (Nat.zero_le _) hstart)
  rintro _ w' ⟨new, hadds, hcount, hlater⟩
  refine ⟨_, hadded.trans hadds, ?_, fun h => ?_⟩
  · simp only [count_append]
    simp [hzero]
    omega
  · obtain ⟨n, hn, hle, hlater'⟩ := hlater fun hmem => h (by simp [hmem])
    have := hadded.ext_eq
    exact ⟨n, hn, by omega, hlater'⟩

theorem ends_osdScrubPgs (hN : ∀ n, (s.stats n).length ≤ N) (osds : List (String × String))
    (hfuel : 13 * (N + 1) ≤ fuel) :
    s.ends now (osdScrubPgs osds fuel) (Honest s N now) ⟨(), 0, []⟩ := by
  refine wp_bind.mpr (wp_mono ?_ (ends_waitClean retries _))
  rintro (clean | e | _) w1 h1
  · obtain ⟨first, hfirst, hnone, hcount, hclean⟩ := h1
    have hops : ops w1 = first := hfirst.ops_eq
    cases clean with
    | false =>
      refine ⟨trivial, ?_⟩
      rintro - u n rfl
      have hgaveUp := hfirst.trans (adds_quiet w1 (o := .log notClean) (by simp) () u)
      have hall : ops (w1.push (.log notClean) () u w1.ext) = first ++ [.log notClean] := hgaveUp.ops_eq
      obtain ⟨hone, htwo⟩ := phases_eq_of_notMem (w := w1.push (.log notClean) () u w1.ext)
        (by rw [hall]; simp [hnone])
      refine ⟨rfl, ?_, ?_, fun h => absurd (by rw [hall]; simp) h⟩
      · rw [hone, hall]
        have hle : first.count .pgStats ≤ 12 := hcount
        simpa using hle
      · rw [htwo]
        simp
    | true =>
      refine ⟨trivial, ?_⟩
      rintro time u n ⟨rfl, rfl⟩
      have hcheck := hfirst.trans (adds_quiet w1 (o := .localtime) (by simp) time u)
      refine wp_mono ?_ (ends_afterCheck hN osds hfuel _)
      rintro (_ | e | _) w' h'
      · obtain ⟨new, hadds, hsecond, hlater⟩ := h'
        have hall : ops w' = first ++ .localtime :: new := by
          rw [hadds.ops_eq, hcheck.ops_eq]
          simp [ops]
        obtain ⟨hone, htwo⟩ := phases_eq hall hnone
        refine ⟨rfl, by rw [hone]; exact hcount, by rw [htwo]; simpa using hsecond, fun _ hscrubbed => ?_⟩
        have hext : w1.ext = first.count .pgStats := by simpa using hfirst.ext_eq
        rw [hone, ← hext]
        obtain ⟨n, -, hn, hcleanAt⟩ := hclean rfl
        exact ⟨⟨n, hn, hcleanAt⟩, hlater fun hmem => hscrubbed (by rw [hall]; simp [hmem])⟩
      · exact h'.elim
      · exact h'.elim
  · exact h1.elim
  · exact h1.elim

theorem env_total (s : Snapshots) (now : StructTime) (o : Op) (u : Unit) (n : Nat) :
    ∃ a v n', s.env now o u n a v n' := by
  cases o with
  | pgStats | localtime => exact ⟨_, (), _, rfl, rfl⟩
  | deepScrub | log | sleep => exact ⟨(), (), _, rfl⟩

end Runs

/-- **Bounded and honest.** `osd_scrub_pgs` returns after at most 12 and `13 * (N + 1)` snapshots; if it
has not given up, all PGs were active and clean, and the last snapshot shows all of them scrubbed since. -/
theorem osd_scrub_pgs_honest (s : Snapshots) (now : StructTime) (N : Nat)
    (hN : ∀ n, (s.stats n).length ≤ N) (osds : List (String × String)) (fuel : Nat)
    (hfuel : 13 * (N + 1) ≤ fuel) :
    (∃ r w, Exec (s.env now) (osdScrubPgs osds fuel) ⟨(), 0, []⟩ r w) ∧
      ∀ r w, Exec (s.env now) (osdScrubPgs osds fuel) ⟨(), 0, []⟩ r w → Honest s N now r w :=
  ⟨exists_exec (env_total s now) _ _, fun _ _ hrun => wp_post (ends_osdScrubPgs hN osds hfuel) hrun⟩

def stillSnapshots : Snapshots where
  stats _ := [⟨"active+clean", "2016-03-04 05:06:07.000000".toList⟩]
  readable _ _ hpg := ⟨[2016, 3, 4, 5, 6, 7, 4, 64, -1], by rw [mem_singleton.mp hpg]; rfl⟩

theorem osd_scrub_pgs_still : (∀ n, (stillSnapshots.stats n).length ≤ 1) ∧
      (∃ r w, Exec (stillSnapshots.env [2016, 3, 5, 0, 0, 0, 5, 65, 0])
        (osdScrubPgs [("osd.0", "0")] 26) ⟨(), 0, []⟩ r w) ∧
      ∀ r w, Exec (stillSnapshots.env [2016, 3, 5, 0, 0, 0, 5, 65, 0])
        (osdScrubPgs [("osd.0", "0")] 26) ⟨(), 0, []⟩ r w →
          Honest stillSnapshots 1 [2016, 3, 5, 0, 0, 0, 5, 65, 0] r w := by
  have hN : ∀ n, (stillSnapshots.stats n).length ≤ 1 := fun _ => Nat.le_refl 1
  exact ⟨hN, osd_scrub_pgs_honest stillSnapshots _ 1 hN _ 26 (by decide)⟩

end ZbkcTasks.OsdScrub
