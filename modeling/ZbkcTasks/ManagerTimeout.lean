import Mathlib.Tactic.Linarith
import ZbkcTasks.ManagerWait
import ZbkcTasks.ProgRefine

/-! The timeout of the two waits. `Wait.polls` is a wait over the polls it depends on and the clock; the
methods are this program with each poll made of its commands. -/

namespace ZbkcTasks

open List Prog

/-! ### The polls -/

inductive Poll
  | done
  | progress
  | count
  | dump
  | time
  | sleep (t : ℚ)
  deriving DecidableEq

@[reducible] def Poll.Ans : Poll → Type
  | .done => Except CommandError Bool
  | .progress => Except CommandError Bool
  | .count => Except CommandError Nat
  | .dump => Except CommandError Unit
  | .time => ℚ
  | .sleep _ => Unit

abbrev pollSig : Sig := ⟨Poll, Poll.Ans⟩

abbrev Polls (α : Type) := Prog pollSig Manager PyError α

def poll (o : Poll) : Polls o.Ans := .op (S := pollSig) o .ret

def pollDone : Polls Bool := poll .done >>= ofCommand

def pollProgress : Polls Bool := poll .progress >>= ofCommand

def pollCount : Polls Nat := poll .count >>= ofCommand

def pollDump : Polls Unit := poll .dump >>= ofCommand

def pollTime : Polls ℚ := poll .time

def pollSleep (t : ℚ) : Polls Unit := poll (.sleep t)

def Wait.message : Wait → String
  | .clean => "failed to become clean before timeout expired"
  | .recovery => "failed to recover before timeout expired"

def pollCleanTimeout (timeout : Option ℚ) (start : ℚ) : Polls ℚ :=
  match timeout with
  | none => .ret start
  | some timeout => do
      let progress ← pollProgress
      if progress then pollTime
      else do
        let now ← pollTime
        if timeout ≤ now - start then do
          pollDump
          let now ← pollTime
          if now - start < timeout then .ret start
          else .throw (.assertionError Wait.clean.message)
        else .ret start

def pollRecoveryTimeout (timeout : Option ℚ) (start : ℚ) : Polls ℚ := do
  let now ← pollTime
  match timeout with
  | none => .ret start
  | some timeout => do
      let progress ← pollProgress
      if progress then pollTime
      else if timeout ≤ now - start then do
        pollDump
        if now - start < timeout then .ret start
        else .throw (.assertionError Wait.recovery.message)
      else .ret start

def Wait.pollCheck : Wait → Option ℚ → ℚ → Polls ℚ
  | .clean => pollCleanTimeout
  | .recovery => pollRecoveryTimeout

/-- A round of the loop that is not the last: the new `start` and count. -/
def pollRound (check : ℚ → Polls ℚ) (start : ℚ) (num : Nat) : Polls (ℚ × Nat) := do
  let start ← check start
  let cur ← pollCount
  let start ← (if cur ≠ num then pollTime else .ret start : Polls ℚ)
  pollSleep 3
  .ret (start, cur)

def pollLoop (check : ℚ → Polls ℚ) : Nat → ℚ → Nat → Polls Unit
  | 0, _, _ => .cut
  | fuel + 1, start, num => do
      let done ← pollDone
      if done then .ret ()
      else do
        let next ← pollRound check start num
        pollLoop check fuel next.1 next.2

def Wait.polls (wait : Wait) (timeout : Option ℚ) (fuel : Nat) : Polls Unit := do
  let start ← pollTime
  let num ← pollCount
  pollLoop (wait.pollCheck timeout) fuel start num

/-! ### The commands of a poll -/

def caught {α : Type} : PyError → Mgr (Except CommandError α)
  | .command e => .ret (.error e)
  | e => .throw e

def attempt {α : Type} (p : Mgr α) : Mgr (Except CommandError α) :=
  (p >>= fun a => .ret (.ok a)).catching caught

theorem attempt_bind_ofCommand {α : Type} (p : Mgr α) : (attempt p >>= fun r => ofCommand r) = p := by
  induction p with
  | ret | cut => rfl
  | throw e => cases e <;> rfl
  | read k ih | op o k ih => exact congrArg _ (funext ih)
  | write s k ih => exact congrArg _ ih

def Wait.commands (wait : Wait) : (o : Poll) → Mgr o.Ans
  | .done => attempt (isNumPgs (countPgs wait.test))
  | .progress => attempt getIsMakingRecoveryProgress
  | .count => attempt (countPgs wait.test)
  | .dump => attempt (ask .pgDump >>= ofCommand >>= fun _ => .ret ())
  | .time => ask .time
  | .sleep t => ask (.sleep t)

section Interp

variable (wait : Wait)

theorem attempt_bind_interp {β : Type} (p : Mgr β) :
    (attempt p >>= fun r => interp wait.commands (ofCommand r : Polls β)) = p := by
  have hraise :
      (fun r : Except CommandError β => interp wait.commands (ofCommand r : Polls β)) = ofCommand := by
    funext r
    cases r <;> rfl
  rw [hraise]
  exact attempt_bind_ofCommand p

theorem interp_pollDone : interp wait.commands pollDone =
    isNumPgs (countPgs wait.test) := attempt_bind_interp wait _

theorem interp_pollProgress : interp wait.commands pollProgress =
    getIsMakingRecoveryProgress := attempt_bind_interp wait _

theorem interp_pollCount : interp wait.commands pollCount = countPgs wait.test :=
  attempt_bind_interp wait _

theorem interp_pollDump : interp wait.commands pollDump =
    (ask .pgDump >>= ofCommand >>= fun _ => .ret ()) := attempt_bind_interp wait _

theorem interp_pollTime : interp wait.commands pollTime = ask .time := rfl

theorem interp_pollSleep (t : ℚ) : interp wait.commands (pollSleep t) = ask (.sleep t) := rfl

theorem interp_ite {α : Type} (c : Prop) [Decidable c] (p q : Polls α) :
    interp wait.commands (if c then p else q) =
      if c then interp wait.commands p else interp wait.commands q := by
  split <;> rfl

theorem interp_pollCheck (timeout : Option ℚ) (start : ℚ) :
    interp wait.commands (wait.pollCheck timeout start) = wait.check timeout start := by
  cases wait with
  | clean =>
    cases timeout with
    | none => rfl
    | some timeout =>
      simp only [Wait.pollCheck, pollCleanTimeout, Wait.check, checkCleanTimeout, interp_bind,
        interp_pollProgress, interp_pollTime, interp_pollDump, interp_ite, interp_ret, interp_throw,
        bind_assoc, ret_bind, Wait.message]
  | recovery =>
    cases timeout with
    | none => rfl
    | some timeout =>
      simp only [Wait.pollCheck, pollRecoveryTimeout, Wait.check, checkRecoveryTimeout, interp_bind,
        interp_pollProgress, interp_pollTime, interp_pollDump, interp_ite, interp_ret, interp_throw,
        bind_assoc, ret_bind, Wait.message]

theorem interp_pollLoop (timeout : Option ℚ) (fuel : Nat) (start : ℚ) (num : Nat) :
    interp wait.commands (pollLoop (wait.pollCheck timeout) fuel start num) =
      waitLoop (countPgs wait.test) (isNumPgs (countPgs wait.test)) (wait.check timeout) fuel start
        num := by
  induction fuel generalizing start num with
  | zero => rfl
  | succ fuel ih =>
    simp only [pollLoop, pollRound, waitLoop, interp_bind, interp_pollDone, interp_pollCheck,
      interp_pollCount, interp_pollTime, interp_pollSleep, interp_ite, interp_ret, bind_assoc, ret_bind, ih]

theorem interp_polls (timeout : Option ℚ) (fuel : Nat) :
    interp wait.commands (wait.polls timeout fuel) = wait.run timeout fuel := by
  rw [Wait.run_eq, Wait.polls, waitUntil]
  simp only [interp_bind, interp_pollTime, interp_pollCount, interp_pollLoop]

end Interp

/-! ### Clocks -/

/-- The clock does not go back, and `time.time()` reads it. -/
structure Clock (E : Env mgrSig Manager ℚ) : Prop where
  forward : ∀ {o m x a m' x'}, E o m x a m' x' → x ≤ x'
  reads : ∀ {m x m' x'} {now : ℚ}, E .time m x now m' x' → x ≤ now ∧ now ≤ x'

/-- The same of polls; the clock is part of the outside. -/
structure Ticks {η : Type} (clock : η → ℚ) (E : Env pollSig Manager η) : Prop where
  forward : ∀ {o m x a m' x'}, E o m x a m' x' → clock x ≤ clock x'
  reads : ∀ {m x m' x'} {now : ℚ}, E .time m x now m' x' → clock x ≤ now ∧ now ≤ clock x'

def Sleeps {η : Type} (clock : η → ℚ) (E : Env pollSig Manager η) : Prop :=
  ∀ {t m x u m' x'}, E (.sleep t) m x u m' x' → clock x + t ≤ clock x'

variable {E : Env mgrSig Manager ℚ}

theorem ticks_above (wait : Wait) (hE : Clock E) : Ticks Prod.fst (above E wait.commands) where
  forward h := wp_post (wp_ext_le (A := fun _ _ _ => True) (fun _ _ _ _ _ _ => hE.forward)
    (fun _ _ _ => trivial) _ _) h
  reads {m x m' x' now} h := by
    have hwp : wp E (fun _ _ _ => True) (ask .time)
        (fun r w' => ∀ now : ℚ, r = .ret now → x.1 ≤ now ∧ now ≤ w'.ext) ⟨m, x.1, x.2⟩ := by
      refine ⟨trivial, fun now' s t hstep now hnow => ?_⟩
      cases hnow
      exact hE.reads hstep
    exact wp_post hwp h now rfl

theorem commands_return (wait : Wait) (o : Poll) (w : MgrW ℚ) (r : Outcome PyError o.Ans)
    (w' : MgrW ℚ) (h : Exec E (wait.commands o) w r w') : ∃ a, r = .ret a := by
  have hwp : wp E (fun _ _ _ => True) (wait.commands o) (fun r _ => ∃ a, r = .ret a) w := by
    cases o with
    | done =>
      refine ⟨trivial, fun pgs s x _ => ?_⟩
      cases pgs with
      | error e => exact ⟨_, rfl⟩
      | ok pgs =>
        refine ⟨trivial, fun pgmap s x _ => ?_⟩
        cases pgmap <;> exact ⟨_, rfl⟩
    | time => exact ⟨trivial, fun now s x _ => ⟨_, rfl⟩⟩
    | sleep t => exact ⟨trivial, fun u s x _ => ⟨_, rfl⟩⟩
    | _ =>
      refine ⟨trivial, fun answer s x _ => ?_⟩
      cases answer <;> exact ⟨_, rfl⟩
  exact wp_post hwp h

/-! ### Logs of polls -/

section Log

variable {η : Type} (clock : η → ℚ)

abbrev PollEvent (η : Type) := Event pollSig Manager η

abbrev PollWorld (η : Type) := World pollSig Manager η

/-- The poll shows that nothing is happening: not done, no progress, and the count is `num`. -/
def Poll.Still (num : Nat) : (o : Poll) → o.Ans → Prop
  | .done, r => r = .ok false
  | .progress, r => r = .ok false
  | .count, r => r = .ok num
  | .dump, r => r = .ok ()
  | .time, _ => True
  | .sleep _, _ => True

def AllStill (num : Nat) (log : List (PollEvent η)) : Prop := ∀ e ∈ log, Poll.Still num e.op e.ans

/-- Part of a run: the polls in it, newest first. -/
structure Grew (w : PollWorld η) (part : List (PollEvent η)) (w' : PollWorld η) : Prop where
  log : w'.log = part ++ w.log
  later : clock w.ext ≤ clock w'.ext
  issued : ∀ e ∈ part, clock w.ext ≤ clock e.ext

variable {clock} {E : Env pollSig Manager η} {w w' w₁ : PollWorld η} {part : List (PollEvent η)}
  {timeout : Option ℚ}

theorem Grew.refl (w : PollWorld η) : Grew clock w [] w := ⟨rfl, le_rfl, by simp⟩

variable {x : η} {m : Manager} {start start' now : ℚ} {num : Nat} {message : String}
  {log : List (PollEvent η)}

theorem Grew.push (h : Grew clock w part w₁) (hE : Ticks clock E) {o : Poll} {a : o.Ans}
    (hstep : E o w₁.st w₁.ext a m x) :
    Grew clock w (⟨o, a, w₁.st, w₁.ext⟩ :: part) (w₁.push (S := pollSig) o a m x) where
  log := congrArg _ h.log
  later := h.later.trans (hE.forward hstep)
  issued := forall_mem_cons.mpr ⟨h.later, h.issued⟩

def Reads (clock : η → ℚ) (start : ℚ) (part : List (PollEvent η)) : Prop :=
  ∃ e rest, part = e :: rest ∧ e.op = .time ∧ clock e.ext ≤ start

def Since (clock : η → ℚ) (num : Nat) (start : ℚ) (log : List (PollEvent η)) : Prop :=
  ∃ later e earlier, log = later ++ e :: earlier ∧ e.op = .time ∧ clock e.ext ≤ start ∧
    AllStill num later

theorem Since.grew (h : Since clock num start w.log) (hgrew : Grew clock w part w')
    (hstill : AllStill num part) : Since clock num start w'.log := by
  obtain ⟨later, e, earlier, hlog, htime, hstart, hlater⟩ := h
  refine ⟨part ++ later, e, earlier, ?_, htime, hstart, forall_mem_append.mpr ⟨hstill, hlater⟩⟩
  rw [hgrew.log, hlog, append_assoc]

theorem Reads.since (h : Reads clock start part) (hgrew : Grew clock w part w') :
    Since clock num start w'.log := by
  obtain ⟨e, rest, rfl, htime, hstart⟩ := h
  exact ⟨[], e, rest ++ w.log, hgrew.log, htime, hstart, by simp [AllStill]⟩

/-! ### A round -/

def Aside (part : List (PollEvent η)) : Prop := ∀ e ∈ part, e.op ≠ .done ∧ e.op ≠ .count

/-- The newest poll of the part shows that something has happened. -/
def Stirred (part : List (PollEvent η)) : Prop :=
  ∃ e rest, part = e :: rest ∧ ∀ num, ¬ Poll.Still num e.op e.ans

/-- How the check of the timeout ends: the time is not up, or `start` is read again after progress; or it
raises. -/
def CheckEnd (clock : η → ℚ) (message : String) (timeout : Option ℚ) (start : ℚ) (w : PollWorld η) :
    Outcome PyError ℚ → PollWorld η → Prop
  | .ret start', w' => ∃ part, Grew clock w part w' ∧ Aside part ∧
      (start' = start ∧ (∀ num, AllStill num part) ∧ (∀ t ∈ timeout, clock w.ext - start < t) ∨
        Reads clock start' part ∧ start' ≤ clock w'.ext ∧ ∀ num, ¬ AllStill num part)
  | .exn e, w' => ∃ part, Grew clock w part w' ∧ Aside part ∧
      (e = .assertionError message ∧ (∃ t ∈ timeout, t ≤ clock w'.ext - start) ∧
          (∀ num, AllStill num part) ∨
        (∃ e', e = .command e') ∧ Stirred part)
  | .cut, _ => False

section Check

variable (hgrew : Grew clock w part w') (haside : Aside part)
include hgrew haside

theorem CheckEnd.kept (hstill : ∀ num, AllStill num part) (htime : ∀ t ∈ timeout, clock w.ext - start < t) :
    CheckEnd clock message timeout start w (.ret start) w' :=
  ⟨part, hgrew, haside, .inl ⟨rfl, hstill, htime⟩⟩

theorem CheckEnd.reset (hreads : Reads clock start' part) (hnow : start' ≤ clock w'.ext)
    (hmoved : ∀ num, ¬ AllStill num part) : CheckEnd clock message timeout start w (.ret start') w' :=
  ⟨part, hgrew, haside, .inr ⟨hreads, hnow, hmoved⟩⟩

theorem CheckEnd.expired {t : ℚ} (ht : t ∈ timeout) (htime : t ≤ clock w'.ext - start)
    (hstill : ∀ num, AllStill num part) :
    CheckEnd clock message timeout start w (.exn (.assertionError message)) w' :=
  ⟨part, hgrew, haside, .inl ⟨rfl, ⟨t, ht, htime⟩, hstill⟩⟩

theorem CheckEnd.failed {e : CommandError} (hstirred : Stirred part) :
    CheckEnd clock message timeout start w (.exn (.command e)) w' :=
  ⟨part, hgrew, haside, .inr ⟨⟨e, rfl⟩, hstirred⟩⟩

end Check

theorem wp_pollCleanTimeout (hE : Ticks clock E) (timeout : Option ℚ) (start : ℚ) (w : PollWorld η) :
    wp E (fun _ _ _ => True) (pollCleanTimeout timeout start)
      (CheckEnd clock Wait.clean.message timeout start w) w := by
  cases timeout with
  | none => exact .kept (.refl w) (by simp [Aside]) (by simp [AllStill]) (by simp)
  | some t =>
    refine ⟨trivial, fun r m x hpolled => ?_⟩
    have hgrew1 := (Grew.refl w).push hE hpolled
    rcases r with e | progress
    · exact .failed hgrew1 (by simp [Aside]) ⟨_, _, rfl, by simp [Poll.Still]⟩
    cases progress with
    | true =>
      refine ⟨trivial, fun now m x hread => ?_⟩
      exact .reset (hgrew1.push hE hread) (by simp [Aside]) ⟨_, _, rfl, rfl, (hE.reads hread).1⟩
        (hE.reads hread).2 (by simp [AllStill, Poll.Still])
    | false =>
      refine ⟨trivial, fun now m x hread => ?_⟩
      have hgrew2 := hgrew1.push hE hread
      have hnow : clock w.ext ≤ now := hgrew1.later.trans (hE.reads hread).1
      change wp E _ (if t ≤ now - start then _ else .ret start) _ _
      split
      · refine ⟨trivial, fun dumped m x hdumped => ?_⟩
        have hgrew3 := hgrew2.push hE hdumped
        rcases dumped with e | dumped
        · exact .failed hgrew3 (by simp [Aside]) ⟨_, _, rfl, by simp [Poll.Still]⟩
        refine ⟨trivial, fun now' m x hread' => ?_⟩
        have hgrew4 := hgrew3.push hE hread'
        have hnow' : clock w.ext ≤ now' := hgrew3.later.trans (hE.reads hread').1
        change wp E _ (if now' - start < t then .ret start else _) _ _
        split
        · next htime =>
          refine .kept hgrew4 (by simp [Aside]) (by simp [AllStill, Poll.Still]) ?_
          rintro _ ⟨⟩
          exact (sub_le_sub_right hnow' start).trans_lt htime
        · next htime =>
          have hend := (hE.reads hread').2
          refine .expired hgrew4 (by simp [Aside]) rfl ?_ (by simp [AllStill, Poll.Still])
          exact (not_lt.mp htime).trans (sub_le_sub_right hend start)
      · next htime =>
        refine .kept hgrew2 (by simp [Aside]) (by simp [AllStill, Poll.Still]) ?_
        rintro _ ⟨⟩
        exact (sub_le_sub_right hnow start).trans_lt (not_le.mp htime)

theorem wp_pollRecoveryTimeout (hE : Ticks clock E) (timeout : Option ℚ) (start : ℚ) (w : PollWorld η) :
    wp E (fun _ _ _ => True) (pollRecoveryTimeout timeout start)
      (CheckEnd clock Wait.recovery.message timeout start w) w := by
  refine ⟨trivial, fun now m x hread => ?_⟩
  have hgrew1 := (Grew.refl w).push hE hread
  have hnow := hE.reads hread
  cases timeout with
  | none => exact .kept hgrew1 (by simp [Aside]) (by simp [AllStill, Poll.Still]) (by simp)
  | some t =>
    refine ⟨trivial, fun r m x hpolled => ?_⟩
    have hgrew2 := hgrew1.push hE hpolled
    rcases r with e | progress
    · exact .failed hgrew2 (by simp [Aside]) ⟨_, _, rfl, by simp [Poll.Still]⟩
    cases progress with
    | true =>
      refine ⟨trivial, fun now m x hread => ?_⟩
      exact .reset (hgrew2.push hE hread) (by simp [Aside]) ⟨_, _, rfl, rfl, (hE.reads hread).1⟩
        (hE.reads hread).2 (by simp [AllStill, Poll.Still])
    | false =>
      split
      · next htime =>
        refine ⟨trivial, fun dumped m x hdumped => ?_⟩
        have hgrew3 := hgrew2.push hE hdumped
        rcases dumped with e | dumped
        · exact .failed hgrew3 (by simp [Aside]) ⟨_, _, rfl, by simp [Poll.Still]⟩
        rw [if_neg (not_lt.mpr htime)]
        refine .expired hgrew3 (by simp [Aside]) rfl ?_ (by simp [AllStill, Poll.Still])
        have hend : now ≤ _ := hnow.2.trans ((hE.forward hpolled).trans (hE.forward hdumped))
        exact htime.trans (sub_le_sub_right hend start)
      · next htime =>
        refine .kept hgrew2 (by simp [Aside]) (by simp [AllStill, Poll.Still]) ?_
        rintro _ ⟨⟩
        exact (sub_le_sub_right hnow.1 start).trans_lt (not_le.mp htime)

theorem wp_pollCheck (hE : Ticks clock E) (wait : Wait) (timeout : Option ℚ) (start : ℚ)
    (w : PollWorld η) : wp E (fun _ _ _ => True) (wait.pollCheck timeout start)
      (CheckEnd clock wait.message timeout start w) w := by
  cases wait with
  | clean => exact wp_pollCleanTimeout hE timeout start w
  | recovery => exact wp_pollRecoveryTimeout hE timeout start w

/-- What a stretch of polls without a test of the loop does to `start` and the count. -/
structure Carries (clock : η → ℚ) (timeout : Option ℚ) (start : ℚ) (num : Nat) (w : PollWorld η)
    (part : List (PollEvent η)) (w' : PollWorld η) (start' : ℚ) (num' : Nat) : Prop where
  grew : Grew clock w part w'
  inside : ∀ e ∈ part, e.op ≠ .done
  since : Since clock num start w.log → Since clock num' start' w'.log
  past : start ≤ clock w.ext → start' ≤ clock w'.ext
  still : ∀ c, AllStill c part → (num = c → start' = start) ∧ ∀ t ∈ timeout, clock w.ext - start < t

theorem Carries.of_check (h : CheckEnd clock message timeout start w (.ret start') w') (num : Nat) :
    ∃ part, Carries clock timeout start num w part w' start' num := by
  obtain ⟨part, hgrew, haside, ⟨rfl, hstill, htime⟩ | ⟨hreads, hnow, hmoved⟩⟩ := h
  · exact ⟨part, hgrew, fun e he => (haside e he).1, fun hsince => hsince.grew hgrew (hstill num),
      fun hpast => hpast.trans hgrew.later, fun _ _ => ⟨fun _ => rfl, htime⟩⟩
  · exact ⟨part, hgrew, fun e he => (haside e he).1, fun _ => hreads.since hgrew, fun _ => hnow,
      fun c hc => absurd hc (hmoved c)⟩

theorem Carries.push {num' : Nat} {w₁ : PollWorld η}
    (h : Carries clock timeout start num w part w₁ start' num') (hE : Ticks clock E) {o : Poll} {a : o.Ans}
    (hstep : E o w₁.st w₁.ext a m x) (ho : o ≠ .done) (hstill : o.Still num' a) :
    Carries clock timeout start num w (⟨o, a, w₁.st, w₁.ext⟩ :: part) (w₁.push (S := pollSig) o a m x)
      start' num' where
  grew := h.grew.push hE hstep
  inside := forall_mem_cons.mpr ⟨ho, h.inside⟩
  since hsince := (h.since hsince).grew ((Grew.refl w₁).push hE hstep) (by simpa [AllStill] using hstill)
  past hpast := (h.past hpast).trans (hE.forward hstep)
  still c hc := h.still c (forall_mem_cons.mp hc).2

theorem Carries.recount {cur : Nat} {w₁ : PollWorld η}
    (h : Carries clock timeout start num w part w₁ start' num) (hE : Ticks clock E) {m' : Manager} {x' : η}
    (hcount : E .count w₁.st w₁.ext (.ok cur) m x) (hne : cur ≠ num) (hread : E .time m x now m' x') :
    Carries clock timeout start num w (⟨.time, now, m, x⟩ :: ⟨.count, .ok cur, w₁.st, w₁.ext⟩ :: part)
      (World.push (S := pollSig) (w₁.push (S := pollSig) .count (.ok cur) m x) .time now m' x')
      now cur := by
  have hgrew := (h.grew.push hE hcount).push hE hread
  have hreads : Reads clock now (⟨.time, now, m, x⟩ :: ⟨.count, .ok cur, w₁.st, w₁.ext⟩ :: part) :=
    ⟨_, _, rfl, rfl, (hE.reads hread).1⟩
  refine ⟨hgrew, ?_, fun _ => hreads.since hgrew, fun _ => (hE.reads hread).2, fun c hc => ?_⟩
  · simpa using h.inside
  · have hcur : cur = c := Except.ok.inj (hc ⟨.count, .ok cur, w₁.st, w₁.ext⟩ (by simp))
    have hpart : AllStill c part := fun e he => hc e (.tail _ (.tail _ he))
    exact ⟨fun hnum => absurd (hcur.trans hnum.symm) hne, (h.still c hpart).2⟩

def RoundEnd (clock : η → ℚ) (E : Env pollSig Manager η) (message : String) (timeout : Option ℚ) (start : ℚ)
    (num : Nat) (w : PollWorld η) : Outcome PyError (ℚ × Nat) → PollWorld η → Prop
  | .ret next, w' => ∃ part, Carries clock timeout start num w part w' next.1 next.2 ∧
      (∀ c, AllStill c part → next.2 = c) ∧ (Sleeps clock E → clock w.ext + 3 ≤ clock w'.ext)
  | .exn e, w' => ∃ part, Grew clock w part w' ∧ (∀ e ∈ part, e.op ≠ .done) ∧
      (e = .assertionError message ∧ (∃ t ∈ timeout, t ≤ clock w'.ext - start) ∧
          (∀ num, AllStill num part) ∨
        (∃ e', e = .command e') ∧ Stirred part)
  | .cut, _ => False

theorem wp_pollRound (hE : Ticks clock E) (wait : Wait) (timeout : Option ℚ) (start : ℚ) (num : Nat)
    (w : PollWorld η) : wp E (fun _ _ _ => True) (pollRound (wait.pollCheck timeout) start num)
      (RoundEnd clock E wait.message timeout start num w) w := by
  rw [pollRound, wp_bind]
  refine wp_mono ?_ (wp_pollCheck hE wait timeout start w)
  rintro (start' | e | _) w₁ h1
  · obtain ⟨part, hcarries⟩ := Carries.of_check h1 num
    refine ⟨trivial, fun r m x hcount => ?_⟩
    rcases r with e | cur
    · refine ⟨_, hcarries.grew.push hE hcount, ?_, .inr ⟨⟨e, rfl⟩, _, _, rfl, by simp [Poll.Still]⟩⟩
      simpa using hcarries.inside
    change wp E _ ((if cur ≠ num then pollTime else .ret start') >>= fun start =>
      pollSleep 3 >>= fun _ => .ret (start, cur)) _ _
    split
    · next hne =>
      refine ⟨trivial, fun now m' x' hread => ?_⟩
      refine ⟨trivial, fun _ m'' x'' hslept => ?_⟩
      have hcarries' := hcarries.recount hE hcount hne hread
      refine ⟨_, hcarries'.push hE hslept (by simp) trivial, fun c hc => ?_, fun hsleeps => ?_⟩
      · exact Except.ok.inj (hc ⟨.count, .ok cur, w₁.st, w₁.ext⟩ (by simp))
      · exact (add_le_add_left hcarries'.grew.later 3).trans (hsleeps hslept)
    · next heq =>
      obtain rfl : cur = num := not_not.mp heq
      refine ⟨trivial, fun _ m' x' hslept => ?_⟩
      have hcarries' := hcarries.push hE hcount (by simp) rfl
      refine ⟨_, hcarries'.push hE hslept (by simp) trivial, fun c hc => ?_, fun hsleeps => ?_⟩
      · exact Except.ok.inj (hc ⟨.count, .ok cur, w₁.st, w₁.ext⟩ (by simp))
      · exact (add_le_add_left hcarries'.grew.later 3).trans (hsleeps hslept)
  · obtain ⟨part, hgrew, haside, hend⟩ := h1
    exact ⟨part, hgrew, fun e he => (haside e he).1, hend⟩
  · exact h1.elim

/-! ### The loop -/

section Loop

variable {wait : Wait} {Q : Outcome PyError Unit → PollWorld η → Prop} {a : Except CommandError Bool}

/-- The loop from test to test. `I` holds at each of them, with the number of tests left. -/
theorem wp_pollLoop (hE : Ticks clock E) {I : Nat → ℚ → Nat → PollWorld η → Prop}
    (hcut : ∀ start num w, I 0 start num w → Q .cut w)
    (herror : ∀ {fuel start num w e m x}, I (fuel + 1) start num w → E .done w.st w.ext (.error e) m x →
      Q (.exn (.command e)) (w.push (S := pollSig) .done (.error e) m x))
    (hdone : ∀ {fuel start num w m x}, I (fuel + 1) start num w → E .done w.st w.ext (.ok true) m x →
      Q (.ret ()) (w.push (S := pollSig) .done (.ok true) m x))
    (hraised : ∀ {fuel start num w m x e w'}, I (fuel + 1) start num w →
      E .done w.st w.ext (.ok false) m x →
      RoundEnd clock E wait.message timeout start num (w.push (S := pollSig) .done (.ok false) m x)
        (.exn e) w' → Q (.exn e) w')
    (hround : ∀ {fuel start num w m x next w'}, I (fuel + 1) start num w →
      E .done w.st w.ext (.ok false) m x →
      RoundEnd clock E wait.message timeout start num (w.push (S := pollSig) .done (.ok false) m x)
        (.ret next) w' → I fuel next.1 next.2 w') :
    ∀ fuel start num w, I fuel start num w →
      wp E (fun _ _ _ => True) (pollLoop (wait.pollCheck timeout) fuel start num) Q w := by
  intro fuel
  induction fuel with
  | zero => exact hcut
  | succ fuel ih =>
    intro start num w hw
    refine ⟨trivial, fun r m x hpolled => ?_⟩
    rcases r with e | done
    · exact herror hw hpolled
    cases done with
    | true => exact hdone hw hpolled
    | false =>
      change wp E _ (pollRound _ start num >>= fun next => pollLoop _ fuel next.1 next.2) Q _
      rw [wp_bind]
      refine wp_mono ?_ (wp_pollRound hE wait timeout start num _)
      rintro (next | e | _) w' h'
      · exact ih _ _ _ (hround hw hpolled h')
      · exact hraised hw hpolled h'
      · exact h'.elim

/-- A span of at least `timeout` seconds up to `now` in which nothing has happened. -/
def Stagnated (clock : η → ℚ) (timeout now : ℚ) (log : List (PollEvent η)) : Prop :=
  ∃ num later e earlier, log = later ++ e :: earlier ∧ timeout ≤ now - clock e.ext ∧
    AllStill num (later ++ [e])

theorem Since.stagnated {t : ℚ} (h : Since clock num start log) (ht : t ≤ now - start) :
    Stagnated clock t now log := by
  obtain ⟨later, e, earlier, hlog, htime, hstart, hstill⟩ := h
  refine ⟨num, later, e, earlier, hlog, ht.trans (sub_le_sub_left hstart now), ?_⟩
  refine forall_mem_append.mpr ⟨hstill, forall_mem_singleton.mpr ?_⟩
  obtain ⟨o, a, m, x⟩ := e
  cases htime
  trivial

theorem stagnated_pollLoop (hE : Ticks clock E) (fuel : Nat) (hw : Since clock num start w.log) :
    wp E (fun _ _ _ => True) (pollLoop (wait.pollCheck timeout) fuel start num)
      (fun r w' => r = .exn (.assertionError wait.message) →
        ∃ t ∈ timeout, Stagnated clock t (clock w'.ext) w'.log) w := by
  refine wp_pollLoop hE (I := fun _ start num w => Since clock num start w.log) ?_ ?_ ?_ ?_ ?_ fuel start
    num w hw
  · rintro _ _ _ _ ⟨⟩
  · rintro _ _ _ _ _ _ _ _ _ ⟨⟩
  · rintro _ _ _ _ _ _ _ _ ⟨⟩
  · rintro fuel start num w m x e w' hsince hpolled
      ⟨part, hgrew, -, ⟨-, ⟨t, ht, htime⟩, hstill⟩ | ⟨⟨e, rfl⟩, -⟩⟩
    · intro _
      have hpush := hsince.grew ((Grew.refl w).push hE hpolled) (by simp [AllStill, Poll.Still])
      exact ⟨t, ht, (hpush.grew hgrew (hstill num)).stagnated htime⟩
    · rintro ⟨⟩
  · rintro fuel start num w m x next w' hsince hpolled ⟨part, hcarries, -⟩
    exact hcarries.since (hsince.grew ((Grew.refl w).push hE hpolled) (by simp [AllStill, Poll.Still]))

/-- From the moment `T` on, every poll shows that nothing happens. -/
def StillFrom (clock : η → ℚ) (T : ℚ) (c : Nat) (log : List (PollEvent η)) : Prop :=
  ∀ e ∈ log, T ≤ clock e.ext → Poll.Still c e.op e.ans

/-- Every round takes at most `d` seconds, from its test to the next one; the last goes up to `now`. -/
def RoundsWithin (clock : η → ℚ) (d : ℚ) : ℚ → List (PollEvent η) → Prop
  | _, [] => True
  | now, e :: log =>
      if e.op = .done then now - clock e.ext ≤ d ∧ RoundsWithin clock d (clock e.ext) log
      else RoundsWithin clock d now log

/-- When the loop was entered: at its first test, or `now` if there was none. -/
def entered (clock : η → ℚ) : ℚ → List (PollEvent η) → ℚ
  | now, [] => now
  | now, e :: log => entered clock (if e.op = .done then clock e.ext else now) log

theorem roundsWithin_append {d : ℚ} (hpart : ∀ e ∈ part, e.op ≠ .done) :
    RoundsWithin clock d now (part ++ log) ↔ RoundsWithin clock d now log := by
  induction part with
  | nil => rfl
  | cons e part ih =>
    obtain ⟨he, hpart⟩ := forall_mem_cons.mp hpart
    rw [cons_append, RoundsWithin, if_neg he]
    exact ih hpart

theorem entered_append (hpart : ∀ e ∈ part, e.op ≠ .done) :
    entered clock now (part ++ log) = entered clock now log := by
  induction part with
  | nil => rfl
  | cons e part ih =>
    obtain ⟨he, hpart⟩ := forall_mem_cons.mp hpart
    rw [cons_append, entered, if_neg he]
    exact ih hpart

theorem roundsWithin_round {d : ℚ} (hgrew : Grew clock (w.push (S := pollSig) .done a m x) part w')
    (hpart : ∀ e ∈ part, e.op ≠ .done) : RoundsWithin clock d (clock w'.ext) w'.log ↔
      clock w'.ext - clock w.ext ≤ d ∧ RoundsWithin clock d (clock w.ext) w.log := by
  rw [hgrew.log, roundsWithin_append hpart, World.push_log, RoundsWithin, if_pos rfl]

theorem entered_round (hgrew : Grew clock (w.push (S := pollSig) .done a m x) part w')
    (hpart : ∀ e ∈ part, e.op ≠ .done) :
    entered clock (clock w'.ext) w'.log = entered clock (clock w.ext) w.log := by
  rw [hgrew.log, entered_append hpart, World.push_log, entered, if_pos rfl]

/-- A test of the loop when nothing happens from `T` on: at most a round after `T`, or two with a `start`
that stays. -/
structure Due (clock : η → ℚ) (T : ℚ) (c : Nat) (d t limit start : ℚ) (num : Nat) (w : PollWorld η) :
    Prop where
  late : T ≤ clock w.ext
  count : num = c
  since : start ≤ limit + 2 * d
  soon : clock w.ext ≤ limit + 3 * d + max t 0

structure AtTest (clock : η → ℚ) (T : ℚ) (c : Nat) (d t entry start : ℚ) (num : Nat) (w : PollWorld η) :
    Prop where
  past : start ≤ clock w.ext
  entered_eq : entered clock (clock w.ext) w.log = entry
  due : StillFrom clock T c w.log → RoundsWithin clock d (clock w.ext) w.log →
    clock w.ext ≤ max T entry + d ∨ Due clock T c d t (max T entry) start num w

variable {T d t entry : ℚ} {c : Nat}

theorem AtTest.round (hE : Ticks clock E) (hd : 0 ≤ d) (h : AtTest clock T c d t entry start num w)
    {next : ℚ × Nat} (hpolled : E .done w.st w.ext (.ok false) m x)
    (hend : RoundEnd clock E wait.message (some t) start num
      (w.push (S := pollSig) .done (.ok false) m x) (.ret next) w') :
    AtTest clock T c d t entry next.1 next.2 w' := by
  obtain ⟨part, hcarries, hcount, -⟩ := hend
  have hfirst : clock w.ext ≤ clock x := hE.forward hpolled
  refine ⟨hcarries.past (h.past.trans hfirst), ?_, fun hstill hrounds => ?_⟩
  · rw [entered_round hcarries.grew hcarries.inside, h.entered_eq]
  obtain ⟨hlast, hrounds⟩ := (roundsWithin_round hcarries.grew hcarries.inside).mp hrounds
  rw [hcarries.grew.log] at hstill
  have hbefore : StillFrom clock T c w.log :=
    fun e he => hstill e (mem_append_right _ (.tail _ he))
  have hlater : clock w.ext ≤ clock w'.ext := hfirst.trans hcarries.grew.later
  -- a round that begins at `T` or later shows nothing
  have hpart (hT : T ≤ clock w.ext) : AllStill c part := fun e he =>
    hstill e (mem_append_left _ he) (hT.trans (hfirst.trans (hcarries.grew.issued e he)))
  have hlimit : T ≤ max T entry := le_max_left T entry
  have hnonneg : 0 ≤ max t 0 := le_max_right t 0
  rcases h.due hbefore hrounds with hnear | hdue
  · by_cases hT : T ≤ clock w.ext
    · have hpast := hcarries.past (h.past.trans hfirst)
      exact .inr ⟨hT.trans hlater, hcount c (hpart hT), by linarith, by linarith⟩
    · exact .inl (by linarith)
  · have hstays := hcarries.still c (hpart hdue.late)
    have hnext : next.1 = start := hstays.1 hdue.count
    have htime : clock x - start < t := hstays.2 t rfl
    have hmax : t ≤ max t 0 := le_max_left t 0
    have hsince := hdue.since
    exact .inr ⟨hdue.late.trans hlater, hcount c (hpart hdue.late), hnext ▸ hsince, by linarith⟩

theorem AtTest.bound (hd : 0 ≤ d) (h : AtTest clock T c d t entry start num w)
    (hstill : StillFrom clock T c w.log) (hrounds : RoundsWithin clock d (clock w.ext) w.log)
    (hnow : now - clock w.ext ≤ d) : now ≤ max T entry + max t 0 + 4 * d := by
  have hnonneg : 0 ≤ max t 0 := le_max_right t 0
  rcases h.due hstill hrounds with hnear | hdue
  · linarith
  · have hsoon := hdue.soon
    linarith

def LastFrom (clock : η → ℚ) (T : ℚ) (log : List (PollEvent η)) : Prop :=
  ∀ e ∈ log.head?, T ≤ clock e.ext

theorem Stirred.not_lastFrom (h : Stirred part) (hstill : StillFrom clock T c (part ++ log)) :
    ¬ LastFrom clock T (part ++ log) := by
  obtain ⟨e, rest, rfl, hmoved⟩ := h
  exact fun hlast => hmoved c (hstill e (by simp) (hlast e rfl))

structure InTime (clock : η → ℚ) (message : String) (T : ℚ) (c : Nat) (d t entry : ℚ)
    (r : Outcome PyError Unit) (w : PollWorld η) : Prop where
  entered_eq : entered clock (clock w.ext) w.log = entry
  bound : StillFrom clock T c w.log → RoundsWithin clock d (clock w.ext) w.log →
    clock w.ext ≤ max T entry + max t 0 + 4 * d
  ends : StillFrom clock T c w.log → LastFrom clock T w.log →
    r = .exn (.assertionError message) ∨ r = .cut

theorem AtTest.inTime {r : Outcome PyError Unit} (hd : 0 ≤ d) (h : AtTest clock T c d t entry start num w)
    (hgrew : Grew clock (w.push (S := pollSig) .done a m x) part w') (hpart : ∀ e ∈ part, e.op ≠ .done)
    (hends : StillFrom clock T c w'.log → LastFrom clock T w'.log →
      r = .exn (.assertionError message) ∨ r = .cut) : InTime clock message T c d t entry r w' := by
  refine ⟨(entered_round hgrew hpart).trans h.entered_eq, fun hstill hrounds => ?_, hends⟩
  obtain ⟨hlast, hrounds⟩ := (roundsWithin_round hgrew hpart).mp hrounds
  rw [hgrew.log] at hstill
  exact h.bound hd (fun e he => hstill e (mem_append_right _ (.tail _ he))) hrounds hlast

theorem inTime_pollLoop (hE : Ticks clock E) (hd : 0 ≤ d) (fuel : Nat)
    (hw : AtTest clock T c d t entry start num w) (hentry : entry ≤ clock w.ext) :
    wp E (fun _ _ _ => True) (pollLoop (wait.pollCheck (some t)) fuel start num)
      (fun r w' => InTime clock wait.message T c d t entry r w' ∧
        (Sleeps clock E → r = .cut → entry + 3 * fuel ≤ clock w'.ext)) w := by
  refine wp_pollLoop hE (I := fun k start num w => AtTest clock T c d t entry start num w ∧
    (Sleeps clock E → entry + 3 * fuel ≤ clock w.ext + 3 * k)) ?_ ?_ ?_ ?_ ?_ fuel start num w
    ⟨hw, fun _ => add_le_add_left hentry _⟩
  · intro start num w ⟨h, hslept⟩
    refine ⟨⟨h.entered_eq, fun hstill hrounds => h.bound hd hstill hrounds (by linarith),
      fun _ _ => .inr rfl⟩, fun hsleeps _ => ?_⟩
    simpa using hslept hsleeps
  · intro fuel start num w e m x ⟨h, _⟩ _
    refine ⟨h.inTime hd (.refl _) (by simp) fun hstill hlast => ?_, fun _ hcut => nomatch hcut⟩
    exact nomatch hstill _ (.head _) (hlast _ rfl)
  · intro fuel start num w m x ⟨h, _⟩ _
    refine ⟨h.inTime hd (.refl _) (by simp) fun hstill hlast => ?_, fun _ hcut => nomatch hcut⟩
    exact nomatch hstill _ (.head _) (hlast _ rfl)
  · intro fuel start num w m x e w' ⟨h, _⟩ _ hend
    refine ⟨?_, fun _ hcut => nomatch hcut⟩
    obtain ⟨part, hgrew, hpart, ⟨rfl, -, -⟩ | ⟨-, hstirred⟩⟩ := hend
    · exact h.inTime hd hgrew hpart fun _ _ => .inl rfl
    · refine h.inTime hd hgrew hpart fun hstill hlast => ?_
      rw [hgrew.log] at hstill hlast
      exact absurd hlast (hstirred.not_lastFrom hstill)
  · intro k start num w m x next w' ⟨h, hslept⟩ hpolled hend
    refine ⟨h.round hE hd hpolled hend, fun hsleeps => ?_⟩
    obtain ⟨part, -, -, hround⟩ := hend
    have hround : clock x + 3 ≤ clock w'.ext := hround hsleeps
    have hfirst : clock w.ext ≤ clock x := hE.forward hpolled
    have hslept := hslept hsleeps
    push_cast at hslept
    linarith

theorem wp_polls (hE : Ticks clock E) (fuel : Nat)
    (herror : ∀ {w' part e}, Grew clock w part w' → (∀ e ∈ part, e.op ≠ .done) → Stirred part →
      Q (.exn (.command e)) w')
    (hloop : ∀ {w' part start num}, Grew clock w part w' → (∀ e ∈ part, e.op ≠ .done) →
      Since clock num start w'.log → start ≤ clock w'.ext →
      wp E (fun _ _ _ => True) (pollLoop (wait.pollCheck timeout) fuel start num) Q w') :
    wp E (fun _ _ _ => True) (wait.polls timeout fuel) Q w := by
  refine ⟨trivial, fun start m x hread => ⟨trivial, fun r m' x' hcount => ?_⟩⟩
  have hgrew1 := (Grew.refl w).push hE hread
  have hgrew2 := hgrew1.push hE hcount
  rcases r with e | num
  · exact herror hgrew2 (by simp) ⟨_, _, rfl, by simp [Poll.Still]⟩
  have hsince : Since clock num start (World.push (S := pollSig) w .time start m x).log :=
    Reads.since ⟨_, _, rfl, rfl, (hE.reads hread).1⟩ hgrew1
  exact hloop hgrew2 (by simp)
    (hsince.grew ((Grew.refl _).push hE hcount) (by simp [AllStill, Poll.Still]))
    ((hE.reads hread).2.trans (hE.forward hcount))

theorem stagnated_polls (hE : Ticks clock E) (fuel : Nat) :
    wp E (fun _ _ _ => True) (wait.polls timeout fuel)
      (fun r w' => r = .exn (.assertionError wait.message) →
        ∃ t ∈ timeout, Stagnated clock t (clock w'.ext) w'.log) w :=
  wp_polls hE fuel (fun _ _ _ h => nomatch h) fun _ _ hsince _ => stagnated_pollLoop hE fuel hsince

theorem inTime_polls (hE : Ticks clock E) (hd : 0 ≤ d) (fuel : Nat) (hw : w.log = []) :
    wp E (fun _ _ _ => True) (wait.polls (some t) fuel)
      (fun r w' => InTime clock wait.message T c d t (entered clock (clock w'.ext) w'.log) r w' ∧
        (Sleeps clock E → r = .cut → entered clock (clock w'.ext) w'.log + 3 * fuel ≤ clock w'.ext)) w := by
  have hnonneg : 0 ≤ max t 0 := le_max_right t 0
  have hentered {w' : PollWorld η} {part : List (PollEvent η)} (hgrew : Grew clock w part w')
      (hpart : ∀ e ∈ part, e.op ≠ .done) : entered clock (clock w'.ext) w'.log = clock w'.ext := by
    rw [hgrew.log, hw, entered_append hpart]
    rfl
  refine wp_polls hE fuel ?_ ?_
  · intro w' part e hgrew hpart hstirred
    refine ⟨⟨rfl, fun _ _ => ?_, fun hstill hlast => ?_⟩, fun _ hcut => nomatch hcut⟩
    · rw [hentered hgrew hpart]
      have hle := le_max_right T (clock w'.ext)
      linarith
    · rw [hgrew.log] at hstill hlast
      exact absurd hlast (hstirred.not_lastFrom hstill)
  · intro w₁ part start num hgrew hpart _ hpast
    have htest : AtTest clock T c d t (clock w₁.ext) start num w₁ := by
      refine ⟨hpast, hentered hgrew hpart, fun _ _ => .inl ?_⟩
      exact (le_max_right T (clock w₁.ext)).trans (le_add_of_nonneg_right hd)
    refine wp_mono (fun r w' h => ?_) (inTime_pollLoop hE hd fuel htest le_rfl)
    rw [h.1.entered_eq]
    exact h

end Loop

end Log

/-! ### Runs of the methods -/

def Polled (E : Env mgrSig Manager ℚ) (wait : Wait) (timeout : Option ℚ) (fuel : Nat)
    (w : World mgrSig Manager ℚ) (r : Outcome PyError Unit) (w' : World mgrSig Manager ℚ)
    (polls : List (PollEvent (ℚ × List (Event mgrSig Manager ℚ)))) : Prop :=
  Exec (above E wait.commands) (wait.polls timeout fuel) ⟨w.st, (w.ext, w.log), []⟩ r
    ⟨w'.st, (w'.ext, w'.log), polls⟩

theorem exists_polled {wait : Wait} {timeout : Option ℚ} {fuel : Nat} {w w' : MgrW ℚ}
    {r : Outcome PyError Unit} (hrun : Exec E (wait.run timeout fuel) w r w') :
    ∃ polls, Polled E wait timeout fuel w r w' polls := by
  rw [← interp_polls] at hrun
  exact exec_above (commands_return wait) hrun []

def SleepsWell (E : Env mgrSig Manager ℚ) : Prop :=
  ∀ {t m x u m' x'}, E (.sleep t) m x u m' x' → x + t ≤ x'

theorem sleeps_above (wait : Wait) (hE : SleepsWell E) : Sleeps Prod.fst (above E wait.commands) := by
  intro t m x u m' x' h
  have hwp : wp E (fun _ _ _ => True) (ask (.sleep t)) (fun _ w' => x.1 + t ≤ w'.ext) ⟨m, x.1, x.2⟩ :=
    ⟨trivial, fun _ _ _ hstep => hE hstep⟩
  exact wp_post hwp h

/-- **The timeout.** The assertion of a wait fails only after a span of at least the timeout in which
nothing happened. If nothing happens from `T` on and no round takes longer than `d`, the wait raises at
most `timeout + 4 * d` seconds after `T`, or after its first test if that is later. -/
theorem timeout_after_span (wait : Wait) (E : Env mgrSig Manager ℚ) (hE : Clock E) (timeout : Option ℚ)
    (fuel : Nat) (m : Manager) (x : ℚ) (r : Outcome PyError Unit) (w : World mgrSig Manager ℚ)
    (hrun : Exec E (wait.run timeout fuel) ⟨m, x, []⟩ r w) :
    ∃ polls, Polled E wait timeout fuel ⟨m, x, []⟩ r w polls ∧
      (r = .exn (.assertionError wait.message) → ∃ t ∈ timeout, Stagnated Prod.fst t w.ext polls) ∧
      ∀ t ∈ timeout, ∀ T c d, 0 ≤ d → StillFrom Prod.fst T c polls →
        RoundsWithin Prod.fst d w.ext polls →
        w.ext ≤ max T (entered Prod.fst w.ext polls) + max t 0 + 4 * d ∧
        (LastFrom Prod.fst T polls → r = .exn (.assertionError wait.message) ∨ r = .cut) ∧
        (SleepsWell E → max T (entered Prod.fst w.ext polls) + max t 0 + 4 * d <
          entered Prod.fst w.ext polls + 3 * fuel → r ≠ .cut) := by
  obtain ⟨polls, hpolls⟩ := exists_polled hrun
  have hticks := ticks_above wait hE
  refine ⟨polls, hpolls, wp_post (stagnated_polls hticks fuel) hpolls, ?_⟩
  rintro t ⟨⟩ T c d hd hstill hrounds
  obtain ⟨hin, hlasts⟩ := wp_post (inTime_polls (T := T) (c := c) hticks hd fuel rfl) hpolls
  have hbound := hin.bound hstill hrounds
  refine ⟨hbound, hin.ends hstill, fun hsleeps hfuel hcut => ?_⟩
  have hlong := hlasts (sleeps_above wait hsleeps) hcut
  exact absurd (hlong.trans hbound) (not_le.mpr hfuel)

/-! ### Late runs -/

/-- A run by the clock: the seconds that a command takes, and how many PGs are clean. -/
structure Script where
  delay : MgrOp → ℚ → Nat
  numClean : ℚ → Nat

def Script.answer (script : Script) (o : MgrOp) (m : Manager) (x : ℚ) : o.Ans × Manager × ℚ :=
  (match o with
    | .pgDump => .ok ((["1.0", "1.1", "1.2"].take (script.numClean x)).map (⟨·, "active+clean"⟩))
    | .status => .ok ⟨3, none, none, none⟩
    | .time => x
    | .sleep _ => ()
    | .osdDump => .ok []
    | .poolGet _ _ => .ok 0
    | .poolCreate _ _ _ => .ok ()
    | .poolSet _ _ _ => .ok ()
    | .poolSetResult _ _ _ => .ok 0
    | .rmpool _ => .ok ()
    | .randIndex _ => 0,
  m, x + script.delay o x)

def Script.env (script : Script) : Env mgrSig Manager ℚ := fun o m x a m' x' =>
  (a, m', x') = script.answer o m x

theorem Script.clock (script : Script) : Clock script.env where
  forward {o m x a m' x'} h := by
    have hx : x' = x + script.delay o x := congrArg (·.2.2) h
    rw [hx]
    exact le_add_of_nonneg_right (Nat.cast_nonneg _)
  reads {m x m' x' now} h := by
    cases h
    exact ⟨le_rfl, le_add_of_nonneg_right (Nat.cast_nonneg _)⟩

def Poll.value : (o : Poll) → Outcome PyError o.Ans → o.Ans
  | _, .ret a => a
  | .done, _ => .ok false
  | .progress, _ => .ok false
  | .count, _ => .ok 0
  | .dump, _ => .ok ()
  | .time, _ => 0
  | .sleep _, _ => ()

def Script.run (script : Script) (wait : Wait) (timeout : ℚ) (fuel : Nat) :
    Outcome PyError Unit × PollWorld (ℚ × List (Event mgrSig Manager ℚ)) :=
  runWith (answerAbove wait.commands script.answer Poll.value) (wait.polls (some timeout) fuel)
    ⟨⟨∅, 0⟩, (0, []), []⟩

section Decidable

variable {η : Type} (clock : η → ℚ)

instance (c : Nat) (o : Poll) (a : o.Ans) : Decidable (Poll.Still c o a) :=
  match o, a with
  | .done, r => inferInstanceAs (Decidable (r = .ok false))
  | .progress, r => inferInstanceAs (Decidable (r = .ok false))
  | .count, r => inferInstanceAs (Decidable (r = .ok c))
  | .dump, r => inferInstanceAs (Decidable (r = .ok ()))
  | .time, _ => isTrue trivial
  | .sleep _, _ => isTrue trivial

instance (T : ℚ) (c : Nat) (log : List (PollEvent η)) : Decidable (StillFrom clock T c log) :=
  inferInstanceAs (Decidable (∀ e ∈ log, T ≤ clock e.ext → Poll.Still c e.op e.ans))

instance decidableRoundsWithin (d : ℚ) :
    (now : ℚ) → (log : List (PollEvent η)) → Decidable (RoundsWithin clock d now log)
  | _, [] => isTrue trivial
  | now, e :: log =>
      have := decidableRoundsWithin d (clock e.ext) log
      have := decidableRoundsWithin d now log
      inferInstanceAs (Decidable (if e.op = .done then now - clock e.ext ≤ d ∧
        RoundsWithin clock d (clock e.ext) log else RoundsWithin clock d now log))

end Decidable

theorem Script.polled (script : Script) (wait : Wait) (timeout : ℚ) (fuel : Nat)
    {r : Outcome PyError Unit} (h : (script.run wait timeout fuel).1 = r) :
    ∃ w, Exec script.env (wait.run (some timeout) fuel) ⟨⟨∅, 0⟩, 0, []⟩ r w ∧
      w.ext = (script.run wait timeout fuel).2.ext.1 ∧
      Polled script.env wait (some timeout) fuel ⟨⟨∅, 0⟩, 0, []⟩ r w
        (script.run wait timeout fuel).2.log := by
  have hanswer : ∀ o m x, script.env o m x (script.answer o m x).1 (script.answer o m x).2.1
      (script.answer o m x).2.2 := fun _ _ _ => rfl
  have hvalue : ∀ o a, Poll.value o (.ret a) = a := fun o a => by cases o <;> rfl
  have hrun := exec_runWith (above_answerAbove hanswer (commands_return wait) hvalue)
    (wait.polls (some timeout) fuel) ⟨⟨∅, 0⟩, (0, []), []⟩
  change Exec _ _ _ (script.run wait timeout fuel).1 (script.run wait timeout fuel).2 at hrun
  rw [h] at hrun
  generalize (script.run wait timeout fuel).2 = u at hrun ⊢
  have hbelow := exec_interp hrun
  rw [interp_polls] at hbelow
  exact ⟨_, hbelow, rfl, hrun⟩

/-- Each command takes a second, but a count and a listing are slow; sleeps last three seconds or more. -/
def slowScript : Script where
  delay
    | .pgDump, x => if x = 26 then 12 else if x = 82 then 15 else 1
    | .sleep _, x => if x = 39 then 3 else 15
    | _, _ => 1
  numClean x := if x ≤ 6 then 1 else 2

theorem slowScript_raises :
    (slowScript.run .clean 28 5).1 = .exn (.assertionError Wait.clean.message) := by decide +kernel

theorem timeout_after_span_slowScript : ∃ w polls, w.ext = (slowScript.run .clean 28 5).2.ext.1 ∧
      Polled slowScript.env .clean (some 28) 5 ⟨⟨∅, 0⟩, 0, []⟩
        (.exn (.assertionError Wait.clean.message)) w polls ∧ Stagnated Prod.fst 28 w.ext polls := by
  obtain ⟨w, hrun, hext, -⟩ := slowScript.polled .clean 28 5 slowScript_raises
  obtain ⟨polls, hpolled, hspan, -⟩ := timeout_after_span .clean slowScript.env slowScript.clock (some 28) 5
    ⟨∅, 0⟩ 0 _ w hrun
  obtain ⟨t, ht, hstagnated⟩ := hspan rfl
  cases ht
  exact ⟨w, polls, hext, hpolled, hstagnated⟩

def slowCountScript : Script where
  delay
    | .pgDump, x => if x = 1 then 100 else 1
    | _, _ => 1
  numClean _ := 1

/-- Nothing happens from 7 on and no round takes more than 20 seconds, but the assertion fails at 102. -/
theorem timeout_past_three_rounds :
    (∃ w polls, Exec slowScript.env (Wait.clean.run (some 28) 5) ⟨⟨∅, 0⟩, 0, []⟩
        (.exn (.assertionError Wait.clean.message)) w ∧
      Polled slowScript.env .clean (some 28) 5 ⟨⟨∅, 0⟩, 0, []⟩
        (.exn (.assertionError Wait.clean.message)) w polls ∧
      StillFrom Prod.fst 7 2 polls ∧ RoundsWithin Prod.fst 20 w.ext polls ∧ 7 + 28 + 3 * 20 < w.ext) ∧
    ∃ w polls, Exec slowCountScript.env (Wait.clean.run (some 1) 1) ⟨⟨∅, 0⟩, 0, []⟩
        (.exn (.assertionError Wait.clean.message)) w ∧
      Polled slowCountScript.env .clean (some 1) 1 ⟨⟨∅, 0⟩, 0, []⟩
        (.exn (.assertionError Wait.clean.message)) w polls ∧
      StillFrom Prod.fst 1 1 polls ∧ RoundsWithin Prod.fst 6 w.ext polls ∧ 1 + 1 + 3 * 6 < w.ext := by
  constructor
  · obtain ⟨w, hrun, hext, hpolled⟩ := slowScript.polled .clean 28 5 slowScript_raises
    refine ⟨w, _, hrun, hpolled, ?_⟩
    rw [hext]
    decide +kernel
  · have hraises : (slowCountScript.run .clean 1 1).1 = .exn (.assertionError Wait.clean.message) := by
      decide +kernel
    obtain ⟨w, hrun, hext, hpolled⟩ := slowCountScript.polled .clean 1 1 hraises
    refine ⟨w, _, hrun, hpolled, ?_⟩
    rw [hext]
    decide +kernel

end ZbkcTasks
