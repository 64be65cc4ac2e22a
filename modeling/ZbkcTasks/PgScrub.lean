import ZbkcTasks.PyProg

/-! `do_pg_scrub` of `tasks/zbkc_manager.py`, which waits until the stamp of a PG changes and asks for a
scrub every 120 seconds. The stamp is polled before anything is asked for; every command may fail. -/

namespace ZbkcTasks.PgScrub

open List Prog

structure PgStat where
  pgid : Pgid
  lastScrubStamp : String

inductive Op
  | osdDump
  | pgDump
  | pg (stype : String) (pgid : Pgid)
  | log (msg : String)
  | sleep (t : Nat)
  deriving DecidableEq

@[reducible] def Op.Ans : Op → Type
  | .osdDump => Except CommandError (List (String × Int))
  | .pgDump => Except CommandError (List PgStat)
  | .pg _ _ => Except CommandError Unit
  | .log _ => Unit
  | .sleep _ => Unit

abbrev sig : Sig := ⟨Op, Op.Ans⟩

abbrev M (α : Type) := Prog sig Unit PyError α

def poolNumOf (pools : List (String × Int)) (pool : String) : M Int :=
  (pools.lookup pool).elim (.throw (.assertionError "False")) .ret

def getPoolNum (pool : String) : M Int := .op .osdDump fun ans => do
  let pools ← ofCommand ans
  poolNumOf pools pool

def pgidOf (poolnum : Int) (pgnum : String) : Pgid := toString poolnum ++ "." ++ pgnum

def getPgid (pool pgnum : String) : M Pgid := do
  let poolnum ← getPoolNum pool
  return pgidOf poolnum pgnum

def getPgStats : M (List PgStat) := .op .pgDump ofCommand

def getSinglePgStats (pgid : Pgid) : M (Option PgStat) := do
  let stats ← getPgStats
  return stats.find? fun pg => pg.pgid = pgid

def stampOf (stats : Option PgStat) : M String :=
  stats.elim (.throw .typeError) fun pg => .ret pg.lastScrubStamp

def getLastScrubStamp (pool pgnum : String) : M String := do
  let pgid ← getPgid pool pgnum
  let stats ← getSinglePgStats pgid
  stampOf stats

def resendTimeout : Nat := 120

def fatalTimeout : Nat := resendTimeout * 3

def sleepTime : Nat := 10

def log (msg : String) : M Unit := .op (.log msg) .ret

def request (pool pgnum stype : String) (timer : Nat) : M Unit := do
  let pgid ← getPgid pool pgnum
  .op (.pg stype pgid) ofCommand
  onlyIf (timer ≠ 0 ∧ stype = "repair") (log "WARNING: Resubmitted a non-idempotent repair")

def scrubLoop (pool pgnum stype init : String) : Nat → Nat → M Unit
  | 0, _ => .cut
  | fuel + 1, timer => do
      let stamp ← getLastScrubStamp pool pgnum
      if init = stamp then do
        pyAssert (timer < fatalTimeout) ("fatal timeout trying to " ++ stype)
        log ("waiting for scrub type " ++ stype)
        onlyIf (timer % resendTimeout = 0) (request pool pgnum stype timer)
        .op (.sleep sleepTime) .ret
        scrubLoop pool pgnum stype init fuel (timer + sleepTime)
      else .ret ()

def doPgScrub (pool pgnum stype : String) (fuel : Nat) : M Unit := do
  let init ← getLastScrubStamp pool pgnum
  scrubLoop pool pgnum stype init fuel 0

/-! ### The cluster -/

/-- What the cluster reports, by the number of `pg dump` that it has answered. -/
structure Reports where
  pools : Nat → List (String × Int)
  stats : Nat → List PgStat

abbrev W := World sig Unit Nat

namespace Reports

variable (c : Reports)

def env : Env sig Unit Nat := fun o _ n ans _ n' =>
  match o, ans with
  | .osdDump, ans => (ans = .ok (c.pools n) ∨ ∃ e, ans = .error e) ∧ n' = n
  | .pgDump, ans => ans = .ok (c.stats n) ∧ n' = n + 1 ∨ (∃ e, ans = .error e) ∧ n' = n
  | .pg _ _, _ => n' = n
  | .log _, _ => n' = n
  | .sleep _, _ => n' = n

def stamp (pool pgnum : String) (n : Nat) : Option String := do
  let poolnum ← (c.pools n).lookup pool
  let pg ← (c.stats n).find? fun pg => pg.pgid = pgidOf poolnum pgnum
  return pg.lastScrubStamp

end Reports

/-! ### Requests and sleeps -/

def Op.isRequest (stype : String) : Op → Bool
  | .pg t _ => decide (t = stype)
  | _ => false

def Op.seconds : Op → Nat
  | .sleep t => t
  | _ => 0

def slept (ops : List Op) : Nat := (ops.map Op.seconds).sum

def ops (w : W) : List Op := (w.log.map Event.op).reverse

/-- If it returned, something was asked for before the last poll; there were at most three requests. -/
structure Honest (stype : String) (fuel : Nat) (r : Outcome PyError Unit) (w : W) : Prop where
  asked : r = .ret () → ∃ before after, ops w = before ++ .pgDump :: after ∧ .pgDump ∉ after ∧
    ∃ pgid, .pg stype pgid ∈ before
  few : (ops w).countP (Op.isRequest stype) ≤ 3
  apart : ∀ before between after pgid pgid',
    ops w = before ++ .pg stype pgid :: (between ++ .pg stype pgid' :: after) → 120 ≤ slept between
  polls : (ops w).count .pgDump ≤ 1 + 37
  ends : 37 ≤ fuel → r ≠ .cut

variable {msg : String} {before : List Op} {fuel : Nat}

section Counting

variable {stype : String} {k : Nat}

theorem exists_pgid {o : Op} (h : o.isRequest stype) : ∃ pgid, o = .pg stype pgid := by
  cases o with
  | pg t pgid => exact ⟨pgid, by rw [of_decide_eq_true h]⟩
  | osdDump | pgDump | log | sleep => cases h

theorem isRequest_pg (stype : String) (pgid : Pgid) : (Op.pg stype pgid).isRequest stype := by
  simp [Op.isRequest]

def Spaced (stype : String) (ops : List Op) : Prop :=
  ∀ a b c pgid pgid', ops = a ++ .pg stype pgid :: (b ++ .pg stype pgid' :: c) → 120 ≤ slept b

/-- The seconds of sleep since the last request, in operations that start with the last one. -/
def sleptSince (stype : String) (ops : List Op) : Nat := slept (ops.takeWhile fun o => !o.isRequest stype)

theorem slept_reverse (ops : List Op) : slept ops.reverse = slept ops := by
  rw [slept, slept, map_reverse, sum_reverse]

theorem sleptSince_quiet {o : Op} (ho : o.isRequest stype = false) (ops : List Op) :
    sleptSince stype (o :: ops) = o.seconds + sleptSince stype ops := by simp [sleptSince, slept, ho]

theorem sleptSince_request (pgid : Pgid) (ops : List Op) :
    sleptSince stype (.pg stype pgid :: ops) = 0 := by
  simp [sleptSince, slept, isRequest_pg]

theorem sleptSince_le (pgid : Pgid) (b c : List Op) :
    sleptSince stype (b ++ .pg stype pgid :: c) ≤ slept b := by
  induction b with
  | nil => exact (sleptSince_request pgid c).le
  | cons o b ih =>
    by_cases ho : o.isRequest stype
    · obtain ⟨pgid', rfl⟩ := exists_pgid ho
      rw [cons_append, sleptSince_request]
      exact Nat.zero_le _
    · rw [cons_append, sleptSince_quiet (Bool.eq_false_iff.mpr ho)]
      exact Nat.add_le_add_left ih _

theorem Spaced.reverse {ops : List Op} (h : Spaced stype ops) : Spaced stype ops.reverse := by
  intro a b c pgid pgid' heq
  rw [← slept_reverse]
  refine h c.reverse b.reverse a.reverse pgid' pgid ?_
  have hrev := congrArg List.reverse heq
  rw [reverse_reverse] at hrev
  simpa using hrev

/-- The polls and the requests among operations, the last one first, with the requests well apart. -/
structure Tally (stype : String) (polls requests : Nat) (past : List Op) : Prop where
  polls : past.count .pgDump = polls
  requests : past.countP (Op.isRequest stype) = requests
  spaced : Spaced stype past

namespace Tally

variable {polls requests : Nat} {past : List Op} {o : Op}

theorem spaced_cons (h : Tally stype polls requests past)
    (ho : o.isRequest stype → 0 < requests → 120 ≤ sleptSince stype past) : Spaced stype (o :: past) := by
  intro a b c pgid pgid' heq
  cases a with
  | nil =>
    obtain ⟨rfl, rfl⟩ := List.cons.inj heq
    refine (ho (isRequest_pg _ _) ?_).trans (sleptSince_le pgid' b c)
    rw [← h.requests]
    exact countP_pos_iff.mpr ⟨.pg stype pgid', by simp, isRequest_pg _ _⟩
  | cons _ a => exact h.spaced a b c pgid pgid' (List.cons.inj heq).2

theorem quiet (h : Tally stype polls requests past) (ho : o.isRequest stype = false) (hpoll : o ≠ .pgDump) :
    Tally stype polls requests (o :: past) where
  polls := by rw [count_cons_of_ne hpoll, h.polls]
  requests := by rw [countP_cons_of_neg (by simp [ho]), h.requests]
  spaced := h.spaced_cons fun hrequest => absurd (ho.symm.trans hrequest) Bool.false_ne_true

theorem poll (h : Tally stype polls requests past) :
    Tally stype (polls + 1) requests (.pgDump :: past) where
  polls := by rw [count_cons_self, h.polls]
  requests := by rw [countP_cons_of_neg (by simp [Op.isRequest]), h.requests]
  spaced := h.spaced_cons fun hrequest => absurd hrequest Bool.false_ne_true

theorem request (h : Tally stype polls requests past)
    (hlast : 0 < requests → 120 ≤ sleptSince stype past) (pgid : Pgid) :
    Tally stype polls (requests + 1) (.pg stype pgid :: past) where
  polls := by rw [count_cons_of_ne (by simp), h.polls]
  requests := by rw [countP_cons_of_pos (isRequest_pg _ _), h.requests]
  spaced := h.spaced_cons fun _ => hlast

end Tally

/-- What has been done when the loop is at its head with `timer = 10 * k`. -/
structure AtRound (stype : String) (k : Nat) (past : List Op) : Prop
    extends Tally stype (k + 1) ((k + 11) / 12) past where
  since : 0 < k → sleptSince stype past = 10 * ((k + 11) % 12 + 1)

variable {past : List Op}

theorem AtRound.pass (h : AtRound stype k past) (hk : k % 12 ≠ 0) :
    AtRound stype (k + 1) (.sleep 10 :: .log msg :: .pgDump :: .osdDump :: past) where
  toTally := by
    have hround : (k + 1 + 11) / 12 = (k + 11) / 12 := by omega
    rw [hround]
    exact (((h.toTally.quiet rfl (by simp)).poll).quiet rfl (by simp)).quiet rfl (by simp)
  since _ := by
    rw [sleptSince_quiet rfl, sleptSince_quiet rfl, sleptSince_quiet rfl, sleptSince_quiet rfl,
      h.since (by omega)]
    simp only [Op.seconds]
    omega

def untilRequest (msg : String) (past : List Op) : List Op :=
  .osdDump :: .log msg :: .pgDump :: .osdDump :: past

theorem AtRound.tally_untilRequest (h : AtRound stype k past) (msg : String) :
    Tally stype (k + 2) ((k + 11) / 12) (untilRequest msg past) :=
  (((h.toTally.quiet rfl (by simp)).poll).quiet rfl (by simp)).quiet rfl (by simp)

theorem AtRound.tally_request (h : AtRound stype k past) (hk : k % 12 = 0) (msg : String) (pgid : Pgid) :
    Tally stype (k + 2) ((k + 1 + 11) / 12) (.pg stype pgid :: untilRequest msg past) := by
  have hround : (k + 1 + 11) / 12 = (k + 11) / 12 + 1 := by omega
  rw [hround]
  refine (h.tally_untilRequest msg).request (fun hpos => ?_) pgid
  rw [untilRequest, sleptSince_quiet rfl, sleptSince_quiet rfl, sleptSince_quiet rfl, sleptSince_quiet rfl,
    h.since (by omega)]
  simp only [Op.seconds]
  omega

theorem AtRound.ask {said : List Op} {pgid : Pgid} (h : AtRound stype k past) (hk : k % 12 = 0)
    (hsaid : said = [] ∨ ∃ msg, said = [.log msg]) :
    AtRound stype (k + 1) (.sleep 10 :: (said ++ .pg stype pgid :: untilRequest msg past)) := by
  have hrequest := h.tally_request hk msg pgid
  have hsince : sleptSince stype (said ++ .pg stype pgid :: untilRequest msg past) = 0 := by
    rcases hsaid with rfl | ⟨warning, rfl⟩
    · exact sleptSince_request _ _
    · exact (sleptSince_quiet rfl _).trans ((Nat.zero_add _).trans (sleptSince_request _ _))
  refine ⟨?_, fun _ => ?_⟩
  · rcases hsaid with rfl | ⟨warning, rfl⟩
    · exact hrequest.quiet rfl (by simp)
    · exact (hrequest.quiet rfl (by simp)).quiet rfl (by simp)
  · rw [sleptSince_quiet rfl, hsince]
    simp only [Op.seconds]
    omega

end Counting

/-! ### Runs -/

def past (w : W) : List Op := w.log.map Event.op

theorem ops_eq (w : W) : ops w = (past w).reverse := rfl

@[simp] theorem past_push (w : W) (o : Op) (a : o.Ans) (u : Unit) (n : Nat) :
    past (World.push w o a u n) = o :: past w := rfl

section Runs

variable {c : Reports} {pool pgnum stype : String} {w : W}

theorem honest_of_tally {polls requests : Nat} {r : Outcome PyError Unit}
    (h : Tally stype polls requests (past w)) (hpolls : polls ≤ 1 + 37) (hrequests : requests ≤ 3)
    (hasked : r = .ret () → ∃ before after, ops w = before ++ .pgDump :: after ∧ .pgDump ∉ after ∧
      ∃ pgid, .pg stype pgid ∈ before) (hends : 37 ≤ fuel → r ≠ .cut) : Honest stype fuel r w where
  asked := hasked
  few := by
    rw [ops_eq, countP_reverse, h.requests]
    exact hrequests
  apart := h.spaced.reverse
  polls := by
    rw [ops_eq, count_reverse, h.polls]
    exact hpolls
  ends := hends

theorem honest_of_exn {polls requests : Nat} {e : PyError} (h : Tally stype polls requests (past w))
    (hpolls : polls ≤ 1 + 37) (hrequests : requests ≤ 3) : Honest stype fuel (.exn e) w :=
  honest_of_tally h hpolls hrequests (by simp) (by simp)

theorem honest_of_ret {k : Nat} (h : AtRound stype k before) (hpos : 0 < k) (hk : k ≤ 36)
    (hpast : past w = .pgDump :: .osdDump :: before) : Honest stype fuel (.ret ()) w := by
  have htally := (h.toTally.quiet (o := .osdDump) rfl (by simp)).poll
  refine honest_of_tally (by rw [hpast]; exact htally) (by omega) (by omega) (fun _ => ?_) (by simp)
  obtain ⟨o, ho, hrequest⟩ := countP_pos_iff.mp (show 0 < before.countP (Op.isRequest stype) by
    rw [h.requests]; omega)
  obtain ⟨pgid, rfl⟩ := exists_pgid hrequest
  refine ⟨(.osdDump :: before).reverse, [], ?_, by simp, pgid, by simp [ho]⟩
  rw [ops_eq, hpast, reverse_cons]

abbrev Reports.ends {α : Type} (c : Reports) (p : M α) (Q : Outcome PyError α → W → Prop) (w : W) : Prop :=
  wp c.env (fun _ _ _ => True) p Q w

theorem ends_getPgid {Q : Outcome PyError Pgid → W → Prop}
    (hret : ∀ poolnum w', (c.pools w.ext).lookup pool = some poolnum → w'.ext = w.ext →
      past w' = .osdDump :: past w → Q (.ret (pgidOf poolnum pgnum)) w')
    (hexn : ∀ e w', past w' = .osdDump :: past w → Q (.exn e) w') : c.ends (getPgid pool pgnum) Q w := by
  refine ⟨trivial, ?_⟩
  rintro ans u n ⟨rfl | ⟨e, rfl⟩, rfl⟩
  · cases hnum : (c.pools w.ext).lookup pool with
    | none =>
      simp only [ofCommand, ret_bind, poolNumOf, hnum]
      exact hexn _ _ rfl
    | some poolnum =>
      simp only [ofCommand, ret_bind, poolNumOf, hnum]
      exact hret poolnum _ hnum rfl rfl
  · exact hexn _ _ rfl

/-- **One poll.** -/
theorem ends_getLastScrubStamp {Q : Outcome PyError String → W → Prop}
    (hret : ∀ stamp w', c.stamp pool pgnum w.ext = some stamp → w'.ext = w.ext + 1 →
      past w' = .pgDump :: .osdDump :: past w → Q (.ret stamp) w')
    (hexn : ∀ e w', past w' = .osdDump :: past w ∨ past w' = .pgDump :: .osdDump :: past w →
      Q (.exn e) w') : c.ends (getLastScrubStamp pool pgnum) Q w := by
  refine wp_bind.mpr (ends_getPgid (fun poolnum w1 hnum hext hpast => ?_)
    fun e w' h => hexn e w' (.inl h))
  refine ⟨trivial, ?_⟩
  rintro ans u n (⟨rfl, rfl⟩ | ⟨⟨e, rfl⟩, rfl⟩)
  · have hpast' : past (w1.push .pgDump (.ok (c.stats w1.ext)) u (w1.ext + 1)) =
        .pgDump :: .osdDump :: past w := by rw [past_push, hpast]
    show c.ends (stampOf ((c.stats w1.ext).find? fun pg => pg.pgid = pgidOf poolnum pgnum)) Q _
    cases hfind : (c.stats w1.ext).find? fun pg => pg.pgid = pgidOf poolnum pgnum with
    | none => exact hexn _ _ (.inr hpast')
    | some pg =>
      refine hret _ _ ?_ (by rw [World.push_ext, hext]) hpast'
      rw [hext] at hfind
      simp [Reports.stamp, hnum, hfind]
  · exact hexn _ _ (.inr (by rw [past_push, hpast]))

theorem ends_request {Q : Outcome PyError Unit → W → Prop} {timer : Nat}
    (hret : ∀ said pgid w', w'.ext = w.ext → (said = [] ∨ ∃ msg, said = [.log msg]) →
      past w' = said ++ .pg stype pgid :: .osdDump :: past w → Q (.ret ()) w')
    (hexn : ∀ e w', past w' = .osdDump :: past w ∨
      (∃ pgid, past w' = .pg stype pgid :: .osdDump :: past w) → Q (.exn e) w') :
    c.ends (request pool pgnum stype timer) Q w := by
  refine wp_bind.mpr (ends_getPgid (fun poolnum w1 _ hext hpast => ?_) fun e w' h => hexn e w' (.inl h))
  refine ⟨trivial, ?_⟩
  rintro ans u n rfl
  have hpast' : past (w1.push (.pg stype (pgidOf poolnum pgnum)) ans u w1.ext) =
      .pg stype (pgidOf poolnum pgnum) :: .osdDump :: past w := by rw [past_push, hpast]
  cases ans with
  | error e => exact hexn _ _ (.inr ⟨_, hpast'⟩)
  | ok a =>
    unfold onlyIf
    split
    · refine ⟨trivial, ?_⟩
      rintro - u n rfl
      exact hret [.log _] _ _ hext (.inr ⟨_, rfl⟩) (by rw [past_push, hpast']; rfl)
    · exact hret [] _ _ hext (.inl rfl) hpast'

theorem ends_round {k : Nat} {next : M Unit} {w1 : W} (hk : k ≤ 36) (hround : AtRound stype k before)
    (hpast : past w1 = .pgDump :: .osdDump :: before)
    (hnext : ∀ w' : W, k < 36 → w'.ext = w1.ext → AtRound stype (k + 1) (past w') →
      c.ends next (Honest stype fuel) w') :
    c.ends (pyAssert (10 * k < fatalTimeout) ("fatal timeout trying to " ++ stype) >>= fun _ =>
      log ("waiting for scrub type " ++ stype) >>= fun _ =>
      onlyIf (10 * k % resendTimeout = 0) (request pool pgnum stype (10 * k)) >>= fun _ =>
      .op (.sleep sleepTime) fun _ => next) (Honest stype fuel) w1 := by
  have hpoll := (hround.toTally.quiet (o := .osdDump) rfl (by simp)).poll
  rw [← hpast] at hpoll
  unfold pyAssert
  split
  next htimer =>
    have hlt : k < 36 := by
      simp only [fatalTimeout, resendTimeout] at htimer
      omega
    refine ⟨trivial, ?_⟩
    rintro - u n rfl
    show c.ends (onlyIf _ _ >>= _) _ _
    unfold onlyIf
    split
    next hresend =>
      have hmod : k % 12 = 0 := by
        simp only [resendTimeout] at hresend
        omega
      refine wp_bind.mpr (ends_request (fun said pgid w' hext hsaid hpast' => ?_) ?_)
      · refine ⟨trivial, ?_⟩
        rintro - u n rfl
        refine hnext _ hlt (by rw [World.push_ext, hext, World.push_ext]) ?_
        rw [past_push, hpast', past_push, hpast]
        exact hround.ask hmod hsaid
      · have hasked := hround.tally_untilRequest ("waiting for scrub type " ++ stype)
        rintro e w' (hpast' | ⟨pgid, hpast'⟩)
        · rw [past_push, hpast] at hpast'
          exact honest_of_exn (by rw [hpast']; exact hasked) (by omega) (by omega)
        · rw [past_push, hpast] at hpast'
          exact honest_of_exn (by rw [hpast']; exact hround.tally_request hmod _ pgid) (by omega) (by omega)
    next hresend =>
      have hmod : k % 12 ≠ 0 := by
        simp only [resendTimeout] at hresend
        omega
      refine ⟨trivial, ?_⟩
      rintro - u n rfl
      refine hnext _ hlt rfl ?_
      rw [past_push, past_push, hpast]
      exact hround.pass hmod
  next => exact honest_of_exn hpoll (by omega) (by omega)

/-- **The loop.** It is entered with a request behind it, or with the first poll still to read the stamp
that it starts from. -/
theorem ends_scrubLoop {init : String} :
    ∀ fuel k (w : W), k ≤ 36 → w.ext = k + 1 → AtRound stype k (past w) →
    (k = 0 → ∀ stamp, c.stamp pool pgnum 1 = some stamp → init = stamp) →
    c.ends (scrubLoop pool pgnum stype init fuel (10 * k)) (Honest stype (fuel + k)) w := by
  intro fuel
  induction fuel with
  | zero =>
    intro k w hk _ hround _
    exact honest_of_tally hround.toTally (by omega) (by omega) (by simp) (by omega)
  | succ fuel ih =>
    intro k w hk hext hround hinit
    have hosdDump := hround.toTally.quiet (o := .osdDump) rfl (by simp)
    refine wp_bind.mpr (ends_getLastScrubStamp (fun stamp w1 hstamp hext1 hpast1 => ?_) ?_)
    · show c.ends (if init = stamp then _ else _) _ w1
      split
      next hsame =>
        refine ends_round hk hround hpast1 fun w' hlt hext' hround' => ?_
        have hrest := ih (k + 1) w' (by omega) (by rw [hext', hext1, hext]) hround' (by omega)
        rw [show fuel + (k + 1) = fuel + 1 + k by omega] at hrest
        exact hrest
      next hchanged =>
        refine honest_of_ret hround (Nat.pos_of_ne_zero fun hzero => ?_) hk hpast1
        rw [hext, hzero] at hstamp
        exact hchanged (hinit hzero stamp hstamp)
    · rintro e w' (hpast' | hpast')
      · exact honest_of_exn (by rw [hpast']; exact hosdDump) (by omega) (by omega)
      · exact honest_of_exn (by rw [hpast']; exact hosdDump.poll) (by omega) (by omega)

theorem ends_doPgScrub (h : ∀ a b, c.stamp pool pgnum 0 = some a → c.stamp pool pgnum 1 = some b → a = b)
    (fuel : Nat) : c.ends (doPgScrub pool pgnum stype fuel) (Honest stype fuel) ⟨(), 0, []⟩ := by
  have hstart : Tally stype 0 0 [] := ⟨rfl, rfl, by simp [Spaced]⟩
  have hosdDump := hstart.quiet (o := .osdDump) rfl (by simp)
  refine wp_bind.mpr (ends_getLastScrubStamp (fun stamp w1 hstamp hext1 hpast1 => ?_) ?_)
  · have hround : AtRound stype 0 (past w1) := ⟨by rw [hpast1]; exact hosdDump.poll, by simp⟩
    exact ends_scrubLoop fuel 0 w1 (by omega) hext1 hround
      fun _ stamp' hstamp' => h stamp stamp' hstamp hstamp'
  · rintro e w' (hpast' | hpast')
    · exact honest_of_exn (by rw [hpast']; exact hosdDump) (by omega) (by omega)
    · exact honest_of_exn (by rw [hpast']; exact hosdDump.poll) (by omega) (by omega)

theorem exists_exec_stamp {stamp : String} (h : c.stamp pool pgnum w.ext = some stamp) :
    ∃ w', Exec c.env (getLastScrubStamp pool pgnum) w (.ret stamp) w' ∧ w'.ext = w.ext + 1 ∧
      past w' = .pgDump :: .osdDump :: past w := by
  cases hnum : (c.pools w.ext).lookup pool with
  | none => simp [Reports.stamp, hnum] at h
  | some poolnum =>
    cases hfind : (c.stats w.ext).find? fun pg => pg.pgid = pgidOf poolnum pgnum with
    | none => simp [Reports.stamp, hnum, hfind] at h
    | some pg =>
      have hstamp : pg.lastScrubStamp = stamp := by simpa [Reports.stamp, hnum, hfind] using h
      have hpgid : Exec c.env (getPgid pool pgnum) w (.ret (pgidOf poolnum pgnum))
          (w.push .osdDump (.ok (c.pools w.ext)) () w.ext) := by
        refine .op (s := ()) ⟨.inl rfl, rfl⟩ ?_
        simp only [ofCommand, ret_bind, poolNumOf, hnum]
        exact .ret _ _
      refine ⟨(w.push .osdDump (.ok (c.pools w.ext)) () w.ext).push .pgDump (.ok (c.stats w.ext)) ()
        (w.ext + 1), exec_bind hpgid (.op (s := ()) (.inl ⟨rfl, rfl⟩) ?_), rfl, rfl⟩
      show Exec c.env (stampOf ((c.stats w.ext).find? fun pg => pg.pgid = pgidOf poolnum pgnum)) _ _ _
      rw [hfind, ← hstamp]
      exact .ret _ _

theorem exists_exec_unasked {a b : String} (ha : c.stamp pool pgnum 0 = some a)
    (hb : c.stamp pool pgnum 1 = some b) (hne : a ≠ b) (stype : String) (fuel : Nat) :
    ∃ w, Exec c.env (doPgScrub pool pgnum stype (fuel + 1)) ⟨(), 0, []⟩ (.ret ()) w ∧
      ops w = [.osdDump, .pgDump, .osdDump, .pgDump] := by
  obtain ⟨w1, hrun1, hext1, hpast1⟩ := exists_exec_stamp (w := ⟨(), 0, []⟩) ha
  obtain ⟨w2, hrun2, -, hpast2⟩ := exists_exec_stamp (w := w1) (by rw [hext1]; exact hb)
  refine ⟨w2, exec_bind hrun1 (exec_bind hrun2 ?_), ?_⟩
  · rw [if_neg hne]
    exact .ret _ _
  · rw [ops_eq, hpast2, hpast1]
    rfl

end Runs

/-- **When only scrubs that were asked for are reported.** A run that returns has asked before the poll
that saw the change exactly when the first poll of the loop still reads the stamp from before it. -/
theorem do_pg_scrub_honest_iff (c : Reports) (pool pgnum stype : String) :
    (∀ fuel r w, Exec c.env (doPgScrub pool pgnum stype fuel) ⟨(), 0, []⟩ r w → Honest stype fuel r w) ↔
      ∀ a b, c.stamp pool pgnum 0 = some a → c.stamp pool pgnum 1 = some b → a = b := by
  constructor
  · intro h a b ha hb
    by_contra hne
    obtain ⟨w, hrun, hops⟩ := exists_exec_unasked ha hb hne stype 0
    obtain ⟨before, after, hsplit, -, pgid, hmem⟩ := (h 1 _ w hrun).asked rfl
    have hops' : .pg stype pgid ∈ ops w := by
      rw [hsplit]
      exact mem_append_left _ hmem
    simp [hops] at hops'
  · intro h fuel r w hrun
    exact wp_post (ends_doPgScrub h fuel) hrun

def busyReports : Reports where
  pools _ := [("rbd", 0)]
  stats n := [⟨pgidOf 0 "0", "2016-03-04 05:06:0" ++ toString n ++ ".000000"⟩]

/-- A scrub that nobody asked for is taken for the repair. -/
theorem scrub_reported_unasked :
    ∃ w, Exec busyReports.env (doPgScrub "rbd" "0" "repair" 37) ⟨(), 0, []⟩ (.ret ()) w ∧
      ∀ pgid, .pg "repair" pgid ∉ ops w := by
  have hstamp : ∀ n, busyReports.stamp "rbd" "0" n =
      some ("2016-03-04 05:06:0" ++ toString n ++ ".000000") := by
    intro n
    simp [Reports.stamp, busyReports]
  obtain ⟨w, hrun, hops⟩ := exists_exec_unasked (hstamp 0) (hstamp 1) (by decide +kernel) "repair" 36
  exact ⟨w, hrun, by simp [hops]⟩

end ZbkcTasks.PgScrub
