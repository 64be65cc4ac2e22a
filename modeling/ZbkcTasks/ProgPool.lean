import Mathlib.Logic.Relation
import ZbkcTasks.ProgWp

/-! Threads that share one state and take turns. `Seg` is one turn: up to the next operation that the
thread has to wait for. A weakest precondition of a thread is handed on from turn to turn (`Seg.wp`). -/

namespace Prog

variable {S : Sig} {σ η ε N : Type}

/-- Where a thread is: not started, not run yet, waiting for an answer, or at its end. -/
inductive Thread (S : Sig) (σ ε : Type) : Type
  | idle
  | ready (p : Prog S σ ε Unit)
  | waits (o : S.Op) (k : S.Ans o → Prog S σ ε Unit)
  | done (r : Except ε Unit)

def Thread.alive : Thread S σ ε → Bool
  | .idle => false
  | .ready _ => true
  | .waits _ _ => true
  | .done _ => false

def Thread.pending : Thread S σ ε → Option S.Op
  | .waits o _ => some o
  | _ => none

/-- How the threads named by `N` run: which operations wait, which start a thread, and what they are
answered. -/
structure Sched (S : Sig) (σ ε N : Type) where
  waits : S.Op → Bool
  starts : S.Op → Option N
  body : N → Prog S σ ε Unit
  answers : (N → Thread S σ ε) → (o : S.Op) → S.Ans o → Prop

/-- The shared state, the threads, and the operations that were waited for, newest first. -/
structure Pool (S : Sig) (σ ε N : Type) where
  st : σ
  threads : N → Thread S σ ε
  issued : List (N × S.Op)

variable {K : Sched S σ ε N}

/-- A turn from `s` to `s'`, with the operations `l` that need no waiting. A `cut` ends no turn. -/
inductive Seg (K : Sched S σ ε N) :
    Prog S σ ε Unit → σ → List S.Op → σ → Thread S σ ε → Prop
  | ret (s : σ) : Seg K (.ret ()) s [] s (.done (.ok ()))
  | throw (e : ε) (s : σ) : Seg K (.throw e) s [] s (.done (.error e))
  | read {k : σ → Prog S σ ε Unit} {s l s' th} : Seg K (k s) s l s' th → Seg K (.read k) s l s' th
  | write {k : Prog S σ ε Unit} {s s₁ l s' th} :
      Seg K k s₁ l s' th → Seg K (.write s₁ k) s l s' th
  | draw {o : S.Op} {k : S.Ans o → Prog S σ ε Unit} {a s l s' th} : K.waits o = false →
      Seg K (k a) s l s' th → Seg K (.op o k) s (o :: l) s' th
  | wait {o : S.Op} {k : S.Ans o → Prog S σ ε Unit} {s} : K.waits o = true →
      Seg K (.op o k) s [] s (.waits o k)

/-- The thread may go on as the program. -/
inductive Goes (K : Sched S σ ε N) (P : Pool S σ ε N) (n : N) : Prog S σ ε Unit → Prop
  | ready {p : Prog S σ ε Unit} : P.threads n = .ready p → Goes K P n p
  | answered {o : S.Op} {k : S.Ans o → Prog S σ ε Unit} {a : S.Ans o} :
      P.threads n = .waits o k → K.answers P.threads o a → Goes K P n (k a)

variable {p : Prog S σ ε Unit} {P P' : Pool S σ ε N} {th : Thread S σ ε} {l : List S.Op}
  {answer : (N → Thread S σ ε) → (o : S.Op) → S.Ans o} {ns : List N}

theorem Goes.alive {n : N} (h : Goes K P n p) : (P.threads n).alive = true := by
  cases h with
  | ready h | answered h _ => rw [h]; rfl

variable [DecidableEq N]

/-- The pool after a turn of `n`: the threads it started are ready. -/
def Pool.after (K : Sched S σ ε N) (P : Pool S σ ε N) (n : N) (l : List S.Op) (s : σ)
    (th : Thread S σ ε) : Pool S σ ε N where
  st := s
  threads m := if m ∈ l.filterMap K.starts then .ready (K.body m)
    else if m = n then th else P.threads m
  issued := th.pending.toList.map (n, ·) ++ P.issued

inductive Step (K : Sched S σ ε N) (P : Pool S σ ε N) : Pool S σ ε N → Prop
  | turn {n p l s th} : Goes K P n p → Seg K p P.st l s th → Step K P (P.after K n l s th)

abbrev Reaches (K : Sched S σ ε N) : Pool S σ ε N → Pool S σ ε N → Prop :=
  Relation.ReflTransGen (Step K)

section After

variable {n m : N} {s : σ}

theorem Pool.after_started (hm : m ∈ l.filterMap K.starts) :
    (P.after K n l s th).threads m = .ready (K.body m) := if_pos hm

theorem Pool.after_self (hn : n ∉ l.filterMap K.starts) : (P.after K n l s th).threads n = th :=
  (if_neg hn).trans (if_pos rfl)

theorem Pool.after_other (hm : m ∉ l.filterMap K.starts) (hne : m ≠ n) :
    (P.after K n l s th).threads m = P.threads m := (if_neg hm).trans (if_neg hne)

end After

theorem Reaches.eq_of_stuck (h : Reaches K P P') (hstuck : ∀ n, (P.threads n).alive = false) : P' = P := by
  rcases h.cases_head with rfl | ⟨P1, hstep, -⟩
  · rfl
  · obtain ⟨hgoes, -⟩ := hstep
    exact absurd hgoes.alive (by simp [hstuck])

/-! ### Turns as events -/

/-- The thread, the operation it had waited for with its answer, and the one that it ends at. -/
structure Turn (S : Sig) (N : Type) where
  thread : N
  answered : Option ((o : S.Op) × S.Ans o)
  issued : Option S.Op

inductive Resumes (K : Sched S σ ε N) (P : Pool S σ ε N) (n : N) :
    Option ((o : S.Op) × S.Ans o) → Prog S σ ε Unit → Prop
  | ready {p : Prog S σ ε Unit} : P.threads n = .ready p → Resumes K P n none p
  | answered {o : S.Op} {k : S.Ans o → Prog S σ ε Unit} {a : S.Ans o} :
      P.threads n = .waits o k → K.answers P.threads o a → Resumes K P n (some ⟨o, a⟩) (k a)

/-- The turns that lead from one pool to another, newest first. -/
inductive Turns (K : Sched S σ ε N) (P : Pool S σ ε N) : List (Turn S N) → Pool S σ ε N → Prop
  | nil : Turns K P [] P
  | cons {turns P' n a p l s th} : Turns K P turns P' → Resumes K P' n a p → Seg K p P'.st l s th →
      Turns K P (⟨n, a, th.pending⟩ :: turns) (P'.after K n l s th)

/-- **Invariants with a history.** `next` adds a turn to what is remembered of the run; each turn keeps
`I` and does what `G` says, so all turns of a run do. -/
theorem Turns.inv {γ : Type} (next : Turn S N → γ → γ) {I : γ → Pool S σ ε N → Prop}
    {G : γ → Turn S N → Prop}
    (hturn : ∀ x P n a p l s th, I x P → Resumes K P n a p → Seg K p P.st l s th →
      G x ⟨n, a, th.pending⟩ ∧ I (next ⟨n, a, th.pending⟩ x) (P.after K n l s th)) {x : γ} (hP : I x P)
    {turns : List (Turn S N)} (h : Turns K P turns P') : I (turns.foldr next x) P' ∧
      ∀ later turn earlier, turns = later ++ turn :: earlier → G (earlier.foldr next x) turn := by
  induction h with
  | nil => exact ⟨hP, by simp⟩
  | cons _ hgoes hseg ih =>
    obtain ⟨hinv, hearlier⟩ := ih
    obtain ⟨hdoes, hkeeps⟩ := hturn _ _ _ _ _ _ _ _ hinv hgoes hseg
    refine ⟨hkeeps, fun later turn earlier hsplit => ?_⟩
    cases later with
    | nil =>
      cases hsplit
      exact hdoes
    | cons turn' later =>
      cases hsplit
      exact hearlier later turn earlier rfl

/-! ### Handing on a weakest precondition -/

section Wp

omit [DecidableEq N]

variable {E : Env S σ η} {A : S.Op → σ → η → Prop} {Q : Outcome ε Unit → World S σ η → Prop}

/-- What is left of a weakest precondition at the end of a turn. -/
def Thread.Meets (K : Sched S σ ε N) (E : Env S σ η) (A : S.Op → σ → η → Prop)
    (Q : Outcome ε Unit → World S σ η → Prop) (w : World S σ η) : Thread S σ ε → Prop
  | .idle => False
  | .ready _ => False
  | .waits o k => K.waits o = true ∧ Prog.wp E A (.op o k) Q w
  | .done (.ok a) => Q (.ret a) w
  | .done (.error e) => Q (.exn e) w

theorem Seg.not_waits {s s' : σ} (h : Seg K p s l s' th) : ∀ o ∈ l, K.waits o = false := by
  induction h with
  | ret | throw | wait => simp
  | read _ ih | write _ ih => exact ih
  | draw ho _ ih => exact List.forall_mem_cons.mpr ⟨ho, ih⟩

/-- **A turn.** The assertion holds at each operation that is not waited for, and the rest where the turn
ends. -/
theorem Seg.wp (note : S.Op → η → η) (hdraw : ∀ o s x a, K.waits o = false → E o s x a s (note o x))
    {s s' : σ} (h : Seg K p s l s' th) : ∀ w : World S σ η, w.st = s → Prog.wp E A p Q w →
      (∃ w', w'.st = s' ∧ w'.ext = l.foldl (fun x o => note o x) w.ext ∧ th.Meets K E A Q w') ∧
      ∀ l1 o l2, l = l1 ++ o :: l2 → ∃ t, A o t (l1.foldl (fun x o => note o x) w.ext) := by
  induction h with
  | ret | throw => exact fun w hs hwp => ⟨⟨w, hs, rfl, hwp⟩, by simp⟩
  | read _ ih =>
    intro w hs hwp
    subst hs
    exact ih w rfl hwp
  | @write k s s1 l s' th _ ih => exact fun w _ hwp => ih { w with st := s1 } rfl hwp
  | @draw o k a s l s' th ho _ ih =>
    intro w hs hwp
    subst hs
    obtain ⟨hend, hasserts⟩ := ih (w.push o a w.st (note o w.ext)) rfl (hwp.2 a _ _ (hdraw o _ _ a ho))
    refine ⟨hend, fun l1 o' l2 hl => ?_⟩
    cases l1 with
    | nil =>
      cases hl
      exact ⟨w.st, hwp.1⟩
    | cons o1 l1 =>
      cases hl
      exact hasserts l1 o' l2 rfl
  | wait ho => exact fun w hs hwp => ⟨⟨w, hs, rfl, ho, hwp⟩, by simp⟩

end Wp

/-! ### Playing a schedule -/

section Play

variable [∀ threads o a, Decidable (K.answers threads o a)]

omit [DecidableEq N] [∀ threads o a, Decidable (K.answers threads o a)] in
def segWith (K : Sched S σ ε N) (draw : (o : S.Op) → S.Ans o) :
    Prog S σ ε Unit → σ → Option (List S.Op × σ × Thread S σ ε)
  | .ret _, s => some ([], s, .done (.ok ()))
  | .throw e, s => some ([], s, .done (.error e))
  | .cut, _ => none
  | .read k, s => segWith K draw (k s) s
  | .write s k, _ => segWith K draw k s
  | .op o k, s =>
      if K.waits o then some ([], s, .waits o k)
      else (segWith K draw (k (draw o)) s).map fun r => (o :: r.1, r.2)

omit [DecidableEq N] [∀ threads o a, Decidable (K.answers threads o a)] in
theorem seg_segWith {draw : (o : S.Op) → S.Ans o} {s : σ} {r : List S.Op × σ × Thread S σ ε}
    (h : segWith K draw p s = some r) : Seg K p s r.1 r.2.1 r.2.2 := by
  induction p generalizing s r with
  | ret a => cases h; exact .ret s
  | throw e => cases h; exact .throw e s
  | cut => cases h
  | read k ih => exact .read (ih s h)
  | write s' k ih => exact .write (ih h)
  | op o k ih =>
    rw [segWith] at h
    split at h
    next ho => cases h; exact .wait ho
    next ho =>
      obtain ⟨r', hr', rfl⟩ := Option.map_eq_some_iff.mp h
      exact .draw (by simpa using ho) (ih _ hr')

omit [DecidableEq N] in
/-- What the thread goes on with when the answers come as given. -/
def nextWith (K : Sched S σ ε N) [∀ threads o a, Decidable (K.answers threads o a)]
    (answer : (N → Thread S σ ε) → (o : S.Op) → S.Ans o) (P : Pool S σ ε N) (n : N) :
    Option (Prog S σ ε Unit) :=
  match P.threads n with
  | .idle => none
  | .ready p => some p
  | .waits o k =>
      if K.answers P.threads o (answer P.threads o) then some (k (answer P.threads o)) else none
  | .done _ => none

omit [DecidableEq N] in
theorem goes_nextWith {n : N} (h : nextWith K answer P n = some p) : Goes K P n p := by
  unfold nextWith at h
  split at h
  next => cases h
  next hn => cases h; exact .ready hn
  next hn =>
    split at h
    next ha => cases h; exact .answered hn ha
    next => cases h
  next => cases h

def play (K : Sched S σ ε N) [∀ threads o a, Decidable (K.answers threads o a)]
    (answer : (N → Thread S σ ε) → (o : S.Op) → S.Ans o) :
    List N → Pool S σ ε N → Option (Pool S σ ε N)
  | [], P => some P
  | n :: ns, P =>
      (nextWith K answer P n).bind fun p =>
        (segWith K (answer P.threads) p P.st).bind fun r =>
          play K answer ns (P.after K n r.1 r.2.1 r.2.2)

theorem reaches_play (h : play K answer ns P = some P') : Reaches K P P' := by
  induction ns generalizing P with
  | nil => cases h; exact .refl
  | cons n ns ih =>
    obtain ⟨p, hp, h⟩ := Option.bind_eq_some_iff.mp h
    obtain ⟨r, hr, h⟩ := Option.bind_eq_some_iff.mp h
    exact .head (.turn (goes_nextWith hp) (seg_segWith hr)) (ih h)

theorem exists_reaches {test : Pool S σ ε N → Bool} (h : (play K answer ns P).any test = true) :
    ∃ P', Reaches K P P' ∧ test P' = true := by
  obtain ⟨P', hP', htest⟩ := (Option.any_eq_true _ _).mp h
  exact ⟨P', reaches_play hP', htest⟩

end Play

end Prog
