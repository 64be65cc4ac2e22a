import Mathlib.Order.Basic
import ZbkcTasks.ProgBasic

/-! Runs of a program against an environment, which may also change the program's own state, and the
weakest precondition that covers all of them. A run records every operation with the states it was issued
in. -/

/-- An operation of a run: its answer, and the two states when it was issued. -/
structure Event (S : Sig) (σ η : Type) where
  op : S.Op
  ans : S.Ans op
  st : σ
  ext : η

/-- The program's state, the outside state, and the operations issued so far, newest first. -/
structure World (S : Sig) (σ η : Type) where
  st : σ
  ext : η
  log : List (Event S σ η)

/-- `E o s x a s' x'`: issued in `s` and `x`, `o` may be answered `a` and leave `s'` and `x'`. -/
abbrev Env (S : Sig) (σ η : Type) := (o : S.Op) → σ → η → S.Ans o → σ → η → Prop

def World.push {S : Sig} {σ η : Type} (w : World S σ η) (o : S.Op) (a : S.Ans o) (s : σ) (x : η) :
    World S σ η :=
  ⟨s, x, ⟨o, a, w.st, w.ext⟩ :: w.log⟩

variable {σ η : Type}

@[simp] theorem World.push_st {S : Sig} (w : World S σ η) (o : S.Op) (a : S.Ans o) (s : σ) (x : η) :
    (w.push o a s x).st = s := rfl

@[simp] theorem World.push_ext {S : Sig} (w : World S σ η) (o : S.Op) (a : S.Ans o) (s : σ) (x : η) :
    (w.push o a s x).ext = x := rfl

@[simp] theorem World.push_log {S : Sig} (w : World S σ η) (o : S.Op) (a : S.Ans o) (s : σ) (x : η) :
    (w.push o a s x).log = ⟨o, a, w.st, w.ext⟩ :: w.log := rfl

namespace Prog

open List

variable {S : Sig} {ε α β : Type}

inductive Exec (E : Env S σ η) :
    Prog S σ ε α → World S σ η → Outcome ε α → World S σ η → Prop
  | ret (a : α) (w : World S σ η) : Exec E (.ret a) w (.ret a) w
  | throw (e : ε) (w : World S σ η) : Exec E (.throw e) w (.exn e) w
  | cut (w : World S σ η) : Exec E .cut w .cut w
  | read {k : σ → Prog S σ ε α} {w r w'} : Exec E (k w.st) w r w' → Exec E (.read k) w r w'
  | write {s : σ} {k : Prog S σ ε α} {w r w'} :
      Exec E k { w with st := s } r w' → Exec E (.write s k) w r w'
  | op {o : S.Op} {k : S.Ans o → Prog S σ ε α} {w : World S σ η} {a s x r w'} :
      E o w.st w.ext a s x → Exec E (k a) (w.push o a s x) r w' → Exec E (.op o k) w r w'

/-- Every ending of the program satisfies `Q`, and `A` holds whenever an operation is issued. -/
def wp (E : Env S σ η) (A : S.Op → σ → η → Prop) :
    Prog S σ ε α → (Outcome ε α → World S σ η → Prop) → World S σ η → Prop
  | .ret a, Q, w => Q (.ret a) w
  | .throw e, Q, w => Q (.exn e) w
  | .cut, Q, w => Q .cut w
  | .read k, Q, w => wp E A (k w.st) Q w
  | .write s k, Q, w => wp E A k Q { w with st := s }
  | .op o k, Q, w => A o w.st w.ext ∧
      ∀ a s x, E o w.st w.ext a s x → wp E A (k a) Q (w.push o a s x)

/-- The condition on how a first part ends that lets the rest, with precondition `F`, end in `Q`. -/
def chain (F : α → World S σ η → Prop) (Q : Outcome ε β → World S σ η → Prop) :
    Outcome ε α → World S σ η → Prop
  | .ret a, w => F a w
  | .exn e, w => Q (.exn e) w
  | .cut, w => Q .cut w

@[simp] theorem chain_ret (F : α → World S σ η → Prop) (Q : Outcome ε β → World S σ η → Prop)
    (a : α) (w : World S σ η) : chain F Q (.ret a) w = F a w := rfl

variable {E : Env S σ η} {A : S.Op → σ → η → Prop} {Q : Outcome ε α → World S σ η → Prop} {w : World S σ η}
  {p : Prog S σ ε α} {A' : S.Op → σ → η → Prop} {f : α → Prog S σ ε β} {K : World S σ η → Prop}
  {P : α → World S σ η → Prop} {r : Outcome ε α} {a : α} {w' w : World S σ η} {test : Prog S σ ε Bool}
  {body : Prog S σ ε Unit}

theorem wp_ret : wp E A (.ret a) Q w ↔ Q (.ret a) w := Iff.rfl

theorem wp_mono {Q Q' : Outcome ε α → World S σ η → Prop} (hQ : ∀ r w, Q r w → Q' r w) (h : wp E A p Q w) :
    wp E A p Q' w := by
  induction p generalizing w with
  | ret | throw | cut => exact hQ _ _ h
  | read k ih => exact ih _ h
  | write s k ih => exact ih h
  | op o k ih => exact ⟨h.1, fun a s x hE => ih a (h.2 a s x hE)⟩

theorem wp_assert_mono (hA : ∀ o s x, A o s x → A' o s x) (h : wp E A p Q w) : wp E A' p Q w := by
  induction p generalizing w with
  | ret | throw | cut => exact h
  | read k ih => exact ih _ h
  | write s k ih => exact ih h
  | op o k ih => exact ⟨hA _ _ _ h.1, fun a s x hE => ih a (h.2 a s x hE)⟩

theorem wp_env_mono {E' : Env S σ η} (hE : ∀ o s x a s' x', E' o s x a s' x' → E o s x a s' x')
    (h : wp E A p Q w) : wp E' A p Q w := by
  induction p generalizing w with
  | ret | throw | cut => exact h
  | read k ih => exact ih _ h
  | write s k ih => exact ih h
  | op o k ih => exact ⟨h.1, fun a s x hE' => ih a (h.2 a s x (hE _ _ _ _ _ _ hE'))⟩

theorem wp_and {Q' : Outcome ε α → World S σ η → Prop} (h : wp E A p Q w) (h' : wp E A' p Q' w) :
    wp E A p (fun r w' => Q r w' ∧ Q' r w') w := by
  induction p generalizing w with
  | ret | throw | cut => exact ⟨h, h'⟩
  | read k ih => exact ih _ h h'
  | write s k ih => exact ih h h'
  | op o k ih => exact ⟨h.1, fun a s x hE => ih a (h.2 a s x hE) (h'.2 a s x hE)⟩

theorem wp_log_suffix (h : wp E A p Q w) : wp E A p (fun r w' => Q r w' ∧ w.log <:+ w'.log) w := by
  induction p generalizing w with
  | ret | throw | cut => exact ⟨h, suffix_rfl⟩
  | read k ih => exact ih _ h
  | write s k ih => exact ih h
  | op o k ih =>
    refine ⟨h.1, fun a s x hE => wp_mono ?_ (ih a (h.2 a s x hE))⟩
    exact fun r w' hend => ⟨hend.1, (suffix_cons _ _).trans hend.2⟩

theorem wp_bind {Q : Outcome ε β → World S σ η → Prop} :
    wp E A (p >>= f) Q w ↔ wp E A p (chain (fun a => wp E A (f a) Q) Q) w := by
  induction p generalizing w with
  | ret | throw | cut => exact Iff.rfl
  | read k ih => exact ih _
  | write s k ih => exact ih
  | op o k ih =>
    refine and_congr Iff.rfl (forall_congr' fun a => forall_congr' fun s => forall_congr' fun x => ?_)
    exact imp_congr Iff.rfl (ih a)

theorem wp_catching {h : ε → Prog S σ ε α}
    (hp : wp E A p (fun r w' => match r with
      | .exn e => wp E A (h e) Q w'
      | .ret a => Q (.ret a) w'
      | .cut => Q .cut w') w) : wp E A (p.catching h) Q w := by
  induction p generalizing w with
  | ret | throw | cut => exact hp
  | read k ih => exact ih _ hp
  | write s k ih => exact ih hp
  | op o k ih => exact ⟨hp.1, fun a s x hE => ih a (hp.2 a s x hE)⟩

/-- The condition on how a `try` ends that lets its `finally` end in `Q`. -/
def closing (E : Env S σ η) (A : S.Op → σ → η → Prop) (q : Prog S σ ε Unit)
    (Q : Outcome ε α → World S σ η → Prop) : Outcome ε α → World S σ η → Prop
  | .ret a, w => wp E A q (chain (fun _ => Q (.ret a)) Q) w
  | .exn e, w => wp E A q (chain (fun _ => Q (.exn e)) Q) w
  | .cut, w => Q .cut w

theorem wp_finallyDo {q : Prog S σ ε Unit} : wp E A (p.finallyDo q) Q w ↔ wp E A p (closing E A q Q) w := by
  induction p generalizing w with
  | ret | throw => exact wp_bind
  | cut => exact Iff.rfl
  | read k ih => exact ih _
  | write s k ih => exact ih
  | op o k ih =>
    refine and_congr Iff.rfl (forall_congr' fun a => forall_congr' fun s => forall_congr' fun x => ?_)
    exact imp_congr Iff.rfl (ih a)

/-- Ending with a result, it is one that `P` describes; ending early keeps `K`. -/
def gives (P : α → World S σ η → Prop) (K : World S σ η → Prop) : Outcome ε α → World S σ η → Prop
  | .ret a, w => P a w
  | .exn _, w => K w
  | .cut, w => K w

theorem wp_seq {P' : β → World S σ η → Prop} (hp : wp E A p (gives P K) w)
    (hf : ∀ a w', P a w' → wp E A (f a) (gives P' K) w') : wp E A (p >>= f) (gives P' K) w := by
  rw [wp_bind]
  refine wp_mono ?_ hp
  rintro (a | e | _) w' h'
  · exact hf a w' h'
  · exact h'
  · exact h'

/-- It ends with a result that `P` describes. -/
abbrev returns (P : α → World S σ η → Prop) : Outcome ε α → World S σ η → Prop := gives P fun _ => False

theorem wp_bind_returns {Q : Outcome ε β → World S σ η → Prop} (hp : wp E A p (returns P) w)
    (hf : ∀ a w', P a w' → wp E A (f a) Q w') : wp E A (p >>= f) Q w := by
  rw [wp_bind]
  refine wp_mono ?_ hp
  rintro (a | e | _) w' h'
  · exact hf a w' h'
  · exact h'.elim
  · exact h'.elim

theorem wp_weaken {P P' : α → World S σ η → Prop} {K K' : World S σ η → Prop}
    (hP : ∀ a w, P a w → P' a w) (hK : ∀ w, K w → K' w) (h : wp E A p (gives P K) w) :
    wp E A p (gives P' K') w := by
  refine wp_mono ?_ h
  rintro (a | e | _) w' h'
  · exact hP a w' h'
  · exact hK w' h'
  · exact hK w' h'

theorem wp_result {P P' : α → World S σ η → Prop} (hP : ∀ a w, P a w → P' a w)
    (h : wp E A p (gives P K) w) : wp E A p (gives P' K) w := wp_weaken hP (fun _ hw => hw) h

theorem wp_trivial (hA : ∀ o s x, A o s x) (p : Prog S σ ε α) (w : World S σ η) :
    wp E A p (fun _ _ => True) w := by
  induction p generalizing w with
  | ret | throw | cut => exact trivial
  | read k ih => exact ih _ w
  | write s k ih => exact ih _
  | op o k ih => exact ⟨hA _ _ _, fun a s x _ => ih a _⟩

theorem wp_ext_le [Preorder η] (hE : ∀ o s x a s' x', E o s x a s' x' → x ≤ x')
    (hA : ∀ o s x, A o s x) (p : Prog S σ ε α) (w : World S σ η) :
    wp E A p (fun _ w' => w.ext ≤ w'.ext) w := by
  induction p generalizing w with
  | ret | throw | cut => exact le_rfl
  | read k ih => exact ih _ w
  | write s k ih => exact ih { w with st := s }
  | op o k ih =>
    refine ⟨hA _ _ _, fun a s x hstep => wp_mono ?_ (ih a (w.push o a s x))⟩
    exact fun _ w' h => le_trans (hE _ _ _ _ _ _ hstep) h

/-- **Soundness.** A run ends in the postcondition, and each operation it issued was issued where the
assertion holds. -/
theorem wp_sound (hwp : wp E A p Q w) (hrun : Exec E p w r w') :
    Q r w' ∧ ∃ new, w'.log = new ++ w.log ∧ ∀ e ∈ new, A e.op e.st e.ext := by
  induction hrun with
  | ret | throw | cut => exact ⟨hwp, [], rfl, by simp⟩
  | read _ ih | write _ ih => exact ih hwp
  | @op o k w a s x r w' hE _ ih =>
    obtain ⟨hQ, new, hlog, hnew⟩ := ih (hwp.2 a s x hE)
    refine ⟨hQ, new ++ [⟨o, a, w.st, w.ext⟩], by simp [hlog], ?_⟩
    intro e he
    rcases mem_append.mp he with he | he
    · exact hnew e he
    · rw [mem_singleton.mp he]
      exact hwp.1

theorem wp_post (hwp : wp E A p Q w) (hrun : Exec E p w r w') : Q r w' :=
  (wp_sound hwp hrun).1

/-- From an empty log, every operation of the run was issued where the assertion holds. -/
theorem wp_events (hwp : wp E A p Q w) (hrun : Exec E p w r w') (hlog : w.log = []) :
    ∀ e ∈ w'.log, A e.op e.st e.ext := by
  obtain ⟨-, new, hnew, hA⟩ := wp_sound hwp hrun
  rw [hnew, hlog, append_nil]
  exact hA

/-! ### Loops -/

/-- `I xs` holds when `xs` is what is left of the list. -/
theorem wp_forEach {f : β → Prog S σ ε Unit} {Q : Outcome ε Unit → World S σ η → Prop}
    (I : List β → World S σ η → Prop)
    (hbody : ∀ x xs w, I (x :: xs) w → wp E A (f x) (chain (fun _ => I xs) Q) w)
    (hend : ∀ w, I [] w → Q (.ret ()) w) : ∀ xs w, I xs w → wp E A (forEach xs f) Q w := by
  intro xs
  induction xs with
  | nil => exact hend
  | cons x xs ih =>
    intro w hw
    rw [forEach, wp_bind]
    refine wp_mono ?_ (hbody x xs w hw)
    rintro (_ | e | _) w' h'
    · exact ih w' h'
    · exact h'
    · exact h'

theorem wp_whileDo {Q : Outcome ε Unit → World S σ η → Prop} (I : World S σ η → Prop)
    (hround : ∀ w, I w → wp E A test (chain (fun go w' =>
      if go then wp E A body (chain (fun _ => I) Q) w' else Q (.ret ()) w') Q) w)
    (hcut : ∀ w, I w → Q .cut w) : ∀ n w, I w → wp E A (whileDo test body n) Q w := by
  intro n
  induction n with
  | zero => exact hcut
  | succ n ih =>
    intro w hw
    rw [whileDo, wp_bind]
    refine wp_mono ?_ (hround w hw)
    rintro (go | e | _) w' h'
    · cases go with
      | false => exact h'
      | true =>
        simp only [chain_ret, if_true] at h' ⊢
        rw [wp_bind]
        refine wp_mono ?_ h'
        rintro (_ | e | _) w'' h''
        · exact ih w'' h''
        · exact h''
        · exact h''
    · exact h'
    · exact h'

theorem wp_forEach_gives {f : β → Prog S σ ε Unit} (I : List β → World S σ η → Prop)
    (hbody : ∀ x xs w, I (x :: xs) w → wp E A (f x) (gives (fun _ => I xs) K) w) :
    ∀ xs w, I xs w → wp E A (forEach xs f) (gives (fun _ => I []) K) w := by
  intro xs
  induction xs with
  | nil => exact fun w hw => hw
  | cons x xs ih => exact fun w hw => wp_seq (hbody x xs w hw) fun _ w' h' => ih w' h'

/-- `I` holds at the head of the loop, `J` when its body starts. -/
theorem wp_whileDo_gives {I J P K : World S σ η → Prop}
    (htest : ∀ w, I w → wp E A test (gives (fun go w' => if go then J w' else P w') K) w)
    (hbody : ∀ w, J w → wp E A body (gives (fun _ => I) K) w) (hcut : ∀ w, I w → K w) :
    ∀ n w, I w → wp E A (whileDo test body n) (gives (fun _ => P) K) w := by
  intro n
  induction n with
  | zero => exact hcut
  | succ n ih =>
    intro w hw
    refine wp_seq (htest w hw) fun go w' h' => ?_
    cases go with
    | false => exact h'
    | true => exact wp_seq (hbody w' h') fun _ w'' h'' => ih w'' h''

/-- **Termination.** `I k` holds at the head of a loop that goes round at most `k` times more. -/
theorem wp_whileDo_measure {P K : World S σ η → Prop} (I : Nat → World S σ η → Prop)
    (hround : ∀ k w, I k w → wp E A test (gives (fun go w' =>
      if go then wp E A body (gives (fun _ w'' => ∃ j < k, I j w'') K) w' else P w') K) w) :
    ∀ n k w, k < n → I k w → wp E A (whileDo test body n) (gives (fun _ => P) K) w := by
  intro n
  induction n with
  | zero => exact fun k w hk => absurd hk (Nat.not_lt_zero k)
  | succ n ih =>
    intro k w hk hw
    apply wp_seq (hround k w hw)
    intro go w' h'
    cases go with
    | false => exact h'
    | true =>
      apply wp_seq h'
      rintro _ w'' ⟨j, hj, hI⟩
      exact ih j w'' (by omega) hI

theorem wp_iff_exec : wp E (fun _ _ _ => True) p Q w ↔ ∀ r w', Exec E p w r w' → Q r w' := by
  refine ⟨fun h r w' hrun => wp_post h hrun, fun h => ?_⟩
  induction p generalizing w with
  | ret a => exact h _ _ (.ret a w)
  | throw e => exact h _ _ (.throw e w)
  | cut => exact h _ _ (.cut w)
  | read k ih => exact ih _ fun r w' hrun => h r w' (.read hrun)
  | write s k ih => exact ih fun r w' hrun => h r w' (.write hrun)
  | op o k ih =>
    exact ⟨trivial, fun a s x hE => ih a fun r w' hrun => h r w' (.op hE hrun)⟩

theorem Exec.log_suffix (h : Exec E p w r w') : w.log <:+ w'.log := by
  induction h with
  | ret | throw | cut => exact suffix_refl _
  | read _ ih | write _ ih => exact ih
  | op _ _ ih => exact (suffix_cons _ _).trans ih

/-- Where every operation that a program issues can be answered, the program has a run. -/
theorem exists_exec_of_wp (htotal : ∀ o s x, A o s x → ∃ a s' x', E o s x a s' x') (h : wp E A p Q w) :
    ∃ r w', Exec E p w r w' := by
  induction p generalizing w with
  | ret a => exact ⟨_, _, .ret a w⟩
  | throw e => exact ⟨_, _, .throw e w⟩
  | cut => exact ⟨_, _, .cut w⟩
  | read k ih =>
    obtain ⟨r, w', hrun⟩ := ih w.st h
    exact ⟨r, w', .read hrun⟩
  | write s k ih =>
    obtain ⟨r, w', hrun⟩ := ih h
    exact ⟨r, w', .write hrun⟩
  | op o k ih =>
    obtain ⟨a, s, x, hE⟩ := htotal o w.st w.ext h.1
    obtain ⟨r, w', hrun⟩ := ih a (h.2 a s x hE)
    exact ⟨r, w', .op hE hrun⟩

theorem exists_exec (htotal : ∀ o s x, ∃ a s' x', E o s x a s' x') (p : Prog S σ ε α)
    (w : World S σ η) : ∃ r w', Exec E p w r w' :=
  exists_exec_of_wp (fun o s x _ => htotal o s x) (wp_trivial (A := fun _ _ _ => True)
    (fun _ _ _ => trivial) p w)

theorem exists_rest (htotal : ∀ o s x, ∃ a s' x', E o s x a s' x') {Q : Outcome ε β → World S σ η → Prop}
    (hp : wp E A' p (returns P) w) (h : wp E A (p >>= f) Q w) : ∃ a w', P a w' ∧ wp E A (f a) Q w' := by
  obtain ⟨r, w', hrun⟩ := exists_exec htotal p w
  have hret := wp_post hp hrun
  have hrest := wp_post (wp_bind.mp h) hrun
  cases r with
  | ret a => exact ⟨a, w', hret, hrest⟩
  | exn | cut => exact hret.elim

/-- **Completeness.** What holds at every operation of every run can be followed along the program. -/
theorem wp_of_events (htotal : ∀ o s x, ∃ a s' x', E o s x a s' x')
    (h : ∀ r w', Exec E p w r w' → ∀ e ∈ w'.log, A e.op e.st e.ext) : wp E A p (fun _ _ => True) w := by
  induction p generalizing w with
  | ret | throw | cut => exact trivial
  | read k ih => exact ih _ fun r w' hrun => h r w' (.read hrun)
  | write s k ih => exact ih fun r w' hrun => h r w' (.write hrun)
  | op o k ih =>
    refine ⟨?_, fun a s x hE => ih a fun r w' hrun => h r w' (.op hE hrun)⟩
    obtain ⟨a, s, x, hE⟩ := htotal o w.st w.ext
    obtain ⟨r, w', hrun⟩ := exists_exec htotal (k a) (w.push o a s x)
    exact h r w' (.op hE hrun) ⟨o, a, w.st, w.ext⟩ (hrun.log_suffix.mem (.head _))

/-! ### Building runs -/

theorem exec_bind {w1 : World S σ η} {r : Outcome ε β} (hp : Exec E p w (.ret a) w1)
    (hf : Exec E (f a) w1 r w') : Exec E (p >>= f) w r w' := by
  generalize hr : (Outcome.ret a : Outcome ε α) = r1 at hp
  induction hp with
  | ret b w => cases hr; exact hf
  | throw | cut => cases hr
  | read _ ih => exact .read (ih hf hr)
  | write _ ih => exact .write (ih hf hr)
  | op hE _ ih => exact .op hE (ih hf hr)

theorem exec_bind_exn {e : ε} (hp : Exec E p w (.exn e) w') : Exec E (p >>= f) w (.exn e) w' := by
  generalize hr : (Outcome.exn e : Outcome ε α) = r1 at hp
  induction hp with
  | ret | cut => cases hr
  | throw e w => cases hr; exact .throw _ _
  | read _ ih => exact .read (ih hr)
  | write _ ih => exact .write (ih hr)
  | op hE _ ih => exact .op hE (ih hr)

/-- Some run from the states `s` and `x` ends with `r` in the states `s'` and `x'`. -/
def Leads (E : Env S σ η) (p : Prog S σ ε α) (s : σ) (x : η) (r : Outcome ε α) (s' : σ) (x' : η) :
    Prop :=
  ∀ log, ∃ log', Exec E p ⟨s, x, log⟩ r ⟨s', x', log'⟩

namespace Leads

variable {s s₁ s' : σ} {x x₁ x' : η}

theorem ret (a : α) : Leads E (.ret a : Prog S σ ε α) s x (.ret a) s x :=
  fun log => ⟨log, .ret a _⟩

theorem throw (e : ε) : Leads E (.throw e : Prog S σ ε α) s x (.exn e) s x :=
  fun log => ⟨log, .throw e _⟩

theorem read {k : σ → Prog S σ ε α} (h : Leads E (k s) s x r s' x') :
    Leads E (.read k) s x r s' x' := by
  intro log
  obtain ⟨log', hrun⟩ := h log
  exact ⟨log', .read hrun⟩

theorem write {k : Prog S σ ε α} (h : Leads E k s₁ x r s' x') : Leads E (.write s₁ k) s x r s' x' := by
  intro log
  obtain ⟨log', hrun⟩ := h log
  exact ⟨log', .write hrun⟩

theorem op {o : S.Op} {k : S.Ans o → Prog S σ ε α} {a : S.Ans o} (hE : E o s x a s₁ x₁)
    (h : Leads E (k a) s₁ x₁ r s' x') : Leads E (.op o k) s x r s' x' := by
  intro log
  obtain ⟨log', hrun⟩ := h (⟨o, a, s, x⟩ :: log)
  exact ⟨log', .op hE hrun⟩

theorem bind {r : Outcome ε β} (hp : Leads E p s x (.ret a) s₁ x₁) (hf : Leads E (f a) s₁ x₁ r s' x') :
    Leads E (p >>= f) s x r s' x' := by
  intro log
  obtain ⟨log1, hrun⟩ := hp log
  obtain ⟨log', hrest⟩ := hf log1
  exact ⟨log', exec_bind hrun hrest⟩

theorem bind_exn {e : ε} (hp : Leads E p s x (.exn e) s' x') : Leads E (p >>= f) s x (.exn e) s' x' := by
  intro log
  obtain ⟨log', hrun⟩ := hp log
  exact ⟨log', exec_bind_exn hrun⟩

theorem forEach {f : β → Prog S σ ε Unit} {xs : List β} (X : List β → η)
    (hstep : ∀ done b rest, done ++ b :: rest = xs →
      Leads E (f b) s (X done) (.ret ()) s (X (done ++ [b]))) :
    Leads E (Prog.forEach xs f) s (X []) (.ret ()) s (X xs) := by
  have hrest : ∀ rest done, done ++ rest = xs →
      Leads E (Prog.forEach rest f) s (X done) (.ret ()) s (X xs) := by
    intro rest
    induction rest with
    | nil =>
      intro done hdone
      rw [append_nil] at hdone
      rw [hdone]
      exact .ret ()
    | cons b rest ih =>
      intro done hdone
      exact (hstep done b rest hdone).bind (ih _ (by rw [← hdone, append_assoc]; rfl))
  exact hrest xs [] rfl

theorem wp_rest {A : S.Op → σ → η → Prop} {Q : Outcome ε β → World S σ η → Prop} {log : List (Event S σ η)}
    (hp : Leads E p s x (.ret a) s₁ x₁) (h : wp E A (p >>= f) Q ⟨s, x, log⟩) :
    ∃ log', wp E A (f a) Q ⟨s₁, x₁, log'⟩ := by
  obtain ⟨log', hrun⟩ := hp log
  exact ⟨log', wp_post (wp_bind.mp h) hrun⟩

theorem whileDo_go {n : Nat} {r : Outcome ε Unit} (htest : Leads E test s x (.ret true) s x)
    (hbody : Leads E body s x (.ret ()) s₁ x₁) (hrest : Leads E (whileDo test body n) s₁ x₁ r s' x') :
    Leads E (whileDo test body (n + 1)) s x r s' x' :=
  htest.bind (hbody.bind hrest)

theorem whileDo_stop {n : Nat} (htest : Leads E test s x (.ret false) s x) :
    Leads E (whileDo test body (n + 1)) s x (.ret ()) s x :=
  htest.bind (.ret ())

end Leads

/-- Some run of the program, as for `Leads`, issues an operation of which `V` holds. -/
def Passes (E : Env S σ η) (V : Event S σ η → Prop) (p : Prog S σ ε α) (s : σ) (x : η) (r : Outcome ε α)
    (s' : σ) (x' : η) : Prop :=
  ∀ log, ∃ log', Exec E p ⟨s, x, log⟩ r ⟨s', x', log'⟩ ∧ ∃ e ∈ log', V e

namespace Passes

variable {V : Event S σ η → Prop} {s s₁ s' : σ} {x x₁ x' : η}

theorem op {o : S.Op} {k : S.Ans o → Prog S σ ε α} {r : Outcome ε α} {a : S.Ans o}
    (hV : V ⟨o, a, s, x⟩) (hE : E o s x a s₁ x₁) (h : Leads E (k a) s₁ x₁ r s' x') :
    Passes E V (.op o k) s x r s' x' := by
  intro log
  obtain ⟨log', hrun⟩ := h (⟨o, a, s, x⟩ :: log)
  exact ⟨log', .op hE hrun, _, hrun.log_suffix.mem (.head _), hV⟩

theorem bind {p : Prog S σ ε α} {f : α → Prog S σ ε β} {r : Outcome ε β}
    (hp : Passes E V p s x (.ret a) s₁ x₁) (hf : Leads E (f a) s₁ x₁ r s' x') :
    Passes E V (p >>= f) s x r s' x' := by
  intro log
  obtain ⟨log1, hrun, e, he, hV⟩ := hp log
  obtain ⟨log', hrest⟩ := hf log1
  exact ⟨log', exec_bind hrun hrest, e, hrest.log_suffix.mem he, hV⟩

end Passes

theorem Leads.bind_passes {V : Event S σ η → Prop} {s s₁ s' : σ} {x x₁ x' : η} {r : Outcome ε β}
    (hp : Leads E p s x (.ret a) s₁ x₁) (hf : Passes E V (f a) s₁ x₁ r s' x') :
    Passes E V (p >>= f) s x r s' x' := by
  intro log
  obtain ⟨log1, hrun⟩ := hp log
  obtain ⟨log', hrest, hpass⟩ := hf log1
  exact ⟨log', exec_bind hrun hrest, hpass⟩

/-- The run in which the environment answers as `answer` says. -/
def runWith (answer : (o : S.Op) → σ → η → S.Ans o × σ × η) :
    Prog S σ ε α → World S σ η → Outcome ε α × World S σ η
  | .ret a, w => (.ret a, w)
  | .throw e, w => (.exn e, w)
  | .cut, w => (.cut, w)
  | .read k, w => runWith answer (k w.st) w
  | .write s k, w => runWith answer k { w with st := s }
  | .op o k, w =>
      let r := answer o w.st w.ext
      runWith answer (k r.1) (w.push o r.1 r.2.1 r.2.2)

theorem exec_runWith {answer : (o : S.Op) → σ → η → S.Ans o × σ × η}
    (hE : ∀ o s x, E o s x (answer o s x).1 (answer o s x).2.1 (answer o s x).2.2)
    (p : Prog S σ ε α) (w : World S σ η) :
    Exec E p w (runWith answer p w).1 (runWith answer p w).2 := by
  induction p generalizing w with
  | ret a => exact .ret a w
  | throw e => exact .throw e w
  | cut => exact .cut w
  | read k ih => exact .read (ih _ w)
  | write s k ih => exact .write (ih _)
  | op o k ih => exact .op (hE o w.st w.ext) (ih _ _)

/-! Programs run one after the other: the calls that a user of an object makes. Each starts where the
one before ended, whether that one returned or raised. -/

/-- The list of worlds is where the programs ended, in order. -/
inductive Session (E : Env S σ η) : World S σ η → List (Prog S σ ε α) → List (World S σ η) → Prop
  | nil (w : World S σ η) : Session E w [] []
  | cons {p : Prog S σ ε α} {ps w r w' ws} :
      Exec E p w r w' → r ≠ .cut → Session E w' ps ws → Session E w (p :: ps) (w' :: ws)

theorem Session.invariant {I : World S σ η → Prop} {ps : List (Prog S σ ε α)} {w : World S σ η}
    {ws : List (World S σ η)} (hrun : Session E w ps ws) (hw : I w)
    (hstep : ∀ p ∈ ps, ∀ w, I w → wp E A p (fun _ => I) w) : ∀ w' ∈ ws, I w' := by
  induction hrun with
  | nil w => simp
  | cons hp _ _ ih =>
    have hI := wp_post (hstep _ mem_cons_self _ hw) hp
    rw [forall_mem_cons]
    exact ⟨hI, ih hI fun p hp => hstep p (.tail _ hp)⟩

end Prog
