import ZbkcTasks.ProgWp

/-! Operations made of other operations. A run of `interp`, seen from above, is a run of the first program
in which each operation is answered as its own program ends (`exec_above`). -/

namespace Prog

variable {S S' : Sig} {σ η ε α β : Type}

def interp (impl : (o : S.Op) → Prog S' σ ε (S.Ans o)) : Prog S σ ε α → Prog S' σ ε α
  | .ret a => .ret a
  | .throw e => .throw e
  | .cut => .cut
  | .read k => .read fun s => interp impl (k s)
  | .write s k => .write s (interp impl k)
  | .op o k => impl o >>= fun a => interp impl (k a)

variable {impl : (o : S.Op) → Prog S' σ ε (S.Ans o)} {p : Prog S σ ε α} {E : Env S' σ η}

@[simp] theorem interp_ret (a : α) : interp impl (.ret a : Prog S σ ε α) = .ret a := rfl

@[simp] theorem interp_throw (e : ε) : interp impl (.throw e : Prog S σ ε α) = .throw e := rfl

@[simp] theorem interp_op (o : S.Op) (k : S.Ans o → Prog S σ ε α) :
    interp impl (.op o k) = impl o >>= fun a => interp impl (k a) := rfl

@[simp] theorem interp_bind (p : Prog S σ ε α) (f : α → Prog S σ ε β) :
    interp impl (p >>= f) = interp impl p >>= fun a => interp impl (f a) := by
  induction p with
  | ret | throw | cut => rfl
  | read k ih => exact congrArg _ (funext ih)
  | write s k ih => exact congrArg _ ih
  | op o k ih =>
    rw [op_bind, interp_op, interp_op, bind_assoc]
    exact congrArg _ (funext ih)

/-- The program with what it raises as a result. -/
def settle : Prog S σ ε α → Prog S σ ε (Except ε α)
  | .ret a => .ret (.ok a)
  | .throw e => .ret (.error e)
  | .cut => .cut
  | .read k => .read fun s => settle (k s)
  | .write s k => .write s (settle k)
  | .op o k => .op o fun a => settle (k a)

/-- The program is never cut off, and issues no other operations than those of `A`. -/
inductive Within (A : S.Op → Prop) : Prog S σ ε α → Prop
  | ret (a : α) : Within A (.ret a)
  | throw (e : ε) : Within A (.throw e)
  | read {k : σ → Prog S σ ε α} : (∀ s, Within A (k s)) → Within A (.read k)
  | write {s : σ} {k : Prog S σ ε α} : Within A k → Within A (.write s k)
  | op {o : S.Op} {k : S.Ans o → Prog S σ ε α} : A o → (∀ a, Within A (k a)) → Within A (.op o k)

variable {f : α → Prog S σ ε β} {r : Outcome ε α}

namespace Within

variable {A : S.Op → Prop}

theorem bind (hp : Within A p) (hf : ∀ a, Within A (f a)) : Within A (p >>= f) := by
  induction hp with
  | ret a => exact hf a
  | throw e => exact .throw e
  | read _ ih => exact .read ih
  | write _ ih => exact .write ih
  | op ho _ ih => exact .op ho ih

theorem forEach {f : β → Prog S σ ε Unit} (hf : ∀ x, Within A (f x)) (xs : List β) :
    Within A (Prog.forEach xs f) := by
  induction xs with
  | nil => exact .ret ()
  | cons x xs ih => exact (hf x).bind fun _ => ih

theorem settle_returns {E : Env S σ η} (hp : Within A p) {w w' : World S σ η} {r : Outcome ε (Except ε α)}
    (h : Exec E (settle p) w r w') : ∃ a, r = .ret a := by
  induction hp generalizing w with
  | ret | throw =>
    cases h
    exact ⟨_, rfl⟩
  | read _ ih =>
    cases h with
    | read h => exact ih _ h
  | write _ ih =>
    cases h with
    | write h => exact ih h
  | op _ _ ih =>
    cases h with
    | op _ h => exact ih _ h

end Within

theorem exec_bind_inv {E : Env S σ η} {w w' : World S σ η} {r : Outcome ε β}
    (hp : ∀ r w1, Exec E p w r w1 → ∃ a, r = .ret a) (h : Exec E (p >>= f) w r w') :
    ∃ a w1, Exec E p w (.ret a) w1 ∧ Exec E (f a) w1 r w' := by
  induction p generalizing w with
  | ret a => exact ⟨a, w, .ret a w, h⟩
  | throw e =>
    obtain ⟨a, ha⟩ := hp _ _ (.throw e w)
    cases ha
  | cut =>
    obtain ⟨a, ha⟩ := hp _ _ (.cut w)
    cases ha
  | read k ih =>
    cases h with
    | read h =>
      obtain ⟨a, w1, hrun, hrest⟩ := ih _ (fun r w1 hk => hp r w1 (.read hk)) h
      exact ⟨a, w1, .read hrun, hrest⟩
  | write s k ih =>
    cases h with
    | write h =>
      obtain ⟨a, w1, hrun, hrest⟩ := ih (fun r w1 hk => hp r w1 (.write hk)) h
      exact ⟨a, w1, .write hrun, hrest⟩
  | op o k ih =>
    cases h with
    | op hE h =>
      obtain ⟨a, w1, hrun, hrest⟩ := ih _ (fun r w1 hk => hp r w1 (.op hE hk)) h
      exact ⟨a, w1, .op hE hrun, hrest⟩

/-- **From above to below.** What holds of every run of the upper program holds of the program below, where
each operation is carried out as the upper environment allows. -/
theorem wp_interp {E : Env S σ η} {A : S.Op → σ → η → Prop} {E' : Env S' σ η} {A' : S'.Op → σ → η → Prop}
    (himpl : ∀ o (w : World S' σ η), A o w.st w.ext →
      wp E' A' (impl o) (returns fun a w' => E o w.st w.ext a w'.st w'.ext) w)
    {Q : Outcome ε α → σ → η → Prop} {log : List (Event S σ η)} {w : World S' σ η}
    (h : wp E A p (fun r u => Q r u.st u.ext) ⟨w.st, w.ext, log⟩) :
    wp E' A' (interp impl p) (fun r w' => Q r w'.st w'.ext) w := by
  induction p generalizing w log with
  | ret | throw | cut => exact h
  | read k ih => exact ih _ h
  | write s k ih => exact ih h
  | op o k ih =>
    rw [interp_op, wp_bind]
    refine wp_mono ?_ (himpl o w h.1)
    rintro (a | e | _) w1 hstep
    · exact ih a (h.2 a _ _ hstep)
    all_goals exact hstep.elim

/-- The environment as the upper program sees it: the lower operations are part of the outside. -/
def above (E : Env S' σ η) (impl : (o : S.Op) → Prog S' σ ε (S.Ans o)) :
    Env S σ (η × List (Event S' σ η)) := fun o s x a s' x' =>
  Exec E (impl o) ⟨s, x.1, x.2⟩ (.ret a) ⟨s', x'.1, x'.2⟩

/-- **Seen from above.** The upper operations of a run, where each of them only returns. -/
theorem exec_above (himpl : ∀ o w r w', Exec E (impl o) w r w' → ∃ a, r = .ret a) {w w' : World S' σ η}
    (h : Exec E (interp impl p) w r w') (log : List (Event S σ (η × List (Event S' σ η)))) :
    ∃ log', Exec (above E impl) p ⟨w.st, (w.ext, w.log), log⟩ r ⟨w'.st, (w'.ext, w'.log), log'⟩ := by
  induction p generalizing w log with
  | ret a =>
    cases h
    exact ⟨log, .ret a _⟩
  | throw e =>
    cases h
    exact ⟨log, .throw e _⟩
  | cut =>
    cases h
    exact ⟨log, .cut _⟩
  | read k ih =>
    cases h with
    | read h =>
      obtain ⟨log', hrun⟩ := ih _ h log
      exact ⟨log', .read hrun⟩
  | write s k ih =>
    cases h with
    | write h =>
      obtain ⟨log', hrun⟩ := ih h log
      exact ⟨log', .write hrun⟩
  | op o k ih =>
    obtain ⟨a, w1, hfirst, hrest⟩ := exec_bind_inv (himpl o w) h
    obtain ⟨log', hrun⟩ := ih a hrest _
    exact ⟨log', .op (x := (w1.ext, w1.log)) hfirst hrun⟩

theorem exec_interp {u u' : World S σ (η × List (Event S' σ η))} (h : Exec (above E impl) p u r u') :
    Exec E (interp impl p) ⟨u.st, u.ext.1, u.ext.2⟩ r ⟨u'.st, u'.ext.1, u'.ext.2⟩ := by
  induction h with
  | ret a w => exact .ret a _
  | throw e w => exact .throw e _
  | cut w => exact .cut _
  | read _ ih => exact .read ih
  | write _ ih => exact .write ih
  | op hfirst _ ih => exact exec_bind hfirst ih

/-- The answers to the upper operations; `value` picks the result out of an ending. -/
def answerAbove (impl : (o : S.Op) → Prog S' σ ε (S.Ans o))
    (answer : (o : S'.Op) → σ → η → S'.Ans o × σ × η) (value : (o : S.Op) → Outcome ε (S.Ans o) → S.Ans o)
    (o : S.Op) (s : σ) (x : η × List (Event S' σ η)) : S.Ans o × σ × η × List (Event S' σ η) :=
  let r := runWith answer (impl o) ⟨s, x.1, x.2⟩
  (value o r.1, r.2.st, r.2.ext, r.2.log)

theorem above_answerAbove {answer : (o : S'.Op) → σ → η → S'.Ans o × σ × η}
    {value : (o : S.Op) → Outcome ε (S.Ans o) → S.Ans o}
    (hE : ∀ o s x, E o s x (answer o s x).1 (answer o s x).2.1 (answer o s x).2.2)
    (himpl : ∀ o w r w', Exec E (impl o) w r w' → ∃ a, r = .ret a) (hvalue : ∀ o a, value o (.ret a) = a)
    (o : S.Op) (s : σ) (x : η × List (Event S' σ η)) :
    above E impl o s x (answerAbove impl answer value o s x).1 (answerAbove impl answer value o s x).2.1
      (answerAbove impl answer value o s x).2.2 := by
  have hrun := exec_runWith hE (impl o) ⟨s, x.1, x.2⟩
  obtain ⟨a, ha⟩ := himpl o _ _ _ hrun
  rw [ha] at hrun
  have hanswer : (answerAbove impl answer value o s x).1 = a := by
    rw [answerAbove, ha, hvalue]
  rw [hanswer]
  exact hrun

end Prog
