import ZbkcTasks.ProgWp

/-! What a program is made of. `Uses U p` is shown once, along the text of `p`; every invariant that the
allowed operations and steps keep is then one of the program (`Uses.wp`). -/

/-- What a program may use: operations, whole steps, exceptions, and the states it is told it reads. -/
structure Usage (S : Sig) (σ ε : Type) where
  ops : S.Op → Prop
  acts : Prog S σ ε Unit → Prop
  throws : ε → Prop
  reads : σ → Prop

namespace Prog

variable {S : Sig} {σ η ε α β : Type} {w : World S σ η} {p : Prog S σ ε α} {I K : World S σ η → Prop}

inductive Uses (U : Usage S σ ε) : Prog S σ ε α → Prop
  | ret (a : α) : Uses U (.ret a)
  | throw {e : ε} : U.throws e → Uses U (.throw e)
  | cut : Uses U .cut
  | read {k : σ → Prog S σ ε α} : (∀ s, U.reads s → Uses U (k s)) → Uses U (.read k)
  | op {o : S.Op} {k : S.Ans o → Prog S σ ε α} : U.ops o → (∀ a, Uses U (k a)) → Uses U (.op o k)
  | act {m : Prog S σ ε Unit} {k : Prog S σ ε α} :
      U.acts m → Uses U k → Uses U (m >>= fun _ => k)

variable {f : α → Prog S σ ε β} {T : ε → Prop}

namespace Uses

variable {U V : Usage S σ ε}

theorem bind (hp : Uses U p) (hf : ∀ a, Uses U (f a)) : Uses U (p >>= f) := by
  induction hp with
  | ret a => exact hf a
  | throw h => exact .throw h
  | cut => exact .cut
  | read _ ih => exact .read ih
  | op ho _ ih => exact .op ho ih
  | act hm _ ih =>
    rw [bind_assoc]
    exact .act hm ih

theorem step {m : Prog S σ ε Unit} (hm : U.acts m) : Uses U m := by
  have h := Uses.act (α := Unit) hm (.ret ())
  rwa [show (m >>= fun _ => Prog.ret ()) = m from bind_pure m] at h

theorem mono (hops : ∀ o, U.ops o → V.ops o) (hacts : ∀ m, U.acts m → V.acts m)
    (hthrows : ∀ e, U.throws e → V.throws e) (hreads : ∀ s, V.reads s → U.reads s) (hp : Uses U p) :
    Uses V p := by
  induction hp with
  | ret a => exact .ret a
  | throw h => exact .throw (hthrows _ h)
  | cut => exact .cut
  | read _ ih => exact .read fun s hs => ih s (hreads s hs)
  | op ho _ ih => exact .op (hops _ ho) ih
  | act hm _ ih => exact .act (hacts _ hm) ih

theorem ite {c : Prop} [Decidable c] {q : Prog S σ ε α} (hp : Uses U p) (hq : Uses U q) :
    Uses U (if c then p else q) := by
  split
  · exact hp
  · exact hq

theorem forEach {f : β → Prog S σ ε Unit} (hf : ∀ x, Uses U (f x)) (xs : List β) :
    Uses U (Prog.forEach xs f) := by
  induction xs with
  | nil => exact .ret ()
  | cons x xs ih => exact (hf x).bind fun _ => ih

theorem whileDo {test : Prog S σ ε Bool} {body : Prog S σ ε Unit} (htest : Uses U test)
    (hbody : Uses U body) (n : Nat) : Uses U (Prog.whileDo test body n) := by
  induction n with
  | zero => exact .cut
  | succ n ih =>
    refine htest.bind fun go => ?_
    cases go with
    | false => exact .ret ()
    | true => exact hbody.bind fun _ => ih

end Uses

/-- Ending with a result keeps `I`; ending early keeps `K`, with an exception that `T` allows. -/
def settles (I K : World S σ η → Prop) (T : ε → Prop) : Outcome ε α → World S σ η → Prop
  | .ret _, w => I w
  | .exn e, w => T e ∧ K w
  | .cut, w => K w

theorem settles_always {I : World S σ η → Prop} {r : Outcome ε α} :
    settles I I (fun _ => True) r w ↔ I w := by
  cases r with
  | ret | cut => exact Iff.rfl
  | exn e => exact and_iff_right trivial

variable {U : Usage S σ ε} {E : Env S σ η} {A : S.Op → σ → η → Prop}

theorem wp_bind_settles {I J K : World S σ η → Prop} (hp : wp E A p (settles I K T) w)
    (hf : ∀ a w', I w' → wp E A (f a) (settles J K T) w') : wp E A (p >>= f) (settles J K T) w := by
  rw [wp_bind]
  refine wp_mono ?_ hp
  rintro (a | e | _) w' h'
  · exact hf a w' h'
  · exact h'
  · exact h'

theorem wp_gives_of_settles (h : wp E A p (settles I K T) w) : wp E A p (gives (fun _ => I) K) w := by
  refine wp_mono ?_ h
  rintro (a | e | _) w' h'
  · exact h'
  · exact h'.2
  · exact h'

/-- **Invariants from use.** `I` is what holds between the steps, `K` what is left when a step is
broken off. -/
theorem Uses.wp (hIK : ∀ w, I w → K w) (hread : ∀ w, I w → U.reads w.st) (hop : ∀ o w, U.ops o → I w →
      A o w.st w.ext ∧ ∀ a s x, E o w.st w.ext a s x → I (w.push o a s x))
    (hact : ∀ m w, U.acts m → I w → Prog.wp E A m (settles I K U.throws) w) (hp : Uses U p) :
    ∀ w, I w → Prog.wp E A p (settles I K U.throws) w := by
  induction hp with
  | ret a => exact fun w hw => hw
  | throw h => exact fun w hw => ⟨h, hIK w hw⟩
  | cut => exact hIK
  | read _ ih => exact fun w hw => ih w.st (hread w hw) w hw
  | op ho _ ih =>
    intro w hw
    obtain ⟨hA, hstep⟩ := hop _ w ho hw
    exact ⟨hA, fun a s x hE => ih a _ (hstep a s x hE)⟩
  | act hm _ ih =>
    exact fun w hw => wp_bind_settles (hact _ w hm hw) fun _ => ih

/-! ### Invariants of every ending

For a program with handlers, which `Uses` does not speak of, and one invariant. -/

/-- The program keeps `I` whatever way it ends, and `A` holds at its operations. -/
def Always (E : Env S σ η) (A : S.Op → σ → η → Prop) (I : World S σ η → Prop) (p : Prog S σ ε α) : Prop :=
  ∀ w, I w → wp E A p (fun _ w' => I w') w

namespace Always

theorem ret (a : α) : Always E A I (.ret a : Prog S σ ε α) := fun _ hw => hw

theorem throw (e : ε) : Always E A I (.throw e : Prog S σ ε α) := fun _ hw => hw

theorem read {k : σ → Prog S σ ε α} (hk : ∀ s, Always E A I (k s)) : Always E A I (.read k) :=
  fun w hw => hk w.st w hw

theorem modify {f : σ → σ} (hf : ∀ w, I w → I { w with st := f w.st }) :
    Always E A I (.read fun s => .write (f s) (.ret ()) : Prog S σ ε Unit) :=
  hf

theorem op {o : S.Op} {k : S.Ans o → Prog S σ ε α}
    (ho : ∀ w, I w → A o w.st w.ext ∧ ∀ a s x, E o w.st w.ext a s x → I (w.push o a s x))
    (hk : ∀ a, Always E A I (k a)) : Always E A I (.op o k) :=
  fun w hw => ⟨(ho w hw).1, fun a s x hE => hk a _ ((ho w hw).2 a s x hE)⟩

theorem bind (hp : Always E A I p) (hf : ∀ a, Always E A I (f a)) : Always E A I (p >>= f) := by
  intro w hw
  refine wp_bind.mpr (wp_mono ?_ (hp w hw))
  rintro (a | e | _) w' h'
  · exact hf a w' h'
  · exact h'
  · exact h'

theorem catching {h : ε → Prog S σ ε α} (hp : Always E A I p) (hh : ∀ e, Always E A I (h e)) :
    Always E A I (p.catching h) := by
  intro w hw
  refine wp_catching (wp_mono ?_ (hp w hw))
  rintro (a | e | _) w' h'
  · exact h'
  · exact hh e w' h'
  · exact h'

theorem ite {c : Prop} [Decidable c] {q : Prog S σ ε α} (hp : Always E A I p) (hq : Always E A I q) :
    Always E A I (if c then p else q) := by
  split
  · exact hp
  · exact hq

theorem forEach {f : β → Prog S σ ε Unit} (hf : ∀ x, Always E A I (f x)) (xs : List β) :
    Always E A I (Prog.forEach xs f) := by
  induction xs with
  | nil => exact .ret ()
  | cons x xs ih => exact (hf x).bind fun _ => ih

theorem gives (hp : Always E A I p) {w : World S σ η} (hw : I w) :
    Prog.wp E A p (Prog.gives (fun _ w' => I w') fun _ => True) w := by
  refine wp_mono ?_ (hp w hw)
  rintro (a | e | _) w' h'
  · exact h'
  · exact trivial
  · exact trivial

end Always

end Prog
