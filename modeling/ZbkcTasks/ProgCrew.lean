import Mathlib.Logic.Function.Basic
import Mathlib.Logic.Relation
import ZbkcTasks.ProgWp

/-! Programs side by side, which act on one outside state, one operation at a time, in any order. Each
keeps notes, followed along its own text; an invariant ties all notes to the outside state (`Moves.inv`).
-/

namespace Prog

variable {S : Sig} {η γ ε N : Type}

def ended {σ α : Type} : Prog S σ ε α → Option (Outcome ε α)
  | .ret a => some (.ret a)
  | .throw e => some (.exn e)
  | .cut => some .cut
  | _ => none

/-- What is left of each program, and the outside state. -/
structure Crew (S : Sig) (η ε N : Type) where
  left : N → Prog S Unit ε Unit
  ext : η

variable [DecidableEq N]

/-- One of the programs goes on. -/
inductive Move (E : Env S Unit η) (c : Crew S η ε N) : Crew S η ε N → Prop
  | read {n : N} {k : Unit → Prog S Unit ε Unit} : c.left n = .read k →
      Move E c { c with left := Function.update c.left n (k ()) }
  | write {n : N} {u : Unit} {k : Prog S Unit ε Unit} : c.left n = .write u k →
      Move E c { c with left := Function.update c.left n k }
  | op {n : N} {o : S.Op} {k : S.Ans o → Prog S Unit ε Unit} {a : S.Ans o} {u : Unit} {x : η} :
      c.left n = .op o k → E o () c.ext a u x → Move E c ⟨Function.update c.left n (k a), x⟩

abbrev Moves (E : Env S Unit η) : Crew S η ε N → Crew S η ε N → Prop := Relation.ReflTransGen (Move E)

/-- Starting the programs and waiting for them: all of them have returned, or one has not. -/
def Joins (E : Env S Unit η) (left : N → Prog S Unit ε Unit) (x : η) (r : Outcome ε Unit) (x' : η) : Prop :=
  ∃ left', Moves E ⟨left, x⟩ ⟨left', x'⟩ ∧
    (r = .ret () ∧ (∀ n, ended (left' n) = some (.ret ())) ∨ r ≠ .ret () ∧ ∃ n, ended (left' n) = some r)

variable {E : Env S Unit η} {c c' : Crew S η ε N}

/-! ### Notes -/

section Notes

variable {L : N → Env S Unit γ} {A : N → S.Op → Prop} {Q : N → Outcome ε Unit → γ → Prop}
  {I : (N → γ) → η → Prop} {g : N → γ}

/-- From the notes it has, each program ends in its postcondition. -/
def Crew.Keeps (c : Crew S η ε N) (L : N → Env S Unit γ) (A : N → S.Op → Prop)
    (Q : N → Outcome ε Unit → γ → Prop) (g : N → γ) : Prop :=
  ∀ n, ∃ w : World S Unit γ, w.ext = g n ∧
    wp (L n) (fun o _ _ => A n o) (c.left n) (fun r w' => Q n r w'.ext) w

theorem Crew.Keeps.of_left {n : N} {p : Prog S Unit ε Unit} {b : γ} {x : η} (h : c.Keeps L A Q g)
    (hp : ∃ w : World S Unit γ, w.ext = b ∧ wp (L n) (fun o _ _ => A n o) p (fun r w' => Q n r w'.ext) w) :
    (⟨Function.update c.left n p, x⟩ : Crew S η ε N).Keeps L A Q (Function.update g n b) := by
  intro m
  by_cases hm : m = n
  · subst hm
    simpa only [Function.update_self] using hp
  · simpa only [Function.update_of_ne hm] using h m

/-- **Notes and invariant.** Each operation lets its program write up its notes so that the invariant is
kept; then there are notes after every move. -/
theorem Moves.inv (hstep : ∀ n o g x a u x', A n o → I g x → E o () x a u x' →
      ∃ b, L n o () (g n) a () b ∧ I (Function.update g n b) x')
    (h : Moves E c c') (hI : I g c.ext) (hkeeps : c.Keeps L A Q g) :
    ∃ g', I g' c'.ext ∧ c'.Keeps L A Q g' := by
  induction h with
  | refl => exact ⟨g, hI, hkeeps⟩
  | tail _ hmove ih =>
    obtain ⟨g, hI, hkeeps⟩ := ih
    cases hmove with
    | @read n k hn =>
      obtain ⟨w, hw, hwp⟩ := hkeeps n
      rw [hn] at hwp
      refine ⟨g, hI, ?_⟩
      simpa only [Function.update_eq_self] using hkeeps.of_left (p := k ()) ⟨w, hw, hwp⟩
    | @write n u k hn =>
      obtain ⟨w, hw, hwp⟩ := hkeeps n
      rw [hn] at hwp
      refine ⟨g, hI, ?_⟩
      simpa only [Function.update_eq_self] using hkeeps.of_left (p := k) ⟨{ w with st := u }, hw, hwp⟩
    | @op n o k a u x hn hE =>
      obtain ⟨w, hw, hwp⟩ := hkeeps n
      rw [hn] at hwp
      obtain ⟨b, hb, hIb⟩ := hstep n o g _ a u x hwp.1 hI hE
      refine ⟨Function.update g n b, hIb, hkeeps.of_left ⟨w.push o a () b, rfl, ?_⟩⟩
      exact hwp.2 a () b (hw ▸ hb)

omit [DecidableEq N] in
theorem Crew.Keeps.post {n : N} {r : Outcome ε Unit} (h : c.Keeps L A Q g)
    (hn : ended (c.left n) = some r) : Q n r (g n) := by
  obtain ⟨w, hw, hwp⟩ := h n
  rw [← hw]
  cases hleft : c.left n <;> rw [hleft] at hn hwp <;> cases hn <;> exact hwp

end Notes

/-! ### To the end -/

theorem Moves.eq_of_ended (h : Moves E c c') (hended : ∀ n, (ended (c.left n)).isSome) : c' = c := by
  rcases h.cases_head with rfl | ⟨c1, hmove, -⟩
  · rfl
  · cases hmove with
    | @read n k hn => simpa [hn, ended] using hended n
    | @write n u k hn => simpa [hn, ended] using hended n
    | @op n o k a u x hn hE => simpa [hn, ended] using hended n

theorem exists_moves_one (htotal : ∀ o x, ∃ a u x', E o () x a u x') (n : N) (c : Crew S η ε N) :
    ∃ c', Moves E c c' ∧ (ended (c'.left n)).isSome ∧ ∀ m, m ≠ n → c'.left m = c.left m := by
  obtain ⟨p, hp⟩ : ∃ p, c.left n = p := ⟨_, rfl⟩
  induction p generalizing c with
  | ret | throw | cut => exact ⟨c, .refl, by rw [hp]; rfl, fun _ _ => rfl⟩
  | read k ih =>
    obtain ⟨c', hmoves, hn, hothers⟩ := ih () { c with left := Function.update c.left n (k ()) }
      (Function.update_self n (k ()) c.left)
    refine ⟨c', .head (.read hp) hmoves, hn, fun m hm => ?_⟩
    exact (hothers m hm).trans (Function.update_of_ne hm _ _)
  | write u k ih =>
    obtain ⟨c', hmoves, hn, hothers⟩ := ih { c with left := Function.update c.left n k }
      (Function.update_self n k c.left)
    refine ⟨c', .head (.write hp) hmoves, hn, fun m hm => ?_⟩
    exact (hothers m hm).trans (Function.update_of_ne hm _ _)
  | op o k ih =>
    obtain ⟨a, u, x, hE⟩ := htotal o c.ext
    obtain ⟨c', hmoves, hn, hothers⟩ := ih a ⟨Function.update c.left n (k a), x⟩
      (Function.update_self n (k a) c.left)
    refine ⟨c', .head (.op hp hE) hmoves, hn, fun m hm => ?_⟩
    exact (hothers m hm).trans (Function.update_of_ne hm _ _)

theorem exists_moves_ended (htotal : ∀ o x, ∃ a u x', E o () x a u x') (ns : List N) (c : Crew S η ε N)
    (hrest : ∀ n, n ∉ ns → (ended (c.left n)).isSome) :
    ∃ c', Moves E c c' ∧ ∀ n, (ended (c'.left n)).isSome := by
  induction ns generalizing c with
  | nil => exact ⟨c, .refl, fun n => hrest n (by simp)⟩
  | cons n ns ih =>
    obtain ⟨c1, hfirst, hn, hothers⟩ := exists_moves_one htotal n c
    obtain ⟨c', hmoves, hended⟩ := ih c1 fun m hm => by
      by_cases hmn : m = n
      · rw [hmn]
        exact hn
      · rw [hothers m hmn]
        exact hrest m (by simp [hmn, hm])
    exact ⟨c', hfirst.trans hmoves, hended⟩

theorem exists_joins (htotal : ∀ o x, ∃ a u x', E o () x a u x') (ns : List N)
    {left : N → Prog S Unit ε Unit}
    (hrest : ∀ n, n ∉ ns → (ended (left n)).isSome) (x : η) : ∃ r x', Joins E left x r x' := by
  obtain ⟨⟨left', x'⟩, hmoves, hended⟩ := exists_moves_ended htotal ns ⟨left, x⟩ hrest
  by_cases hall : ∀ n, ended (left' n) = some (.ret ())
  · exact ⟨.ret (), x', left', hmoves, .inl ⟨rfl, hall⟩⟩
  · obtain ⟨n, hn⟩ := not_forall.mp hall
    obtain ⟨r, hr⟩ := Option.isSome_iff_exists.mp (hended n)
    refine ⟨r, x', left', hmoves, .inr ⟨?_, n, hr⟩⟩
    rintro rfl
    exact hn hr

end Prog
