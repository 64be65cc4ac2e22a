import ZbkcTasks.ProgWp

/-! Programs that issue the operations of a list, whatever they are answered, and raise at once when one
fails. -/

def World.ops {S : Sig} {σ η : Type} (w : World S σ η) : List S.Op := (w.log.map Event.op).reverse

theorem World.ops_push {S : Sig} {σ η : Type} (w : World S σ η) (o : S.Op) (a : S.Ans o) (s : σ) (x : η) :
    (w.push o a s x).ops = w.ops ++ [o] := by
  rw [ops, World.push_log, List.map_cons, List.reverse_cons, ops]

namespace Prog

open List

variable {S : Sig} {σ η ε α β : Type}

/-- The program issues the operations of the list; `fails` says which answers make it raise. -/
inductive Scripted (fails : (o : S.Op) → S.Ans o → Prop) : Prog S σ ε α → List S.Op → Prop
  | ret (a : α) : Scripted fails (.ret a) []
  | op {o : S.Op} {k : S.Ans o → Prog S σ ε α} {script : List S.Op} :
      (∀ a, ¬ fails o a → Scripted fails (k a) script) → (∀ a, fails o a → ∃ e, k a = .throw e) →
        Scripted fails (.op o k) (o :: script)

variable {p : Prog S σ ε α} {script : List S.Op}

namespace Scripted

variable {fails : (o : S.Op) → S.Ans o → Prop}

theorem bind {f : α → Prog S σ ε β} {script' : List S.Op} (hp : Scripted fails p script)
    (hf : ∀ a, Scripted fails (f a) script') : Scripted fails (p >>= f) (script ++ script') := by
  induction hp with
  | ret a => exact hf a
  | op _ hthrow ih =>
    refine .op ih fun a ha => ?_
    obtain ⟨e, he⟩ := hthrow a ha
    exact ⟨e, by rw [he]; rfl⟩

/-- A run has issued the first operations of the list, all of them unless one failed. -/
structure Ended (fails : (o : S.Op) → S.Ans o → Prop) (script : List S.Op) (w : World S σ η)
    (r : Outcome ε α) (w' : World S σ η) : Prop where
  issued : ∃ done, done <+: script ∧ w'.ops = w.ops ++ done ∧ (∀ a, r = .ret a → done = script)
  stopped : (∃ a, r = .ret a) ∨ ∃ e ∈ w'.log, fails e.op e.ans

/-- **Every run of a script** ends as it should. -/
theorem ended {E : Env S σ η} {w w' : World S σ η} {r : Outcome ε α} (hp : Scripted fails p script)
    (hrun : Exec E p w r w') : Ended fails script w r w' := by
  induction hp generalizing w with
  | ret a =>
    cases hrun
    exact ⟨⟨[], prefix_refl _, by simp, fun _ _ => rfl⟩, .inl ⟨a, rfl⟩⟩
  | @op o k script _ hthrow ih =>
    cases hrun with
    | @op _ _ _ a s x _ _ _ hrest =>
      by_cases ha : fails o a
      · obtain ⟨e, he⟩ := hthrow a ha
        rw [he] at hrest
        cases hrest
        refine ⟨⟨[o], ⟨script, rfl⟩, w.ops_push o a s x, fun _ h => nomatch h⟩, .inr ?_⟩
        exact ⟨⟨o, a, w.st, w.ext⟩, .head _, ha⟩
      · obtain ⟨⟨done, hdone, hops, hall⟩, hstopped⟩ := ih a ha hrest
        refine ⟨⟨o :: done, cons_prefix_cons.mpr ⟨rfl, hdone⟩, ?_, ?_⟩, hstopped⟩
        · rw [hops, World.ops_push, append_assoc, singleton_append]
        · intro b hb
          rw [hall b hb]

end Scripted

end Prog
