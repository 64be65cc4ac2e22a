import Mathlib.Logic.Basic

/-! Programs that act on the outside world one operation at a time: finite trees that branch over the
states read and the answers. A loop is unfolded a given number of times, and `cut` marks where that ends,
so a statement about every unfolding is about every finite part of a run. -/

/-- The operations a program may issue, each with the type of its answers. -/
structure Sig where
  Op : Type
  Ans : Op → Type

inductive Prog (S : Sig) (σ ε α : Type) : Type
  | ret (a : α)
  | throw (e : ε)
  | cut
  | read (k : σ → Prog S σ ε α)
  | write (s : σ) (k : Prog S σ ε α)
  | op (o : S.Op) (k : S.Ans o → Prog S σ ε α)

/-- How a run ends: with a result, with an exception, or at a `cut`. -/
inductive Outcome (ε α : Type) : Type
  | ret (a : α)
  | exn (e : ε)
  | cut
  deriving DecidableEq

namespace Prog

variable {S : Sig} {σ ε α β : Type}

protected def bind : Prog S σ ε α → (α → Prog S σ ε β) → Prog S σ ε β
  | .ret a, f => f a
  | .throw e, _ => .throw e
  | .cut, _ => .cut
  | .read k, f => .read fun s => (k s).bind f
  | .write s k, f => .write s (k.bind f)
  | .op o k, f => .op o fun a => (k a).bind f

instance : Monad (Prog S σ ε) where
  pure := .ret
  bind := Prog.bind

@[simp] theorem ret_bind (a : α) (f : α → Prog S σ ε β) : (Prog.ret a >>= f) = f a := rfl

@[simp] theorem throw_bind (e : ε) (f : α → Prog S σ ε β) :
    ((Prog.throw e : Prog S σ ε α) >>= f) = .throw e := rfl

@[simp] theorem cut_bind (f : α → Prog S σ ε β) : ((Prog.cut : Prog S σ ε α) >>= f) = .cut := rfl

@[simp] theorem read_bind (k : σ → Prog S σ ε α) (f : α → Prog S σ ε β) :
    (Prog.read k >>= f) = .read fun s => k s >>= f := rfl

@[simp] theorem write_bind (s : σ) (k : Prog S σ ε α) (f : α → Prog S σ ε β) :
    (Prog.write s k >>= f) = .write s (k >>= f) := rfl

@[simp] theorem op_bind (o : S.Op) (k : S.Ans o → Prog S σ ε α) (f : α → Prog S σ ε β) :
    (Prog.op o k >>= f) = .op o fun a => k a >>= f := rfl

instance : LawfulMonad (Prog S σ ε) := LawfulMonad.mk' _
  (fun p => by
    induction p with
    | ret a => rfl
    | throw e => rfl
    | cut => rfl
    | read k ih => exact congrArg _ (funext ih)
    | write s k ih => exact congrArg _ ih
    | op o k ih => exact congrArg _ (funext ih))
  (fun _ _ => rfl)
  (fun p f g => by
    induction p with
    | ret a => rfl
    | throw e => rfl
    | cut => rfl
    | read k ih => exact congrArg _ (funext ih)
    | write s k ih => exact congrArg _ ih
    | op o k ih => exact congrArg _ (funext ih))

/-- Run the handler on an exception. A `cut` is not an exception and is not caught. -/
def catching : Prog S σ ε α → (ε → Prog S σ ε α) → Prog S σ ε α
  | .ret a, _ => .ret a
  | .throw e, h => h e
  | .cut, _ => .cut
  | .read k, h => .read fun s => (k s).catching h
  | .write s k, h => .write s (k.catching h)
  | .op o k, h => .op o fun a => (k a).catching h

/-- `try: p finally: q`. The exception of `q` replaces that of `p`. -/
def finallyDo : Prog S σ ε α → Prog S σ ε Unit → Prog S σ ε α
  | .ret a, q => q >>= fun _ => .ret a
  | .throw e, q => q >>= fun _ => .throw e
  | .cut, _ => .cut
  | .read k, q => .read fun s => (k s).finallyDo q
  | .write s k, q => .write s (k.finallyDo q)
  | .op o k, q => .op o fun a => (k a).finallyDo q

/-- `for x in xs`. -/
def forEach : List β → (β → Prog S σ ε Unit) → Prog S σ ε Unit
  | [], _ => .ret ()
  | x :: xs, f => f x >>= fun _ => forEach xs f

theorem forEach_append (xs ys : List β) (f : β → Prog S σ ε Unit) :
    forEach (xs ++ ys) f = forEach xs f >>= fun _ => forEach ys f := by
  induction xs with
  | nil => rfl
  | cons x xs ih => rw [List.cons_append, forEach, forEach, ih, bind_assoc]

/-- `for x in xs: table[x] = f(x)`, with the entries of the table in the order in which they are made. -/
def tabulate : List β → (β → Prog S σ ε α) → Prog S σ ε (List (β × α))
  | [], _ => .ret []
  | x :: xs, f => f x >>= fun a => tabulate xs f >>= fun table => .ret ((x, a) :: table)

theorem tabulate_congr {xs : List β} {f g : β → Prog S σ ε α} (h : ∀ x ∈ xs, f x = g x) :
    tabulate xs f = tabulate xs g := by
  induction xs with
  | nil => rfl
  | cons x xs ih =>
    rw [tabulate, tabulate, h x (.head _), ih fun y hy => h y (.tail _ hy)]

/-- `while test: body`, cut after the given number of tests. -/
def whileDo (test : Prog S σ ε Bool) (body : Prog S σ ε Unit) : Nat → Prog S σ ε Unit
  | 0 => .cut
  | n + 1 => test >>= fun go => if go then body >>= fun _ => whileDo test body n else .ret ()

end Prog
