import Mathlib.Algebra.Order.Ring.Rat
import Mathlib.Data.List.FinRange
import Mathlib.Tactic.Linarith
import ZbkcTasks.ProgUses
import ZbkcTasks.PyBase

/-! Statements that the tasks share: `assert`, a command that may raise, and `randrange` and `sample` of
Python 2, which take whole floats and draw integers. -/

namespace ZbkcTasks

open List Prog

section Statements

variable {S : Sig} {σ : Type}

/-- `assert c, msg`. -/
def pyAssert (c : Prop) [Decidable c] (msg : String) : Prog S σ PyError Unit :=
  if c then .ret () else .throw (.assertionError msg)

def ofCommand {β : Type} : Except CommandError β → Prog S σ PyError β
  | .ok b => .ret b
  | .error e => .throw (.command e)

def orThrow {β : Type} : Except PyError β → Prog S σ PyError β
  | .ok b => .ret b
  | .error e => .throw e

/-- The answer of a command of which only success or failure counts. -/
def ofStatus (ok : Bool) : Prog S σ PyError Unit := if ok then .ret () else .throw (.command (.failed 1))

/-- `(x,) = xs`. -/
def theOnly {β : Type} : List β → Prog S σ PyError β
  | [x] => .ret x
  | _ => .throw .valueError

def onlyIf (c : Prop) [Decidable c] (p : Prog S σ PyError Unit) : Prog S σ PyError Unit :=
  if c then p else .ret ()

variable {U : Usage S σ PyError}

theorem uses_pyAssert (hU : ∀ e, U.throws e) (c : Prop) [Decidable c] (msg : String) :
    Uses U (pyAssert c msg) :=
  .ite (.ret ()) (.throw (hU _))

theorem uses_ofCommand (hU : ∀ e, U.throws e) {β : Type} (r : Except CommandError β) :
    Uses U (ofCommand r) := by
  cases r with
  | ok b => exact .ret b
  | error e => exact .throw (hU _)

theorem uses_orThrow (hU : ∀ e, U.throws e) {β : Type} (r : Except PyError β) : Uses U (orThrow r) := by
  cases r with
  | ok b => exact .ret b
  | error e => exact .throw (hU e)

theorem uses_onlyIf {c : Prop} [Decidable c] {p : Prog S σ PyError Unit} (hp : Uses U p) :
    Uses U (onlyIf c p) :=
  .ite hp (.ret ())

end Statements

/-- The positions that `sample` draws: `k` different ones of `n`. -/
structure Sample (n k : Nat) where
  picks : List (Fin n)
  nodup : picks.Nodup
  length_eq : picks.length = k
  deriving DecidableEq

/-- The answer to a request for `k` of `n` positions: `random` refuses when there are not as many. -/
inductive Draw (n k : Nat)
  | picked (s : Sample n k)
  | refused (h : n < k)

def Sample.first {n k : Nat} (h : k ≤ n) : Sample n k where
  picks := (List.finRange n).take k
  nodup := (nodup_finRange n).sublist (take_sublist k _)
  length_eq := by rw [length_take, length_finRange, Nat.min_eq_left h]

def Draw.first (n k : Nat) : Draw n k :=
  if h : k ≤ n then .picked (.first h) else .refused (Nat.lt_of_not_le h)

def Draw.last (n k : Nat) : Draw n k :=
  if h : k ≤ n then .picked
    { picks := (List.finRange n).reverse.take k
      nodup := (nodup_reverse.mpr (nodup_finRange n)).sublist (take_sublist k _)
      length_eq := by rw [length_take, length_reverse, length_finRange, Nat.min_eq_left h] }
  else .refused (Nat.lt_of_not_le h)

def Sample.of {α : Type} {k : Nat} (population : List α) (s : Sample population.length k) : List α :=
  s.picks.map population.get

variable {α : Type} {k : Nat}

theorem Sample.of_length {population : List α} (s : Sample population.length k) :
    (s.of population).length = k := by
  rw [Sample.of, length_map, s.length_eq]

theorem Sample.of_subset {population : List α} (s : Sample population.length k) :
    s.of population ⊆ population := by
  intro a ha
  obtain ⟨i, -, rfl⟩ := mem_map.mp ha
  exact get_mem population i

theorem Sample.of_nodup {population : List α} (h : population.Nodup) (s : Sample population.length k) :
    (s.of population).Nodup :=
  s.nodup.map (nodup_iff_injective_get.mp h)

theorem Sample.exists_of {population xs : List α} (hsub : xs ⊆ population) (hxs : xs.Nodup) :
    ∃ s : Sample population.length xs.length, s.of population = xs := by
  have hpos : ∀ a : { a // a ∈ xs }, ∃ i : Fin population.length, population.get i = a.val :=
    fun a => get_of_mem (hsub a.property)
  choose position hposition using hpos
  have hinj : Function.Injective position := by
    intro a b hab
    apply Subtype.ext
    rw [← hposition a, ← hposition b, hab]
  refine ⟨⟨xs.attach.map position, (nodup_attach.mpr hxs).map hinj, by simp⟩, ?_⟩
  have hget : population.get ∘ position = Subtype.val := funext hposition
  rw [Sample.of, map_map, hget, attach_map_subtype_val]

section Draws

variable {S : Sig} {σ η : Type} {E : Env S σ η} {A : S.Op → σ → η → Prop}
  {draw : (n : Nat) → Prog S σ PyError (Fin (n + 1))}

/-- `randrange(start, stop)`, given how one of `n + 1` numbers is drawn. -/
def randrange (draw : (n : Nat) → Prog S σ PyError (Fin (n + 1))) (start stop : ℚ) :
    Prog S σ PyError Int :=
  if start.den ≠ 1 ∨ stop.den ≠ 1 then .throw .valueError
  else if stop ≤ start then .throw .valueError
  else draw (stop.num - start.num - 1).toNat >>= fun i => .ret (start.num + i.val)

def Draw.of {α : Type} {k : Nat} (population : List α) :
    Draw population.length k → Prog S σ PyError (List α)
  | .picked s => .ret (s.of population)
  | .refused _ => .throw .valueError

/-- `sample(population, k)`, given how `k` of `n` positions are drawn. -/
def sample {α : Type} (draw : (n k : Nat) → Prog S σ PyError (Draw n k)) (population : List α)
    (k : Int) : Prog S σ PyError (List α) :=
  if 0 ≤ k then draw population.length k.toNat >>= Draw.of population else .throw .valueError

theorem uses_randrange {U : Usage S σ PyError} (hU : ∀ e, U.throws e) (hdraw : ∀ n, Uses U (draw n))
    (start stop : ℚ) : Uses U (randrange draw start stop) :=
  .ite (.throw (hU _)) (.ite (.throw (hU _)) ((hdraw _).bind fun _ => .ret _))

variable {I K : World S σ η → Prop} {w : World S σ η}

theorem wp_randrange (start stop : ℚ) (hdraw : ∀ n, wp E A (draw n) (gives (fun _ => I) K) w) (hw : K w) :
    wp E A (randrange draw start stop)
      (gives (fun z w' => (start ≤ z ∧ (z : ℚ) < stop) ∧ I w') K) w := by
  unfold randrange
  split
  · exact hw
  · rename_i hwhole
    split
    · exact hw
    · rename_i hlt
      push Not at hwhole hlt
      have hstart : (start.num : ℚ) = start := Rat.den_eq_one_iff _ |>.mp hwhole.1
      have hstop : (stop.num : ℚ) = stop := Rat.den_eq_one_iff _ |>.mp hwhole.2
      have hnum : start.num < stop.num := by
        rw [← hstart, ← hstop] at hlt
        exact_mod_cast hlt
      refine wp_seq (hdraw _) fun i w' hI => ⟨?_, hI⟩
      have hi := i.isLt
      have hge : start.num ≤ start.num + (i.val : Int) := by omega
      have hlt' : start.num + (i.val : Int) < stop.num := by omega
      constructor
      · calc start = (start.num : ℚ) := hstart.symm
          _ ≤ ((start.num + (i.val : Int) : Int) : ℚ) := by exact_mod_cast hge
      · calc ((start.num + (i.val : Int) : Int) : ℚ) < (stop.num : ℚ) := by exact_mod_cast hlt'
          _ = stop := hstop

theorem wp_sample {α : Type} (draw : (n k : Nat) → Prog S σ PyError (Draw n k)) {population : List α}
    {k : Int} (hpop : population.Nodup)
    (hdraw : wp E A (draw population.length k.toNat) (gives (fun _ => I) K) w) (hw : K w)
    (hIK : ∀ w, I w → K w) : wp E A (sample draw population k)
      (gives (fun xs w' => (xs.Nodup ∧ xs ⊆ population ∧ (xs.length : Int) = k) ∧ I w') K) w := by
  unfold sample
  split
  · rename_i hk
    refine wp_seq hdraw fun d w' hI => ?_
    cases d with
    | picked s =>
      refine ⟨⟨s.of_nodup hpop, s.of_subset, ?_⟩, hI⟩
      rw [s.of_length]
      exact Int.toNat_of_nonneg hk
    | refused h => exact hIK w' hI
  · exact hw

variable {s : σ} {x : η}

theorem leads_randrange (start stop z : Int) (hdraw : ∀ n i, Leads E (draw n) s x (.ret i) s x)
    (hz : start ≤ z ∧ z < stop) : Leads E (randrange draw start stop) s x (.ret z) s x := by
  have hwhole : ¬ ((start : ℚ).den ≠ 1 ∨ (stop : ℚ).den ≠ 1) := by simp
  have hlt : ¬ (stop : ℚ) ≤ start := by exact_mod_cast (by omega : ¬ stop ≤ start)
  rw [randrange, if_neg hwhole, if_neg hlt]
  have hi : (z - start).toNat < ((stop : ℚ).num - (start : ℚ).num - 1).toNat + 1 := by
    simp only [Rat.num_intCast]
    omega
  refine (hdraw _ ⟨(z - start).toNat, hi⟩).bind ?_
  have hz' : (start : ℚ).num + ((z - start).toNat : Int) = z := by
    simp only [Rat.num_intCast]
    omega
  rw [hz']
  exact .ret z

theorem leads_sample {α : Type} (draw : (n k : Nat) → Prog S σ PyError (Draw n k))
    {population xs : List α} (hdraw : ∀ n k d, Leads E (draw n k) s x (.ret d) s x)
    (hsub : xs ⊆ population) (hxs : xs.Nodup) :
    Leads E (sample draw population xs.length) s x (.ret xs) s x := by
  obtain ⟨picked, hpicked⟩ := Sample.exists_of hsub hxs
  rw [sample, if_pos (Int.natCast_nonneg _)]
  refine (hdraw _ _ (.picked picked)).bind ?_
  rw [Draw.of, hpicked]
  exact .ret xs

end Draws

end ZbkcTasks
