import Mathlib.Data.List.Basic
import Mathlib.Tactic.IntervalCases

/-! Numerals in a base of at most sixteen, as texts. A numeral can be read back, also behind leading zeros,
so different numbers have different numerals, padded or not. -/

namespace Numerals

open List

def digitValue (c : Char) : Nat := if c.isDigit then c.toNat - '0'.toNat else c.toNat - 'a'.toNat + 10

/-- The number that a numeral stands for. -/
def value (b : Nat) (text : List Char) : Nat := text.foldl (fun n c => b * n + digitValue c) 0

variable {b : Nat}

theorem digitValue_digitChar {d : Nat} (h : d < 16) : digitValue d.digitChar = d := by
  interval_cases d <;> decide

theorem value_append_digit (text : List Char) (c : Char) :
    value b (text ++ [c]) = b * value b text + digitValue c := by
  rw [value, foldl_append, value]
  rfl

theorem value_toDigits (hb : 1 < b) (hle : b ≤ 16) (n : Nat) : value b (b.toDigits n) = n := by
  induction n using Nat.strong_induction_on with
  | _ n ih =>
    by_cases hn : n < b
    · rw [Nat.toDigits_of_lt_base hn]
      show b * 0 + digitValue n.digitChar = n
      rw [digitValue_digitChar (by omega)]
      omega
    · have hdiv : n / b < n := Nat.div_lt_self (by omega) hb
      have hmod : n % b < 16 := (Nat.mod_lt n (by omega)).trans_le hle
      rw [Nat.toDigits_of_base_le hb (by omega), value_append_digit, ih _ hdiv, digitValue_digitChar hmod]
      exact Nat.div_add_mod n b

theorem toDigits_injective (hb : 1 < b) (hle : b ≤ 16) : Function.Injective b.toDigits := by
  intro m n h
  calc m = value b (b.toDigits m) := (value_toDigits hb hle m).symm
    _ = value b (b.toDigits n) := by rw [h]
    _ = n := value_toDigits hb hle n

theorem value_leftpad (width : Nat) (text : List Char) :
    value b (text.leftpad width '0') = value b text := by
  have hzeros : ∀ k, (List.replicate k '0').foldl (fun n c => b * n + digitValue c) 0 = 0 := by
    intro k
    induction k with
    | zero => rfl
    | succ k ih => exact ih
  rw [value, List.leftpad, foldl_append, hzeros, value]

theorem leftpad_injective (hb : 1 < b) (hle : b ≤ 16) (width : Nat) :
    Function.Injective fun n => (b.toDigits n).leftpad width '0' := by
  intro m n h
  have hvalue : value b ((b.toDigits m).leftpad width '0') = value b ((b.toDigits n).leftpad width '0') :=
    congrArg (value b) h
  rwa [value_leftpad, value_leftpad, value_toDigits hb hle, value_toDigits hb hle] at hvalue

theorem exists_digitChar_of_mem (hb : 1 < b) {n : Nat} {c : Char} (hc : c ∈ b.toDigits n) :
    ∃ d, c = Nat.digitChar d := by
  induction n using Nat.strong_induction_on with
  | _ n ih =>
    by_cases hn : n < b
    · rw [Nat.toDigits_of_lt_base hn, mem_singleton] at hc
      exact ⟨n, hc⟩
    · rw [Nat.toDigits_of_base_le hb (by omega), mem_append, mem_singleton] at hc
      rcases hc with hc | hc
      · exact ih (n / b) (Nat.div_lt_self (by omega) hb) hc
      · exact ⟨n % b, hc⟩

end Numerals
