import Mathlib.Data.List.Basic
import Mathlib.Data.String.Defs
import ZbkcTasks.PyBase

/-! The methods and functions of Python that take a text apart: `int`, `str.isdigit` and `str.split`. Texts
are lists of characters. -/

namespace ZbkcTasks

open List

/-- The characters at which `str.split()` splits. -/
def isBlank (c : Char) : Bool := c ∈ " \t\n\r\x0b\x0c".toList

/-- `text.split()`. -/
def words (text : List Char) : List (List Char) := (text.splitOnP isBlank).filter (· ≠ [])

/-- `text.isdigit()`. -/
def isDigits (text : List Char) : Bool := decide (text ≠ []) && text.all Char.isDigit

/-- `text.strip()`. -/
def strip (text : List Char) : List Char := ((text.dropWhile isBlank).reverse.dropWhile isBlank).reverse

def intOfDigits (digits : List Char) (sign : Int) : Except PyError Int :=
  if isDigits digits then .ok (sign * Nat.ofDigitChars 10 digits 0) else .error .valueError

/-- `int(text)`. -/
def pyInt (text : List Char) : Except PyError Int :=
  match strip text with
  | '-' :: digits => intOfDigits digits (-1)
  | '+' :: digits => intOfDigits digits 1
  | digits => intOfDigits digits 1

def numeral (n : Nat) : List Char := Nat.toDigits 10 n

theorem toList_toString (n : Nat) : (toString n).toList = numeral n := by
  rw [Nat.toString_eq_ofList_toDigits, String.toList_ofList, numeral]

variable {c : Char}

theorem isDigit_of_mem_numeral {n : Nat} (h : c ∈ numeral n) : c.isDigit = true :=
  Nat.isDigit_of_mem_toDigits (by decide) (by decide) h

theorem numeral_ne_nil (n : Nat) : numeral n ≠ [] := Nat.toDigits_ne_nil

theorem isBlank_of_isDigit (h : c.isDigit = true) : isBlank c = false := by
  refine Bool.eq_false_iff.mpr fun hblank => ?_
  have hmem : c ∈ " \t\n\r\x0b\x0c".toList := of_decide_eq_true hblank
  have hnone : ∀ b ∈ " \t\n\r\x0b\x0c".toList, b.isDigit = false := by simp
  exact absurd (hnone c hmem ▸ h) (by simp)

theorem isDigits_numeral (n : Nat) : isDigits (numeral n) = true := by
  rw [isDigits, decide_eq_true (numeral_ne_nil n), Bool.true_and, all_eq_true]
  exact fun c hc => isDigit_of_mem_numeral hc

variable {text xs : List Char}

theorem dropWhile_isBlank (h : ∀ c ∈ text, isBlank c = false) : text.dropWhile isBlank = text := by
  cases text with
  | nil => rfl
  | cons c text => exact dropWhile_cons_of_neg (by simp [h c (.head _)])

theorem strip_eq_self (h : ∀ c ∈ text, isBlank c = false) : strip text = text := by
  rw [strip, dropWhile_isBlank h, dropWhile_isBlank fun c hc => h c (mem_reverse.mp hc),
    reverse_reverse]

theorem strip_append_blank (hfirst : ∀ d ∈ xs.head?, isBlank d = false)
    (hlast : ∀ d ∈ xs.getLast?, isBlank d = false) (hne : xs ≠ []) (hc : isBlank c = true) :
    strip (xs ++ [c]) = xs := by
  have hdrop : ∀ {ys : List Char}, (∀ d ∈ ys.head?, isBlank d = false) → ys.dropWhile isBlank = ys := by
    intro ys hys
    cases ys with
    | nil => rfl
    | cons d ys => exact dropWhile_cons_of_neg (by simp [hys d rfl])
  have hhead : ∀ d ∈ (xs ++ [c]).head?, isBlank d = false := by
    intro d hd
    rw [head?_append_of_ne_nil _ hne] at hd
    exact hfirst d hd
  rw [strip, hdrop hhead, reverse_append, reverse_singleton, singleton_append,
    dropWhile_cons_of_pos hc, hdrop (by rwa [head?_reverse]), reverse_reverse]

theorem pyInt_of_isDigits (h : isDigits text = true) :
    pyInt text = .ok (Nat.ofDigitChars 10 text 0 : Nat) := by
  have hall : ∀ c ∈ text, c.isDigit = true := by
    rw [isDigits, Bool.and_eq_true, all_eq_true] at h
    exact h.2
  have hstrip : strip text = text := strip_eq_self fun c hc => isBlank_of_isDigit (hall c hc)
  have hdigits : intOfDigits text 1 = .ok (Nat.ofDigitChars 10 text 0 : Nat) := by
    rw [intOfDigits, if_pos h, Int.one_mul]
  have hsign : ∀ c ∈ text, c ≠ '-' ∧ c ≠ '+' := by
    intro c hc
    have := hall c hc
    constructor
    all_goals
      rintro rfl
      exact absurd this (by decide)
  rw [pyInt, hstrip]
  split
  next => exact absurd rfl (hsign '-' (.head _)).1
  next => exact absurd rfl (hsign '+' (.head _)).2
  next => exact hdigits

theorem pyInt_numeral (n : Nat) : pyInt (numeral n) = .ok n := by
  rw [pyInt_of_isDigits (isDigits_numeral n), numeral, Nat.ofDigitChars_ten_toDigits]

theorem exists_pyInt (n : Int) : ∃ text, pyInt text = .ok n := by
  rcases Int.eq_nat_or_neg n with ⟨k, rfl | rfl⟩
  · exact ⟨numeral k, pyInt_numeral k⟩
  · have hblank : ∀ c ∈ '-' :: numeral k, isBlank c = false :=
      forall_mem_cons.mpr ⟨rfl, fun c hc => isBlank_of_isDigit (isDigit_of_mem_numeral hc)⟩
    refine ⟨'-' :: numeral k, ?_⟩
    rw [pyInt, strip_eq_self hblank]
    show intOfDigits (numeral k) (-1) = .ok (-k)
    rw [intOfDigits, if_pos (isDigits_numeral k), numeral, Nat.ofDigitChars_ten_toDigits, Int.neg_one_mul]

theorem mapM_ok {α β : Type} {f : α → Except PyError β} {g : α → β} {xs : List α}
    (h : ∀ x ∈ xs, f x = .ok (g x)) : xs.mapM f = .ok (xs.map g) := by
  induction xs with
  | nil => rfl
  | cons x xs ih =>
    rw [mapM_cons, h x (.head _), ih fun y hy => h y (.tail _ hy)]
    rfl

theorem map_of_mapM_ok {α β : Type} {f : α → Except PyError β} {xs : List α} {ys : List β}
    (h : xs.mapM f = .ok ys) : xs.map f = ys.map .ok := by
  induction xs generalizing ys with
  | nil =>
    obtain rfl := Except.ok.inj h
    rfl
  | cons x xs ih =>
    rw [mapM_cons] at h
    cases hx : f x with
    | error e =>
      rw [hx] at h
      cases h
    | ok y =>
      rw [hx] at h
      cases hxs : xs.mapM f with
      | error e =>
        rw [hxs] at h
        cases h
      | ok zs =>
        rw [hxs] at h
        obtain rfl := Except.ok.inj h
        rw [map_cons, map_cons, hx, ih hxs]

theorem exists_mapM_ok_iff {α β : Type} (f : α → Except PyError β) (xs : List α) (Q : β → Prop) :
    (∃ ys, xs.mapM f = .ok ys ∧ ∀ y ∈ ys, Q y) ↔ ∀ x ∈ xs, ∃ y, f x = .ok y ∧ Q y := by
  constructor
  · rintro ⟨ys, h, hQ⟩ x hx
    have hmem := mem_map_of_mem (f := f) hx
    rw [map_of_mapM_ok h] at hmem
    obtain ⟨y, hy, heq⟩ := mem_map.mp hmem
    exact ⟨y, heq.symm, hQ y hy⟩
  · intro h
    induction xs with
    | nil => exact ⟨[], rfl, forall_mem_nil _⟩
    | cons x xs ih =>
      obtain ⟨⟨y, hy, hQ⟩, hxs⟩ := forall_mem_cons.mp h
      obtain ⟨ys, hys, hall⟩ := ih hxs
      exact ⟨y :: ys, by rw [mapM_cons, hy, hys]; rfl, forall_mem_cons.mpr ⟨hQ, hall⟩⟩

theorem numeral_injective : Function.Injective numeral := by
  intro m n h
  calc m = Nat.ofDigitChars 10 (numeral m) 0 := Nat.ofDigitChars_ten_toDigits.symm
    _ = Nat.ofDigitChars 10 (numeral n) 0 := by rw [h]
    _ = n := Nat.ofDigitChars_ten_toDigits

theorem words_append_blank (hc : isBlank c = true) (xs ys : List Char) :
    words (xs ++ c :: ys) = words xs ++ words ys := by
  rw [words, splitOnP_append_cons xs ys hc, filter_append, words, words]

/-- A text that `str.split()` leaves in one piece. -/
def IsWord (text : List Char) : Prop := text ≠ [] ∧ ∀ c ∈ text, isBlank c = false

theorem words_of_blankFree (h : ∀ c ∈ xs, isBlank c = false) : words xs = [xs].filter (· ≠ []) := by
  rw [words, splitOnP_eq_singleton h]

theorem IsWord.words_eq (h : IsWord xs) : words xs = [xs] := by
  rw [words_of_blankFree h.2, filter_cons_of_pos (by simpa using h.1), filter_nil]

theorem words_append_cons (hne : xs ≠ []) (h : ∀ c ∈ xs, isBlank c = false) (hc : isBlank c = true)
    (ys : List Char) : words (xs ++ c :: ys) = xs :: words ys := by
  rw [words_append_blank hc, IsWord.words_eq ⟨hne, h⟩, singleton_append]

theorem isWord_of_mem_words {word : List Char} (h : word ∈ words text) : IsWord word := by
  -- the characters of the word that is being read stand before the rest of the text
  suffices hread : ∀ text read : List Char, (∀ c ∈ read, isBlank c = false) →
      word ∈ words (read ++ text) → IsWord word from hread text [] (by simp) h
  have hdone : ∀ read : List Char, (∀ c ∈ read, isBlank c = false) → word ∈ words read → IsWord word := by
    intro read hread hword
    rw [words_of_blankFree hread, mem_filter, mem_singleton, decide_eq_true_eq] at hword
    obtain ⟨rfl, hne⟩ := hword
    exact ⟨hne, hread⟩
  intro text
  induction text with
  | nil =>
    intro read hread hword
    rw [append_nil] at hword
    exact hdone read hread hword
  | cons c text ih =>
    intro read hread hword
    by_cases hc : isBlank c = true
    · rw [words_append_blank hc, mem_append] at hword
      exact hword.elim (hdone read hread) (ih [] (by simp))
    · refine ih (read ++ [c]) ?_ (by rwa [append_assoc])
      intro d hd
      rcases mem_append.mp hd with hd | hd
      · exact hread d hd
      · rw [mem_singleton.mp hd]
        exact Bool.eq_false_iff.mpr hc

theorem filter_splitOn_strip (h : ∀ c ∈ text, isBlank c = true → c = '\n') :
    ((strip text).splitOn '\n').filter (· ≠ []) = (text.splitOn '\n').filter (· ≠ []) := by
  have hfront : ∀ xs : List Char, (∀ c ∈ xs, isBlank c = true → c = '\n') →
      ((xs.dropWhile isBlank).splitOn '\n').filter (· ≠ []) = (xs.splitOn '\n').filter (· ≠ []) := by
    intro xs hxs
    induction xs with
    | nil => rfl
    | cons c xs ih =>
      obtain ⟨hc, hrest⟩ := forall_mem_cons.mp hxs
      by_cases hblank : isBlank c = true
      · obtain rfl := hc hblank
        rw [dropWhile_cons_of_pos hblank, ih hrest]
        simp [List.splitOn, splitOnP_cons_eq_if_modifyHead]
      · rw [dropWhile_cons_of_neg hblank]
  have hback : ∀ xs : List Char, (∀ c ∈ xs, isBlank c = true → c = '\n') →
      ((xs.reverse.dropWhile isBlank).reverse.splitOn '\n').filter (· ≠ []) =
        (xs.splitOn '\n').filter (· ≠ []) := by
    intro xs hxs
    induction xs using List.reverseRecOn with
    | nil => rfl
    | append_singleton xs c ih =>
      rw [reverse_append, reverse_singleton, singleton_append]
      by_cases hblank : isBlank c = true
      · obtain rfl := hxs c (by simp) hblank
        have hlast : (xs ++ ['\n']).splitOn '\n' = xs.splitOn '\n' ++ [[]] :=
          splitOnP_append_cons xs [] (by simp)
        rw [dropWhile_cons_of_pos hblank, ih fun d hd => hxs d (mem_append_left _ hd), hlast]
        simp
      · rw [dropWhile_cons_of_neg hblank]
        simp
  rw [strip, hback _ fun c hc => h c ((dropWhile_sublist _).mem hc), hfront text h]
end ZbkcTasks
