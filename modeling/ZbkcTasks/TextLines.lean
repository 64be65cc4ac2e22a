import Mathlib.Data.List.Infix

/-! Texts as lists, and their lines. The editing commands take a text as a stream editor does: lines that
end with the separator, and behind the last one perhaps a line that does not. -/

namespace TextLines

open List

variable {α : Type} [DecidableEq α] {text xs : List α} {xss : List (List α)}

/-- `s.rstrip('\n')`. -/
def rstripNewlines (text : List Char) : List Char := (text.reverse.dropWhile (· = '\n')).reverse

section Lines

variable {sep : α}

theorem splitOn_append_cons (xs ys : List α) :
    (xs ++ sep :: ys).splitOn sep = xs.splitOn sep ++ ys.splitOn sep :=
  splitOnP_append_cons xs ys (by simp)

theorem splitOn_of_notMem (h : sep ∉ xs) : xs.splitOn sep = [xs] := by
  refine splitOnP_eq_singleton fun x hx => ?_
  simpa using fun heq : x = sep => h (heq ▸ hx)

omit [DecidableEq α] in
theorem append_sep_inj {xs' ys ys' : List α} (hys : sep ∉ ys) (hys' : sep ∉ ys')
    (h : xs ++ sep :: ys = xs' ++ sep :: ys') : xs = xs' ∧ ys = ys' := by
  have hmid : ∀ {mid zs zs' : List α}, sep ∉ zs → sep :: zs = mid ++ sep :: zs' → mid = [] := by
    intro mid zs zs' hzs heq
    cases mid with
    | nil => rfl
    | cons a mid =>
      rw [cons_append, List.cons.injEq] at heq
      exact absurd (heq.2 ▸ mem_append_right mid (.head _)) hzs
  rcases append_eq_append_iff.mp h with ⟨mid, hxs, htail⟩ | ⟨mid, hxs, htail⟩
  · obtain rfl := hmid hys htail
    exact ⟨by rw [hxs, append_nil], (List.cons.inj htail).2⟩
  · obtain rfl := hmid hys' htail
    exact ⟨by rw [hxs, append_nil], (List.cons.inj htail).2.symm⟩

theorem takeWhile_append_sep (h : sep ∉ xs) (ys : List α) :
    (xs ++ sep :: ys).takeWhile (· ≠ sep) = xs := by
  have hxs : ∀ a ∈ xs, decide (a ≠ sep) = true := fun a ha => decide_eq_true fun heq => h (heq ▸ ha)
  rw [takeWhile_append_of_pos hxs, takeWhile_cons_of_neg (by simp), append_nil]

theorem dropWhile_append_sep (h : sep ∉ xs) (ys : List α) :
    (xs ++ sep :: ys).dropWhile (· ≠ sep) = sep :: ys := by
  have hxs : ∀ a ∈ xs, decide (a ≠ sep) = true := fun a ha => decide_eq_true fun heq => h (heq ▸ ha)
  rw [dropWhile_append_of_pos hxs, dropWhile_cons_of_neg (by simp)]

theorem eq_of_prefix_sep {ys : List α} (hxs : sep ∉ xs) (hys : sep ∉ ys) (hx : xs ++ [sep] <+: text)
    (hy : ys ++ [sep] <+: text) : xs = ys := by
  obtain ⟨rest, rfl⟩ := hx
  obtain ⟨rest', hrest⟩ := hy
  rw [append_assoc, append_assoc, singleton_append, singleton_append] at hrest
  calc xs = (xs ++ sep :: rest).takeWhile (· ≠ sep) := (takeWhile_append_sep hxs rest).symm
    _ = (ys ++ sep :: rest').takeWhile (· ≠ sep) := by rw [hrest]
    _ = ys := takeWhile_append_sep hys rest'

def joinLines (sep : α) (ls : List (List α)) : List α := ls.flatMap (· ++ [sep])

omit [DecidableEq α] in
theorem joinLines_cons (l : List α) (ls : List (List α)) :
    joinLines sep (l :: ls) = l ++ sep :: joinLines sep ls := by
  rw [joinLines, flatMap_cons, append_assoc, singleton_append, joinLines]

theorem splitOn_joinLines_append {ls : List (List α)} (h : ∀ l ∈ ls, sep ∉ l) (xs : List α) :
    (joinLines sep ls ++ xs).splitOn sep = ls ++ xs.splitOn sep := by
  induction ls with
  | nil => rfl
  | cons l ls ih =>
    obtain ⟨hl, hls⟩ := forall_mem_cons.mp h
    rw [joinLines_cons, append_assoc, cons_append, splitOn_append_cons, splitOn_of_notMem hl,
      ih hls]
    rfl

omit [DecidableEq α] in
theorem joinLines_append (ls ls' : List (List α)) :
    joinLines sep (ls ++ ls') = joinLines sep ls ++ joinLines sep ls' := by
  rw [joinLines, joinLines, joinLines, flatMap_append]

theorem mem_splitOn_of_infix {word : List α} (hword : sep ∉ word) (h : sep :: (word ++ [sep]) <:+: xs) :
    word ∈ xs.splitOn sep := by
  obtain ⟨before, after, rfl⟩ := h
  have hsplit : before ++ sep :: (word ++ [sep]) ++ after = before ++ sep :: (word ++ sep :: after) := by
    simp
  rw [hsplit, splitOn_append_cons, splitOn_append_cons, splitOn_of_notMem hword]
  exact mem_append_right _ (.head _)

omit [DecidableEq α] in
theorem intercalate_cons (xs : List α) (h : xss ≠ []) :
    [sep].intercalate (xs :: xss) = xs ++ sep :: [sep].intercalate xss := by
  obtain ⟨ys, xss, rfl⟩ := exists_cons_of_ne_nil h
  simp [List.intercalate]

omit [DecidableEq α] in
theorem infix_intercalate {word : List α} {yss : List (List α)} (hxss : xss ≠ []) (hyss : yss ≠ []) :
    sep :: (word ++ [sep]) <:+: [sep].intercalate (xss ++ word :: yss) := by
  induction xss with
  | nil => exact absurd rfl hxss
  | cons xs xss ih =>
    rw [cons_append, intercalate_cons xs (by simp)]
    cases xss with
    | nil =>
      rw [nil_append, intercalate_cons word hyss]
      exact ⟨xs, [sep].intercalate yss, by simp⟩
    | cons xs' xss =>
      have hrest := ih (cons_ne_nil _ _)
      exact hrest.trans ((suffix_cons sep _).isInfix.trans (suffix_append xs _).isInfix)

omit [DecidableEq α] in
theorem mem_intercalate {a : α} (h : a ∈ [sep].intercalate xss) : a = sep ∨ ∃ xs ∈ xss, a ∈ xs := by
  induction xss with
  | nil => simp [List.intercalate] at h
  | cons xs xss ih =>
    by_cases hxss : xss = []
    · rw [hxss] at h ⊢
      exact .inr ⟨xs, .head _, by simpa [List.intercalate] using h⟩
    · rw [intercalate_cons xs hxss, mem_append, mem_cons] at h
      rcases h with h | h | h
      · exact .inr ⟨xs, .head _, h⟩
      · exact .inl h
      · exact (ih h).imp_right fun ⟨ys, hys, ha⟩ => ⟨ys, .tail _ hys, ha⟩

end Lines

section Search

variable {needle : List α}

/-- The text before the first occurrence of a word; all of it when there is none. -/
def beforeFirst (needle : List α) : List α → List α
  | [] => []
  | a :: xs => if needle <+: a :: xs then [] else a :: beforeFirst needle xs

theorem beforeFirst_of_not_infix (h : ¬ needle <:+: xs) : beforeFirst needle xs = xs := by
  induction xs with
  | nil => rfl
  | cons a xs ih =>
    have hhead : ¬ needle <+: a :: xs := fun hp => h hp.isInfix
    rw [beforeFirst, if_neg hhead, ih fun hi => h (hi.trans (suffix_cons a xs).isInfix)]

theorem beforeFirst_append (hne : needle ≠ []) (h : ¬ needle <:+: xs ++ needle.dropLast) (ys : List α) :
    beforeFirst needle (xs ++ (needle ++ ys)) = xs := by
  induction xs with
  | nil =>
    obtain ⟨a, rest, rfl⟩ := exists_cons_of_ne_nil hne
    exact if_pos (prefix_append (a :: rest) ys)
  | cons a xs ih =>
    have hhead : ¬ needle <+: (a :: xs) ++ (needle ++ ys) := by
      intro hp
      have hshort : needle <+: a :: xs ++ needle.dropLast := by
        have hlast : needle.dropLast ++ [needle.getLast hne] = needle :=
          dropLast_append_getLast hne
        have hsplit : (a :: xs) ++ (needle ++ ys) =
            (a :: xs ++ needle.dropLast) ++ (needle.getLast hne :: ys) := by
          conv_lhs => rw [← hlast]
          simp
        rw [hsplit] at hp
        refine prefix_of_prefix_length_le hp (prefix_append _ _) ?_
        simp only [length_append, length_cons, length_dropLast]
        omega
      exact h hshort.isInfix
    have hrest := ih fun hi => h (hi.trans (suffix_cons a _).isInfix)
    rw [cons_append] at hhead ⊢
    rw [beforeFirst, if_neg hhead, hrest]

omit [DecidableEq α] in
theorem infix_append_cons_iff {sep : α} {ys : List α} (hsep : sep ∉ needle) :
    needle <:+: xs ++ sep :: ys ↔ needle <:+: xs ∨ needle <:+: ys := by
  constructor
  · rintro ⟨s, t, hst⟩
    rcases append_eq_append_iff.mp hst with ⟨a, hxs, -⟩ | ⟨a, hs, ha⟩
    · exact .inl ⟨s, a, hxs.symm⟩
    · cases a with
      | nil => exact .inl ⟨s, [], by simpa using hs⟩
      | cons b a =>
        obtain ⟨rfl, rfl⟩ : sep = b ∧ ys = a ++ t := by simpa using ha
        rcases append_eq_append_iff.mp hs with ⟨c, -, hsub⟩ | ⟨c, -, hsub⟩
        · exact absurd (hsub ▸ mem_append_right c mem_cons_self) hsep
        · cases c with
          | nil =>
            rw [nil_append] at hsub
            exact absurd (hsub ▸ mem_cons_self) hsep
          | cons d c =>
            obtain ⟨-, rfl⟩ : sep = d ∧ a = c ++ needle := by simpa using hsub
            exact .inr ⟨c, t, rfl⟩
  · rintro (⟨s, t, rfl⟩ | ⟨s, t, rfl⟩)
    · exact ⟨s, t ++ sep :: ys, by simp⟩
    · exact ⟨xs ++ sep :: s, t, by simp⟩

omit [DecidableEq α] in
/-- A word without the separator that occurs in a joined list occurs in one of the lists. -/
theorem infix_intercalate_iff {sep : α} (hne : needle ≠ []) (hsep : sep ∉ needle) (xss : List (List α)) :
    needle <:+: [sep].intercalate xss ↔ ∃ xs ∈ xss, needle <:+: xs := by
  induction xss with
  | nil => simpa [List.intercalate] using hne
  | cons xs xss ih =>
    cases xss with
    | nil => simp [List.intercalate]
    | cons ys yss =>
      have hjoin : [sep].intercalate (xs :: ys :: yss) =
          xs ++ sep :: [sep].intercalate (ys :: yss) := by simp [List.intercalate]
      rw [hjoin, infix_append_cons_iff hsep, ih]
      exact (exists_mem_cons_iff ..).symm

end Search

section Edits

variable {sep : α} {ls : List (List α)} {rest l : List α} {p : List α → Bool}

/-- The lines that end with the separator. -/
def ended (sep : α) (text : List α) : List (List α) := (text.splitOn sep).dropLast

/-- What stands behind the last separator. -/
def unended (sep : α) (text : List α) : List α := (text.splitOn sep).getLastD []

/-- The lines of a text; an empty rest is not a line. -/
def lines (sep : α) (text : List α) : List (List α) :=
  if unended sep text = [] then ended sep text else ended sep text ++ [unended sep text]

/-- `sed /pattern/d`. -/
def deleteLines (sep : α) (p : List α → Bool) (text : List α) : List α :=
  joinLines sep ((ended sep text).filter fun l => !p l) ++
    if p (unended sep text) then [] else unended sep text

/-- `sed $d`. -/
def deleteLast (sep : α) (text : List α) : List α :=
  if unended sep text = [] then joinLines sep (ended sep text).dropLast else joinLines sep (ended sep text)

def appendLine (sep : α) (l text : List α) : List α := text ++ (l ++ [sep])

theorem exists_joinLines (sep : α) (text : List α) :
    ∃ ls rest, (∀ l ∈ ls, sep ∉ l) ∧ sep ∉ rest ∧ text = joinLines sep ls ++ rest := by
  induction text with
  | nil => exact ⟨[], [], by simp, by simp, rfl⟩
  | cons a text ih =>
    obtain ⟨ls, rest, hls, hrest, rfl⟩ := ih
    by_cases ha : a = sep
    · subst ha
      refine ⟨[] :: ls, rest, ?_, hrest, ?_⟩
      · simpa using hls
      · rw [joinLines_cons, nil_append, cons_append]
    · cases ls with
      | nil => exact ⟨[], a :: rest, by simp, by simp [Ne.symm ha, hrest], rfl⟩
      | cons l ls =>
        obtain ⟨hl, hls⟩ := forall_mem_cons.mp hls
        refine ⟨(a :: l) :: ls, rest, forall_mem_cons.mpr ⟨?_, hls⟩, hrest, ?_⟩
        · simp [Ne.symm ha, hl]
        · rw [joinLines_cons, joinLines_cons]
          simp

theorem splitOn_joinLines_rest (hls : ∀ l ∈ ls, sep ∉ l) (hrest : sep ∉ rest) :
    (joinLines sep ls ++ rest).splitOn sep = ls ++ [rest] := by
  rw [splitOn_joinLines_append hls, splitOn_of_notMem hrest]

theorem ended_joinLines (hls : ∀ l ∈ ls, sep ∉ l) (hrest : sep ∉ rest) :
    ended sep (joinLines sep ls ++ rest) = ls := by
  rw [ended, splitOn_joinLines_rest hls hrest, dropLast_concat]

theorem unended_joinLines (hls : ∀ l ∈ ls, sep ∉ l) (hrest : sep ∉ rest) :
    unended sep (joinLines sep ls ++ rest) = rest := by
  rw [unended, splitOn_joinLines_rest hls hrest, getLastD_concat]

theorem joinLines_ended (sep : α) (text : List α) :
    joinLines sep (ended sep text) ++ unended sep text = text := by
  obtain ⟨ls, rest, hls, hrest, rfl⟩ := exists_joinLines sep text
  rw [ended_joinLines hls hrest, unended_joinLines hls hrest]

theorem sep_notMem_ended (text : List α) : ∀ l ∈ ended sep text, sep ∉ l := by
  obtain ⟨ls, rest, hls, hrest, rfl⟩ := exists_joinLines sep text
  rw [ended_joinLines hls hrest]
  exact hls

theorem sep_notMem_unended (text : List α) : sep ∉ unended sep text := by
  obtain ⟨ls, rest, hls, hrest, rfl⟩ := exists_joinLines sep text
  rw [unended_joinLines hls hrest]
  exact hrest

theorem ended_of_notMem (hrest : sep ∉ rest) : ended sep rest = [] := by
  rw [ended, splitOn_of_notMem hrest, dropLast_singleton]

theorem unended_of_notMem (hrest : sep ∉ rest) : unended sep rest = rest := by
  rw [unended, splitOn_of_notMem hrest]
  rfl

theorem splitOn_append (text more : List α) :
    (text ++ more).splitOn sep = ended sep text ++ (unended sep text ++ more).splitOn sep := by
  conv_lhs => rw [← joinLines_ended sep text, append_assoc]
  rw [splitOn_joinLines_append (sep_notMem_ended text)]

theorem ended_append (text more : List α) :
    ended sep (text ++ more) = ended sep text ++ ended sep (unended sep text ++ more) := by
  rw [ended, splitOn_append, dropLast_append_of_ne_nil (splitOn_ne_nil _ _), ← ended]

theorem unended_append (text more : List α) :
    unended sep (text ++ more) = unended sep (unended sep text ++ more) := by
  rw [unended, unended, splitOn_append, getLastD_eq_getLast?, getLastD_eq_getLast?,
    getLast?_append_of_ne_nil _ (splitOn_ne_nil _ _)]

theorem lines_deleteLines (hp : p [] = false) (text : List α) :
    lines sep (deleteLines sep p text) = (lines sep text).filter fun l => !p l := by
  have hls : ∀ l ∈ (ended sep text).filter fun l => !p l, sep ∉ l :=
    fun l hl => sep_notMem_ended text l (mem_filter.mp hl).1
  have hrest : sep ∉ if p (unended sep text) then [] else unended sep text := by
    split
    · exact not_mem_nil
    · exact sep_notMem_unended text
  rw [lines, lines, deleteLines, ended_joinLines hls hrest, unended_joinLines hls hrest]
  by_cases hnil : unended sep text = []
  · simp [hnil, hp]
  · by_cases hsel : p (unended sep text) = true
    · simp [hnil, hsel]
    · simp [hnil, hsel]

theorem deleteLines_eq_self (h : ∀ l ∈ lines sep text, p l = false) (hp : p [] = false) :
    deleteLines sep p text = text := by
  have hended : ∀ l ∈ ended sep text, p l = false := by
    intro l hl
    apply h
    unfold lines
    split
    · exact hl
    · exact mem_append_left _ hl
  have hunended : p (unended sep text) = false := by
    by_cases hnil : unended sep text = []
    · rw [hnil, hp]
    · apply h
      rw [lines, if_neg hnil]
      exact mem_append_right _ (mem_singleton_self _)
  have hfilter : ((ended sep text).filter fun l => !p l) = ended sep text :=
    filter_eq_self.mpr fun l hl => by simp [hended l hl]
  rw [deleteLines, hfilter, hunended]
  exact joinLines_ended sep text

theorem appendLine_eq (l text : List α) :
    appendLine sep l text = joinLines sep (ended sep text ++ [unended sep text ++ l]) ++ [] := by
  conv_lhs => rw [appendLine, ← joinLines_ended sep text]
  rw [joinLines_append, joinLines_cons]
  simp [joinLines]

theorem sep_notMem_appended (hl : sep ∉ l) :
    ∀ l' ∈ ended sep text ++ [unended sep text ++ l], sep ∉ l' := by
  intro l' hl'
  rcases mem_append.mp hl' with h | h
  · exact sep_notMem_ended text l' h
  · rw [mem_singleton.mp h, mem_append]
    exact not_or.mpr ⟨sep_notMem_unended text, hl⟩

theorem unended_appendLine (hl : sep ∉ l) (text : List α) : unended sep (appendLine sep l text) = [] := by
  rw [appendLine_eq, unended_joinLines (sep_notMem_appended hl) not_mem_nil]

theorem lines_appendLine (hl : sep ∉ l) (text : List α) :
    lines sep (appendLine sep l text) = ended sep text ++ [unended sep text ++ l] := by
  rw [lines, if_pos (unended_appendLine hl text), appendLine_eq,
    ended_joinLines (sep_notMem_appended hl) not_mem_nil]

theorem deleteLast_appendLine (hl : sep ∉ l) (h : unended sep text = []) :
    deleteLast sep (appendLine sep l text) = text := by
  rw [deleteLast, if_pos (unended_appendLine hl text), appendLine_eq,
    ended_joinLines (sep_notMem_appended hl) not_mem_nil, dropLast_concat]
  conv_rhs => rw [← joinLines_ended sep text, h, append_nil]

end Edits

end TextLines
