import Mathlib.Data.List.AList
import ZbkcTasks.PyText

/-! `parse_os_table` of `tasks/devstack.py`, which takes the second and the fourth word of a row: it reads
a table back exactly when every name and every value is one word. -/

namespace ZbkcTasks.Devstack

open List

abbrev Text := List Char

abbrev Dict := AList fun _ : Text => Text

variable {name : Text}

def parseLine (out : Dict) (line : Text) : Except PyError Dict :=
  if ['|'].isPrefixOf line then
    match (words line)[3]?, (words line)[1]? with
    | some value, some name => .ok (out.insert name value)
    | _, _ => .error .indexError
  else .ok out

def parseOsTable (tableStr : Text) : Except PyError Dict := (tableStr.splitOn '\n').foldlM parseLine ∅

theorem isWord_of_parseLine {out out' : Dict} {line : Text} (h : parseLine out line = .ok out')
    (hname : name ∈ out') : name ∈ out ∨ IsWord name := by
  unfold parseLine at h
  split at h
  · split at h
    · next value key hvalue hkey =>
      obtain rfl := Except.ok.inj h
      rcases (AList.mem_insert out).mp hname with rfl | hold
      · exact .inr (isWord_of_mem_words (mem_of_getElem? hkey))
      · exact .inl hold
    · cases h
  · obtain rfl := Except.ok.inj h
    exact .inl hname

theorem isWord_of_foldlM {lines : List Text} {out out' : Dict} (h : lines.foldlM parseLine out = .ok out')
    (hname : name ∈ out') : name ∈ out ∨ IsWord name := by
  induction lines generalizing out with
  | nil =>
    obtain rfl := Except.ok.inj h
    exact .inl hname
  | cons line lines ih =>
    rw [foldlM_cons] at h
    cases hline : parseLine out line with
    | error e =>
      rw [hline] at h
      cases h
    | ok next =>
      rw [hline] at h
      exact (ih h).elim (isWord_of_parseLine hline) .inr

section Tables

structure Cell where
  text : Text
  plain : ∀ c ∈ text, c ≠ '\n' ∧ c ≠ '|'
  trimmed : text.head? ≠ some ' ' ∧ text.getLast? ≠ some ' '

/-- A row, with the number of spaces around its cells beyond the one that is always there. -/
structure Row where
  name : Cell
  value : Cell
  named : name.text ≠ []
  nameLeft : Nat
  nameRight : Nat
  valueLeft : Nat
  valueRight : Nat

inductive Line
  | rule (widths : List Nat)
  | row (r : Row)
  | empty

def pad (n : Nat) : Text := List.replicate (n + 1) ' '

def Row.text (r : Row) : Text :=
  ['|'] ++ pad r.nameLeft ++ r.name.text ++ pad r.nameRight ++
    ['|'] ++ pad r.valueLeft ++ r.value.text ++ pad r.valueRight ++ ['|']

def ruleText (widths : List Nat) : Text := '+' :: widths.flatMap fun n => List.replicate n '-' ++ ['+']

def Line.text : Line → Text
  | .rule widths => ruleText widths
  | .row r => r.text
  | .empty => []

def Line.row? : Line → Option Row
  | .row r => some r
  | _ => none

structure Table where
  top : List Nat
  lines : List Line
  distinct : ((lines.filterMap Line.row?).map fun r => r.name.text).Nodup

def Table.rows (t : Table) : List Row := t.lines.filterMap Line.row?

def Table.text (t : Table) : Text := ['\n'].intercalate (ruleText t.top :: t.lines.map Line.text)

/-- What stands where the reader looks for the value: the first word of the value, or the last bar. -/
def Row.fourth (r : Row) : Text := (words r.value.text).headD ['|']

theorem words_replicate (n : Nat) (ys : Text) : words (List.replicate n ' ' ++ ys) = words ys := by
  induction n with
  | zero => rfl
  | succ n ih =>
    rw [replicate_succ, cons_append, ← ih]
    exact words_append_blank (by decide) [] _

theorem words_pad (xs ys : Text) (n : Nat) : words (xs ++ (pad n ++ ys)) = words xs ++ words ys := by
  rw [pad, replicate_succ, cons_append, words_append_blank (by decide), words_replicate]

theorem words_row (r : Row) :
    words r.text = ['|'] :: (words r.name.text ++ ['|'] :: (words r.value.text ++ [['|']])) := by
  have hbar : words ['|'] = [['|']] := by decide
  simp only [Row.text, append_assoc]
  rw [words_pad, words_pad, words_pad, words_pad, hbar]
  rfl

theorem parseLine_row (out : Dict) {r : Row} (hname : IsWord r.name.text) :
    parseLine out r.text = .ok (out.insert r.name.text r.fourth) := by
  have hbar : ['|'].isPrefixOf r.text = true := by simp [Row.text]
  rw [parseLine, if_pos hbar, words_row, hname.words_eq, Row.fourth]
  cases words r.value.text with
  | nil | cons => rfl

theorem newline_notMem_ruleText (widths : List Nat) : '\n' ∉ ruleText widths := by
  simp [ruleText]

theorem newline_notMem_text (l : Line) : '\n' ∉ l.text := by
  cases l with
  | rule widths => exact newline_notMem_ruleText widths
  | row r =>
    have hname : '\n' ∉ r.name.text := fun h => (r.name.plain _ h).1 rfl
    have hvalue : '\n' ∉ r.value.text := fun h => (r.value.plain _ h).1 rfl
    simp [Line.text, Row.text, pad, hname, hvalue]
  | empty => exact not_mem_nil

theorem foldlM_lines (lines : List Line) (out : Dict) : (lines.map Line.text).foldlM parseLine out =
      (lines.filterMap Line.row?).foldlM (fun out r => parseLine out r.text) out := by
  induction lines generalizing out with
  | nil => rfl
  | cons l lines ih =>
    rw [map_cons, foldlM_cons]
    cases l with
    | rule | empty => exact ih out
    | row r =>
      exact congrArg (parseLine out r.text >>= ·) (funext ih)

theorem parseOsTable_text (t : Table) :
    parseOsTable t.text = t.rows.foldlM (fun out r => parseLine out r.text) ∅ := by
  have hlines : ∀ l ∈ ruleText t.top :: t.lines.map Line.text, '\n' ∉ l := by
    refine forall_mem_cons.mpr ⟨newline_notMem_ruleText t.top, ?_⟩
    rintro _ hl
    obtain ⟨l, -, rfl⟩ := mem_map.mp hl
    exact newline_notMem_text l
  rw [parseOsTable, Table.text, splitOn_intercalate '\n' hlines (cons_ne_nil _ _),
    foldlM_cons]
  exact foldlM_lines t.lines ∅

def readRows (rows : List Row) (out : Dict) : Dict :=
  rows.foldl (fun out r => out.insert r.name.text r.fourth) out

variable {rows : List Row}

theorem foldlM_rows (hnames : ∀ r ∈ rows, IsWord r.name.text) (out : Dict) :
    rows.foldlM (fun out r => parseLine out r.text) out = .ok (readRows rows out) := by
  induction rows generalizing out with
  | nil => rfl
  | cons r rows ih =>
    obtain ⟨hname, hnames⟩ := forall_mem_cons.mp hnames
    rw [foldlM_cons, parseLine_row out hname]
    exact ih hnames _

theorem lookup_readRows_of_notMem (h : name ∉ rows.map fun r => r.name.text) (out : Dict) :
    (readRows rows out).lookup name = out.lookup name := by
  induction rows generalizing out with
  | nil => rfl
  | cons r rows ih =>
    rw [map_cons, mem_cons, not_or] at h
    exact (ih h.2 _).trans (AList.lookup_insert_ne h.1)

theorem lookup_readRows (h : (rows.map fun r => r.name.text).Nodup) (out : Dict) :
    ∀ r ∈ rows, (readRows rows out).lookup r.name.text = some r.fourth := by
  induction rows generalizing out with
  | nil => exact fun r hr => absurd hr not_mem_nil
  | cons r rows ih =>
    rw [map_cons, nodup_cons] at h
    refine forall_mem_cons.mpr ⟨?_, ih h.2 _⟩
    exact (lookup_readRows_of_notMem h.1 _).trans (AList.lookup_insert _)

theorem fourth_eq_iff (r : Row) : r.fourth = r.value.text ↔ IsWord r.value.text := by
  constructor
  · intro h
    rw [Row.fourth] at h
    cases hwords : words r.value.text with
    | nil =>
      rw [hwords] at h
      exact absurd rfl (r.value.plain '|' (h ▸ mem_singleton_self '|')).2
    | cons word rest =>
      rw [hwords] at h
      obtain rfl : word = r.value.text := h
      exact isWord_of_mem_words (hwords ▸ mem_cons_self)
  · intro h
    rw [Row.fourth, h.words_eq]
    rfl

/-- `parse_os_table` of the table is the map from its names to their values. -/
def ReadsBack (t : Table) : Prop :=
  ∃ out, parseOsTable t.text = .ok out ∧
    ∀ name value, out.lookup name = some value ↔ ∃ r ∈ t.rows, r.name.text = name ∧ r.value.text = value

/-- **When a table is read back.** -/
theorem readsBack_iff (t : Table) :
    ReadsBack t ↔ ∀ r ∈ t.rows, IsWord r.name.text ∧ IsWord r.value.text := by
  constructor
  · rintro ⟨out, hparse, hout⟩
    have hnames : ∀ r ∈ t.rows, IsWord r.name.text := by
      intro r hr
      have hlookup := (hout _ _).mpr ⟨r, hr, rfl, rfl⟩
      have hmem : r.name.text ∈ out := AList.lookup_isSome.mp (by rw [hlookup]; rfl)
      exact (isWord_of_foldlM hparse hmem).resolve_left (AList.notMem_empty _)
    rw [parseOsTable_text, foldlM_rows hnames] at hparse
    obtain rfl := Except.ok.inj hparse
    intro r hr
    have hfourth := (lookup_readRows t.distinct ∅ r hr).symm.trans ((hout _ _).mpr ⟨r, hr, rfl, rfl⟩)
    exact ⟨hnames r hr, (fourth_eq_iff r).mp (Option.some.inj hfourth)⟩
  · intro h
    refine ⟨readRows t.rows ∅, ?_, ?_⟩
    · rw [parseOsTable_text, foldlM_rows fun r hr => (h r hr).1]
    intro name value
    constructor
    · intro hlookup
      have hmem : name ∈ t.rows.map fun r => r.name.text := by
        by_contra hnot
        rw [lookup_readRows_of_notMem hnot] at hlookup
        cases hlookup
      obtain ⟨r, hr, rfl⟩ := mem_map.mp hmem
      have hfourth := (lookup_readRows t.distinct ∅ r hr).symm.trans hlookup
      exact ⟨r, hr, rfl, ((fourth_eq_iff r).mpr (h r hr).2).symm.trans (Option.some.inj hfourth)⟩
    · rintro ⟨r, hr, rfl, rfl⟩
      rw [← (fourth_eq_iff r).mpr (h r hr).2]
      exact lookup_readRows t.distinct ∅ r hr

theorem plain_of_all {text : Text} (h : (text.all fun c => decide (c ≠ '\n' ∧ c ≠ '|')) = true) :
    ∀ c ∈ text, c ≠ '\n' ∧ c ≠ '|' := fun c hc => of_decide_eq_true (all_eq_true.mp h c hc)

def spacedTable : Table where
  top := [8, 5]
  lines := [
    .row ⟨⟨"name".toList, plain_of_all rfl, by decide⟩, ⟨"my disk".toList, plain_of_all rfl, by decide⟩,
      by decide, 0, 0, 0, 0⟩,
    .row ⟨⟨"note".toList, plain_of_all rfl, by decide⟩, ⟨[], plain_of_all rfl, by decide⟩,
      by decide, 0, 0, 0, 6⟩,
    .rule [8, 5]]
  distinct := by decide

/-- The name is read as its first word, and the empty description as the bar that ends the line. -/
theorem spacedTable_misread :
    (parseOsTable spacedTable.text).map (fun out => out.entries.map fun e => (e.1, e.2)) =
        .ok [("note".toList, "|".toList), ("name".toList, "my".toList)] ∧ ¬ ReadsBack spacedTable := by
  refine ⟨by decide, ?_⟩
  rintro ⟨out, hparse, hout⟩
  have hread : (parseOsTable spacedTable.text).map (fun out => out.lookup "note".toList) =
      .ok (some ['|']) := by decide
  rw [hparse] at hread
  obtain ⟨r, -, -, hvalue⟩ := (hout _ _).mp (Except.ok.inj hread)
  exact absurd rfl (r.value.plain '|' (hvalue ▸ mem_singleton_self _)).2

end Tables

end ZbkcTasks.Devstack
