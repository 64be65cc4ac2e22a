import Mathlib.Data.List.Infix
import ZbkcTasks.PyBase

/-! `text.format(key=value)` of Python for a value that is a text. What becomes of a field that takes a
part of the value or lays it out is a parameter of the reader. -/

namespace ZbkcTasks.PyFormat

open List

/-- Between fields, behind a first brace, or in a field, with its depth and its text, backwards. -/
inductive State
  | text
  | opened
  | closed
  | field (depth : Nat) (content : List Char)

/-- The characters that end the name in a field. -/
def nameEnds : List Char := ['.', '[', '!', ':']

def fieldName (content : List Char) : List Char := content.takeWhile (· ∉ nameEnds)

/-- An argument without a name, or with a number for a name, is not among the arguments. -/
def valueOf (key value : List Char) (part : List Char → Except PyError (List Char)) (content : List Char) :
    Except PyError (List Char) :=
  if content = key then .ok value
  else if fieldName content = key then part content
  else if (fieldName content).all Char.isDigit then .error .indexError
  else .error (.keyError (String.ofList (fieldName content)))

def read (valueOf : List Char → Except PyError (List Char)) : State → List Char → Except PyError (List Char)
  | .text, [] => .ok []
  | .opened, [] | .closed, [] | .field _ _, [] => .error .valueError
  | .text, c :: rest =>
      if c = '{' then read valueOf .opened rest
      else if c = '}' then read valueOf .closed rest
      else do return c :: (← read valueOf .text rest)
  | .opened, c :: rest =>
      if c = '{' then do return c :: (← read valueOf .text rest)
      else if c = '}' then do return (← valueOf []) ++ (← read valueOf .text rest)
      else read valueOf (.field 0 [c]) rest
  | .closed, c :: rest =>
      if c = '}' then do return c :: (← read valueOf .text rest) else .error .valueError
  | .field depth content, c :: rest =>
      if c = '}' ∧ depth = 0 then do return (← valueOf content.reverse) ++ (← read valueOf .text rest)
      else
        let depth := if c = '{' then depth + 1 else if c = '}' then depth - 1 else depth
        read valueOf (.field depth (c :: content)) rest

/-- The text with the value in place of the key. -/
def format (key value : List Char) (part : List Char → Except PyError (List Char)) (text : List Char) :
    Except PyError (List Char) :=
  read (valueOf key value part) .text text

/-- A text without braces. -/
def Plain (text : List Char) : Prop := ∀ c ∈ text, c ≠ '{' ∧ c ≠ '}'

instance : DecidablePred Plain := fun text => decidableBAll _ text

variable {xs ys : List Char}

theorem plain_intercalate {sep : Char} (hopen : sep ≠ '{') (hclose : sep ≠ '}') {words : List (List Char)}
    (h : ∀ word ∈ words, Plain word) : Plain ([sep].intercalate words) := by
  induction words with
  | nil => exact forall_mem_nil _
  | cons word words ih =>
    obtain ⟨hword, hrest⟩ := forall_mem_cons.mp h
    cases words with
    | nil => simpa [List.intercalate] using hword
    | cons next words =>
      have hjoin : [sep].intercalate (word :: next :: words) =
          word ++ sep :: [sep].intercalate (next :: words) := by simp [List.intercalate]
      rw [hjoin]
      exact forall_mem_append.mpr ⟨hword, forall_mem_cons.mpr ⟨⟨hopen, hclose⟩, ih hrest⟩⟩

section Read

variable {valueOf : List Char → Except PyError (List Char)}

theorem read_plain_append (h : Plain xs) (ys : List Char) :
    read valueOf .text (xs ++ ys) = (xs ++ ·) <$> read valueOf .text ys := by
  induction xs with
  | nil => exact (id_map _).symm
  | cons c xs ih =>
    obtain ⟨⟨hopen, hclose⟩, hrest⟩ := forall_mem_cons.mp h
    rw [cons_append, read, if_neg hopen, if_neg hclose, ih hrest]
    cases read valueOf .text ys <;> rfl

theorem read_plain (h : Plain xs) : read valueOf .text xs = .ok xs := by
  have hread : read valueOf .text (xs ++ []) = _ := read_plain_append h []
  rwa [append_nil, read, Except.map_ok, append_nil] at hread

theorem read_field (h : Plain xs) (content ys : List Char) :
    read valueOf (.field 0 content) (xs ++ '}' :: ys) = do
      return (← valueOf (content.reverse ++ xs)) ++ (← read valueOf .text ys) := by
  induction xs generalizing content with
  | nil => rw [nil_append, append_nil, read, if_pos ⟨rfl, rfl⟩]
  | cons c xs ih =>
    obtain ⟨⟨hopen, hclose⟩, hrest⟩ := forall_mem_cons.mp h
    rw [cons_append, read, if_neg fun h => hclose h.1, if_neg hopen, if_neg hclose, ih hrest, reverse_cons,
      append_assoc]
    rfl

end Read

/-- **One field.** The value stands in its place, and the rest of the text is as it was. -/
theorem format_field {key : List Char} (hkey : Plain key) (hne : key ≠ []) (hxs : Plain xs) (hys : Plain ys)
    (value : List Char) (part : List Char → Except PyError (List Char)) :
    format key value part (xs ++ '{' :: (key ++ '}' :: ys)) = .ok (xs ++ (value ++ ys)) := by
  obtain ⟨c, key, rfl⟩ := exists_cons_of_ne_nil hne
  obtain ⟨⟨hopen, hclose⟩, hrest⟩ := forall_mem_cons.mp hkey
  rw [format, read_plain_append hxs, read, if_pos rfl, cons_append, read, if_neg hopen, if_neg hclose,
    read_field hrest, read_plain hys, reverse_singleton, singleton_append, valueOf, if_pos rfl]
  rfl

end ZbkcTasks.PyFormat
