import ZbkcTasks.TextLines

/-! The `LogStream` of `tasks/zbkcfs_test_runner.py` and `tasks/vstart_runner.py`. A report is written to
it in pieces, and each line is logged as soon as it is complete. -/

namespace ZbkcTasks

structure LogStream where
  logged : List (List Char) := []
  buffer : List Char := []
  deriving DecidableEq

namespace LogStream

open List TextLines

abbrev Text := List Char

def write (stream : LogStream) (data : Text) : LogStream :=
  let buffer := stream.buffer ++ data
  if buffer.contains '\n' then
    let lines := buffer.splitOn '\n'
    { logged := stream.logged ++ lines.dropLast, buffer := lines.getLastD [] }
  else { stream with buffer }

def writes (chunks : List Text) : LogStream := chunks.foldl write {}

/-- What a whole text leaves. -/
def after (text : Text) : LogStream := { logged := ended '\n' text, buffer := unended '\n' text }

theorem write_after (text data : Text) : write (after text) data = after (text ++ data) := by
  rw [write, after, after, ended_append, unended_append]
  split
  · rfl
  · next h =>
    have hnone : '\n' ∉ unended '\n' text ++ data := by simpa using h
    rw [ended_of_notMem hnone, unended_of_notMem hnone, append_nil]

theorem foldl_write (chunks : List Text) (text : Text) :
    chunks.foldl write (after text) = after (text ++ chunks.flatten) := by
  induction chunks generalizing text with
  | nil => rw [foldl_nil, flatten_nil, append_nil]
  | cons data chunks ih => rw [foldl_cons, write_after, ih, flatten_cons, append_assoc]

theorem writes_eq (chunks : List Text) : writes chunks = after chunks.flatten := foldl_write chunks []

/-- **Chunks do not matter.** The log holds the lines of the whole text that a newline ends, and the buffer
what follows the last one. -/
theorem writes_chunks (chunks : List Text) : (writes chunks).logged = ended '\n' chunks.flatten ∧
      (writes chunks).buffer = unended '\n' chunks.flatten ∧
      joinLines '\n' (writes chunks).logged ++ (writes chunks).buffer = chunks.flatten ∧
      (∀ line ∈ (writes chunks).logged, '\n' ∉ line) ∧ '\n' ∉ (writes chunks).buffer ∧
      ∀ others : List Text, others.flatten = chunks.flatten → writes others = writes chunks := by
  rw [writes_eq chunks]
  refine ⟨rfl, rfl, joinLines_ended _ _, sep_notMem_ended _, sep_notMem_unended _, ?_⟩
  intro others h
  rw [writes_eq, h]

example : writes ["a\nb".toList, [], "\n\nc".toList] =
    { logged := ["a".toList, "b".toList, []], buffer := "c".toList } := by
  decide

end LogStream

end ZbkcTasks
