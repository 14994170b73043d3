import Mathlib.Data.List.Basic
import WordMachine.Text.Basic

/-! Texts of lines: lines that were each ended by a newline, or joined by newlines, are
what such a text is split into. -/
namespace WordMachine.Text

def unlines (lines : List Text) : Text := lines.flatMap fun line => line ++ [Byte.newline]

theorem linesFrom_line {line : Text} (single : Byte.newline ∉ line) (current : Text)
    (done : List Text) (rest : Text) :
    linesFrom current done (line ++ rest) = linesFrom (line.reverse ++ current) done rest := by
  induction line generalizing current with
  | nil => rfl
  | cons b line ih =>
    have other : b ≠ Byte.newline := fun same => single (same ▸ List.mem_cons_self)
    have later : Byte.newline ∉ line := fun member => single (List.mem_cons_of_mem b member)
    rw [List.cons_append,linesFrom,if_neg other,ih later]
    simp

theorem linesFrom_newline (current : Text) (done : List Text) (rest : Text) :
    linesFrom current done (Byte.newline :: rest) = linesFrom [] (current.reverse :: done) rest := by
  rw [linesFrom,if_pos rfl]

theorem linesFrom_unlines {lines : List Text} (single : ∀ line ∈ lines, Byte.newline ∉ line)
    (done : List Text) : linesFrom [] done (unlines lines) = done.reverse ++ lines := by
  induction lines generalizing done with
  | nil => simp [unlines,linesFrom]
  | cons line rest ih =>
    have later : ∀ line ∈ rest, Byte.newline ∉ line :=
      fun other member => single other (List.mem_cons_of_mem line member)
    have split : unlines (line :: rest) = line ++ Byte.newline :: unlines rest := by
      simp [unlines]
    rw [split,linesFrom_line (single line List.mem_cons_self),linesFrom_newline,ih later]
    simp

theorem linesFrom_joined {lines : List Text} (single : ∀ line ∈ lines, Byte.newline ∉ line)
    (given : ∀ line ∈ lines, line ≠ []) (done : List Text) :
    linesFrom [] done (joinWith [Byte.newline] lines) = done.reverse ++ lines := by
  induction lines generalizing done with
  | nil => simp [joinWith,linesFrom]
  | cons line rest ih =>
    have later : ∀ line ∈ rest, Byte.newline ∉ line :=
      fun other member => single other (List.mem_cons_of_mem line member)
    have given' : ∀ line ∈ rest, line ≠ [] :=
      fun other member => given other (List.mem_cons_of_mem line member)
    have read := linesFrom_line (single line List.mem_cons_self) [] done
    cases rest with
    | nil =>
      have whole : joinWith [Byte.newline] [line] = line ++ [] := by simp [joinWith]
      obtain ⟨b,before,begins⟩ := List.exists_cons_of_ne_nil
        (List.reverse_ne_nil_iff.mpr (given line List.mem_cons_self))
      rw [whole,read,List.append_nil,begins,linesFrom,← begins]
      · simp
      · simp
    | cons next rest =>
      have split : joinWith [Byte.newline] (line :: next :: rest) =
          line ++ Byte.newline :: joinWith [Byte.newline] (next :: rest) := by
        simp [joinWith,List.intercalate_cons_cons]
      rw [split,read,linesFrom_newline,ih later given']
      simp

end WordMachine.Text
