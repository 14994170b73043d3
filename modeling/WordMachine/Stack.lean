import WordMachine.Word

/-! The stack of push, pop, call and ret. It has no depth limit. -/
namespace WordMachine

/-- The entries with the top first. -/
structure Stack where
  entries : List Word
  deriving DecidableEq

namespace Stack

def empty : Stack := ⟨[]⟩

def push (stack : Stack) (word : Word) : Stack := ⟨word :: stack.entries⟩

def peek? (stack : Stack) : Option Word := stack.entries.head?

def pop? (stack : Stack) : Option (Word × Stack) :=
  match stack.entries with
  | [] => none
  | top :: rest => some (top, ⟨rest⟩)

def isEmpty (stack : Stack) : Bool := stack.entries.isEmpty

def depth (stack : Stack) : Nat := stack.entries.length

def toList (stack : Stack) : List Word := stack.entries.reverse

def ofList (entries : List Word) : Stack := ⟨entries.reverse⟩

end Stack
end WordMachine
