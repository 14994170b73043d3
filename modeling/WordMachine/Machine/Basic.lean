import WordMachine.Console
import WordMachine.Event
import WordMachine.Stack

/-! The machine: its state, loading a program, and looking at it. -/
namespace WordMachine

abbrev Memory := Vector Word memorySize

abbrev Registers := Vector Word registerCount

structure Machine where
  pc : Word := 0
  registers : Registers := Vector.replicate registerCount 0
  memory : Memory := Vector.replicate memorySize 0
  stack : Stack := .empty
  console : Option Console := none
  /-- Instructions executed since the last reset. -/
  ticks : Nat := 0
  probe : Probe := {}

namespace Machine

/-- Work on a machine. What was done before a failure stays done. -/
abbrev Step := EStateM Error Machine

/-- Clears everything that a program can change. -/
def reset (machine : Machine) : Machine :=
  { machine with
    pc := 0
    registers := Vector.replicate registerCount 0
    memory := Vector.replicate memorySize 0
    stack := .empty
    ticks := 0
    probe := machine.probe.log .reset }

/-- Memory cells written one after another from an address on, as far as memory reaches. -/
def fill (memory : Memory) : Nat → List Word → Memory
  | _, [] => memory
  | addr, word :: rest => fill (memory.setIfInBounds addr word) (addr + 1) rest

/-- Resets the machine and puts a program into memory. A program that does not fit
changes nothing. -/
def load (words : List Word) : Step Unit := do
  if memorySize < words.length then throw (.capacity words.length)
  modify fun machine =>
    let machine := machine.reset
    { machine with
      memory := fill machine.memory 0 words
      probe := machine.probe.log (.loaded words.length) }

/-- The first and the end address of the words that a peek shows. Addresses are
signed 64-bit integers, and a sum beyond them wraps around. -/
def peekRange (pc : Word) (count : Int64) : Int64 × Int64 :=
  let first := min (Int64.ofNat pc.toNat) (Int64.ofNat memorySize)
  (first, min (first + max count 0) (Int64.ofNat memorySize))

/-- The words that follow the program counter, at most `count` and never beyond memory.
A range that wrapped around cannot be cut out of memory. -/
def peek (count : Int64) : Step (List Word) := do
  let machine ← get
  let (first, last) := peekRange machine.pc count
  if last < first then throw (.sliceBounds last.toInt)
  let words := (machine.memory.toArray.extract first.toInt.toNat last.toInt.toNat).toList
  modify fun machine =>
    { machine with probe := machine.probe.trace (.peeked (UInt16.ofInt first.toInt) words) }
  return words

private def describeLine (name : Text) (content : Text) : Text :=
  Text.padLeft 5 Byte.space name ++ (": " : Text) ++ content ++ [Byte.newline]

private def describeStack (stack : Stack) : Text :=
  match stack.peek? with
  | some top =>
    Text.hex4 top.toNat ++ (" (depth " : Text) ++ Text.ofNat stack.depth ++ (")" : Text)
  | none => "----"

/-- The registers and the top of the stack, a line for each. -/
def describe (machine : Machine) : Text :=
  let registers := machine.registers.toList.zipIdx.flatMap fun (value, number) =>
    describeLine (("r" : Text) ++ Text.ofNat number) (Text.hex4 value.toNat)
  describeLine "pc" (Text.hex4 machine.pc.toNat) ++ registers
    ++ describeLine "stack" (describeStack machine.stack)

end Machine
end WordMachine
