import WordMachine.Machine.Execute
import WordMachine.Proofs.Machine.Fetch

/-! A reference interpreter in two phases. The first reads the operand words of an
instruction and resolves them all in the state before it; the second applies the
effect that the instruction table gives for those values. No fetch is interleaved with
a read or a write, and results are computed on numbers. -/
namespace WordMachine.Machine

/-- The word of an operand of the instruction at the program counter, the first being
operand 0. -/
def operandWord (machine : Machine) (index : Nat) : Word :=
  (machine.memory[machine.pc.toNat + 1 + index]?).getD 0

def operandValue (machine : Machine) (index : Nat) : Word :=
  valueIn machine.registers (machine.operandWord index)

def consoleUse? {α : Type} (machine : Machine) (action : Console.Use α) : Option (α × Console) :=
  machine.console.bind fun console =>
    match action console with
    | .ok result console => some (result, console)
    | .error _ _ => none

/-- The number that an operation writes to its register, from the values of its second
and third operand. -/
def operationResult (memory : Memory) : Opcode → Nat → Nat → Nat
  | .set, b, _ => b
  | .eq, b, c => if b = c then 1 else 0
  | .gt, b, c => if c < b then 1 else 0
  | .add, b, c => (b + c) % 32768
  | .mult, b, c => b * c % 32768
  | .mod, b, c => b % c
  | .and, b, c => b &&& c
  | .or, b, c => b ||| c
  | .not, b, _ => 32767 - b % 32768
  | .rmem, b, _ => ((memory[b]?).getD 0).toNat
  | _, _, _ => 0

/-- The machine after the instruction at the program counter. Everything on the right is
read from the machine before it. -/
def after (machine : Machine) (opcode : Opcode) : Machine :=
  let a := machine.operandValue 0
  let b := machine.operandValue 1
  let c := machine.operandValue 2
  let top := machine.stack.peek?.getD 0
  let rest : Stack := ⟨machine.stack.entries.tail⟩
  let done : Machine :=
    { machine with
      pc := (machine.pc.toNat + opcode.width).toUInt16
      ticks := machine.ticks + 1 }
  let assign (value : Word) : Registers :=
    machine.registers.set (registerOf (machine.operandWord 0)) value
  match opcode with
  | .halt | .noop => done
  | .push => { done with stack := machine.stack.push a }
  | .pop => { done with registers := assign top, stack := rest }
  | .jmp => { done with pc := a }
  | .jt => if a = 0 then done else { done with pc := b }
  | .jf => if a = 0 then { done with pc := b } else done
  | .wmem => { done with memory := machine.memory.setIfInBounds a.toNat b }
  | .call =>
    { done with stack := machine.stack.push (machine.pc.toNat + 2).toUInt16, pc := a }
  | .ret => { done with pc := top, stack := rest }
  | .output =>
    { done with console := (machine.consoleUse? (Console.writeByte a.toUInt8)).map Prod.snd }
  | .input =>
    let byte := (((machine.consoleUse? Console.readByte).map Prod.fst).getD 0).toUInt16
    let console := (machine.consoleUse? Console.readByte).map Prod.snd
    let target := machine.operandWord 0
    if target.toNat < 32768 then
      { done with memory := machine.memory.setIfInBounds target.toNat byte, console := console }
    else { done with registers := assign byte, console := console }
  | opcode =>
    { done with
      registers := assign (operationResult machine.memory opcode b.toNat c.toNat).toUInt16 }

def Enables (machine : Machine) : Opcode → Prop
  | .pop | .ret => machine.stack.isEmpty = false
  | .mod => machine.operandValue 2 ≠ 0
  | .rmem => (machine.operandValue 1).toNat < 32768
  | .wmem => (machine.operandValue 0).toNat < 32768
  | .output => (machine.consoleUse? (Console.writeByte (machine.operandValue 0).toUInt8)).isSome
  | .input => (machine.consoleUse? Console.readByte).isSome
  | _ => True

/-- The instruction at the program counter lies in memory and its operand words are of
the classes that the instruction table lists. -/
structure Decodes (machine : Machine) (opcode : Opcode) : Prop where
  fetched : machine.memory[machine.pc.toNat]? = some opcode.word
  inside : machine.pc.toNat + opcode.width ≤ memorySize
  admitted : ∀ (index : Nat) (kind : OperandClass), opcode.operands[index]? = some kind →
    kind.admits (machine.operandWord index)

structure Executable (machine : Machine) (opcode : Opcode) : Prop extends
    Decodes machine opcode where
  numbered : 1 ≤ opcode.number ∧ opcode.number ≤ 21
  enabled : machine.Enables opcode

/-- No more than one register, one cell of memory and one slot of the stack differ. -/
structure FewChanges (before after : Machine) : Prop where
  register : ∃ changed, ∀ other : Nat, other ≠ changed →
    after.registers[other]? = before.registers[other]?
  cell : ∃ changed, ∀ other : Nat, other ≠ changed → after.memory[other]? = before.memory[other]?
  slot : after.stack = before.stack ∨ (∃ word, after.stack = before.stack.push word) ∨
    ∃ word, before.stack = after.stack.push word

end WordMachine.Machine
