import WordMachine.Word

/-! The instruction set: the number, mnemonic and operand classes of every
operation. The machine and the assembler both read this table. -/
namespace WordMachine

inductive Opcode where
  | halt | set | push | pop | eq | gt | jmp | jt | jf | add | mult | mod | and | or | not
  | rmem | wmem | call | ret | output | input | noop
  deriving DecidableEq

/-- How an operand word is used. -/
inductive OperandClass where
  /-- A literal or a register that is read. -/
  | value
  /-- A register that is written. -/
  | register
  /-- A register or a memory address that is written. -/
  | target
  deriving DecidableEq

namespace Opcode

def all : List Opcode :=
  [.halt, .set, .push, .pop, .eq, .gt, .jmp, .jt, .jf, .add, .mult, .mod, .and, .or, .not,
   .rmem, .wmem, .call, .ret, .output, .input, .noop]

def number : Opcode → Nat
  | .halt => 0
  | .set => 1
  | .push => 2
  | .pop => 3
  | .eq => 4
  | .gt => 5
  | .jmp => 6
  | .jt => 7
  | .jf => 8
  | .add => 9
  | .mult => 10
  | .mod => 11
  | .and => 12
  | .or => 13
  | .not => 14
  | .rmem => 15
  | .wmem => 16
  | .call => 17
  | .ret => 18
  | .output => 19
  | .input => 20
  | .noop => 21

def word (opcode : Opcode) : Word := opcode.number.toUInt16

def mnemonic : Opcode → Text
  | .halt => "halt"
  | .set => "set"
  | .push => "push"
  | .pop => "pop"
  | .eq => "eq"
  | .gt => "gt"
  | .jmp => "jmp"
  | .jt => "jt"
  | .jf => "jf"
  | .add => "add"
  | .mult => "mult"
  | .mod => "mod"
  | .and => "and"
  | .or => "or"
  | .not => "not"
  | .rmem => "rmem"
  | .wmem => "wmem"
  | .call => "call"
  | .ret => "ret"
  | .output => "out"
  | .input => "in"
  | .noop => "noop"

/-- The operand classes in the order in which the operands are fetched. -/
def operands : Opcode → List OperandClass
  | .halt | .ret | .noop => []
  | .push | .jmp | .call | .output => [.value]
  | .pop => [.register]
  | .input => [.target]
  | .set | .not | .rmem => [.register, .value]
  | .jt | .jf | .wmem => [.value, .value]
  | .eq | .gt | .add | .mult | .mod | .and | .or => [.register, .value, .value]

def width (opcode : Opcode) : Nat := 1 + opcode.operands.length

/-- The operation of a number, which may have any size and sign. -/
def ofNumber? (number : Int) : Option Opcode :=
  if 0 ≤ number then all[number.toNat]? else none

def ofWord? (word : Word) : Option Opcode := all[word.toNat]?

def ofMnemonic? (text : Text) : Option Opcode := all.find? (·.mnemonic == text)

/-- The mnemonic of a number, or a description of a number without an operation. -/
def nameOf (number : Int) : Text :=
  match ofNumber? number with
  | some opcode => opcode.mnemonic
  | none => ("Op(" : Text) ++ Text.ofInt number ++ (")" : Text)

def operandsOf (number : Int) : List OperandClass :=
  ((ofNumber? number).map operands).getD []

end Opcode
end WordMachine
