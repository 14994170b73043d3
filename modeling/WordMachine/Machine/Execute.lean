import WordMachine.Machine.Operand

/-! The meaning of every operation, and the execution of one instruction. -/
namespace WordMachine

namespace Word

/-- The sum modulo 32768, computed in 32 bits. -/
def add (b c : Word) : Word := ((b.toUInt32 + c.toUInt32) % wordModulus.toUInt32).toUInt16

/-- The product modulo 32768, computed in 32 bits. -/
def multiply (b c : Word) : Word := ((b.toUInt32 * c.toUInt32) % wordModulus.toUInt32).toUInt16

/-- The fifteen value bits inverted. -/
def complement (b : Word) : Word := ~~~b &&& max

end Word

namespace Machine

def unary (result : Word → Word) : Step Unit := do
  let register ← fetchRegister
  let b ← fetchValue
  setRegister register (result b)

def binary (result : Word → Word → Word) : Step Unit := do
  let register ← fetchRegister
  let b ← fetchValue
  let c ← fetchValue
  setRegister register (result b c)

/-- Jumps to the second value if the first one says so. -/
def branch (taken : Word → Bool) : Step Unit := do
  let a ← fetchValue
  let b ← fetchValue
  if taken a then jump b

def remainder : Step Unit := do
  let register ← fetchRegister
  let b ← fetchValue
  let c ← fetchValue
  if c = 0 then throw (.plain .divideByZero)
  setRegister register (b % c)

def readMemory : Step Unit := do
  let register ← fetchRegister
  let addr ← fetchAddress
  setRegister register ((← get).memory.get addr)

def writeMemory : Step Unit := do
  let addr ← fetchAddress
  let value ← fetchValue
  setMemory addr value

/-- The return address is that of the word after the operand. -/
def callAddress : Step Unit := do
  let next := (← get).pc + 1
  let addr ← fetchValue
  pushWord next
  jump addr

def popRegister : Step Unit := do
  let register ← fetchRegister
  setRegister register (← popWord)

def writeOutput : Step Unit := do
  let a ← fetchValue
  onConsole (Console.writeByte a.toUInt8)

/-- The byte is read before its target is fetched. -/
def readInput : Step Unit := do
  let byte ← onConsole Console.readByte
  let addr := (← get).pc
  let raw ← fetch
  match raw.register? with
  | some register => setRegister register byte.toUInt16
  | none =>
    if inside : raw.toNat < memorySize then setMemory ⟨raw.toNat, inside⟩ byte.toUInt16
    else throw (.operand addr raw (.plain .invalidInstruction))

/-- Executes an operation whose own word is already fetched. -/
def perform : Opcode → Step Unit
  | .halt => throw (.plain .halted)
  | .set => unary id
  | .push => do pushWord (← fetchValue)
  | .pop => popRegister
  | .eq => binary fun b c => Word.ofBool (b == c)
  | .gt => binary fun b c => Word.ofBool (b > c)
  | .jmp => do jump (← fetchValue)
  | .jt => branch (· != 0)
  | .jf => branch (· == 0)
  | .add => binary Word.add
  | .mult => binary Word.multiply
  | .mod => remainder
  | .and => binary (· &&& ·)
  | .or => binary (· ||| ·)
  | .not => unary Word.complement
  | .rmem => readMemory
  | .wmem => writeMemory
  | .call => callAddress
  | .ret => do jump (← popWord)
  | .output => writeOutput
  | .input => readInput
  | .noop => pure ()

/-- Executes an operation and marks a failure with its address. A halt is no failure of
the instruction and keeps no mark. -/
def executeOpcode (addr : Word) (opcode : Opcode) : Step Unit := fun machine =>
  let machine := { machine with probe := machine.probe.log (.executing addr opcode) }
  match perform opcode machine with
  | .ok () machine => .ok () machine
  | .error error machine =>
    if error = .plain .halted then .error error machine
    else .error (.execute addr opcode.number error) machine

/-- Executes the operation of a number whose word, at `addr`, is already fetched. -/
def execute (addr : Word) (number : Int) : Step Unit :=
  match Opcode.ofNumber? number with
  | some opcode => executeOpcode addr opcode
  | none => throw (.opcode addr (UInt16.ofInt number))

def tick : Step Unit := do
  let addr := (← get).pc
  let raw ← fetch
  match Opcode.ofWord? raw with
  | none => throw (.opcode addr raw)
  | some opcode =>
    modify fun machine => { machine with ticks := machine.ticks + 1 }
    executeOpcode addr opcode

/-- Ticks after `calls` ticks that were already begun. -/
def tickFrom (calls : Nat) : Nat → Machine → Nat × Option Error × Machine
  | 0, machine => (calls, none, machine)
  | limit + 1, machine =>
    match tick machine with
    | .ok () machine => tickFrom (calls + 1) limit machine
    | .error error machine => (calls + 1, some error, machine)

/-- Ticks until a failure, at most `limit` times. The result is the number of ticks
that were begun, and the failure. -/
def tickUpTo (limit : Nat) (machine : Machine) : Nat × Option Error × Machine :=
  tickFrom 0 limit machine

end Machine
end WordMachine
