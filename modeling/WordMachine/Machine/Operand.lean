import WordMachine.Machine.Basic

/-! Fetching words at the program counter, and resolving operands. -/
namespace WordMachine.Machine

/-- The word at the program counter, which moves on. -/
def fetch : Step Word := do
  let machine ← get
  let addr := machine.pc
  if inside : addr.toNat < memorySize then
    let raw := machine.memory[addr.toNat]
    set { machine with pc := addr + 1, probe := machine.probe.trace (.fetched addr raw) }
    return raw
  else throw (.operand addr 0 (.plain .outsideMemory))

/-- Fetches an operand that is read: a literal, or a register's content. -/
def fetchValue : Step Word := do
  let addr := (← get).pc
  let raw ← fetch
  if raw.isLiteral then return raw
  match raw.register? with
  | some register => return (← get).registers[register]
  | none => throw (.operand addr raw (.plain .invalidInstruction))

def fetchRegister : Step (Fin registerCount) := do
  let addr := (← get).pc
  let raw ← fetch
  match raw.register? with
  | some register => return register
  | none => throw (.operand addr raw (.plain .invalidRegister))

/-- Fetches an operand whose value is an address. A register may hold a word that is
none, so the value is checked. -/
def fetchAddress : Step (Fin memorySize) := do
  let addr := (← get).pc
  let value ← fetchValue
  if inside : value.toNat < memorySize then return ⟨value.toNat, inside⟩
  else throw (.operand addr value (.plain .outsideMemory))

def setRegister (register : Fin registerCount) (value : Word) : Step Unit :=
  modify fun machine => { machine with registers := machine.registers.set register value }

def setMemory (addr : Fin memorySize) (value : Word) : Step Unit :=
  modify fun machine => { machine with memory := machine.memory.set addr value }

def jump (addr : Word) : Step Unit :=
  modify fun machine => { machine with pc := addr }

def pushWord (word : Word) : Step Unit :=
  modify fun machine => { machine with stack := machine.stack.push word }

def popWord : Step Word := fun machine =>
  match machine.stack.pop? with
  | some (top, stack) => .ok top { machine with stack := stack }
  | none => .error (.plain .stackEmpty) machine

/-- Uses the console, which has to be attached. -/
def onConsole {α : Type} (action : Console.Use α) : Step α := fun machine =>
  match machine.console with
  | none => .error (.plain .consoleMissing) machine
  | some console =>
    match action console with
    | .ok result console => .ok result { machine with console := some console }
    | .error error console => .error error { machine with console := some console }

end WordMachine.Machine
