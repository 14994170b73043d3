import WordMachine.Machine.Execute
import WordMachine.Outcome
import WordMachine.Program

/-! The emulator: a machine with a console that runs a program to an outcome. -/
namespace WordMachine

/-- A new emulator attaches its terminal to its machine as the console, and nothing detaches it.
So `machine.console` is also the terminal that a run holds in raw mode and flushes. -/
structure Emulator where
  verbose : Bool := false
  /-- How many words are shown before each instruction. -/
  peekWords : Int64 := 0
  program : Program := {}
  outcome : Outcome := .running
  machine : Machine := { console := some {} }

def usualPeekWords : Nat := 4

/-- The names that programs for the emulator may use, with their values. -/
def emulatorDefines : List (Text × Text) :=
  ("PEEK_WORDS", Text.ofNat usualPeekWords) :: machineDefines

namespace Emulator

/-- Work on an emulator. What was done before a failure stays done. -/
abbrev Work := EStateM Error Emulator

def onMachine {α : Type} (step : Machine.Step α) : Work α := fun emulator =>
  match emulator with
  | ⟨verbose, peekWords, program, outcome, machine⟩ =>
    match step machine with
    | .ok result machine => .ok result ⟨verbose, peekWords, program, outcome, machine⟩
    | .error error machine => .error error ⟨verbose, peekWords, program, outcome, machine⟩

/-- The source line of the instruction at the program counter, or 0. -/
def line (emulator : Emulator) : Nat := emulator.program.lineAt emulator.machine.pc

def observe (verbose : Bool) : Machine.Step Unit :=
  modify fun machine => { machine with probe := { machine.probe with verbose := verbose } }

def reset : Work Unit := do
  let verbose := (← get).verbose
  let words := (← get).program.words
  modify fun emulator => { emulator with outcome := .running }
  onMachine do
    observe verbose
    Machine.load words

/-- Gets a machine ready for an instruction, and shows the words in front of it. -/
def prepare (verbose : Bool) (peekWords : Int64) : Machine.Step Unit := do
  observe verbose
  if 0 < peekWords then discard (Machine.peek peekWords)

def remarkOn (verbose : Bool) (error : Error) (machine : Machine) : Option Text :=
  match Outcome.ofError? error with
  | some .underflow => some error.text
  | some .endOfInput => if verbose then some error.text else none
  | some _ => none
  | none => if verbose then some (error.text ++ [Byte.newline] ++ machine.describe) else none

def remark (text : Option Text) : Machine.Step Unit :=
  match text with
  | none => pure ()
  | some text =>
    modify fun machine => { machine with probe := machine.probe.record (.remark text) }

/-- Ends a run whose instruction at `addr` failed, or reports the failure as fatal. -/
def settle (addr : Word) (error : Error) : Work Bool := do
  let emulator ← get
  let text := remarkOn emulator.verbose error emulator.machine
  let line := emulator.program.lineAt addr
  onMachine (remark text)
  match Outcome.ofError? error with
  | some outcome =>
    modify fun emulator => { emulator with outcome := outcome }
    return true
  | none => throw (.runtime addr line error)

/-- Executes the instruction at the program counter, which is `addr`. Only a failure of the
instruction itself is settled; words that cannot be shown end the tick as it is. -/
@[noinline]
def tickAt (addr : Word) : Work Bool := fun emulator =>
  match onMachine (prepare emulator.verbose emulator.peekWords) emulator with
  | .error error emulator => .error error emulator
  | .ok () emulator =>
    match onMachine Machine.tick emulator with
    | .ok () emulator => .ok false emulator
    | .error error emulator => settle addr error emulator

/-- Executes one instruction unless the run has an outcome. The result is whether it
has one afterwards. -/
def tick : Work Bool := fun emulator =>
  if emulator.outcome ≠ .running then .ok true emulator
  else tickAt emulator.machine.pc emulator

/-- Ticks after `calls` ticks that were already begun. -/
def tickFrom (calls : Nat) : Nat → Emulator → Nat × Except Error Bool × Emulator
  | 0, emulator => (calls, .ok false, emulator)
  | limit + 1, emulator =>
    match tick emulator with
    | .ok true emulator => (calls + 1, .ok true, emulator)
    | .ok false emulator => tickFrom (calls + 1) limit emulator
    | .error error emulator => (calls + 1, .error error, emulator)

/-- Ticks until an outcome or a failure, at most `limit` times. The result is the number
of ticks that were begun, and whether there is an outcome. -/
def tickUpTo (limit : Nat) (emulator : Emulator) : Nat × Except Error Bool × Emulator :=
  tickFrom 0 limit emulator

def hold : Work (Option Nat) := onMachine (Machine.onConsole Console.hold)

def flush : Work Unit := onMachine (Machine.onConsole Console.flush)

def deliver (emulator : Emulator) : Option Error × Emulator :=
  match flush emulator with
  | .ok () emulator => (none, emulator)
  | .error error emulator => (some error, emulator)

def mapConsole (emulator : Emulator) (change : Console → Console) : Emulator :=
  { emulator with
    machine := { emulator.machine with console := emulator.machine.console.map change } }

/-- Ends a run: output is delivered, then the hold on raw mode is released. A failure to
deliver is reported unless the run itself failed. -/
def conclude (held : Option Nat) (result : Except Error Bool) (emulator : Emulator) :
    Outcome × Option Error × Emulator :=
  let (undelivered, emulator) := deliver emulator
  let emulator := emulator.mapConsole fun console => console.release held
  match result with
  | .ok _ => (emulator.outcome, undelivered, emulator)
  | .error error => (.running, some error, emulator)

/-- Runs to an outcome or a fatal error, for at most `limit` instructions; a run that
needs more is still running. -/
def run (limit : Nat) (emulator : Emulator) : Outcome × Option Error × Emulator :=
  match hold emulator with
  | .error error emulator => (.running, some error, emulator)
  | .ok held emulator =>
    let (_, result, emulator) := tickUpTo limit emulator
    conclude held result emulator

/-- Whether the next instruction reads and the input has no byte for it. -/
def awaitsInput (emulator : Emulator) : Bool :=
  emulator.outcome = .running
    && emulator.machine.memory[emulator.machine.pc.toNat]? = some Opcode.input.word
    && match emulator.machine.console with
      | some { input := some input, .. } => input.remaining.isEmpty
      | _ => false

def delivered (emulator : Emulator) : List UInt8 :=
  (emulator.machine.console.map Console.delivered).getD []

def sink (emulator : Emulator) : Sink :=
  ((emulator.machine.console.bind Console.output).map Output.sink).getD {}

end Emulator
end WordMachine
