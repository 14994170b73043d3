import WordMachine.Program
import WordMachine.Table

/-! What an assembler knows while it reads a source. -/
namespace WordMachine.Assembly

/-- A macro: the number of its first body line, its parameters and its body. -/
structure MacroDef where
  line : Nat
  parameters : List Text
  body : Array Text := #[]
  deriving DecidableEq

/-- A word of a statement that waits for the address of a label. -/
structure Link where
  statement : Nat
  index : Nat
  label : Text
  deriving DecidableEq

structure State where
  labels : Table Word := .empty
  equates : Table Text := .empty
  macros : Table MacroDef := .empty
  statements : Array Statement := #[]
  links : Array Link := #[]
  verbose : Bool := false
  log : Array Text := #[]
  deriving DecidableEq

/-- Work on a source. What was recorded before a failure stays recorded. -/
abbrev Assemble := EStateM Error State

/-- The name of the equate that holds the number of the current line. -/
def lineName : Text := "LINENO"

/-- The name of the equate that holds the current address. -/
def hereName : Text := "HERE"

namespace State

def here (state : State) : Word :=
  match state.statements.back? with
  | some statement => statement.addr + statement.words.length.toUInt16
  | none => 0

/-- The state before the first line of a source. -/
def start (predefines : Table Text) (verbose : Bool) : State :=
  { equates := Table.merge
      [machineDefines, [(lineName, ("0" : Text)), (hereName, ("0" : Text))], predefines.entries]
    verbose := verbose }

def note (state : State) (line : Text) : State :=
  if state.verbose then { state with log := state.log.push line } else state

end State
end WordMachine.Assembly
