import WordMachine.Error

/-! How a run ends. -/
namespace WordMachine

inductive Outcome where
  | running
  | halt
  | underflow
  | endOfInput
  deriving DecidableEq

namespace Outcome

def all : List Outcome := [.running, .halt, .underflow, .endOfInput]

def number : Outcome → Nat
  | .running => 0
  | .halt => 1
  | .underflow => 2
  | .endOfInput => 3

def text : Outcome → Text
  | .running => "running"
  | .halt => "halt"
  | .underflow => "stack underflow"
  | .endOfInput => "end of input"

/-- The text of an outcome's number; a number without an outcome is shown as it is. -/
def textOf (number : Int) : Text :=
  match all.find? fun outcome => (outcome.number : Int) = number with
  | some outcome => outcome.text
  | none => ("Outcome(" : Text) ++ Text.ofInt number ++ (")" : Text)

/-- The outcome that a failed instruction leads to. Other failures are fatal and lead
to none. -/
def ofError? (error : Error) : Option Outcome :=
  match error.root with
  | .plain .halted => some .halt
  | .plain .stackEmpty => some .underflow
  | .endOfFile => some .endOfInput
  | _ => none

end Outcome
end WordMachine
