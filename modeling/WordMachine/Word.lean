import WordMachine.Text.Basic

/-! Machine words. A word up to 32767 is a literal, the next eight name registers,
and the rest name nothing. -/
namespace WordMachine

abbrev Word := UInt16

/-- One more than the largest literal, and the modulus of the arithmetic. -/
def wordModulus : Nat := 32768

def memorySize : Nat := 32768

def registerCount : Nat := 8

namespace Word

def max : Word := 0x7FFF

def registerBase : Word := 0x8000

def isLiteral (word : Word) : Bool := word ≤ max

def register? (word : Word) : Option (Fin 8) :=
  if named : 0x8000 ≤ word.toNat ∧ word.toNat < 0x8008 then
    some ⟨word.toNat - 0x8000, by omega⟩
  else none

def isValid (word : Word) : Bool := word < 0x8008

/-- The word that names a register; numbers without a register wrap around. -/
def ofRegister (number : Int) : Word := registerBase + UInt16.ofInt number

def text (word : Word) : Text :=
  match word.register? with
  | some register => ("r" : Text) ++ Text.ofNat register.val
  | none => Text.ofNat word.toNat

def ofBool (condition : Bool) : Word := if condition then 1 else 0

end Word

/-- The names that every program may use, with their values. -/
def machineDefines : List (Text × Text) :=
  [("WORD_MAX", Text.ofNat Word.max.toNat),
   ("MEMORY_SIZE", Text.ofNat memorySize),
   ("REGISTER_BASE", Text.ofNat Word.registerBase.toNat)]

end WordMachine
