import WordMachine.Assembly.State
import WordMachine.Text.Numeral

/-! Operands: registers, labels and numbers. -/
namespace WordMachine.Assembly

def startsName (b : UInt8) : Bool :=
  Byte.isLetter b || b = Byte.underscore || b = Byte.dot || b = Byte.atSign

/-- Whether a text can name a label: letters, digits, and the signs `_`, `.` and `@`,
the first no digit. -/
def isName : Text → Bool
  | [] => false
  | b :: rest => startsName b && rest.all fun c => startsName c || Byte.isDigit c

def register? : Text → Option Word
  | [r, digit] =>
    if r = 0x72 && 0x30 ≤ digit && digit ≤ 0x37 then
      some (Word.ofRegister ((digit.toNat - 0x30 : Nat) : Int))
    else none
  | _ => none

/-- The word of an integer: a negative one counts from 32768 down. -/
def wordOfInteger (n : Int) : Except Error Word :=
  if -(wordModulus : Int) ≤ n ∧ n < 0 then .ok (UInt16.ofInt (wordModulus + n))
  else if 0 ≤ n ∧ n ≤ 0xFFFF then .ok (UInt16.ofInt n)
  else .error (.plain .valueRange)

def numberWord (text : Text) : Except Error Word :=
  match Text.integer? 32 text with
  | some n => wordOfInteger n
  | none => .error (.notNumber text)

/-- The word of a number. A tilde before it inverts the fifteen value bits. -/
def valueOf : Text → Except Error Word
  | b :: c :: rest =>
    if b = Byte.tilde then
      (numberWord (c :: rest)).map fun word => ~~~word &&& Word.max
    else numberWord (b :: c :: rest)
  | text => numberWord text

/-- What an operand stands for: a word, or a label whose address is not yet known. -/
inductive Operand where
  | word (value : Word)
  | label (name : Text)
  deriving DecidableEq

namespace Operand

/-- The word that is emitted, 0 as long as the label is not known. -/
def emitted : Operand → Word
  | .word value => value
  | .label _ => 0

def label? : Operand → Option Text
  | .word _ => none
  | .label name => some name

end Operand

/-- Reads an operand. Registers come before labels, and labels before numbers. -/
def operandOf (labels : Table Word) (text : Text) : Except Error Operand :=
  match register? text with
  | some word => .ok (.word word)
  | none =>
    match labels.find? text with
    | some addr => .ok (.word addr)
    | none =>
      if isName text then .ok (.label text)
      else
        match valueOf text with
        | .ok word => .ok (.word word)
        | .error (.plain .valueRange) => .error (.plain .valueRange)
        | .error _ => .error (.notValue text)

/-- Checks an operand against its class. A label stands for an address, so it is a value
and a target but no register. -/
def checkOperand : OperandClass → Operand → Except Error Operand
  | .value, .word word =>
    if word.isValid then .ok (.word word) else .error (.plain .valueRange)
  | .register, .word word =>
    if word.register?.isSome then .ok (.word word) else .error (.plain .invalidTarget)
  | .target, .word word =>
    if word.register?.isSome || word.isLiteral then .ok (.word word)
    else .error (.plain .invalidTarget)
  | .register, .label _ => .error (.plain .invalidTarget)
  | _, .label name => .ok (.label name)

/-- The operands of an instruction, each checked before the next is read. -/
def operandsFrom (labels : Table Word) (done : List Operand) :
    List OperandClass → List Text → Except Error (List Operand)
  | [], _ | _ :: _, [] => .ok done.reverse
  | kind :: kinds, text :: texts =>
    match operandOf labels text with
    | .error error => .error error
    | .ok operand =>
      match checkOperand kind operand with
      | .error error => .error error
      | .ok operand => operandsFrom labels (operand :: done) kinds texts

/-- The operands of a data directive, which may be any words. -/
def dataFrom (labels : Table Word) (done : List Operand) :
    List Text → Except Error (List Operand)
  | [] => .ok done.reverse
  | text :: texts =>
    match operandOf labels text with
    | .error error => .error error
    | .ok operand => dataFrom labels (operand :: done) texts

/-- The words of a data directive or an instruction. The number of operands is checked
before the operands. -/
def encodeFields (labels : Table Word) : List Text → Except Error (List Operand)
  | [] => .ok []
  | head :: arguments =>
    if head = (".data" : Text) || head = (".string" : Text) then dataFrom labels [] arguments
    else
      match Opcode.ofMnemonic? head with
      | none => .error (.plain .unknownOpcode)
      | some opcode =>
        if opcode.operands.length < arguments.length then .error (.plain .extraArguments)
        else if arguments.length < opcode.operands.length then .error (.plain .valueMissing)
        else operandsFrom labels [.word opcode.word] opcode.operands arguments

end WordMachine.Assembly
