import WordMachine.Message
import WordMachine.Opcode

/-! Failures of the machine, the assembler, the console and a run. An error is a
plain condition, or a layer that says where its cause arose. -/
namespace WordMachine

/-- Conditions that need no further data. -/
inductive Condition where
  | doesNotFit
  | invalidInstruction
  | invalidRegister
  | undefinedOpcode
  | stackEmpty
  | outsideMemory
  | divideByZero
  | consoleMissing
  | halted
  | equateForm
  | equateRepeated
  | labelRepeated
  | labelForm
  | stringForm
  | extraArguments
  | valueMissing
  | unknownOpcode
  | invalidTarget
  | valueRange
  | macroForm
  | macroNested
  | macroRepeated
  | macroUnclosed
  | macroUnopened
  | noInput
  | noOutput
  | notTerminal
  deriving DecidableEq

namespace Condition

def text : Condition → Text
  | .doesNotFit => "program does not fit in memory"
  | .invalidInstruction => "invalid instruction"
  | .invalidRegister => "invalid register address"
  | .undefinedOpcode => "undefined opcode"
  | .stackEmpty => "stack empty"
  | .outsideMemory => "address outside memory"
  | .divideByZero => "divide by zero"
  | .consoleMissing => "no console attached"
  | .halted => "halt"
  | .equateForm => ".equ syntax"
  | .equateRepeated => ".equ duplicated"
  | .labelRepeated => "label duplicated"
  | .labelForm => "label syntax"
  | .stringForm => ".string syntax"
  | .extraArguments => "excessive arguments"
  | .valueMissing => "value missing"
  | .unknownOpcode => "opcode invalid"
  | .invalidTarget => "target invalid"
  | .valueRange => "value out of range"
  | .macroForm => ".macro syntax"
  | .macroNested => ".macro in .macro prohibited"
  | .macroRepeated => ".macro duplicated"
  | .macroUnclosed => ".macro without .endm"
  | .macroUnopened => ".endm without .macro"
  | .noInput => "console has no input"
  | .noOutput => "console has no output"
  | .notTerminal => "not a terminal"

end Condition

inductive Error where
  | plain (condition : Condition)
  /-- A program of this many words does not fit. -/
  | capacity (words : Int)
  /-- The word at an address is no operation. -/
  | opcode (addr raw : Word)
  /-- The operand word at an address could not be used. -/
  | operand (addr raw : Word) (cause : Error)
  /-- The instruction at an address failed. -/
  | execute (addr : Word) (operation : Int) (cause : Error)
  | labelMissing (name : Text)
  | notNumber (text : Text)
  | notValue (text : Text)
  | notExpression (text : Text)
  /-- A source line was rejected. -/
  | atLine (line : Int) (text : Text) (cause : Error)
  /-- A line of a macro's body was rejected. -/
  | inMacro (name : Text) (line : Int) (cause : Error)
  /-- A run failed at an address, and at a source line if it is not 0. -/
  | runtime (addr : Word) (line : Int) (cause : Error)
  | endOfFile
  /-- A device gave this reason. -/
  | device (reason : Text)
  | lineTooLong
  /-- An expression could not be evaluated. -/
  | evaluation
  /-- What was being done when the cause arose. -/
  | during (activity : Text) (cause : Error)
  /-- Macros call macros deeper than they may. -/
  | macroDepth (name : Text)
  /-- Memory was cut at an end that wrapped around. It stops whatever is being done, and no
  caller handles it. -/
  | sliceBounds (last : Int)
  deriving DecidableEq

namespace Error

def message : Error → Message
  | .plain condition => [.text condition.text]
  | .capacity words =>
    [.text Condition.doesNotFit.text, ": ", .number words, " words, capacity ", .number memorySize]
  | .opcode addr raw =>
    [.text Condition.undefinedOpcode.text, " ", .word raw.toNat, " at ", .word addr.toNat]
  | .operand addr raw cause => cause.message ++ ([" ", .word raw.toNat, " at ", .word addr.toNat] : Message)
  | .execute addr operation cause =>
    .text (Opcode.nameOf operation) :: " at " :: .word addr.toNat :: ": " :: cause.message
  | .labelMissing name => ["label ", .text name, " missing"]
  | .notNumber text => ["'", .text text, "' is not a number"]
  | .notValue text => ["'", .text text, "' is not a value or register"]
  | .notExpression text => ["$(", .text text, ") is not a valid expression"]
  | .atLine line text cause => "line " :: .number line :: " '" :: .text text :: "' " :: cause.message
  | .inMacro name line cause =>
    "macro " :: .text name :: " line " :: .number line :: " " :: cause.message
  | .runtime addr line cause =>
    if line = 0 then "address " :: .word addr.toNat :: " " :: cause.message
    else "line " :: .number line :: " (address " :: .word addr.toNat :: ") " :: cause.message
  | .endOfFile => ["EOF"]
  | .device reason => [.text reason]
  | .lineTooLong => ["bufio.Scanner: token too long"]
  | .evaluation => ["expression cannot be evaluated"]
  | .during activity cause => .text activity :: ": " :: cause.message
  | .macroDepth name => ["macro ", .text name, " calls macros too deep"]
  | .sliceBounds last =>
    ["runtime error: slice bounds out of range [:", .text (Text.ofInt last), "]"]

def textIn (language : Language) (error : Error) : Text :=
  Message.render language error.message

def text (error : Error) : Text := error.textIn .english

def layers : Error → List Error
  | .capacity words => [.capacity words, .plain .doesNotFit]
  | .opcode addr raw => [.opcode addr raw, .plain .undefinedOpcode]
  | .operand addr raw cause => .operand addr raw cause :: cause.layers
  | .execute addr operation cause => .execute addr operation cause :: cause.layers
  | .atLine line text cause => .atLine line text cause :: cause.layers
  | .inMacro name line cause => .inMacro name line cause :: cause.layers
  | .runtime addr line cause => .runtime addr line cause :: cause.layers
  | .during activity cause => .during activity cause :: cause.layers
  | error => [error]

def root : Error → Error
  | .capacity _ => .plain .doesNotFit
  | .opcode _ _ => .plain .undefinedOpcode
  | .operand _ _ cause => cause.root
  | .execute _ _ cause => cause.root
  | .atLine _ _ cause => cause.root
  | .inMacro _ _ cause => cause.root
  | .runtime _ _ cause => cause.root
  | .during _ cause => cause.root
  | error => error

end Error
end WordMachine
