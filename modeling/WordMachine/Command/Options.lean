import WordMachine.Table
import WordMachine.Text.Numeral

/-! The options of the command line. A flag is a word with one or two dashes before its
name. Its value follows after an equals sign or, unless the flag is a switch, as the
next word. -/
namespace WordMachine.Command

/-- The name that stands for standard input or standard output. -/
def streamName : Text := "-"

structure Options where
  /-- The image to run. -/
  image : Text := []
  /-- The source to assemble. -/
  source : Text := []
  /-- Where the image is saved, instead of a run. -/
  save : Text := []
  input : Text := streamName
  output : Text := streamName
  trace : Text := []
  peekWords : Int64 := 0
  verbose : Bool := false
  /-- Whether terminal input stays line by line. -/
  byLine : Bool := false
  predefines : Table Text := .empty
  deriving DecidableEq

inductive Flag where
  | predefine
  | image
  | source
  | input
  | byLine
  | output
  | peek
  | save
  | trace
  | verbose
  deriving DecidableEq

namespace Flag

def all : List Flag :=
  [.predefine, .image, .source, .input, .byLine, .output, .peek, .save, .trace, .verbose]

def name : Flag → Text
  | .predefine => "D"
  | .image => "b"
  | .source => "c"
  | .input => "i"
  | .byLine => "noraw"
  | .output => "o"
  | .peek => "peek"
  | .save => "s"
  | .trace => "t"
  | .verbose => "v"

def isSwitch : Flag → Bool
  | .byLine | .verbose => true
  | _ => false

def ofName? (name : Text) : Option Flag := all.find? fun flag => flag.name = name

def usage : Flag → Text
  | .predefine => "  -D NAME=VALUE\n    \tAssembler predefine NAME=VALUE (repeatable)\n"
  | .image => "  -b string\n    \tBinary program image to run\n"
  | .source => "  -c string\n    \tAssembly file to compile\n"
  | .input => "  -i string\n    \tConsole input (default \"-\")\n"
  | .byLine => "  -noraw\n    \tDisable raw terminal input\n"
  | .output => "  -o string\n    \tConsole output (default \"-\")\n"
  | .peek => "  -peek int\n    \tWords to peek before each instruction when tracing\n"
  | .save => "  -s string\n    \tSave the program image to this file, do not execute\n"
  | .trace => "  -t string\n    \tWrite an instruction trace to this file\n"
  | .verbose => "  -v\tVerbose mode\n"

end Flag

/-- The truth values that a switch takes. -/
def truth? (text : Text) : Option Bool :=
  if [("1" : Text), "t", "T", "TRUE", "true", "True"].contains text then some true
  else if [("0" : Text), "f", "F", "FALSE", "false", "False"].contains text then some false
  else none

/-- The name and the value of a predefine, divided at the first equals sign. -/
def definition? (text : Text) : Option (Text × Text) :=
  let name := text.before Byte.equals
  match text.drop name.length with
  | [] => none
  | _ :: value => if name.isEmpty then none else some (name, value)

namespace Options

/-- The options with a flag set to a value, if the value is one for the flag. -/
def set (options : Options) (value : Text) : Flag → Option Options
  | .image => some { options with image := value }
  | .source => some { options with source := value }
  | .save => some { options with save := value }
  | .input => some { options with input := value }
  | .output => some { options with output := value }
  | .trace => some { options with trace := value }
  | .peek =>
    (Text.integer? 64 value).map fun count => { options with peekWords := Int64.ofInt count }
  | .verbose => (truth? value).map fun on => { options with verbose := on }
  | .byLine => (truth? value).map fun on => { options with byLine := on }
  | .predefine =>
    (definition? value).map fun (name, value) =>
      { options with predefines := options.predefines.insert name value }

end Options

/-- What a word of the command line is by its form. -/
inductive Form where
  | plain
  | terminator
  | malformed
  | flag (name : Text) (value : Option Text)
  deriving DecidableEq

namespace Form

/-- The form of a flag without its dashes. -/
def named : Text → Form
  | [] => .malformed
  | head :: rest =>
    if head = Byte.minus || head = Byte.equals then .malformed
    else
      let name := Text.before Byte.equals rest
      match rest.drop name.length with
      | [] => .flag (head :: name) none
      | _ :: value => .flag (head :: name) (some value)

def ofWord : Text → Form
  | dash :: next :: rest =>
    if dash ≠ Byte.minus then .plain
    else if next ≠ Byte.minus then named (next :: rest)
    else if rest.isEmpty then .terminator
    else named rest
  | _ => .plain

end Form

inductive Request where
  | help
  | misuse
  | job (options : Options) (extra : List Text)
  deriving DecidableEq

namespace Request

/-- What a flag asks for that is not among the flags. -/
def unknown (name : Text) : Request :=
  if name = ("help" : Text) || name = ("h" : Text) then .help else .misuse

/-- Reads words after the options that are already read. -/
def parseFrom (options : Options) : List Text → Request
  | [] => .job options []
  | word :: rest =>
    match Form.ofWord word with
    | .plain => .job options (word :: rest)
    | .terminator => .job options rest
    | .malformed => .misuse
    | .flag name value =>
      match Flag.ofName? name, value, rest with
      | none, _, _ => unknown name
      | some flag, some value, rest =>
        match options.set value flag with
        | some options => parseFrom options rest
        | none => .misuse
      | some flag, none, rest =>
        if flag.isSwitch then
          match options.set "true" flag with
          | some options => parseFrom options rest
          | none => .misuse
        else
          match rest with
          | [] => .misuse
          | value :: rest =>
            match options.set value flag with
            | some options => parseFrom options rest
            | none => .misuse

/-- Reads the words of a command line. The first word that is no flag ends the flags, and
so does a lone pair of dashes, which is dropped. -/
def parse (words : List Text) : Request := parseFrom {} words

end Request
end WordMachine.Command
