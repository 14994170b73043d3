import WordMachine.Assembly.Assemble
import WordMachine.Command.Options
import WordMachine.Emulator

/-! The command: it gets a program from an image or a source, and saves it or runs it.
All it reads and leaves behind is on a desk. -/
namespace WordMachine.Command

def commandName : Text := "synacor"

/-- What a command works with: the files by name, which names can be created, standard input
with its raw mode if it is a terminal, where standard output goes, and what went to the log. -/
structure Desk where
  files : Table (List UInt8) := .empty
  creatable : Text → Bool := fun _ => true
  input : Input := { remaining := [] }
  terminal : Option RawMode := none
  outlet : Sink := {}
  log : Text := []

def Desk.output (desk : Desk) : List UInt8 := desk.outlet.taken.toList

/-- Work on a desk. It may end early with an exit status. -/
abbrev Job := EStateM Nat Desk

namespace Job

def report (text : Text) : Job Unit :=
  modify fun desk => { desk with log := desk.log ++ text }

def say (line : Text) : Job Unit := report (Text.terminated line)

/-- Ends the job with a last line, about `subject`, and status 1. -/
def fail {α : Type} (subject problem : Text) : Job α := do
  say (subject ++ (": " : Text) ++ problem)
  throw 1

private def notOpened (name : Text) : Text :=
  ("open " : Text) ++ name ++ (": no such file or directory" : Text)

def openFile (name : Text) : Job (List UInt8) := do
  match (← get).files.find? name with
  | some content => return content
  | none => fail name (notOpened name)

/-- Makes a file that is empty so far, on behalf of `subject`. -/
def createFile (subject name : Text) : Job Unit := do
  if (← get).creatable name then
    modify fun desk => { desk with files := desk.files.insert name [] }
  else fail subject (notOpened name)

def writeFile (name : Text) (content : List UInt8) : Job Unit :=
  modify fun desk =>
    let previous := (desk.files.find? name).getD []
    { desk with files := desk.files.insert name (content ++ previous.drop content.length) }

end Job

open Job

section program

variable (evaluate : Expression.Evaluator) (depth : Nat)

def assembleFile (options : Options) : Job Program := do
  let source ← openFile options.source
  let assembler : Assembler := { verbose := options.verbose, predefines := options.predefines }
  let (result, assembler) := assembler.parse evaluate depth source
  report (assembler.state.log.toList.flatMap Text.terminated)
  match result with
  | .ok program => return program
  | .error error => fail options.source error.text

def readImage (options : Options) : Job Program := do
  let bytes ← openFile options.image
  match Program.read {} bytes .endOfFile with
  | (_, none, program) => return program
  | (_, some error, _) => fail options.image error.text

/-- Gets the program of an image or of a source, of which there has to be one. -/
def getProgram (options : Options) : Job Program := do
  if options.image.isEmpty = options.source.isEmpty then
    fail commandName "exactly one of -b or -c is required"
  else if options.image.isEmpty then assembleFile evaluate depth options
  else readImage options

end program

def saveImage (name : Text) (program : Program) : Job Unit := do
  createFile name name
  let (_, failure, sink) := program.write {}
  writeFile name sink.taken.toList
  match failure with
  | some error => fail name error.text
  | none => throw 0

/-- Finds the input, and its raw mode if it is a terminal and to be used by the byte. -/
def findInput (options : Options) : Job (Option RawMode) := do
  if options.input = streamName then
    if options.byLine then return none
    match (← get).terminal with
    | some raw => return some raw
    | none =>
      if options.verbose then say "raw input disabled: /dev/stdin: not a terminal"
      return none
  else
    discard (openFile options.input)
    return none

/-- The input. A file is read only when the files to write exist, and one of these may be
the input. -/
def inputDevice (options : Options) : Job Input := do
  if options.input = streamName then return (← get).input
  else return { remaining := ← openFile options.input }

/-- Where output goes. A file takes all of it. -/
def outputSink (options : Options) : Job Sink := do
  if options.output = streamName then return (← get).outlet else return {}

/-- How many bytes of output are kept before they are delivered. -/
def outputBuffer : Nat := 4096

def emulatorFor (options : Options) (program : Program) (input : Input) (raw : Option RawMode)
    (sink : Sink) : Emulator :=
  { verbose := options.verbose
    peekWords := options.peekWords
    program := program
    machine :=
      { probe := { tracing := !options.trace.isEmpty }
        console := some
          { input := some input
            output := some { sink := sink, buffer := some { size := outputBuffer } }
            raw := raw } } }

/-- Prepares a run. Files are created in a fixed order, and stay if a later step fails. -/
def prepare (evaluate : Expression.Evaluator) (depth : Nat) (options : Options)
    (extra : List Text) : Job Emulator := do
  if !extra.isEmpty then
    fail commandName (("Unknown arguments: " : Text) ++ Text.bracketed extra)
  let program ← getProgram evaluate depth options
  if !options.save.isEmpty then saveImage options.save program
  let raw ← findInput options
  if options.output ≠ streamName then createFile options.output options.output
  if !options.trace.isEmpty then createFile commandName options.trace
  let input ← inputDevice options
  match Emulator.reset (emulatorFor options program input raw (← outputSink options)) with
  | .ok () emulator => return emulator
  | .error error _ => fail commandName error.text

/-- Puts the output, the trace and the log of a run on the desk. -/
def collect (options : Options) (emulator : Emulator) : Job Unit := do
  let events := emulator.machine.probe.events.toList
  if options.output = streamName then modify fun desk => { desk with outlet := emulator.sink }
  else writeFile options.output emulator.delivered
  if !options.trace.isEmpty then writeFile options.trace (Event.traceText events)
  report (Event.logText events)

/-- Ends the job of a run with its outcome. A peek at words that cannot be shown stops the
command with status 2. -/
def finish (options : Options) (outcome : Outcome) (failure : Option Error)
    (emulator : Emulator) : Job Unit := do
  collect options emulator
  match failure with
  | some (.sliceBounds last) =>
    say (("panic: " : Text) ++ (Error.sliceBounds last).text)
    throw 2
  | some error => fail commandName error.text
  | none =>
    if options.verbose then
      say (outcome.text ++ (" after " : Text) ++ Text.ofNat emulator.machine.ticks
        ++ (" instructions" : Text))

def explain : Job Unit :=
  report (("Usage of " : Text) ++ commandName ++ (":\n" : Text) ++ Flag.all.flatMap Flag.usage)

/-- Does what a command line asks for. A run takes at most `limit` instructions. -/
def perform (evaluate : Expression.Evaluator) (depth limit : Nat) : Request → Job Unit
  | .help => explain
  | .misuse => throw 2
  | .job options extra => do
    let (outcome, failure, emulator) := (← prepare evaluate depth options extra).run limit
    finish options outcome failure emulator

/-- The exit status of a job, and the desk that it leaves. -/
def statusOf (job : Job Unit) (desk : Desk) : Nat × Desk :=
  match job desk with
  | .ok () desk => (0, desk)
  | .error status desk => (status, desk)

def run (evaluate : Expression.Evaluator) (depth limit : Nat) (words : List Text) (desk : Desk) :
    Nat × Desk :=
  statusOf (perform evaluate depth limit (Request.parse words)) desk

end WordMachine.Command
